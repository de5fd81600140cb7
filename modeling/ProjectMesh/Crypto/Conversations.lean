import ProjectMesh.Crypto.Bootstrap
import ProjectMesh.Crypto.RatchetPairLaws

namespace ProjectMesh.Crypto.Ratchet.World

open ProjectMesh.Lib

variable {C : Suite}

def pair (a b : DoubleRatchet C) : World C where
  ratchet
    | .initiator => a
    | .responder => b
  sent _ := []
  delivered _ := ∅
  generated := [a.dhSelfPub, b.dhSelfPub]

section Coupled

variable {L : Ladder C} {top : Nat} {w : World C} {p : Party} {plaintext : List UInt8}

end Coupled

end ProjectMesh.Crypto.Ratchet.World

namespace ProjectMesh.Crypto

open ProjectMesh.Lib
open ProjectMesh.Crypto.Prekey
open ProjectMesh.Crypto.Pqxdh
open ProjectMesh.Crypto.Ratchet
open ProjectMesh.Crypto.FfiPrekey

variable {C : PrekeySuite} {owner sender : Identity C} {bundle : HybridBundle C}
  {pool : HybridPrekeyPool C} {result : HybridInitiatorResult C} {ephemeralSecret : C.Secret}
  {coins : Bytes 32}

end ProjectMesh.Crypto
