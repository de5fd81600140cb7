namespace ProjectMesh

inductive MeshError : Type
  | envelopeRejected (why : String)
  | malformed (why : String)
  | handshake (why : String)
  | ratchet (why : String)
  | crypto (why : String)
  | group (why : String)
  deriving DecidableEq

end ProjectMesh
