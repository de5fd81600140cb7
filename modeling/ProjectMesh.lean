import ProjectMesh.Crypto.RatchetErrors
import ProjectMesh.Crypto.SessionAuth
import ProjectMesh.Crypto.StaleBundle
import ProjectMesh.Crypto.BundleTamper
import ProjectMesh.Crypto.PoolRestarts
import ProjectMesh.Crypto.Healing
import ProjectMesh.Crypto.LostMessages
import ProjectMesh.Crypto.FailedEncrypt
import ProjectMesh.Crypto.SkipWork
import ProjectMesh.Crypto.SenderBinding
import ProjectMesh.Crypto.BundleEncoding
import ProjectMesh.Routing.RelayExpiry
import ProjectMesh.Routing.Network
import ProjectMesh.Routing.ContactMerge
import ProjectMesh.Routing.DtnDelivery
import ProjectMesh.Routing.WireFormat
import ProjectMesh.Routing.PriorityStore
import ProjectMesh.Routing.RelayOnce
import ProjectMesh.Routing.RateCap
import ProjectMesh.Routing.LiveLinks
import ProjectMesh.Routing.RelayedProofs
import ProjectMesh.Routing.StoppedStore
import ProjectMesh.Routing.Restart
import ProjectMesh.Routing.ReopenDeletes
import ProjectMesh.Routing.AtRest
import ProjectMesh.Routing.NodeSends
import ProjectMesh.Routing.SummaryBloom
import ProjectMesh.Routing.LiveFlood
import ProjectMesh.Routing.EncryptedVault
import ProjectMesh.Routing.StoreSync
import ProjectMesh.Routing.PeerBudgets
import ProjectMesh.Routing.MapOrder
import ProjectMesh.Routing.HexIds
import ProjectMesh.Routing.PuzzleBits
import ProjectMesh.Routing.ContactGuard
import ProjectMesh.BucketLengths
import ProjectMesh.Parsers
import ProjectMesh.GroupSnapshot
import ProjectMesh.Crypto.HandshakeRuns
import ProjectMesh.Crypto.HybridSecrecy
import ProjectMesh.Crypto.ChannelPost
import ProjectMesh.Crypto.Replays
import ProjectMesh.Crypto.GroupRestarts
