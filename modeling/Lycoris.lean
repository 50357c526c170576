import Lycoris.Lib.KeyedMap
import Lycoris.Lib.Loop
import Lycoris.Lib.Join
import Lycoris.Lib.HashTree
import Lycoris.Lib.Search
import Lycoris.Lib.Window
import Lycoris.Lib.Lease
import Lycoris.Lib.Runs
import Lycoris.Lib.Lists
import Lycoris.Lib.Register
import Lycoris.Lib.Board
import Lycoris.Overlay.Record
import Lycoris.Overlay.Registry
import Lycoris.Overlay.Growth
import Lycoris.Overlay.Chains
import Lycoris.Overlay.Queries
import Lycoris.Overlay.Monotone
import Lycoris.Overlay.Trust
import Lycoris.Overlay.ActionChain
import Lycoris.Overlay.Merge
import Lycoris.Overlay.Admission
import Lycoris.Overlay.Enrollment
import Lycoris.Overlay.Enrolled
import Lycoris.Overlay.Routing
import Lycoris.Overlay.LinkRecord
import Lycoris.Overlay.NextHop
import Lycoris.Overlay.Delivery
import Lycoris.Overlay.Restart
import Lycoris.Link.Connections
import Lycoris.Link.Arbitration
import Lycoris.Link.Actor
import Lycoris.Link.Effects
import Lycoris.Link.Forwards
import Lycoris.Link.Replay
import Lycoris.Link.Advertising
import Lycoris.Link.Mesh
import Lycoris.Link.Routes
import Lycoris.Link.Inbox
import Lycoris.Link.Answers
import Lycoris.Link.Confinement
import Lycoris.Link.Directory
import Lycoris.Link.Addresses
import Lycoris.Link.Dialing
import Lycoris.Link.Follows
import Lycoris.Daemon.RegistryCommit
import Lycoris.Cluster.Register
import Lycoris.Cluster.Membership
import Lycoris.Cluster.Swim
import Lycoris.Cluster.Writes
import Lycoris.Cluster.Ownership
import Lycoris.Cluster.Forward
import Lycoris.Cluster.Dissemination
import Lycoris.Cluster.Invariants
import Lycoris.Cluster.Merkle
import Lycoris.Cluster.Fingerprint
import Lycoris.Cluster.Sync
import Lycoris.Cluster.Diff
import Lycoris.Cluster.Exactness
import Lycoris.Cluster.Probes
import Lycoris.Cluster.Suspicion
import Lycoris.Daemon.Membership
import Lycoris.Daemon.Views
import Lycoris.Daemon.AntiEntropy
import Lycoris.Daemon.Convergence
import Lycoris.Daemon.FullSync
import Lycoris.Stores.Versioned
import Lycoris.Stores.Domains
import Lycoris.Stores.Drift
import Lycoris.Stores.Received
import Lycoris.Daemon.Resources
import Lycoris.Daemon.Replicas
import Lycoris.Daemon.Exchange
import Lycoris.Daemon.Registration
import Lycoris.Daemon.Sequence
import Lycoris.Daemon.Incarnation
import Lycoris.Daemon.RoundTrip
import Lycoris.Lib.Json
import Lycoris.Extension.Llm
import Lycoris.Extension.Egress
import Lycoris.Daemon.Reconcile
import Lycoris.Extension.Lua
import Lycoris.Lib.Files
import Lycoris.Overlay.IdentityFile
import Lycoris.Overlay.OneIdentity
import Lycoris.Cluster.PlainTree
import Lycoris.Cluster.Ambiguity
import Lycoris.Daemon.TreeCache
import Lycoris.Overlay.Lookup
import Lycoris.Overlay.Evaluation
import Lycoris.Daemon.FailedMerge
import Lycoris.Daemon.ReplayWindows
import Lycoris.Lib.Postcard
import Lycoris.Overlay.Frames
import Lycoris.Daemon.Invocation
import Lycoris.Daemon.Forwarding
import Lycoris.Lib.LinearMemory
import Lycoris.Extension.Wasm
import Lycoris.Extension.Buffers
import Lycoris.Lib.Flood
import Lycoris.Daemon.Gossip
import Lycoris.Daemon.Flooding
import Lycoris.Daemon.Spread
import Lycoris.Daemon.Rumors
import Lycoris.Overlay.Checkpoint
import Lycoris.Daemon.Checkpoints
import Lycoris.Daemon.RegistrySpread
import Lycoris.Daemon.Cascade
import Lycoris.Link.Desk
import Lycoris.Link.Calls
import Lycoris.Link.Callers
import Lycoris.Link.Transmissions
import Lycoris.Overlay.Joining
