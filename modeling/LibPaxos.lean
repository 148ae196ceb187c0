import LibPaxos.Types
import LibPaxos.Library.Trace
import LibPaxos.Library.Simulation
import LibPaxos.Library.Table
import LibPaxos.Library.Majority
import LibPaxos.Library.Stream
import LibPaxos.Library.Parser
import LibPaxos.Library.Msgpack
import LibPaxos.Library.Session
import LibPaxos.Library.Journal
import LibPaxos.Library.CursorStore
import LibPaxos.Library.Worklist
import LibPaxos.Library.CheckedArray
import LibPaxos.Library.CString
import LibPaxos.Library.Probing
import LibPaxos.Library.OpenAddressing
import LibPaxos.Quorum
import LibPaxos.Carray
import LibPaxos.Storage
import LibPaxos.Lmdb.Buffer
import LibPaxos.Lmdb.Storage
import LibPaxos.Lmdb.Backends
import LibPaxos.Acceptor.Model
import LibPaxos.Acceptor.Sessions
import LibPaxos.Acceptor.Records
import LibPaxos.Acceptor.History
import LibPaxos.Acceptor.Arrays
import LibPaxos.Acceptor.PromiseKeeping
import LibPaxos.Acceptor.Identity
import LibPaxos.Acceptor.Durability
import LibPaxos.Acceptor.Restart
import LibPaxos.Proposer.Model
import LibPaxos.Proposer.Steps
import LibPaxos.Proposer.Tables
import LibPaxos.Proposer.Ballots
import LibPaxos.Proposer.Values
import LibPaxos.Proposer.Phase2
import LibPaxos.Proposer.Insensitive
import LibPaxos.Proposer.Trimming
import LibPaxos.Proposer.Preemption
import LibPaxos.Proposer.Bounds
import LibPaxos.Proposer.Timeouts
import LibPaxos.Learner.Model
import LibPaxos.Learner.Instances
import LibPaxos.Learner.Exactness
import LibPaxos.Learner.Closed
import LibPaxos.Learner.Insensitive
import LibPaxos.Learner.Holes
import LibPaxos.Learner.Bounds
import LibPaxos.Wire.Codec
import LibPaxos.Wire.Layout
import LibPaxos.Wire.RoundTrip
import LibPaxos.Wire.Stream
import LibPaxos.Evpaxos.Evlearner
import LibPaxos.Evpaxos.Evproposer
import LibPaxos.Evpaxos.TryAccept
import LibPaxos.Evpaxos.Peers
import LibPaxos.Evpaxos.Evreplica
import LibPaxos.Evpaxos.Clients
import LibPaxos.Evpaxos.Config
import LibPaxos.Evpaxos.ConfigBytes
import LibPaxos.Evpaxos.ConfigLines
import LibPaxos.Evpaxos.Evacceptor
import LibPaxos.Evpaxos.Repeat
import LibPaxos.Evpaxos.Subordinates
import LibPaxos.Evpaxos.Marker
import LibPaxos.Evpaxos.Relay
import LibPaxos.Evpaxos.Hierarchy
import LibPaxos.Evpaxos.Routing
import LibPaxos.Wire.Messages
import LibPaxos.Wire.Handlers
import LibPaxos.Network.Model
import LibPaxos.Network.Messages
import LibPaxos.Network.Decisions
import LibPaxos.Network.Validity
import LibPaxos.Network.Agreement
import LibPaxos.Network.SoleProposer
import LibPaxos.Khash.Model
import LibPaxos.Khash.Lookup
import LibPaxos.Khash.Resize
import LibPaxos.Khash.Update
import LibPaxos.Khash.History
import LibPaxos.Khash.Loops
import LibPaxos.Khash.MemStorage
import LibPaxos.Khash.Proposer
import LibPaxos.Khash.ProposerRuns
import LibPaxos.Khash.Learner
import LibPaxos.Evpaxos.Replica
import LibPaxos.Evpaxos.Callbacks
import LibPaxos.Network.Alike
import LibPaxos.Evpaxos.Group
import LibPaxos.Network.Parts
import LibPaxos.Evpaxos.ReplicaNetwork
import LibPaxos.Evpaxos.GroupNetwork
import LibPaxos.Evpaxos.GroupSafety
