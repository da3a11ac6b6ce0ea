import DeltaStream.Lib.ByteReader
import DeltaStream.Lib.Leb128
import DeltaStream.Lib.BitFlip
import DeltaStream.Lib.Crc32
import DeltaStream.Basic
import DeltaStream.Lib.Ieee
import DeltaStream.Lib.Overlay
import DeltaStream.SmartDelta
import DeltaStream.SmartDeltaExact
import DeltaStream.PartialRepair
import DeltaStream.Packet
import DeltaStream.PacketFormat
import DeltaStream.PacketCorruption
import DeltaStream.Lib.FirstMin
import DeltaStream.Selection
import DeltaStream.FastSelector
import DeltaStream.ByteSync
import DeltaStream.Lib.Replica
import DeltaStream.ByteStream
import DeltaStream.ByteReplica
import DeltaStream.SmartDeltaBound
import DeltaStream.ByteConvergence
import DeltaStream.Lib.Suffix
import DeltaStream.RecoveryHistory
import DeltaStream.ByteRecovery
import DeltaStream.Binary
import DeltaStream.BinaryExact
import DeltaStream.BinaryInverse
import DeltaStream.Lib.SortedMap
import DeltaStream.Schema
import DeltaStream.Adaptive
import DeltaStream.Sync
import DeltaStream.Migration
import DeltaStream.Rejection
import DeltaStream.StaleSuppression
import DeltaStream.TypedStream
import DeltaStream.Recovery
import DeltaStream.Lib.Run
import DeltaStream.Numbering
import DeltaStream.FailedEncode
import DeltaStream.Reorder
import DeltaStream.ReorderAtomic
import DeltaStream.ReorderBuffer
import DeltaStream.ReorderConvergence
import DeltaStream.DivergedRecovery
import DeltaStream.Session
import DeltaStream.Lib.Ordered
import DeltaStream.SessionPair
import DeltaStream.Agreement
import DeltaStream.Crdt
import DeltaStream.Lib.Gossip
import DeltaStream.CrdtMerge
import DeltaStream.CounterReplicas
import DeltaStream.SubscriberRun
import DeltaStream.Varint
import DeltaStream.AdaptiveChoice
import DeltaStream.AgentArithmetic
import DeltaStream.ByteChoice
import DeltaStream.Lib.GapCover
import DeltaStream.RangeCover
import DeltaStream.ChangeScan
import DeltaStream.CrdtDecode
import DeltaStream.ReplicaNames
import DeltaStream.Lib.Fallible
import DeltaStream.Lib.Feed
import DeltaStream.Lib.FloatArith
import DeltaStream.SessionStream
import DeltaStream.DemoAgent
import DeltaStream.AgentFeed
import DeltaStream.FaultSimulation
import DeltaStream.Torture
import DeltaStream.DeltaLength
import DeltaStream.ByteFeed
import DeltaStream.ByteTorture
import DeltaStream.DemoServer
import DeltaStream.PlannedRecovery
import DeltaStream.Lib.LastWriter
import DeltaStream.Lib.Wire
import DeltaStream.CrdtEncode
import DeltaStream.RegisterReplicas
import DeltaStream.RuntimeLedger
import DeltaStream.Lib.Publishers
import DeltaStream.ByteRestarts
import DeltaStream.RecoveryLoop
import DeltaStream.SchemaUpgrade
import DeltaStream.Lib.Broadcast
import DeltaStream.HexText
import DeltaStream.Relay
import DeltaStream.RelayStream
import DeltaStream.LocalSession
import DeltaStream.SessionChannel
