import Unlearning.Bytes
import Unlearning.Sha256
import Unlearning.Layered
import Unlearning.Prog
import Unlearning.Act
import Unlearning.StdOrder
import Unlearning.BestQueue
import Unlearning.Wal
import Unlearning.TornTail
import Unlearning.WalCodec
import Unlearning.Log
import Unlearning.Index
import Unlearning.Heal
import Unlearning.Erase
import Unlearning.HealSteps
import Unlearning.Capped
import Unlearning.Search
import Unlearning.Coupling
import Unlearning.IndexFile
import Unlearning.Checked
import Unlearning.Reached
import Unlearning.Calls
import Unlearning.NoTrace
import Unlearning.Recall
import Unlearning.Rewiring
import Unlearning.Persistence
import Unlearning.StoreInv
import Unlearning.Recovery
import Unlearning.Durability
import Unlearning.Startup
import Unlearning.PyText
import Unlearning.Registry
import Unlearning.RegistryFile
import Unlearning.Strategy
import Unlearning.Residual
import Unlearning.EraseService
import Unlearning.Receipts
import Unlearning.Retries
import Unlearning.Frame
import Unlearning.CompactArgument
import Unlearning.Snapshots
import Unlearning.Trace
import Unlearning.CompactDebt
import Unlearning.Workflow
import Unlearning.HookOrder
import Unlearning.Doc
import Unlearning.WorkflowStore
import Unlearning.Collections
import Unlearning.Outbox
import Unlearning.OutboxRounds
import Unlearning.Fanout
import Unlearning.LocalKms
import Unlearning.CryptoShred
import Unlearning.Separated
import Unlearning.Signature
import Unlearning.HealRun
import Unlearning.HealFrame
import Unlearning.HealedEdge
import Unlearning.HealSurvives
import Unlearning.HealCount
import Unlearning.EraseRetry
import Unlearning.ExclusiveLocks
import Unlearning.Binding
import Unlearning.Queries
import Unlearning.ExactSearch
import Unlearning.MatrixRuns
import Unlearning.VendorPoints
import Unlearning.Rejected
import Unlearning.SharedKms
import Unlearning.ShredHook
import Unlearning.ReplicaHook
import Unlearning.WorkerRuns
import Unlearning.HnswlibAdapter
import Unlearning.IdEndpoints
import Unlearning.JsonText
import Unlearning.JsonRoundTrip
import Unlearning.JsonNesting
import Unlearning.ReceiptLog
import Unlearning.Respelling
import Unlearning.TransactionIds
import Unlearning.ActiveReach
import Unlearning.SearchEnds
import Unlearning.HealCap
import Unlearning.PointIds
import Unlearning.WaitOrder
import Unlearning.ConcurrentGuards
import Unlearning.Footprint
import Unlearning.EraseLocal
import Unlearning.SearchErased
import Unlearning.Custody
import Unlearning.FileQueue
import Unlearning.DenseStore
import Unlearning.FaissAdapter
import Unlearning.HnswlibRuns
import Unlearning.DeleteOnce
import Unlearning.HttpFanout
import Unlearning.HttpQuorum
import Unlearning.ChromaHook
import Unlearning.ApiRestarts
