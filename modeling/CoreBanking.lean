import CoreBanking.Lib.Outline
import CoreBanking.Services
import CoreBanking.Recovery
import CoreBanking.Projection
import CoreBanking.Idempotency
import CoreBanking.PendingTransfers
import CoreBanking.Replay
import CoreBanking.Deliveries
import CoreBanking.Classification
import CoreBanking.Operations
import CoreBanking.PublishOrder
import CoreBanking.RebuildRuns
import CoreBanking.Coordination
import CoreBanking.TransferMachine
import CoreBanking.TransferRedelivery
import CoreBanking.Registry
import CoreBanking.Repair
import CoreBanking.SnapshotLoading
import CoreBanking.Interruptions
import CoreBanking.Annotations
import CoreBanking.RecordedAmounts
import CoreBanking.Wakeups
import CoreBanking.MoneyCodec
import CoreBanking.MovedAmounts
import CoreBanking.Locks
import CoreBanking.AppendOrder
import CoreBanking.PostgresReplay
import CoreBanking.Conservation
import CoreBanking.PostgresMethods
import CoreBanking.PostgresAppend
import CoreBanking.PostgresBank
import CoreBanking.PostgresReadModel
import CoreBanking.CoordinatorRounds
