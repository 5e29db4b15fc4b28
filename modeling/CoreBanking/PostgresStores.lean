import CoreBanking.Bank
import CoreBanking.Database
import CoreBanking.Lib.Refinement

/-!
# The stores over Postgres

The Postgres implementations of the event store, the snapshot store and the two
record repositories, statement by statement, and the bank that runs on them.
-/

namespace CoreBanking

abbrev PgTask (α : Type) := Async PgCall PgCall.Result Failure α

abbrev PgCall.send (op : PgCall) : PgTask op.Result := Async.call op

namespace PostgresEventStore

def insertEvents (client : Nat) (streamId : String) (currentVersion : Nat) : Nat → List DomainEvent → PgTask Unit
  | _, [] => return
  | index, event :: events => do
    let persistedEvent : DomainEvent :=
      { event with streamId := streamId, streamVersion := currentVersion + index + 1 }
    let eventPosition : Nat ← PgCall.send (.insertEvent client persistedEvent)
    PgCall.send (.insertOutbox client
      { EventStore.toMessage streamId persistedEvent with eventPosition := some eventPosition })
    insertEvents client streamId currentVersion (index + 1) events

def append (streamId : String) (events : List DomainEvent) (expectedVersion : Nat) : PgTask Unit := do
  let client : Nat ← PgCall.send .connect
  tryCatch (do
      PgCall.send (.begin client)
      PgCall.send (.lockStream client streamId)
      let currentVersion : Nat ← PgCall.send (.selectVersion client streamId)
      if currentVersion ≠ expectedVersion then
        throw (.wrongExpectedVersion streamId expectedVersion currentVersion)
      else do
        insertEvents client streamId currentVersion 0 events
        PgCall.send (.commit client))
    fun error => do
      PgCall.send (.rollback client)
      throw error

def readStream (streamId : String) (fromVersion : Nat) : PgTask (List DomainEvent) :=
  PgCall.send (.selectEvents streamId fromVersion)

end PostgresEventStore

namespace PostgresSnapshotStore

def getLatest (streamId : String) : PgTask (Option Snapshot) := PgCall.send (.selectSnapshot streamId)

def save (snapshot : Snapshot) : PgTask Unit := PgCall.send (.insertSnapshot snapshot)

end PostgresSnapshotStore

namespace PostgresTransactionRecordRepository

def reserve (input : ReserveTransactionInput) : PgTask TransactionReservation := do
  let amountMinorUnits ← Async.ofExcept (parseMoneyToMinorUnits input.amount)
  let inserted : Option TransactionRecord ← PgCall.send (.insertTransaction input amountMinorUnits)
  match inserted with
  | some record => return ⟨true, some record⟩
  | none =>
    let existing : Option TransactionRecord ← PgCall.send (.selectTransaction input.transactionId)
    return ⟨false, existing⟩

def markPending (transactionId : String) : PgTask Unit := PgCall.send (.updateTransactionPending transactionId)

def markCompleted (transactionId : String) : PgTask Unit := PgCall.send (.updateTransactionCompleted transactionId)

def markFailed (transactionId errorMessage : String) (status : TransactionRecordStatus) : PgTask Unit :=
  PgCall.send (.updateTransactionFailed transactionId errorMessage status)

end PostgresTransactionRecordRepository

namespace PostgresIdempotencyRecordRepository

def reserve (input : ReserveIdempotencyInput) : PgTask IdempotencyReservation := do
  let inserted : Option IdempotencyRecord ← PgCall.send (.insertIdempotency input)
  match inserted with
  | some record => return ⟨true, some record⟩
  | none =>
    let existing : Option IdempotencyRecord ← PgCall.send (.selectIdempotency input.idempotencyKey)
    return ⟨false, existing⟩

def markCompleted (idempotencyKey : String) (responsePayload : Response) : PgTask Unit :=
  PgCall.send (.updateIdempotencyCompleted idempotencyKey responsePayload)

def markFailed (idempotencyKey errorMessage : String) : PgTask Unit :=
  PgCall.send (.updateIdempotencyFailed idempotencyKey errorMessage)

end PostgresIdempotencyRecordRepository

/-- What is sent in the place of a call. Saving a snapshot reads none before. -/
def postgresCall : (op : StoreOp) → PgTask op.Result
  | .randomUUID => PgCall.send .randomUUID
  | .now => PgCall.send .now
  | .readStream streamId fromVersion => PostgresEventStore.readStream streamId fromVersion
  | .append streamId events expectedVersion => PostgresEventStore.append streamId events expectedVersion
  | .getLatestSnapshot streamId => PostgresSnapshotStore.getLatest streamId
  | .snapshotBeforeSave _ => return none
  | .putSnapshot snapshot => PostgresSnapshotStore.save snapshot
  | .reserveTransaction input => PostgresTransactionRecordRepository.reserve input
  | .markTransactionPending transactionId => PostgresTransactionRecordRepository.markPending transactionId
  | .markTransactionCompleted transactionId => PostgresTransactionRecordRepository.markCompleted transactionId
  | .markTransactionFailed transactionId errorMessage status =>
    PostgresTransactionRecordRepository.markFailed transactionId errorMessage status
  | .reserveIdempotency input => PostgresIdempotencyRecordRepository.reserve input
  | .markIdempotencyCompleted idempotencyKey responsePayload =>
    PostgresIdempotencyRecordRepository.markCompleted idempotencyKey responsePayload
  | .markIdempotencyFailed idempotencyKey errorMessage =>
    PostgresIdempotencyRecordRepository.markFailed idempotencyKey errorMessage

/-- What the snapshot store of the model does in two calls is one statement. -/
theorem expand_save (snapshot : Snapshot) :
    (SnapshotStore.save snapshot).expand postgresCall = PostgresSnapshotStore.save snapshot := rfl

/-- The amount of a deposit or a withdrawal is one the parser accepts. -/
def BankRequest.Payable : BankRequest → Prop
  | .deposit _ _ dto | .withdraw _ _ dto => ∃ n, parseMoneyToMinorUnits (.number dto.amount) = .ok n
  | _ => True

/-- The bank on Postgres. Between statements the server may close sessions. -/
def postgresBank [JsRuntime] [RequestDigest] (hashtext : String → Int) (reports : String → Prop)
    (admits : BankRequest → Prop) :
    System PgCall PgCall.Result Failure Database BankRequest (Option Response) where
  init := .empty
  admits q := (q.WellFormed ∧ admits q) ∧ q.Payable
  body q := q.body.expand postgresCall
  step _ _ op db r db' := ∃ clients, PgExec hashtext reports op (db.close clients) r db'
  crashes := True

abbrev PgConfig := Config PgCall PgCall.Result Failure Database BankRequest (Option Response)

end CoreBanking
