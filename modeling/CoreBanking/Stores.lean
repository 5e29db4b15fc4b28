import CoreBanking.Lib.OrderedMap
import CoreBanking.AccountAggregate
import CoreBanking.TransferAggregate

/-!
# The stores of the write side

The in-memory event store with the outbox it stages into, the snapshot store,
the transaction records and the idempotency records. A call to a store is one
atomic step. `perform` is the call as it should go; `Exec` adds what the
environment may do to it, within a fault model.
-/

namespace CoreBanking

/-! ## Event store and outbox -/

structure OutboxMessage where
  id : String
  topic : String
  messageKey : String
  payload : DomainEvent
  createdAt : Time
  eventPosition : Option Nat
  publishedAt : Option Time
  attempts : Nat
  lastError : Option String
  deriving DecidableEq

structure PositionedEvent where
  event : DomainEvent
  position : Nat
  deriving DecidableEq

structure EventStore where
  streams : OrderedMap String (List DomainEvent)
  allEvents : List PositionedEvent
  outbox : OrderedMap String OutboxMessage

namespace EventStore

def empty : EventStore := ⟨.empty, [], .empty⟩

def stream (store : EventStore) (streamId : String) : List DomainEvent := (store.streams.get streamId).getD []

def topicForStream (streamId : String) : String :=
  String.ofList (streamId.toList.takeWhile (· != '-')) ++ "-events"

/-- `OutboxStore.stage`: a message whose id is known is not staged again. -/
def stage (outbox : OrderedMap String OutboxMessage) (messages : List OutboxMessage) :
    OrderedMap String OutboxMessage :=
  messages.foldl (fun outbox message =>
    match outbox.get message.id with
    | some _ => outbox
    | none => outbox.set message.id message) outbox

def toMessage (streamId : String) (event : DomainEvent) : OutboxMessage where
  id := event.eventId
  topic := topicForStream streamId
  messageKey := streamId
  payload := event
  createdAt := event.occurredAt
  eventPosition := none
  publishedAt := none
  attempts := 0
  lastError := none

/-- The events as the store writes them, after `currentVersion` others. -/
def renumber (currentVersion : Nat) (events : List DomainEvent) : List DomainEvent :=
  events.mapIdx fun index event => { event with streamVersion := currentVersion + index + 1 }

/-- The append of `events` to a stream whose version was found to be right. -/
def write (store : EventStore) (streamId : String) (events : List DomainEvent) : EventStore :=
  let current := store.stream streamId
  let appended := renumber current.length events
  { streams := store.streams.set streamId (current ++ appended)
    allEvents := store.allEvents ++
      appended.mapIdx fun index event => ⟨event, store.allEvents.length + index + 1⟩
    outbox := stage store.outbox (appended.map (toMessage streamId)) }

def append (store : EventStore) (streamId : String) (events : List DomainEvent) (expectedVersion : Nat) :
    Except Failure Unit × EventStore :=
  let currentVersion := (store.stream streamId).length
  if expectedVersion ≠ currentVersion then
    (.error (.wrongExpectedVersion streamId expectedVersion currentVersion), store)
  else (.ok (), store.write streamId events)

def readStream (store : EventStore) (streamId : String) (fromVersion : Nat) : List DomainEvent :=
  (store.stream streamId).filter fun event => decide (fromVersion < event.streamVersion)

def readAll (store : EventStore) (fromPosition maxCount : Nat) : List PositionedEvent :=
  (store.allEvents.filter fun event => decide (fromPosition < event.position)).take maxCount

end EventStore

/-! ## Snapshots -/

structure Snapshot where
  streamId : String
  version : Nat
  state : AccountSnapshotState
  deriving DecidableEq

/-! ## Transaction records -/

inductive TransactionRecordStatus where
  | PENDING
  | COMPLETED
  | FAILED_RETRYABLE
  | FAILED_TERMINAL
  deriving DecidableEq, Repr

inductive TransactionOperationType where
  | DEPOSIT
  | WITHDRAW
  deriving DecidableEq, Repr

structure TransactionRecord where
  transactionId : String
  accountId : String
  operationType : TransactionOperationType
  status : TransactionRecordStatus
  amountMinorUnits : Int
  currency : String
  idempotencyKey : Option String
  errorMessage : Option String
  deriving DecidableEq

structure ReserveTransactionInput where
  transactionId : String
  accountId : String
  operationType : TransactionOperationType
  amount : Amount
  currency : String
  idempotencyKey : Option String
  deriving DecidableEq

abbrev TransactionRecords := OrderedMap String TransactionRecord

/-- Whether the record was created by this call, and the record. -/
structure TransactionReservation where
  created : Bool
  record : Option TransactionRecord
  deriving DecidableEq

namespace TransactionRecords

def reserve (records : TransactionRecords) (input : ReserveTransactionInput) :
    Except Failure TransactionReservation × TransactionRecords :=
  match records.get input.transactionId with
  | some existing => (.ok ⟨false, some existing⟩, records)
  | none =>
    match parseMoneyToMinorUnits input.amount with
    | .error e => (.error e, records)
    | .ok amountMinorUnits =>
      let record : TransactionRecord :=
        { transactionId := input.transactionId
          accountId := input.accountId
          operationType := input.operationType
          status := .PENDING
          amountMinorUnits := amountMinorUnits
          currency := input.currency
          idempotencyKey := input.idempotencyKey
          errorMessage := none }
      (.ok ⟨true, some record⟩, records.set input.transactionId record)

def markPending (records : TransactionRecords) (transactionId : String) : TransactionRecords :=
  records.modify transactionId fun current => { current with status := .PENDING }

def markCompleted (records : TransactionRecords) (transactionId : String) : TransactionRecords :=
  records.modify transactionId fun current => { current with status := .COMPLETED, errorMessage := none }

def markFailed (records : TransactionRecords) (transactionId errorMessage : String)
    (status : TransactionRecordStatus) : TransactionRecords :=
  records.modify transactionId fun current => { current with status := status, errorMessage := some errorMessage }

end TransactionRecords

/-! ## Idempotency records -/

inductive IdempotencyStatus where
  | IN_PROGRESS
  | COMPLETED
  | FAILED
  deriving DecidableEq, Repr

structure Response where
  transferId : Option String := none
  status : String
  deriving DecidableEq, Repr

structure IdempotencyRecord where
  idempotencyKey : String
  operation : String
  requestHash : String
  status : IdempotencyStatus
  responsePayload : Option Response
  errorMessage : Option String
  deriving DecidableEq

structure ReserveIdempotencyInput where
  idempotencyKey : String
  operation : String
  requestHash : String
  deriving DecidableEq

structure IdempotencyReservation where
  created : Bool
  record : Option IdempotencyRecord
  deriving DecidableEq

abbrev IdempotencyRecords := OrderedMap String IdempotencyRecord

namespace IdempotencyRecords

def reserve (records : IdempotencyRecords) (input : ReserveIdempotencyInput) :
    IdempotencyReservation × IdempotencyRecords :=
  match records.get input.idempotencyKey with
  | some existing => (⟨false, some existing⟩, records)
  | none =>
    let record : IdempotencyRecord :=
      { idempotencyKey := input.idempotencyKey
        operation := input.operation
        requestHash := input.requestHash
        status := .IN_PROGRESS
        responsePayload := none
        errorMessage := none }
    (⟨true, some record⟩, records.set input.idempotencyKey record)

def markCompleted (records : IdempotencyRecords) (idempotencyKey : String) (responsePayload : Response) :
    IdempotencyRecords :=
  records.modify idempotencyKey fun current =>
    { current with status := .COMPLETED, responsePayload := some responsePayload, errorMessage := none }

def markFailed (records : IdempotencyRecords) (idempotencyKey errorMessage : String) : IdempotencyRecords :=
  records.modify idempotencyKey fun current => { current with status := .FAILED, errorMessage := some errorMessage }

end IdempotencyRecords

/-! ## The stores together -/

structure Store where
  events : EventStore
  snapshots : OrderedMap String Snapshot
  transactions : TransactionRecords
  idempotency : IdempotencyRecords

def Store.empty : Store := ⟨.empty, .empty, .empty, .empty⟩

/-- Calls that a program of the write side waits for. `randomUUID` and `now`
are answered by the runtime. The snapshot store's `save` makes two calls: it
reads the latest snapshot, and writes if that one is older. -/
inductive StoreOp where
  | randomUUID
  | now
  | readStream (streamId : String) (fromVersion : Nat)
  | append (streamId : String) (events : List DomainEvent) (expectedVersion : Nat)
  | getLatestSnapshot (streamId : String)
  | snapshotBeforeSave (streamId : String)
  | putSnapshot (snapshot : Snapshot)
  | reserveTransaction (input : ReserveTransactionInput)
  | markTransactionPending (transactionId : String)
  | markTransactionCompleted (transactionId : String)
  | markTransactionFailed (transactionId errorMessage : String) (status : TransactionRecordStatus)
  | reserveIdempotency (input : ReserveIdempotencyInput)
  | markIdempotencyCompleted (idempotencyKey : String) (responsePayload : Response)
  | markIdempotencyFailed (idempotencyKey errorMessage : String)
  deriving DecidableEq

abbrev StoreOp.Result : StoreOp → Type
  | .randomUUID => String
  | .now => Time
  | .readStream .. => List DomainEvent
  | .getLatestSnapshot _ => Option Snapshot
  | .snapshotBeforeSave _ => Option Snapshot
  | .reserveTransaction _ => TransactionReservation
  | .reserveIdempotency _ => IdempotencyReservation
  | _ => Unit

def perform : (op : StoreOp) → Store → Except Failure op.Result × Store
  | .randomUUID, s => (.ok "", s)
  | .now, s => (.ok 0, s)
  | .readStream streamId fromVersion, s => (.ok (s.events.readStream streamId fromVersion), s)
  | .append streamId events expectedVersion, s =>
    let r := s.events.append streamId events expectedVersion
    (r.1, { s with events := r.2 })
  | .getLatestSnapshot streamId, s => (.ok (s.snapshots.get streamId), s)
  | .snapshotBeforeSave streamId, s => (.ok (s.snapshots.get streamId), s)
  | .putSnapshot snapshot, s => (.ok (), { s with snapshots := s.snapshots.set snapshot.streamId snapshot })
  | .reserveTransaction input, s =>
    let r := TransactionRecords.reserve s.transactions input
    (r.1, { s with transactions := r.2 })
  | .markTransactionPending transactionId, s =>
    (.ok (), { s with transactions := TransactionRecords.markPending s.transactions transactionId })
  | .markTransactionCompleted transactionId, s =>
    (.ok (), { s with transactions := TransactionRecords.markCompleted s.transactions transactionId })
  | .markTransactionFailed transactionId errorMessage status, s =>
    (.ok (), { s with transactions := TransactionRecords.markFailed s.transactions transactionId errorMessage status })
  | .reserveIdempotency input, s =>
    let r := IdempotencyRecords.reserve s.idempotency input
    (.ok r.1, { s with idempotency := r.2 })
  | .markIdempotencyCompleted idempotencyKey responsePayload, s =>
    (.ok (), { s with
      idempotency := IdempotencyRecords.markCompleted s.idempotency idempotencyKey responsePayload })
  | .markIdempotencyFailed idempotencyKey errorMessage, s =>
    (.ok (), { s with idempotency := IdempotencyRecords.markFailed s.idempotency idempotencyKey errorMessage })

/-! ## Faults -/

/-- Which calls may be rejected with which messages, before they take effect or
after, and whether the save of a snapshot may be lost unnoticed. -/
structure FaultModel where
  rejected : StoreOp → String → Prop
  ambiguous : StoreOp → String → Prop
  losesSnapshots : Prop

def FaultModel.none : FaultModel := ⟨fun _ _ => False, fun _ _ => False, False⟩

def FaultModel.any : FaultModel := ⟨fun _ _ => True, fun _ _ => True, True⟩

inductive Exec (F : FaultModel) : (op : StoreOp) → Store → Except Failure op.Result → Store → Prop
  | randomUUID (uuid : String) {s} : Exec F .randomUUID s (.ok uuid) s
  | now (time : Time) {s} : Exec F .now s (.ok time) s
  | performed {op s} (h : op ≠ .randomUUID ∧ op ≠ .now) : Exec F op s (perform op s).1 (perform op s).2
  | lost {snapshot s} : F.losesSnapshots → Exec F (.putSnapshot snapshot) s (.ok ()) s
  | rejected {op s} (message : String) : F.rejected op message → Exec F op s (.error (.store message)) s
  | ambiguous {op s} (message : String) : F.ambiguous op message →
      Exec F op s (.error (.store message)) (perform op s).2

end CoreBanking
