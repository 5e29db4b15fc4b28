import CoreBanking.Lib.Async
import CoreBanking.Lib.StableSort
import CoreBanking.PostgresEventStore

/-!
# The Postgres database

The tables of the write side and the statements that are sent to them. A
session takes part in one transaction, and others see its rows once it has
committed. The server may close a session that is not at its end at any time,
and may answer a statement with an error whether it was carried out or not.
-/

namespace CoreBanking

/-- Where a session stands: before its `BEGIN`, in its transaction, behind an
error in it, at its end, or closed by the server. -/
inductive SessionStage
  | idle
  | active
  | aborted
  | committed
  | rolledBack
  | closed
deriving DecidableEq

namespace SessionStage

def isOpen : SessionStage → Bool
  | .active | .aborted => true
  | _ => false

def close : SessionStage → SessionStage
  | .idle | .active | .aborted => .closed
  | stage => stage

def abort : SessionStage → SessionStage
  | .active => .aborted
  | stage => stage

def rollback : SessionStage → SessionStage
  | .idle | .active | .aborted => .rolledBack
  | stage => stage

end SessionStage

structure Session where
  stage : SessionStage
  locks : List Int
deriving DecidableEq

/-- A table with a primary key is kept as a map. A row of `events` and one of
`outbox_events` know the session that has inserted them. -/
structure Database where
  sessions : List Session
  events : List EventRow
  nextId : Nat
  outbox : List (Nat × OutboxMessage)
  snapshots : List Snapshot
  transactions : TransactionRecords
  idempotency : IdempotencyRecords

namespace Database

def empty : Database := ⟨[], [], 1, [], [], .empty, .empty⟩

def stageOf (db : Database) (client : Nat) : Option SessionStage := db.sessions[client]?.map Session.stage

def isCommitted (db : Database) (client : Nat) : Bool := db.stageOf client = some .committed

def isOpen (db : Database) (client : Nat) : Bool := (db.stageOf client).any SessionStage.isOpen

def locksOf (db : Database) (client : Nat) : List Int := (db.sessions[client]?.map Session.locks).getD []

def setStage (db : Database) (client : Nat) (f : SessionStage → SessionStage) : Database :=
  { db with sessions := db.sessions.modify client fun session => { session with stage := f session.stage } }

def close (db : Database) (clients : List Nat) : Database :=
  { db with sessions := db.sessions.mapIdx fun client session =>
      if client ∈ clients then { session with stage := session.stage.close } else session }

/-! ## Rows -/

/-- The rows of a stream that every statement sees, in the order of their ids. -/
def committedRows (db : Database) (streamId : String) : List EventRow :=
  db.events.filter fun row => row.event.streamId = streamId && db.isCommitted row.transaction

/-- The rows of a stream that a statement of this session sees. -/
def seenRows (db : Database) (client : Nat) (streamId : String) : List EventRow :=
  db.events.filter fun row => row.event.streamId = streamId &&
    (db.isCommitted row.transaction || row.transaction == client)

def committed (db : Database) (streamId : String) : List DomainEvent := (db.committedRows streamId).map (·.event)

def log (db : Database) : List DomainEvent :=
  (db.events.filter fun row => db.isCommitted row.transaction).map (·.event)

/-- `SELECT COALESCE(MAX(stream_version), 0)`, in a transaction. -/
def currentVersion (db : Database) (client : Nat) (streamId : String) : Nat :=
  ((db.seenRows client streamId).map fun row => row.event.streamVersion).foldr max 0

/-- No row that is committed or may yet be has the event's id or its place. -/
def isUnique (db : Database) (event : DomainEvent) : Bool :=
  db.events.all fun row => !(db.isCommitted row.transaction || db.isOpen row.transaction) ||
    (row.event.eventId != event.eventId &&
      !(row.event.streamId == event.streamId && row.event.streamVersion == event.streamVersion))

/-- `ORDER BY stream_version DESC LIMIT 1`. -/
def latestSnapshot (db : Database) (streamId : String) : Option Snapshot :=
  (db.snapshots.filter fun snapshot => snapshot.streamId = streamId).foldl (fun latest snapshot =>
    match latest with
    | some current => if current.version < snapshot.version then some snapshot else some current
    | none => some snapshot) none

end Database

/-! ## Statements -/

inductive PgCall
  | randomUUID
  | now
  | connect
  | begin (client : Nat)
  | lockStream (client : Nat) (streamId : String)
  | selectVersion (client : Nat) (streamId : String)
  | insertEvent (client : Nat) (event : DomainEvent)
  | insertOutbox (client : Nat) (message : OutboxMessage)
  | commit (client : Nat)
  | rollback (client : Nat)
  | selectEvents (streamId : String) (fromVersion : Nat)
  | selectSnapshot (streamId : String)
  | insertSnapshot (snapshot : Snapshot)
  | insertTransaction (input : ReserveTransactionInput) (amountMinorUnits : Int)
  | selectTransaction (transactionId : String)
  | updateTransactionPending (transactionId : String)
  | updateTransactionCompleted (transactionId : String)
  | updateTransactionFailed (transactionId errorMessage : String) (status : TransactionRecordStatus)
  | insertIdempotency (input : ReserveIdempotencyInput)
  | selectIdempotency (idempotencyKey : String)
  | updateIdempotencyCompleted (idempotencyKey : String) (responsePayload : Response)
  | updateIdempotencyFailed (idempotencyKey errorMessage : String)

abbrev PgCall.Result : PgCall → Type
  | .randomUUID => String
  | .now => Time
  | .connect => Nat
  | .selectVersion .. => Nat
  | .insertEvent .. => Nat
  | .selectEvents .. => List DomainEvent
  | .selectSnapshot _ => Option Snapshot
  | .insertTransaction .. => Option TransactionRecord
  | .selectTransaction _ => Option TransactionRecord
  | .insertIdempotency _ => Option IdempotencyRecord
  | .selectIdempotency _ => Option IdempotencyRecord
  | _ => Unit

namespace Database

/-- What the server does with a statement, unless it has to wait for another
transaction or to refuse. Locks are taken on hashes of the streams' ids. -/
def perform (hashtext : String → Int) : (op : PgCall) → Database → Option (op.Result × Database)
  | .randomUUID, db => some ("", db)
  | .now, db => some (0, db)
  | .connect, db => some (db.sessions.length, { db with sessions := db.sessions ++ [⟨.idle, []⟩] })
  | .begin client, db =>
    if db.stageOf client = some .idle then some ((), db.setStage client fun _ => .active) else none
  | .lockStream client streamId, db =>
    if db.stageOf client = some .active ∧ ∀ other ∈ List.range db.sessions.length, other ≠ client →
        db.isOpen other = true → hashtext streamId ∉ db.locksOf other then
      some ((), { db with
        sessions := db.sessions.modify client fun session =>
          { session with locks := hashtext streamId :: session.locks } })
    else none
  | .selectVersion client streamId, db =>
    if db.stageOf client = some .active then some (db.currentVersion client streamId, db) else none
  | .insertEvent client event, db =>
    if db.stageOf client = some .active ∧ db.isUnique event = true then
      some (db.nextId, { db with
        events := db.events ++ [⟨⟨event, db.nextId⟩, client⟩]
        nextId := db.nextId + 1 })
    else none
  | .insertOutbox client message, db =>
    if db.stageOf client ≠ some .active ∨ db.outbox.any (fun row => row.2.id == message.id && row.1 != client &&
        db.isOpen row.1) = true then none
    else if db.outbox.any (fun row => row.2.id == message.id && (db.isCommitted row.1 || row.1 == client)) then
      some ((), db)
    else some ((), { db with outbox := db.outbox ++ [(client, message)] })
  | .commit client, db =>
    if db.stageOf client = some .active then some ((), db.setStage client fun _ => .committed) else none
  | .rollback client, db =>
    if db.stageOf client = some .closed then none else some ((), db.setStage client SessionStage.rollback)
  | .selectEvents streamId fromVersion, db =>
    some (StableSort.sort DomainEvent.streamVersion ((db.committed streamId).filter fun event =>
      fromVersion < event.streamVersion), db)
  | .selectSnapshot streamId, db => some (db.latestSnapshot streamId, db)
  | .insertSnapshot snapshot, db =>
    if db.snapshots.any fun row => row.streamId == snapshot.streamId && row.version == snapshot.version then
      some ((), db)
    else some ((), { db with snapshots := db.snapshots ++ [snapshot] })
  | .insertTransaction input amountMinorUnits, db =>
    match db.transactions.get input.transactionId with
    | some _ => some (none, db)
    | none =>
      let record : TransactionRecord :=
        { transactionId := input.transactionId
          accountId := input.accountId
          operationType := input.operationType
          status := .PENDING
          amountMinorUnits := amountMinorUnits
          currency := input.currency
          idempotencyKey := input.idempotencyKey
          errorMessage := none }
      some (some record, { db with transactions := db.transactions.set input.transactionId record })
  | .selectTransaction transactionId, db => some (db.transactions.get transactionId, db)
  | .updateTransactionPending transactionId, db =>
    some ((), { db with transactions := TransactionRecords.markPending db.transactions transactionId })
  | .updateTransactionCompleted transactionId, db =>
    some ((), { db with transactions := TransactionRecords.markCompleted db.transactions transactionId })
  | .updateTransactionFailed transactionId errorMessage status, db =>
    some ((), { db with
      transactions := TransactionRecords.markFailed db.transactions transactionId errorMessage status })
  | .insertIdempotency input, db =>
    match db.idempotency.get input.idempotencyKey with
    | some _ => some (none, db)
    | none =>
      let record : IdempotencyRecord :=
        { idempotencyKey := input.idempotencyKey
          operation := input.operation
          requestHash := input.requestHash
          status := .IN_PROGRESS
          responsePayload := none
          errorMessage := none }
      some (some record, { db with idempotency := db.idempotency.set input.idempotencyKey record })
  | .selectIdempotency idempotencyKey, db => some (db.idempotency.get idempotencyKey, db)
  | .updateIdempotencyCompleted idempotencyKey responsePayload, db =>
    some ((), { db with
      idempotency := IdempotencyRecords.markCompleted db.idempotency idempotencyKey responsePayload })
  | .updateIdempotencyFailed idempotencyKey errorMessage, db =>
    some ((), { db with idempotency := IdempotencyRecords.markFailed db.idempotency idempotencyKey errorMessage })

/-- What a refused statement leaves: its transaction is behind an error, and a
row that is refused has taken its id. -/
def refuse : PgCall → Database → Database
  | .begin client, db | .lockStream client _, db | .selectVersion client _, db | .insertOutbox client _, db
  | .commit client, db | .rollback client, db => db.setStage client SessionStage.abort
  | .insertEvent client _, db => { db.setStage client SessionStage.abort with nextId := db.nextId + 1 }
  | _, db => db

end Database

/-- A statement and its answer. `reports` are the messages of errors. -/
inductive PgExec (hashtext : String → Int) (reports : String → Prop) :
    (op : PgCall) → Database → Except Failure op.Result → Database → Prop
  | randomUUID (uuid : String) {db} : PgExec hashtext reports .randomUUID db (.ok uuid) db
  | now (time : Time) {db} : PgExec hashtext reports .now db (.ok time) db
  | performed {op db a db'} : op ≠ .randomUUID ∧ op ≠ .now → db.perform hashtext op = some (a, db') →
      PgExec hashtext reports op db (.ok a) db'
  | refused {op db} (message : String) : reports message →
      PgExec hashtext reports op db (.error (.store message)) (db.refuse op)
  | unanswered {op db a db'} (message : String) : reports message → db.perform hashtext op = some (a, db') →
      PgExec hashtext reports op db (.error (.store message)) db'

end CoreBanking
