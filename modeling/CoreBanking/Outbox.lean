import CoreBanking.EventLog
import Mathlib.Algebra.Order.Monoid.Unbundled.WithTop
import Mathlib.Data.List.Sort
import Mathlib.Data.Prod.Lex
import Mathlib.Data.String.Basic
import Mathlib.Order.WithBot

/-!
# The outbox and its publishers

Messages are staged by the event store, claimed in batches by any number of
publishers, published one by one and marked. A publisher stands at one of the
awaited calls of its loop; each call is answered, or rejected before or after
it took effect, and a publisher may be gone at any point.
-/

namespace CoreBanking

abbrev idsOf (messages : List OutboxMessage) : List String := messages.map OutboxMessage.id

/-- The messages, and the ids of those claimed: the set of claimed ids in
memory, the rows with a `processing_started_at` in Postgres. -/
structure Outbox where
  messages : OrderedMap String OutboxMessage
  claimed : List String

namespace Outbox

def empty : Outbox := ⟨.empty, []⟩

def stage (outbox : Outbox) (messages : List OutboxMessage) : Outbox :=
  { outbox with messages := EventStore.stage outbox.messages messages }

def claimable (outbox : Outbox) : List OutboxMessage :=
  outbox.messages.values.filter fun message => message.publishedAt.isNone && !outbox.claimed.contains message.id

def claim (outbox : Outbox) (batch : List OutboxMessage) : Outbox :=
  { outbox with claimed := outbox.claimed ++ idsOf batch }

def release (outbox : Outbox) (id : String) (f : OutboxMessage → OutboxMessage) : Outbox :=
  match outbox.messages.get id with
  | none => outbox
  | some current => ⟨outbox.messages.set id (f current), outbox.claimed.filter (· ≠ id)⟩

def markPublished (outbox : Outbox) (id : String) (publishedAt : Time) : Outbox :=
  outbox.release id fun current => { current with publishedAt := some publishedAt, lastError := none }

def markFailed (outbox : Outbox) (id error : String) : Outbox :=
  outbox.release id fun current => { current with attempts := current.attempts + 1, lastError := some error }

end Outbox

namespace InMemoryOutboxStore

def MAX_SAFE_INTEGER : Nat := 2 ^ 53 - 1

def sortsBefore (left right : OutboxMessage) : Prop :=
  let leftPosition := left.eventPosition.getD MAX_SAFE_INTEGER
  let rightPosition := right.eventPosition.getD MAX_SAFE_INTEGER
  leftPosition < rightPosition ∨ leftPosition = rightPosition ∧ left.createdAt ≤ right.createdAt

instance : DecidableRel sortsBefore := fun left right => by
  unfold sortsBefore
  infer_instance

def claimPending (outbox : Outbox) (limit : Nat) : List OutboxMessage :=
  (outbox.claimable.insertionSort sortsBefore).take limit

end InMemoryOutboxStore

namespace PostgresOutboxStore

/-- `ORDER BY event_position ASC NULLS LAST, created_at ASC, id ASC`. -/
def orderKey (message : OutboxMessage) : WithTop Nat ×ₗ Time ×ₗ String :=
  toLex (match message.eventPosition with
    | some position => (position : WithTop Nat)
    | none => ⊤, toLex (message.createdAt, message.id))

/-- What `claimPending` may return: the first rows but for those that another
transaction has locked, in any order, since `RETURNING` promises none. -/
def Claims (outbox : Outbox) (locked : List String) (limit : Nat) (batch : List OutboxMessage) : Prop :=
  ∃ rows : List OutboxMessage, rows.Perm (outbox.claimable.filter fun message => !locked.contains message.id) ∧
    rows.Pairwise (fun left right => orderKey left ≤ orderKey right) ∧ batch.Perm (rows.take limit)

end PostgresOutboxStore

inductive OutboxStoreKind where
  | inMemory
  | postgres
  deriving DecidableEq

def OutboxStoreKind.Claims : OutboxStoreKind → Outbox → List String → Nat → List OutboxMessage → Prop
  | .inMemory, outbox, _, limit, batch => batch = InMemoryOutboxStore.claimPending outbox limit
  | .postgres, outbox, locked, limit, batch => PostgresOutboxStore.Claims outbox locked limit batch

/-! ## The publisher -/

def batchSize : Nat := 100

/-- Where a publisher stands in `runLoop`: before `claimPending`, at the
`publish`, `markPublished` or `markFailed` of a message with the rest of its
batch, asleep, or gone. -/
inductive Publisher where
  | claiming
  | publishing (message : OutboxMessage) (rest : List OutboxMessage)
  | marking (message : OutboxMessage) (rest : List OutboxMessage)
  | recording (message : OutboxMessage) (error : String) (rest : List OutboxMessage)
  | sleeping
  | gone

namespace Publisher

def next : List OutboxMessage → Publisher
  | [] => .claiming
  | message :: rest => .publishing message rest

def held : Publisher → List OutboxMessage
  | .publishing message rest => message :: rest
  | .marking message rest => message :: rest
  | .recording message _ rest => message :: rest
  | _ => []

@[simp] theorem held_next (batch : List OutboxMessage) : (next batch).held = batch := by
  cases batch <;> rfl

end Publisher

/-- What happens to a publisher. A rejected call may have taken effect. -/
inductive PublisherAction where
  | claim (locked : List String) (batch : List OutboxMessage)
  | claimRejected
  | wake
  | publish (message : OutboxMessage)
  | publishRejected (message : OutboxMessage) (error : String) (delivered : Bool)
  | markPublished (publishedAt : Time)
  | markPublishedRejected (error : String) (publishedAt : Time) (applied : Bool)
  | markFailed
  | markFailedRejected (applied : Bool)
  | stop
  | crash

/-- The outbox after a step, what it put into the topic, and what the publisher
was holding and has let go of without the loop having come to its end. -/
structure PublisherEffect where
  outbox : Outbox
  delivered : List OutboxMessage := []
  left : List OutboxMessage := []

inductive PublisherStep (kind : OutboxStoreKind) (outbox : Outbox) :
    Publisher → PublisherAction → PublisherEffect → Publisher → Prop
  | claim {locked batch} : kind.Claims outbox locked batchSize batch → batch ≠ [] →
      PublisherStep kind outbox .claiming (.claim locked batch) { outbox := outbox.claim batch } (.next batch)
  | claimNothing {locked} : kind.Claims outbox locked batchSize [] →
      PublisherStep kind outbox .claiming (.claim locked []) { outbox := outbox } .sleeping
  | claimRejected : PublisherStep kind outbox .claiming .claimRejected { outbox := outbox } .sleeping
  | wake : PublisherStep kind outbox .sleeping .wake { outbox := outbox } .claiming
  | publish {message rest} : PublisherStep kind outbox (.publishing message rest) (.publish message)
      { outbox := outbox, delivered := [message] } (.marking message rest)
  | publishRejected {message rest} (error : String) (delivered : Bool) :
      PublisherStep kind outbox (.publishing message rest) (.publishRejected message error delivered)
        { outbox := outbox, delivered := if delivered then [message] else [] } (.recording message error rest)
  | markPublished {message rest} (publishedAt : Time) :
      PublisherStep kind outbox (.marking message rest) (.markPublished publishedAt)
        { outbox := outbox.markPublished message.id publishedAt } (.next rest)
  | markPublishedRejected {message rest} (error : String) (publishedAt : Time) (applied : Bool) :
      PublisherStep kind outbox (.marking message rest) (.markPublishedRejected error publishedAt applied)
        { outbox := if applied then outbox.markPublished message.id publishedAt else outbox }
        (.recording message error rest)
  | markFailed {message error rest} :
      PublisherStep kind outbox (.recording message error rest) .markFailed
        { outbox := outbox.markFailed message.id error } (.next rest)
  | markFailedRejected {message error rest} (applied : Bool) :
      PublisherStep kind outbox (.recording message error rest) (.markFailedRejected applied)
        { outbox := if applied then outbox.markFailed message.id error else outbox
          left := if applied then rest else message :: rest } .sleeping
  | stop {p} : p = .claiming ∨ p = .sleeping → PublisherStep kind outbox p .stop { outbox := outbox } .gone
  | crash {p} : PublisherStep kind outbox p .crash { outbox := outbox, left := p.held } .gone

/-! ## The system -/

/-- `published` is what the topics hold, in order. `abandoned` remembers what
publishers let go of. -/
structure OutboxSystem where
  outbox : Outbox
  published : List OutboxMessage
  publishers : List Publisher
  abandoned : List OutboxMessage

def OutboxSystem.start : OutboxSystem := ⟨.empty, [], [], []⟩

inductive OutboxAction where
  | append (streamId : String) (messages : List OutboxMessage)
  | start
  | publisher (action : PublisherAction)

/-- The messages of one append to a stream: those of the next versions, with
ids of their own. Postgres gives them the next positions. -/
structure Appends (kind : OutboxStoreKind) (outbox : Outbox) (streamId : String) (messages : List OutboxMessage) :
    Prop where
  made : ∀ message ∈ messages, ∃ event position,
    message = { EventStore.toMessage streamId event with eventPosition := position }
  fresh : (outbox.messages.entries.map Prod.fst ++ idsOf messages).Nodup
  versions : messages.map (fun message => message.payload.streamVersion) =
    List.range' ((outbox.messages.values.filter fun row => row.messageKey = streamId).length + 1) messages.length
  positions : kind = .postgres → ∃ positions : List Nat, messages.map OutboxMessage.eventPosition = positions.map some ∧
    positions.Pairwise (· < ·) ∧ ∀ row ∈ outbox.messages.values, row.messageKey = streamId →
      ∀ position ∈ positions, ∃ earlier, row.eventPosition = some earlier ∧ earlier < position
  unplaced : kind = .inMemory → ∀ message ∈ messages, message.eventPosition = none

inductive OutboxStep (kind : OutboxStoreKind) : OutboxSystem → OutboxAction → OutboxSystem → Prop
  | append {c streamId messages} : Appends kind c.outbox streamId messages →
      OutboxStep kind c (.append streamId messages) { c with outbox := c.outbox.stage messages }
  | start {c} : OutboxStep kind c .start { c with publishers := c.publishers ++ [.claiming] }
  | publisher {c action effect} (before : List Publisher) {p : Publisher} (after : List Publisher) {p' : Publisher} :
      c.publishers = before ++ p :: after → PublisherStep kind c.outbox p action effect p' →
      OutboxStep kind c (.publisher action) ⟨effect.outbox, c.published ++ effect.delivered, before ++ p' :: after,
        c.abandoned ++ effect.left⟩

inductive OutboxReachable (kind : OutboxStoreKind) (allows : OutboxSystem → OutboxAction → Prop) : OutboxSystem → Prop
  | start : OutboxReachable kind allows .start
  | step {c action c'} : OutboxReachable kind allows c → allows c action → OutboxStep kind c action c' →
      OutboxReachable kind allows c'

def NothingLost (kind : OutboxStoreKind) (c : OutboxSystem) : Prop :=
  ∀ message ∈ c.outbox.messages.values, message.id ∉ idsOf c.published →
    (∀ p ∈ c.publishers, message.id ∉ idsOf p.held) →
    ∃ enough, ∀ limit, enough ≤ limit →
      (∃ batch, kind.Claims c.outbox [] limit batch) ∧ ∀ batch, kind.Claims c.outbox [] limit batch → message ∈ batch

end CoreBanking
