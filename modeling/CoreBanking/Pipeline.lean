import CoreBanking.Deliveries
import CoreBanking.Lib.Feed
import CoreBanking.PublishOrder

/-!
# From the outbox to the read model

Publishers put the messages of the outbox into topics, and any number of
consumers of one group project what they read in the partitions of
`account-events`. The broker and its client library are not part of the
repository. Of the broker we assume what it documents:

* messages of one key go to one partition, and a partition keeps the order in
  which it has received them and loses none;
* the group has one committed offset for each partition, 0 before the first
  commit (the consumers subscribe with `fromBeginning`).

Of the client library we assume that a consumer

* starts at the offset that its group has committed, so that messages come again
  after a consumer has been lost, and two may work on one partition for a while;
* awaits `eachMessage` for one message of a partition after the other;
* does not pass a message over at which `eachMessage` has thrown: it ends, and
  another begins at the committed offset;
* commits no offset before the handler of the message has resolved, and may
  commit it later or never.
-/

namespace CoreBanking

/-- `offsets` are those the group of the consumers has committed, by partition. -/
structure Pipeline where
  outbox : OutboxSystem
  readSide : ReadSide
  offsets : Nat → Nat

def OutboxSystem.events (c : OutboxSystem) (streamId : String) : List DomainEvent :=
  (c.outbox.staged.filter fun message => message.messageKey = streamId).map OutboxMessage.payload

/-- What a partition of `account-events` holds; the broker assigns keys to partitions. -/
def OutboxSystem.partition (partitionOf : String → Nat) (c : OutboxSystem) (p : Nat) : List OutboxMessage :=
  c.published.filter fun message => message.topic = "account-events" && partitionOf message.messageKey = p

inductive ConsumerOp where
  | committedOffset (partition : Nat)
  | poll (partition offset : Nat)
  | commitOffset (partition offset : Nat)
  | read (op : ReadOp)

abbrev ConsumerOp.Result : ConsumerOp → Type
  | .committedOffset _ => Nat
  | .poll .. => Option OutboxMessage
  | .commitOffset .. => Unit
  | .read op => op.Result

abbrev Consumer (α : Type) := Async ConsumerOp ConsumerOp.Result Failure α

abbrev ConsumerOp.call (op : ConsumerOp) : Consumer op.Result := Async.call op

abbrev Consuming {α : Type} (p : Projection α) : Consumer α := p.along (R := ConsumerOp.Result) ConsumerOp.read

namespace Consumer

section
variable [JsRuntime]

/-- The handler that `AccountEventsConsumerService` runs its consumer with. With
no rebuild in the process, `runShared` runs the projection at once. -/
def eachMessage (message : OutboxMessage) : Consumer Bool :=
  Consuming (AccountProjector.project message.payload)

/-- The loop of the client library around the handler, for at most `polls` polls. -/
def run (partition : Nat) : Nat → Nat → Consumer Unit
  | 0, _ => return
  | polls + 1, offset => do
    let polled : Option OutboxMessage ← ConsumerOp.call (.poll partition offset)
    match polled with
    | none => run partition polls offset
    | some message =>
      let _ ← eachMessage message
      ConsumerOp.call (.commitOffset partition (offset + 1))
      run partition polls (offset + 1)

end

end Consumer

/-- A consumer that joins the group is given a partition by the client library. -/
structure ConsumerRequest where
  partition : Nat
  polls : Nat

def ConsumerRequest.body [JsRuntime] (q : ConsumerRequest) : Consumer Unit := do
  let offset : Nat ← ConsumerOp.call (.committedOffset q.partition)
  Consumer.run q.partition q.polls offset

/-- What the broker and the read model answer. A poll may find nothing although
there is a message, and a commit may be put off. A call of the read model may be
rejected, before or after it took effect, but not between the two writes of a
projection: an upsert that is rejected has not been stored, and an entry whose
append is rejected has been. -/
inductive ConsumerStep (partitionOf : String → Nat) (reports : String → Prop) :
    (op : ConsumerOp) → Pipeline → Except Failure op.Result → Pipeline → Prop
  | committedOffset {s p} : ConsumerStep partitionOf reports (.committedOffset p) s (.ok (s.offsets p)) s
  | polled {s p offset message} : (s.outbox.partition partitionOf p)[offset]? = some message →
      ConsumerStep partitionOf reports (.poll p offset) s (.ok (some message)) s
  | polledNothing {s p offset} : ConsumerStep partitionOf reports (.poll p offset) s (.ok none) s
  | committed {s p offset} : ConsumerStep partitionOf reports (.commitOffset p offset) s (.ok ())
      { s with offsets := Function.update s.offsets p offset }
  | deferred {s p offset} : ConsumerStep partitionOf reports (.commitOffset p offset) s (.ok ()) s
  | read {op s r readSide} : DeliveryStep op s.readSide r readSide →
      ConsumerStep partitionOf reports (.read op) s r { s with readSide := readSide }
  | rejected {op s message} : reports message → (∀ entry, op ≠ .appendAccountStatement entry) →
      ConsumerStep partitionOf reports (.read op) s (.error (.store message)) s
  | unanswered {op s r readSide message} : reports message → (∀ summary, op ≠ .upsertAccountSummary summary) →
      DeliveryStep op s.readSide r readSide →
      ConsumerStep partitionOf reports (.read op) s (.error (.store message)) { s with readSide := readSide }

/-- What a call answers and does when nothing fails and nothing is put off. -/
def ConsumerOp.perform (partitionOf : String → Nat) : (op : ConsumerOp) → Pipeline → Except Failure op.Result × Pipeline
  | .committedOffset p, s => (.ok (s.offsets p), s)
  | .poll p offset, s => (.ok (s.outbox.partition partitionOf p)[offset]?, s)
  | .commitOffset p offset, s => (.ok (), { s with offsets := Function.update s.offsets p offset })
  | .read op, s => ((ReadSide.perform op s.readSide).1, { s with readSide := (ReadSide.perform op s.readSide).2 })

/-- The account streams are appended to as the aggregate writes them, and begin with their creation. -/
def FromAggregates (c : OutboxSystem) : OutboxAction → Prop
  | .append streamId messages => EventStore.topicForStream streamId = "account-events" →
      ∃ accountId, streamId = accountStream accountId ∧ accountId ≠ "" ∧
        AccountHistory accountId (c.events streamId ++ messages.map OutboxMessage.payload) ∧
        ∀ event ∈ (c.events streamId ++ messages.map OutboxMessage.payload).head?, event.data.isAccountCreated = true
  | _ => True

/-- A step of the outbox and its publishers in which no message overtakes another. -/
def OutboxMoves (c c' : OutboxSystem) : Prop :=
  ∃ action, OvertakesNone c action ∧ FromAggregates c action ∧ OutboxStep .postgres c action c'

/-- The consumers, with the outbox and the publishers at work between their calls. -/
def pipeline [JsRuntime] (partitionOf : String → Nat) (reports : String → Prop) :
    System ConsumerOp ConsumerOp.Result Failure Pipeline ConsumerRequest Unit where
  init := ⟨.start, .empty .empty, fun _ => 0⟩
  admits _ := True
  body := ConsumerRequest.body
  step _ _ op s r s' := ∃ outbox, Relation.ReflTransGen OutboxMoves s.outbox outbox ∧
    ConsumerStep partitionOf reports op { s with outbox := outbox } r s'
  crashes := False

abbrev PipelineConfig := Config ConsumerOp ConsumerOp.Result Failure Pipeline ConsumerRequest Unit

/-- The account messages have been published, and the consumers have come to the end of what there is. -/
structure Pipeline.CaughtUp (partitionOf : String → Nat) (s : Pipeline) : Prop where
  published : ∀ message ∈ s.outbox.outbox.staged, message.topic = "account-events" →
    message.id ∈ idsOf s.outbox.published
  consumed : ∀ p, s.offsets p = (s.outbox.partition partitionOf p).length

end CoreBanking
