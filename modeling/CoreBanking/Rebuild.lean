import CoreBanking.Deliveries
import CoreBanking.Projection

/-!
# Rebuilds

A rebuild resets the read model of an account, or of all, and replays the
events, while consumers of another process or the polling loop go on projecting
and the write side goes on appending. The lock of a process keeps none of these
out, so all their calls interleave freely.
-/

namespace CoreBanking

open ProjectionRunnerService (projectEach replayFrom)

namespace ReadSide

def resetAccount (s : ReadSide) (accountId : String) : ReadSide :=
  { s with summaries := s.summaries.delete (some accountId), statements := s.statements.delete (some accountId) }

def resetAll (s : ReadSide) : ReadSide := { s with summaries := .empty, statements := .empty }

def resetAllTransfers (s : ReadSide) : ReadSide := { s with transfers := .empty }

end ReadSide

/-- The calls of projections and rebuilds, a message that is received, and an
append of the write side. -/
inductive RebuildOp where
  | read (op : ReadOp)
  | readStream (streamId : String)
  | resetAccount (accountId : String)
  | resetAll
  | resetAllTransfers
  | receive (event : DomainEvent)
  | append (streamId : String) (events : List DomainEvent)

abbrev RebuildOp.Result : RebuildOp → Type
  | .read op => op.Result
  | .readStream _ => List DomainEvent
  | _ => Unit

abbrev Rebuild (α : Type) := Async RebuildOp RebuildOp.Result Failure α

abbrev RebuildOp.call (op : RebuildOp) : Rebuild op.Result := Async.call op

abbrev Projecting {α : Type} (p : Projection α) : Rebuild α := p.along (R := RebuildOp.Result) RebuildOp.read

def RebuildOp.perform : (op : RebuildOp) → ReadSide → Except Failure op.Result × ReadSide
  | .read op, s => ReadSide.perform op s
  | .readStream streamId, s => (.ok (s.events.readStream streamId 0), s)
  | .resetAccount accountId, s => (.ok (), s.resetAccount accountId)
  | .resetAll, s => (.ok (), s.resetAll)
  | .resetAllTransfers, s => (.ok (), s.resetAllTransfers)
  | .receive _, s => (.ok (), s)
  | .append streamId events, s => (.ok (), { s with events := s.events.write streamId events })

section
variable [JsRuntime]

def AccountEventsConsumerService.eachMessage (event : DomainEvent) : Rebuild Unit := do
  RebuildOp.call (.receive event)
  let _ ← Projecting (AccountProjector.project event)

namespace ProjectionRunnerService

def projectStream : List DomainEvent → Rebuild Unit
  | [] => return
  | event :: events => do
    let _ ← Projecting (AccountProjector.project event)
    projectStream events

def rebuildAccount (accountId : String) : Rebuild Unit := do
  let streamId := accountStream accountId
  RebuildOp.call (.resetAccount accountId)
  let events : List DomainEvent ← RebuildOp.call (.readStream streamId)
  projectStream events

/-- `replayFrom(0)` with at most `pages` pages. -/
def rebuildAll (pages : Nat) : Rebuild Nat := do
  RebuildOp.call .resetAll
  RebuildOp.call .resetAllTransfers
  Projecting (replayFrom pages 0)

/-- The polling loop, which is stopped after `rounds` rounds. -/
def runLoop : Nat → Nat → Projection Nat
  | 0, checkpoint => return checkpoint
  | rounds + 1, checkpoint => do
    let events : List PositionedEvent ← ReadOp.call (.readAll checkpoint 1000)
    let checkpoint ← projectEach events checkpoint
    runLoop rounds checkpoint

end ProjectionRunnerService

inductive RebuildRequest where
  | message (event : DomainEvent)
  | loop (rounds : Nat)
  | rebuildAccount (accountId : String)
  | rebuildAll (pages : Nat)
  | append (streamId : String) (events : List DomainEvent)
  deriving DecidableEq

/-- What is run, and the checkpoint it leaves, if it keeps one. -/
def RebuildRequest.body : RebuildRequest → Rebuild (Option Nat)
  | .message event => do
    AccountEventsConsumerService.eachMessage event
    return none
  | .loop rounds => do
    let checkpoint ← Projecting (ProjectionRunnerService.runLoop rounds 0)
    return some checkpoint
  | .rebuildAccount accountId => do
    ProjectionRunnerService.rebuildAccount accountId
    return none
  | .rebuildAll pages => do
    let checkpoint ← ProjectionRunnerService.rebuildAll pages
    return some checkpoint
  | .append streamId events => do
    RebuildOp.call (.append streamId events)
    return none

end

/-! ## The system, seen from one account -/

/-- A log in which the stream of the account is as commands commit it, and is all
that names the account. -/
structure LogOf (accountId : String) (events : EventStore) : Prop where
  positions : Numbered PositionedEvent.position events.allEvents
  ids : (events.allEvents.map fun p => p.event.eventId).Nodup
  own : ((events.allEvents.map PositionedEvent.event).filter fun event => event.data.accountId = some accountId) =
    events.stream (accountStream accountId)
  others : ∀ streamId, streamId ≠ accountStream accountId → ∀ event ∈ events.stream streamId,
    event.data.accountId ≠ some accountId
  history : AccountHistory accountId (events.stream (accountStream accountId))

/-- `reached` remembers the highest version that the summary of the account has had. -/
structure RebuildState where
  side : ReadSide
  reached : Nat

namespace RebuildState

def stream (s : RebuildState) (accountId : String) : List DomainEvent := s.side.events.stream (accountStream accountId)

def next (s : RebuildState) (accountId : String) (side : ReadSide) : RebuildState :=
  ⟨side, max s.reached (side.version accountId)⟩

end RebuildState

/-- A message has been appended before it is received, and an append keeps the log. -/
def RebuildOp.Admitted (accountId : String) (side : ReadSide) : RebuildOp → Prop
  | .receive event => event ∈ side.events.allEvents.map PositionedEvent.event
  | .append streamId events => LogOf accountId (side.events.write streamId events)
  | _ => True

/-- A call that is allowed. Transfers are projected by other processes too, so
they may answer anything. -/
inductive RebuildStep (accountId : String) (allows : ReadSide → RebuildOp → Prop) :
    (op : RebuildOp) → RebuildState → Except Failure op.Result → RebuildState → Prop
  | performed {op s} : op.Admitted accountId s.side → allows s.side op →
      RebuildStep accountId allows op s (op.perform s.side).1 (s.next accountId (op.perform s.side).2)
  | transfer {transferId s} (summary : Option TransferSummaryReadModel) :
      RebuildStep accountId allows (.read (.getTransferSummary transferId)) s (.ok summary) s

def rebuilds [JsRuntime] (accountId : String) (allows : ReadSide → RebuildOp → Prop) :
    System RebuildOp RebuildOp.Result Failure RebuildState RebuildRequest (Option Nat) where
  init := ⟨.empty .empty, 0⟩
  admits _ := True
  body := RebuildRequest.body
  step _ _ := RebuildStep accountId allows
  crashes := False

abbrev RebuildConfig := Config RebuildOp RebuildOp.Result Failure RebuildState RebuildRequest (Option Nat)

/-- No summary of the account is stored that is more than one version ahead. -/
def KeepsUp (accountId : String) (side : ReadSide) : RebuildOp → Prop
  | .read (.upsertAccountSummary summary) =>
    summary.accountId = some accountId → summary.version ≤ side.version accountId + 1
  | _ => True

/-- The event has been projected: by a handler that has returned, or by a loop
whose checkpoint is past it. -/
def Delivered (c : RebuildConfig) (event : DomainEvent) : Prop :=
  ∃ t ∈ c.threads, (t.request = .message event ∧ ∃ r, t.program = some (.done (.ok r))) ∨
    ∃ rounds checkpoint position, t.request = .loop rounds ∧ t.program = some (.done (.ok (some checkpoint))) ∧
      ⟨event, position⟩ ∈ c.state.side.events.allEvents ∧ position ≤ checkpoint

/-- A rebuild of the account has returned. That of all accounts comes to the end
of the log when it may read one page more than there are events. -/
def Rebuilt (accountId : String) (c : RebuildConfig) : RebuildRequest → Option (Rebuild (Option Nat)) → Prop
  | .rebuildAccount accountId', p => accountId' = accountId → ∃ r, p = some (.done (.ok r))
  | .rebuildAll pages, p => (∃ r, p = some (.done (.ok r))) ∧ c.state.side.events.allEvents.length < pages
  | _, _ => True

/-- The summary is the replay of the stream, and each version has its entry. -/
structure UpToDate (accountId : String) (side : ReadSide) : Prop where
  summary : side.events.stream (accountStream accountId) ≠ [] → ∃ summary,
    side.summaries.get (some accountId) = some summary ∧
    summary.version = (side.events.stream (accountStream accountId)).length ∧
    summary.Shows (AccountAggregate.replay (side.events.stream (accountStream accountId)))
  statement : (side.statement (some accountId)).map (·.streamVersion) =
    List.range' 1 (side.events.stream (accountStream accountId)).length

end CoreBanking
