import CoreBanking.Lib.Outline
import CoreBanking.Services
import Mathlib.Logic.Relation

/-!
# One run for an idempotency key

Calls of `IdempotencyService.execute` with one key interleave freely, and their
handlers settle at any time. The call that made the record is the only one that
ever runs a handler; what the others find in the record is a phase of its run.
-/

namespace CoreBanking

/-! ## Calls with one key -/

/-- What a call waits for. A handler is started in one step and settles in a later one. -/
inductive ExecuteOp where
  | reserve (input : ReserveIdempotencyInput)
  | markCompleted (idempotencyKey : String) (responsePayload : Response)
  | markFailed (idempotencyKey errorMessage : String)
  | startHandler
  | settleHandler
  deriving DecidableEq

abbrev ExecuteOp.Result : ExecuteOp → Type
  | .reserve _ => IdempotencyReservation
  | .settleHandler => Response
  | _ => Unit

structure ExecuteCall where
  operation : String
  payload : Payload
  deriving DecidableEq

inductive ExecuteEvent where
  | reserved (call : ExecuteCall)
  | started (call : ExecuteCall)
  | settled (call : ExecuteCall) (outcome : Except Failure Response)
  | marked (call : ExecuteCall)

namespace ExecuteEvent

def reservation : ExecuteEvent → Option ExecuteCall
  | .reserved call => some call
  | _ => none

def handlerRun : ExecuteEvent → Option ExecuteCall
  | .started call => some call
  | _ => none

def outcome : ExecuteEvent → Option (Except Failure Response)
  | .settled _ outcome => some outcome
  | _ => none

end ExecuteEvent

structure ExecuteState where
  records : IdempotencyRecords
  trace : List ExecuteEvent

namespace ExecuteState

def firstReservation (s : ExecuteState) : Option ExecuteCall := s.trace.findSome? ExecuteEvent.reservation

def handlerRuns (s : ExecuteState) : List ExecuteCall := s.trace.filterMap ExecuteEvent.handlerRun

def outcomes (s : ExecuteState) : List (Except Failure Response) := s.trace.filterMap ExecuteEvent.outcome

end ExecuteState

/-- No call of the repository fails; a handler may settle with anything. -/
inductive ExecuteStep (call : ExecuteCall) :
    (op : ExecuteOp) → ExecuteState → Except Failure op.Result → ExecuteState → Prop
  | reserve {input s} : ExecuteStep call (.reserve input) s (.ok (s.records.reserve input).1)
      ⟨(s.records.reserve input).2, s.trace ++ [.reserved call]⟩
  | markCompleted {key response s} : ExecuteStep call (.markCompleted key response) s (.ok ())
      ⟨s.records.markCompleted key response, s.trace ++ [.marked call]⟩
  | markFailed {key errorMessage s} : ExecuteStep call (.markFailed key errorMessage) s (.ok ())
      ⟨s.records.markFailed key errorMessage, s.trace ++ [.marked call]⟩
  | startHandler {s} : ExecuteStep call .startHandler s (.ok ()) ⟨s.records, s.trace ++ [.started call]⟩
  | settleHandler {s} (outcome : Except Failure Response) :
      ExecuteStep call .settleHandler s outcome ⟨s.records, s.trace ++ [.settled call outcome]⟩

abbrev ExecuteM := Async ExecuteOp ExecuteOp.Result Failure

abbrev ExecuteOp.call (op : ExecuteOp) : ExecuteM op.Result := Async.call op

def executeHandler : ExecuteM Response := do
  ExecuteOp.call .startHandler
  ExecuteOp.call .settleHandler

def ExecuteCall.execute [RequestDigest] (idempotencyKey : Option String) (call : ExecuteCall) : ExecuteM Response :=
  IdempotencyService.executeWith
    { reserve := fun input => ExecuteOp.call (.reserve input)
      markCompleted := fun key response => ExecuteOp.call (.markCompleted key response)
      markFailed := fun key errorMessage => ExecuteOp.call (.markFailed key errorMessage) }
    idempotencyKey call.operation call.payload fun _ => executeHandler

def executions [RequestDigest] (idempotencyKey : Option String) :
    System ExecuteOp ExecuteOp.Result Failure ExecuteState ExecuteCall Response where
  init := ⟨.empty, []⟩
  admits _ := True
  body := ExecuteCall.execute idempotencyKey
  step _ := ExecuteStep
  crashes := True

/-! ## The record and the call that made it -/

inductive ExecutePhase where
  | reserved
  | started
  | settled (outcome : Except Failure Response)
  | finished (outcome : Except Failure Response)

namespace ExecutePhase

def events (call : ExecuteCall) : ExecutePhase → List ExecuteEvent
  | .reserved => []
  | .started => [.started call]
  | .settled outcome => [.started call, .settled call outcome]
  | .finished outcome => [.started call, .settled call outcome, .marked call]

def status : ExecutePhase → IdempotencyStatus × Option Response
  | .finished (.ok response) => (.COMPLETED, some response)
  | .finished (.error _) => (.FAILED, none)
  | _ => (.IN_PROGRESS, none)

end ExecutePhase

def ExecuteState.progress (s : ExecuteState) : List ExecuteEvent := s.trace.filter (·.reservation.isNone)

section
variable [RequestDigest]

structure IdempotencyRecord.Of (record : IdempotencyRecord) (call : ExecuteCall) (phase : ExecutePhase) : Prop where
  operation : record.operation = call.operation
  requestHash : record.requestHash = RequestDigest.hashRequest call.operation call.payload
  status : (record.status, record.responsePayload) = phase.status

/-- Nobody has come yet, or one call is in some phase of its run and the others have nothing. -/
inductive ExecuteInv (key : String) (s : ExecuteState) (gs : Nat → Option (ExecuteCall × ExecutePhase)) : Prop
  | unused : s.records.get key = none → s.trace = [] → (∀ i, gs i = none) → ExecuteInv key s gs
  | used {w call phase record} : gs w = some (call, phase) → (∀ i, i ≠ w → gs i = none) →
      s.records.get key = some record → record.Of call phase → s.firstReservation = some call →
      s.progress = phase.events call → ExecuteInv key s gs

omit [RequestDigest] in
theorem ExecuteState.firstReservation_append {s : ExecuteState} {call : ExecuteCall}
    (h : s.firstReservation = some call) (records : IdempotencyRecords) (event : ExecuteEvent) :
    (⟨records, s.trace ++ [event]⟩ : ExecuteState).firstReservation = some call := by
  unfold ExecuteState.firstReservation at *
  rw [List.findSome?_append, h]
  rfl

namespace ExecuteInv

variable {key : String} {s : ExecuteState} {gs : Nat → Option (ExecuteCall × ExecutePhase)} {i : Nat}
  {call : ExecuteCall} {phase : ExecutePhase}

theorem winner (h : ExecuteInv key s gs) (hi : gs i = some (call, phase)) :
    (∀ j, j ≠ i → gs j = none) ∧ ∃ record, s.records.get key = some record ∧ record.Of call phase ∧
      s.firstReservation = some call ∧ s.progress = phase.events call := by
  cases h with
  | unused _ _ hidle => rw [hidle] at hi; cases hi
  | @used w call' phase' record hw hidle hget hof hfirst hprogress =>
    by_cases hiw : i = w
    · subst hiw
      rw [hw] at hi
      cases hi
      exact ⟨hidle, record, hget, hof, hfirst, hprogress⟩
    · rw [hidle i hiw] at hi
      cases hi

theorem advance (h : ExecuteInv key s gs) (hi : gs i = some (call, phase)) {phase' : ExecutePhase}
    {records : IdempotencyRecords} {event : ExecuteEvent} (hevent : event.reservation = none)
    (hevents : phase'.events call = phase.events call ++ [event])
    (hrecords : ∀ record, s.records.get key = some record → record.Of call phase →
      ∃ record', records.get key = some record' ∧ record'.Of call phase') :
    ExecuteInv key ⟨records, s.trace ++ [event]⟩ (Function.update gs i (some (call, phase'))) := by
  obtain ⟨hidle, record, hget, hof, hfirst, hprogress⟩ := h.winner hi
  obtain ⟨record', hget', hof'⟩ := hrecords record hget hof
  refine .used (Function.update_self _ _ _) (fun j hj => by rw [Function.update_of_ne hj, hidle j hj]) hget' hof'
    (ExecuteState.firstReservation_append hfirst _ _) ?_
  unfold ExecuteState.progress at *
  rw [List.filter_append, hprogress, hevents]
  simp [hevent]

theorem reserve (h : ExecuteInv key s gs) (i : Nat) (call : ExecuteCall) :
    (∃ record, s.records.reserve ⟨key, call.operation, RequestDigest.hashRequest call.operation call.payload⟩ =
        (⟨false, some record⟩, s.records) ∧ s.records.get key = some record ∧
      ExecuteInv key ⟨s.records, s.trace ++ [.reserved call]⟩ gs) ∨
    (∃ records record, s.records.reserve ⟨key, call.operation, RequestDigest.hashRequest call.operation call.payload⟩ =
        (⟨true, some record⟩, records) ∧
      ExecuteInv key ⟨records, s.trace ++ [.reserved call]⟩ (Function.update gs i (some (call, .reserved)))) := by
  cases h with
  | unused hget htrace hidle =>
    refine .inr ⟨_, _, by rw [IdempotencyRecords.reserve, hget], ?_⟩
    exact .used (Function.update_self _ _ _) (fun j hj => by rw [Function.update_of_ne hj, hidle j])
      (OrderedMap.get_set_self _ _ _) ⟨rfl, rfl, rfl⟩ (by rw [htrace]; rfl) (by rw [htrace]; rfl)
  | @used w call' phase record hw hidle hget hof hfirst hprogress =>
    refine .inl ⟨record, by rw [IdempotencyRecords.reserve, hget], hget, ?_⟩
    refine .used hw hidle hget hof (ExecuteState.firstReservation_append hfirst _ _) ?_
    unfold ExecuteState.progress at *
    rw [List.filter_append, hprogress]
    simp [ExecuteEvent.reservation]

end ExecuteInv

omit [RequestDigest] in
theorem IdempotencyRecords.get_modify_self {records : IdempotencyRecords} {key : String} {record : IdempotencyRecord}
    (h : records.get key = some record) (f : IdempotencyRecord → IdempotencyRecord) :
    (records.modify key f).get key = some (f record) := by
  rw [OrderedMap.get_modify, if_pos rfl, h, Option.map_some]

/-! ## The calls keep it -/

def executeOutline (idempotencyKey : Option String) :
    Outline (executions idempotencyKey) (Option (ExecuteCall × ExecutePhase)) where
  idle := none
  le s s' := s.trace <+: s'.trace
  inv := ExecuteInv (idempotencyKey.getD "")
  le_refl _ := List.prefix_rfl
  le_trans := List.IsPrefix.trans
  le_step h := by cases h <;> exact List.prefix_append _ _

/-- A value that a call returns is the outcome of the handler, and the call is the first. -/
def ReturnsOutcome (call : ExecuteCall) (s : ExecuteState) (_ : Option (ExecuteCall × ExecutePhase))
    (r : Except Failure Response) : Prop :=
  ∀ response, r = .ok response → s.firstReservation = some call ∧ .ok response ∈ s.outcomes

omit [RequestDigest] in
theorem ReturnsOutcome.error {call : ExecuteCall} {s : ExecuteState} {g : Option (ExecuteCall × ExecutePhase)}
    {e : Failure} : ReturnsOutcome call s g (.error e) := by
  intro response h
  cases h

section
variable {key : String} {call : ExecuteCall} {s : ExecuteState}

theorem wp_executeHandler : (executeOutline (some key)).wp call executeHandler s (some (call, .reserved))
    fun _ g r => g = some (call, .settled r) := by
  refine Outline.wp_bind (Outline.wp_call fun i s₁ gs _ hinv hg r s₂ hstep => ?_)
  cases hstep
  refine ⟨some (call, .started), hinv.advance hg rfl rfl fun record hget hof =>
    ⟨record, hget, hof.operation, hof.requestHash, hof.status⟩, ?_⟩
  refine Outline.wp_call fun i s₁ gs _ hinv hg r s₂ hstep => ?_
  cases hstep
  exact ⟨some (call, .settled r), hinv.advance hg rfl rfl fun record hget hof =>
    ⟨record, hget, hof.operation, hof.requestHash, hof.status⟩, rfl⟩

omit [RequestDigest] in
theorem mem_outcomes_of_progress {r : Except Failure Response}
    (h : s.progress = (ExecutePhase.finished r).events call) : r ∈ s.outcomes := by
  refine List.mem_filterMap.mpr ⟨.settled call r, ?_, rfl⟩
  exact List.mem_of_mem_filter (h ▸ by simp [ExecutePhase.events] : ExecuteEvent.settled call r ∈ s.progress)

theorem wp_finish (handler : ExecuteM Response)
    (h : (executeOutline (some key)).wp call handler s (some (call, .reserved))
      fun _ g r => g = some (call, .settled r)) :
    (executeOutline (some key)).wp call (tryCatch (do
        let response ← handler
        ExecuteOp.call (.markCompleted key response)
        return response)
      fun error => do
        ExecuteOp.call (.markFailed key error.message)
        throw error) s (some (call, .reserved)) (ReturnsOutcome call) := by
  refine Outline.wp_tryCatch (Outline.wp_bind (Outline.wp_mono (fun s g r _ hg => ?_) h))
  subst hg
  cases r with
  | ok response =>
    refine Outline.wp_bind (Outline.wp_call fun i s₁ gs _ hinv hg r s₂ hstep => ?_)
    cases hstep
    have hinv' : ExecuteInv key ⟨s₁.records.markCompleted key response, s₁.trace ++ [.marked call]⟩
        (Function.update gs i (some (call, .finished (.ok response)))) :=
      hinv.advance hg rfl rfl fun record hget hof =>
        ⟨_, IdempotencyRecords.get_modify_self hget _, hof.operation, hof.requestHash, rfl⟩
    refine ⟨_, hinv', fun response' h => ?_⟩
    cases h
    obtain ⟨-, record, -, -, hfirst, hprogress⟩ := hinv'.winner (Function.update_self _ _ _)
    exact ⟨hfirst, mem_outcomes_of_progress hprogress⟩
  | error e =>
    refine Outline.wp_bind (Outline.wp_call fun i s₁ gs _ hinv hg r s₂ hstep => ?_)
    cases hstep
    refine ⟨some (call, .finished (.error e)), hinv.advance hg rfl rfl fun record hget hof =>
      ⟨_, IdempotencyRecords.get_modify_self hget _, hof.operation, hof.requestHash, ?_⟩, ReturnsOutcome.error⟩
    have hpayload := (Prod.ext_iff.mp hof.status).2
    exact Prod.ext rfl hpayload

end

def DigestInjective : Prop := ∀ {call call' : ExecuteCall},
  RequestDigest.hashRequest call.operation call.payload = RequestDigest.hashRequest call'.operation call'.payload →
    call = call'

/-- A record that answers a call with a value is one that the same call has completed. -/
theorem ExecuteInv.answer (hdigest : DigestInjective) {key : String} {s : ExecuteState}
    {gs : Nat → Option (ExecuteCall × ExecutePhase)} (h : ExecuteInv key s gs) {record : IdempotencyRecord}
    (hget : s.records.get key = some record) {call : ExecuteCall} (hoperation : record.operation = call.operation)
    (hhash : record.requestHash = RequestDigest.hashRequest call.operation call.payload) {response : Response}
    (hanswer : IdempotencyService.answerFrom key record = .ok response) :
    s.firstReservation = some call ∧ .ok response ∈ s.outcomes := by
  cases h with
  | unused hnone _ _ => rw [hnone] at hget; cases hget
  | @used w call' phase record' hw hidle hget' hof hfirst hprogress =>
    obtain rfl : record' = record := Option.some.inj (hget'.symm.trans hget)
    obtain rfl : call' = call := hdigest (hof.requestHash.symm.trans hhash)
    have hstatus : phase.status = (.COMPLETED, some response) := by
      rw [← hof.status]
      unfold IdempotencyService.answerFrom at hanswer
      split at hanswer
      case h_1 hcompleted hpayload =>
        cases hanswer
        rw [hcompleted, hpayload]
      · cases hanswer
      · cases hanswer
    cases phase with
    | finished outcome =>
      cases outcome with
      | ok response' => cases hstatus; exact ⟨hfirst, mem_outcomes_of_progress hprogress⟩
      | error e => cases hstatus
    | _ => cases hstatus

theorem wp_execute (hdigest : DigestInjective) (idempotencyKey : Option String) (call : ExecuteCall)
    (s : ExecuteState) : (executeOutline idempotencyKey).wp call (call.execute idempotencyKey) s none
      (ReturnsOutcome call) := by
  unfold ExecuteCall.execute IdempotencyService.executeWith
  cases idempotencyKey with
  | none => exact ReturnsOutcome.error
  | some key =>
    dsimp only
    split
    · exact ReturnsOutcome.error
    · refine Outline.wp_bind (Outline.wp_call fun i s₁ gs _ hinv hg r s₂ hstep => ?_)
      cases hstep
      have hinv : ExecuteInv key s₁ gs := hinv
      rcases hinv.reserve i call with ⟨record, hreserve, hget, hinv'⟩ | ⟨records, record, hreserve, hinv'⟩
      · rw [hreserve]
        refine ⟨none, (Outline.update_ghost hg).symm ▸ hinv', ?_⟩
        dsimp only
        split
        · exact ReturnsOutcome.error
        case isFalse hsame =>
          rw [not_or, Classical.not_not, Classical.not_not] at hsame
          cases hanswer : IdempotencyService.answerFrom key record with
          | error e => exact ReturnsOutcome.error
          | ok response =>
            intro response' h
            cases h
            exact hinv'.answer hdigest hget hsame.1 hsame.2 hanswer
      · rw [hreserve]
        exact ⟨_, hinv', wp_finish _ wp_executeHandler⟩

/-! ## Every run -/

/-- Only the first call marks the record, and only while it is in progress. -/
theorem ExecuteInv.marked {key : String} {s : ExecuteState} {gs gs' : Nat → Option (ExecuteCall × ExecutePhase)}
    (h : ExecuteInv key s gs) {records : IdempotencyRecords} {call : ExecuteCall}
    (h' : ExecuteInv key ⟨records, s.trace ++ [.marked call]⟩ gs') :
    s.firstReservation = some call ∧ ∀ record, s.records.get key = some record → record.status = .IN_PROGRESS := by
  cases h' with
  | unused _ htrace _ => simp at htrace
  | @used w' call' phase' record' hw' hidle' hget' hof' hfirst' hprogress' =>
    have hsnoc : (⟨records, s.trace ++ [.marked call]⟩ : ExecuteState).progress = s.progress ++ [.marked call] := by
      simp [ExecuteState.progress, ExecuteEvent.reservation]
    rw [hsnoc] at hprogress'
    cases h with
    | unused _ htrace _ =>
      have hnil : s.progress = [] := by rw [ExecuteState.progress, htrace]; rfl
      rw [hnil] at hprogress'
      cases phase' <;> simp [ExecutePhase.events] at hprogress'
    | @used w call'' phase record hw hidle hget hof hfirst hprogress =>
      obtain rfl : call'' = call' :=
        Option.some.inj ((ExecuteState.firstReservation_append hfirst _ _).symm.trans hfirst')
      rw [hprogress] at hprogress'
      cases phase' with
      | finished outcome' =>
        cases phase with
        | settled outcome =>
          simp only [ExecutePhase.events, List.cons_append, List.nil_append, List.cons.injEq,
            ExecuteEvent.marked.injEq, and_true, true_and] at hprogress'
          refine ⟨hprogress'.2 ▸ hfirst, fun record'' hget'' => ?_⟩
          obtain rfl : record = record'' := Option.some.inj (hget.symm.trans hget'')
          exact (Prod.ext_iff.mp hof.status).1
        | _ => simp [ExecutePhase.events] at hprogress'
      | _ => cases phase <;> simp [ExecutePhase.events] at hprogress'

def ExecuteState.record (s : ExecuteState) (idempotencyKey : Option String) : Option IdempotencyRecord :=
  idempotencyKey.bind s.records.get

abbrev ExecuteConfig := Config ExecuteOp ExecuteOp.Result Failure ExecuteState ExecuteCall Response

section
variable {idempotencyKey : Option String} {c c' : ExecuteConfig} {gs : Nat → Option (ExecuteCall × ExecutePhase)}
  {record : IdempotencyRecord}

/-- **Step.** A call leaves the record as it is, unless it is the first call and the record is in progress. -/
theorem record_kept (ht : (executeOutline idempotencyKey).Tied ReturnsOutcome c gs) {i : Nat} {call : ExecuteCall}
    {op : ExecuteOp} {k : Except Failure op.Result → ExecuteM Response} {r : Except Failure op.Result}
    {s' : ExecuteState} (hi : c.threads[i]? = some ⟨call, some (.await op k)⟩) (hs : ExecuteStep call op c.state r s')
    (hrecord : c.state.record idempotencyKey = some record)
    (h : c.state.firstReservation = some call → record.status ≠ .IN_PROGRESS) :
    s'.record idempotencyKey = some record := by
  obtain ⟨key, rfl, hget⟩ := Option.bind_eq_some_iff.mp hrecord
  show s'.records.get key = some record
  obtain ⟨s₀, hle, hwp⟩ := ht.wp i call _ hi
  obtain ⟨g', hinv', -⟩ := hwp i c.state gs hle ht.inv rfl r s' hs
  -- a mark would have to come from the first call
  have hmark : ∀ key' f, s'.records = c.state.records.modify key' f → s'.trace = c.state.trace ++ [.marked call] →
      s'.records.get key = some record := by
    intro key' f hrecords htrace
    have hinv' : ExecuteInv key ⟨s'.records, c.state.trace ++ [.marked call]⟩ (Function.update gs i g') := by
      rw [← htrace]
      exact hinv'
    obtain ⟨hfirst, hprogress⟩ := ExecuteInv.marked ht.inv hinv'
    exact absurd (hprogress record hget) (h hfirst)
  cases hs with
  | @reserve input =>
    show (c.state.records.reserve input).2.get key = some record
    unfold IdempotencyRecords.reserve
    cases hinput : c.state.records.get input.idempotencyKey with
    | some existing => exact hget
    | none =>
      refine (OrderedMap.get_set_of_ne _ _ fun heq => ?_).trans hget
      rw [heq, hget] at hinput
      cases hinput
  | markCompleted => exact hmark _ _ rfl rfl
  | markFailed => exact hmark _ _ rfl rfl
  | startHandler => exact hget
  | settleHandler => exact hget

end

structure RunsOnce (idempotencyKey : Option String) (c : ExecuteConfig) : Prop where
  once : c.state.handlerRuns.length ≤ 1
  returned : ∀ t ∈ c.threads, ∀ response, t.program = some (.done (.ok response)) →
    c.state.outcomes = [.ok response]
  mismatch : ∀ first, c.state.firstReservation = some first →
    (∀ call ∈ c.state.handlerRuns, call = first) ∧
    ∀ t ∈ c.threads, t.request ≠ first →
      (∀ response, t.program ≠ some (.done (.ok response))) ∧
      ∀ op k r s', t.program = some (.await op k) → ExecuteStep t.request op c.state r s' →
        s'.record idempotencyKey = c.state.record idempotencyKey
  completed : ∀ c' record, Relation.ReflTransGen (executions idempotencyKey).Step c c' →
    c.state.record idempotencyKey = some record → record.status = .COMPLETED →
      c'.state.record idempotencyKey = some record

omit [RequestDigest] in
theorem ExecuteState.filterMap_progress {β : Type} {f : ExecuteEvent → Option β}
    (hf : ∀ event, event.reservation ≠ none → f event = none) (s : ExecuteState) :
    s.trace.filterMap f = s.progress.filterMap f := by
  rw [ExecuteState.progress, List.filterMap_filter]
  refine List.filterMap_congr fun event _ => ?_
  cases hres : event.reservation with
  | none => simp
  | some call => simp [hf event (by simp [hres])]

omit [RequestDigest] in
theorem ExecuteState.handlerRuns_eq (s : ExecuteState) :
    s.handlerRuns = s.progress.filterMap ExecuteEvent.handlerRun :=
  s.filterMap_progress fun event h => by cases event <;> first | rfl | exact absurd rfl h

omit [RequestDigest] in
theorem ExecuteState.outcomes_eq (s : ExecuteState) : s.outcomes = s.progress.filterMap ExecuteEvent.outcome :=
  s.filterMap_progress fun event h => by cases event <;> first | rfl | exact absurd rfl h

/-- At most one handler has run, that of the first call, and it has settled at most once. -/
theorem ExecuteInv.runs {key : String} {s : ExecuteState} {gs : Nat → Option (ExecuteCall × ExecutePhase)}
    (h : ExecuteInv key s gs) : s.handlerRuns.length ≤ 1 ∧ s.outcomes.length ≤ 1 ∧
      ∀ call ∈ s.handlerRuns, s.firstReservation = some call := by
  rw [s.handlerRuns_eq, s.outcomes_eq]
  cases h with
  | unused _ htrace _ =>
    have hnil : s.progress = [] := by rw [ExecuteState.progress, htrace]; rfl
    simp [hnil]
  | @used w call phase record hw hidle hget hof hfirst hprogress =>
    rw [hprogress, hfirst]
    cases phase <;>
      simp [ExecutePhase.events, List.filterMap_cons, ExecuteEvent.handlerRun, ExecuteEvent.outcome]

theorem ExecuteInv.exists_record {key : String} {s : ExecuteState} {gs : Nat → Option (ExecuteCall × ExecutePhase)}
    (h : ExecuteInv key s gs) {first : ExecuteCall} (hf : s.firstReservation = some first) :
    ∃ record, s.records.get key = some record := by
  cases h with
  | unused _ htrace _ => rw [ExecuteState.firstReservation, htrace] at hf; cases hf
  | @used _ _ _ record _ _ hget => exact ⟨record, hget⟩

/-- **One run.** Of the calls with one key, however they interleave and whatever their handlers do,
the first alone runs its handler, and all values that are returned are that handler's. -/
theorem runs_once (hdigest : DigestInjective) (idempotencyKey : Option String) {c : ExecuteConfig}
    (hc : (executions idempotencyKey).Reachable c) : RunsOnce idempotencyKey c := by
  have hsound : ∀ {c : ExecuteConfig}, (executions idempotencyKey).Reachable c →
      ∃ gs, (executeOutline idempotencyKey).Tied ReturnsOutcome c gs := fun hc =>
    Outline.sound (ExecuteInv.unused rfl rfl fun _ => rfl) (fun call s _ => wp_execute hdigest idempotencyKey call s) hc
  obtain ⟨gs, ht⟩ := hsound hc
  obtain ⟨hruns, houtcomes, hfirst⟩ := ExecuteInv.runs ht.inv
  -- a value is returned by the first call only
  have hreturned : ∀ t ∈ c.threads, ∀ response, t.program = some (.done (.ok response)) →
      c.state.firstReservation = some t.request ∧ .ok response ∈ c.state.outcomes := by
    intro t ht' response hdone
    obtain ⟨i, hi⟩ := List.mem_iff_getElem?.mp ht'
    have hi' : c.threads[i]? = some ⟨t.request, some (.done (.ok response))⟩ := by rw [hi, ← hdone]
    obtain ⟨s, hle, hreturns⟩ := ht.ended hi'
    obtain ⟨hfirst, houtcome⟩ := hreturns response rfl
    obtain ⟨later, hlater⟩ := hle
    constructor
    · unfold ExecuteState.firstReservation at *
      rw [← hlater, List.findSome?_append, hfirst]
      rfl
    · unfold ExecuteState.outcomes at *
      rw [← hlater, List.filterMap_append]
      exact List.mem_append_left _ houtcome
  refine ⟨hruns, fun t ht response hdone => ?_, fun first hf => ⟨fun call hcall => ?_, fun t ht' hne => ⟨?_, ?_⟩⟩,
    fun c' record hsteps hrecord hcompleted => ?_⟩
  · have hmem := (hreturned t ht response hdone).2
    cases hlist : c.state.outcomes with
    | nil => rw [hlist] at hmem; cases hmem
    | cons r rest =>
      rw [hlist] at hmem houtcomes
      obtain rfl : rest = [] := List.length_eq_zero_iff.mp (by simpa using houtcomes)
      rw [List.mem_singleton.mp hmem]
  · exact Option.some.inj ((hfirst call hcall).symm.trans hf)
  · intro response hdone
    exact hne (Option.some.inj ((hreturned t ht' response hdone).1.symm.trans hf))
  · intro op k r s' hprogram hstep
    obtain ⟨i, hi⟩ := List.mem_iff_getElem?.mp ht'
    have hi' : c.threads[i]? = some ⟨t.request, some (.await op k)⟩ := by rw [hi, ← hprogram]
    cases hrecord : c.state.record idempotencyKey with
    | some record =>
      exact record_kept ht hi' hstep hrecord fun hf' => absurd (Option.some.inj (hf'.symm.trans hf)) hne
    | none =>
      cases idempotencyKey with
      | none => rfl
      | some key =>
        obtain ⟨record, hget⟩ := ExecuteInv.exists_record ht.inv hf
        cases hget.symm.trans hrecord
  · suffices h : (executions idempotencyKey).Reachable c' ∧ c'.state.record idempotencyKey = some record from h.2
    induction hsteps with
    | refl => exact ⟨hc, hrecord⟩
    | tail _ hstep ih =>
      obtain ⟨hb, hget⟩ := ih
      obtain ⟨gs', ht'⟩ := hsound hb
      refine ⟨.step hb hstep, ?_⟩
      cases hstep with
      | spawn => exact hget
      | crash => exact hget
      | call hi hs => exact record_kept ht' hi hs hget fun _ => by simp [hcompleted]

end

/-! ## A run -/

/-- A text, each character of which is announced, and then its end. -/
def writeText : List Char → List Char → List Char
  | [], rest => '.' :: rest
  | c :: text, rest => '+' :: c :: writeText text rest

theorem writeText_inj : ∀ {text text' rest rest' : List Char}, writeText text rest = writeText text' rest' →
    text = text' ∧ rest = rest'
  | [], [], _, _, h => ⟨rfl, (List.cons.inj h).2⟩
  | [], _ :: _, _, _, h => absurd (List.cons.inj h).1 (by decide)
  | _ :: _, [], _, _, h => absurd (List.cons.inj h).1 (by decide)
  | _ :: text, _ :: text', _, _, h => by
    obtain ⟨hc, h⟩ := List.cons.inj (List.cons.inj h).2
    obtain ⟨ht, hrest⟩ := writeText_inj h
    exact ⟨by rw [hc, ht], hrest⟩

def writeTexts (texts : List String) : List Char := texts.foldr (fun text rest => writeText text.toList rest) []

theorem writeTexts_inj : ∀ {texts texts' : List String}, writeTexts texts = writeTexts texts' → texts = texts'
  | [], [], _ => rfl
  | [], text :: _, h => by cases hw : text.toList <;> simp [writeTexts, writeText, hw] at h
  | text :: _, [], h => by cases hw : text.toList <;> simp [writeTexts, writeText, hw] at h
  | _ :: texts, _ :: texts', h => by
    obtain ⟨ht, hrest⟩ := writeText_inj h
    rw [String.toList_inj.mp ht, writeTexts_inj hrest]

def Payload.texts : Payload → List String
  | .create dto => ["create", dto.accountId, dto.ownerId, dto.currency] ++ dto.actor.toList
  | .money accountId dto => ["money", accountId, dto.amount.text, dto.currency, dto.transactionId] ++ dto.actor.toList
  | .freeze accountId dto => ["freeze", accountId, dto.reason] ++ dto.actor.toList
  | .initiate dto =>
    ["initiate", dto.transferId, dto.sourceAccountId, dto.destinationAccountId, dto.amount.text, dto.currency]

@[reducible] def writtenDigest : RequestDigest where
  hashRequest operation payload := String.ofList (writeTexts (operation :: payload.texts))

theorem writtenDigest_injective : @DigestInjective writtenDigest := by
  intro call call' h
  obtain ⟨operation, payload⟩ := call
  obtain ⟨operation', payload'⟩ := call'
  obtain ⟨rfl, htexts⟩ := List.cons.inj (writeTexts_inj (String.ofList_injective h))
  congr 1
  cases payload with
  | create dto =>
    cases payload' with
    | create dto' =>
      obtain ⟨_, _, _, actor⟩ := dto
      obtain ⟨_, _, _, actor'⟩ := dto'
      cases actor <;> cases actor' <;> simp_all [Payload.texts]
    | _ => simp [Payload.texts] at htexts
  | money accountId dto =>
    cases payload' with
    | money accountId' dto' =>
      obtain ⟨⟨_⟩, _, _, actor⟩ := dto
      obtain ⟨⟨_⟩, _, _, actor'⟩ := dto'
      cases actor <;> cases actor' <;> simp_all [Payload.texts]
    | _ => simp [Payload.texts] at htexts
  | freeze accountId dto =>
    cases payload' with
    | freeze accountId' dto' =>
      obtain ⟨_, actor⟩ := dto
      obtain ⟨_, actor'⟩ := dto'
      cases actor <;> cases actor' <;> simp_all [Payload.texts]
    | _ => simp [Payload.texts] at htexts
  | initiate dto =>
    cases payload' with
    | initiate dto' =>
      obtain ⟨_, _, _, ⟨_⟩, _⟩ := dto
      obtain ⟨_, _, _, ⟨_⟩, _⟩ := dto'
      simp_all [Payload.texts]
    | _ => simp [Payload.texts] at htexts

/-- The records answer as they are, and every handler accepts. -/
def ExecuteCall.answer (call : ExecuteCall) (op : ExecuteOp) (s : ExecuteState) :
    Option (Except Failure op.Result × ExecuteState) :=
  match op with
  | .reserve input => some (.ok (s.records.reserve input).1,
      ⟨(s.records.reserve input).2, s.trace ++ [.reserved call]⟩)
  | .markCompleted key response => some (.ok (), ⟨s.records.markCompleted key response, s.trace ++ [.marked call]⟩)
  | .markFailed key errorMessage => some (.ok (), ⟨s.records.markFailed key errorMessage, s.trace ++ [.marked call]⟩)
  | .startHandler => some (.ok (), ⟨s.records, s.trace ++ [.started call]⟩)
  | .settleHandler => some (.ok { status := "accepted" },
      ⟨s.records, s.trace ++ [.settled call (.ok { status := "accepted" })]⟩)

def executeRun (moves : List (System.Move ExecuteCall)) : ExecuteConfig :=
  (@executions writtenDigest (some "key-1")).schedule (fun _ => ExecuteCall.answer) moves

theorem executeRun_reachable (moves : List (System.Move ExecuteCall)) :
    (@executions writtenDigest (some "key-1")).Reachable (executeRun moves) := by
  refine System.reachable_schedule moves (fun _ _ _ => trivial) fun {i call op s r s'} h => ?_
  cases op with
  | settleHandler => cases h; exact .settleHandler _
  | _ => cases h; constructor

/-- An account is created; the request comes again while its handler runs, and
once more when it has answered; and then the key is used for another. -/
def reusedKey : ExecuteConfig :=
  let created : ExecuteCall := ⟨"accounts.create", .create ⟨"acc-1", "owner-1", "EUR", none⟩⟩
  let frozen : ExecuteCall := ⟨"accounts.freeze", .freeze "acc-1" ⟨"fraud", none⟩⟩
  executeRun [.serve created 2, .serve created 9, .resume 0 9, .serve created 9, .serve frozen 9]

theorem runs_once_reusedKey :
    reusedKey.state.handlerRuns.length = 1 ∧
      (reusedKey.threads.map fun t => t.returned) = [true, false, true, false] ∧
      @RunsOnce writtenDigest (some "key-1") reusedKey :=
  ⟨by decide +kernel, by decide +kernel, @runs_once writtenDigest writtenDigest_injective _ _ (executeRun_reachable _)⟩

end CoreBanking
