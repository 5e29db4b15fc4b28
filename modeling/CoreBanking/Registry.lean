import CoreBanking.Lib.Outline
import CoreBanking.World
import Mathlib.Logic.Relation

/-!
# Calls with one transaction id

Calls of `TransactionRegistryService.execute` with one transaction id interleave
freely, and their handlers settle at any time. The record keeps the intent it
was made with, and a call of another intent gets nowhere. What the calls of the
same intent do to the status depends on when a failed record is opened again.
-/

namespace CoreBanking

/-! ## The calls -/

/-- What a call waits for. A handler is started in one step and settles in a later one. -/
inductive RegistryOp where
  | reserve (input : ReserveTransactionInput)
  | markPending (transactionId : String)
  | markCompleted (transactionId : String)
  | markFailed (transactionId errorMessage : String) (status : TransactionRecordStatus)
  | startHandler
  | settleHandler
  deriving DecidableEq

abbrev RegistryOp.Result : RegistryOp → Type
  | .reserve _ => TransactionReservation
  | .settleHandler => Response
  | _ => Unit

structure RegistryCall where
  input : ReserveTransactionInput
  options : TransactionRegistryService.Options

inductive RegistryEvent where
  | reserved (call : RegistryCall)
  | reopened (call : RegistryCall)
  | started (call : RegistryCall)
  | settled (call : RegistryCall) (outcome : Except Failure Response)
  | completed (call : RegistryCall)
  | failed (call : RegistryCall)

namespace RegistryEvent

def acting : RegistryEvent → Option RegistryCall
  | .reserved _ => none
  | .reopened call | .started call | .settled call _ | .completed call | .failed call => some call

def handlerRun : RegistryEvent → Option RegistryCall
  | .started call => some call
  | _ => none

def outcome : RegistryEvent → Option (Except Failure Response)
  | .settled _ outcome => some outcome
  | _ => none

def completion : RegistryEvent → Option RegistryCall
  | .completed call => some call
  | _ => none

end RegistryEvent

structure RegistryState where
  records : TransactionRecords
  trace : List RegistryEvent

namespace RegistryState

def handlerRuns (s : RegistryState) : List RegistryCall := s.trace.filterMap RegistryEvent.handlerRun

def outcomes (s : RegistryState) : List (Except Failure Response) := s.trace.filterMap RegistryEvent.outcome

def successes (s : RegistryState) : List Response := s.outcomes.filterMap Except.toOption

def completions (s : RegistryState) : List RegistryCall := s.trace.filterMap RegistryEvent.completion

end RegistryState

/-- No call of the repository fails, and a handler may settle with anything. A
`careful` caller opens a record again only while it is a failed one. -/
inductive RegistryStep (careful : Prop) (call : RegistryCall) :
    (op : RegistryOp) → RegistryState → Except Failure op.Result → RegistryState → Prop
  | reserve {input s} : RegistryStep careful call (.reserve input) s (s.records.reserve input).1
      ⟨(s.records.reserve input).2, s.trace ++ [.reserved call]⟩
  | markPending {transactionId s} :
      (careful → ∀ record, s.records.get transactionId = some record → record.status = .FAILED_RETRYABLE) →
      RegistryStep careful call (.markPending transactionId) s (.ok ())
        ⟨s.records.markPending transactionId, s.trace ++ [.reopened call]⟩
  | markCompleted {transactionId s} : RegistryStep careful call (.markCompleted transactionId) s (.ok ())
      ⟨s.records.markCompleted transactionId, s.trace ++ [.completed call]⟩
  | markFailed {transactionId errorMessage status s} :
      RegistryStep careful call (.markFailed transactionId errorMessage status) s (.ok ())
        ⟨s.records.markFailed transactionId errorMessage status, s.trace ++ [.failed call]⟩
  | startHandler {s} : RegistryStep careful call .startHandler s (.ok ()) ⟨s.records, s.trace ++ [.started call]⟩
  | settleHandler {s} (outcome : Except Failure Response) :
      RegistryStep careful call .settleHandler s outcome ⟨s.records, s.trace ++ [.settled call outcome]⟩

abbrev RegistryM := Async RegistryOp RegistryOp.Result Failure

abbrev RegistryOp.call (op : RegistryOp) : RegistryM op.Result := Async.call op

def registryHandler : RegistryM Response := do
  RegistryOp.call .startHandler
  RegistryOp.call .settleHandler

def registryRepository : TransactionRegistryService.Repository RegistryM where
  reserve input := RegistryOp.call (.reserve input)
  markPending transactionId := RegistryOp.call (.markPending transactionId)
  markCompleted transactionId := RegistryOp.call (.markCompleted transactionId)
  markFailed transactionId errorMessage status := RegistryOp.call (.markFailed transactionId errorMessage status)

def RegistryCall.execute (call : RegistryCall) : RegistryM Response :=
  TransactionRegistryService.executeWith registryRepository call.input registryHandler call.options

def registrations (transactionId : String) (careful : Prop) :
    System RegistryOp RegistryOp.Result Failure RegistryState RegistryCall Response where
  init := ⟨.empty, []⟩
  admits call := call.input.transactionId = transactionId
  body := RegistryCall.execute
  step _ := RegistryStep careful
  crashes := True

/-! ## The intent of a record -/

structure ReserveTransactionInput.Matches (input : ReserveTransactionInput) (record : TransactionRecord) : Prop where
  accountId : input.accountId = record.accountId
  operationType : input.operationType = record.operationType
  amount : parseMoneyToMinorUnits input.amount = .ok record.amountMinorUnits
  currency : input.currency = record.currency

theorem TransactionRecord.SameMovement.matches_iff {record record' : TransactionRecord}
    (h : record.SameMovement record') {input : ReserveTransactionInput} :
    input.Matches record' ↔ input.Matches record := by
  rw [show record' = { record with status := record'.status, errorMessage := record'.errorMessage } from h]
  constructor <;> exact fun hm => ⟨hm.1, hm.2, hm.3, hm.4⟩

namespace TransactionRecords

theorem reserve_cases (records : TransactionRecords) (input : ReserveTransactionInput) :
    (∃ record, records.get input.transactionId = some record ∧
      records.reserve input = (.ok ⟨false, some record⟩, records)) ∨
    (records.get input.transactionId = none ∧ ∃ e, records.reserve input = (.error e, records)) ∨
    (records.get input.transactionId = none ∧ ∃ record : TransactionRecord, input.Matches record ∧
      record.status = .PENDING ∧ records.reserve input =
        (.ok ⟨true, some record⟩, records.set input.transactionId record)) := by
  unfold reserve
  cases hget : records.get input.transactionId with
  | some record => exact .inl ⟨record, rfl, rfl⟩
  | none =>
    cases hparse : parseMoneyToMinorUnits input.amount with
    | error e => exact .inr (.inl ⟨rfl, e, rfl⟩)
    | ok amountMinorUnits => exact .inr (.inr ⟨rfl, _, ⟨rfl, rfl, hparse, rfl⟩, rfl, rfl⟩)

end TransactionRecords

theorem TransactionRegistryService.ensureSameTransactionIntent_ok {input : ReserveTransactionInput}
    {record : TransactionRecord} (h : ensureSameTransactionIntent input record = .ok ()) : input.Matches record := by
  unfold ensureSameTransactionIntent at h
  split at h
  case isTrue => cases h
  case isFalse hsame =>
    rw [not_or, not_not, not_not] at hsame
    cases hparse : parseMoneyToMinorUnits input.amount with
    | error e => rw [hparse] at h; cases h
    | ok amountMinorUnits =>
      rw [hparse] at h
      change (if _ then _ else _) = _ at h
      split at h
      case isTrue => cases h
      case isFalse hmoney =>
        rw [not_or, not_not, not_not] at hmoney
        exact ⟨hsame.1, hsame.2, hmoney.1 ▸ hparse, hmoney.2⟩

/-! ## The call that owns a pending record -/

/-- How far a call has come that may run its handler. -/
inductive RegistryPhase where
  | reserved
  | started
  | settled (outcome : Except Failure Response)

namespace RegistryPhase

def running : RegistryPhase → Nat
  | .started => 1
  | _ => 0

def succeeded : RegistryPhase → Nat
  | .settled (.ok _) => 1
  | _ => 0

end RegistryPhase

/-- How many handlers are running, have succeeded, and have been marked as completed. -/
structure RegistryState.Tally (s : RegistryState) (running successes completions : Nat) : Prop where
  runs : s.handlerRuns.length = s.outcomes.length + running
  successes : s.successes.length = successes
  completions : s.completions.length = completions

namespace RegistryState.Tally

variable {s : RegistryState} {records : TransactionRecords} {call : RegistryCall} {running successes completions : Nat}

theorem other (h : s.Tally running successes completions) {event : RegistryEvent} (hrun : event.handlerRun = none)
    (houtcome : event.outcome = none) (hcompletion : event.completion = none) :
    (⟨records, s.trace ++ [event]⟩ : RegistryState).Tally running successes completions := by
  obtain ⟨hruns, hsuccesses, hcompletions⟩ := h
  constructor
  · simpa [handlerRuns, outcomes, hrun, houtcome] using hruns
  · simpa [RegistryState.successes, outcomes, houtcome] using hsuccesses
  · simpa [RegistryState.completions, hcompletion] using hcompletions

theorem started (h : s.Tally 0 successes completions) :
    (⟨records, s.trace ++ [.started call]⟩ : RegistryState).Tally 1 successes completions := by
  obtain ⟨hruns, hsuccesses, hcompletions⟩ := h
  constructor
  · simpa [List.filterMap_cons, handlerRuns, outcomes, RegistryEvent.handlerRun, RegistryEvent.outcome] using hruns
  · simpa [List.filterMap_cons, RegistryState.successes, outcomes, RegistryEvent.outcome] using hsuccesses
  · simpa [List.filterMap_cons, RegistryState.completions, RegistryEvent.completion] using hcompletions

theorem settled (h : s.Tally 1 0 completions) (outcome : Except Failure Response) :
    (⟨records, s.trace ++ [.settled call outcome]⟩ : RegistryState).Tally 0 (RegistryPhase.settled outcome).succeeded
      completions := by
  obtain ⟨hruns, hsuccesses, hcompletions⟩ := h
  constructor
  · simpa [List.filterMap_cons, handlerRuns, outcomes, RegistryEvent.handlerRun, RegistryEvent.outcome] using hruns
  · simp only [RegistryState.successes, outcomes] at hsuccesses
    cases outcome <;>
      simp [List.filterMap_cons, RegistryState.successes, outcomes, RegistryEvent.outcome, hsuccesses,
        RegistryPhase.succeeded,
        Except.toOption]
  · simpa [List.filterMap_cons, RegistryState.completions, RegistryEvent.completion] using hcompletions

theorem completed (h : s.Tally 0 successes completions) :
    (⟨records, s.trace ++ [.completed call]⟩ : RegistryState).Tally 0 successes (completions + 1) := by
  obtain ⟨hruns, hsuccesses, hcompletions⟩ := h
  constructor
  · simpa [List.filterMap_cons, handlerRuns, outcomes, RegistryEvent.handlerRun, RegistryEvent.outcome] using hruns
  · simpa [List.filterMap_cons, RegistryState.successes, outcomes, RegistryEvent.outcome] using hsuccesses
  · simpa [List.filterMap_cons, RegistryState.completions, RegistryEvent.completion] using hcompletions

end RegistryState.Tally

/-- There is no record yet; or it is not pending and nobody works under it; or it is
pending and belongs to one call. -/
inductive Owned (transactionId : String) (s : RegistryState) (gs : Nat → Option RegistryPhase) : Prop
  | unused : s.records.get transactionId = none → (∀ i, gs i = none) → s.Tally 0 0 0 → Owned transactionId s gs
  | idle {record : TransactionRecord} {n : Nat} : s.records.get transactionId = some record →
      record.status ≠ .PENDING → (∀ i, gs i = none) → s.Tally 0 n n →
      n = (if record.status = .COMPLETED then 1 else 0) → Owned transactionId s gs
  | busy {w : Nat} {phase : RegistryPhase} {record : TransactionRecord} : gs w = some phase →
      (∀ i, i ≠ w → gs i = none) → s.records.get transactionId = some record → record.status = .PENDING →
      s.Tally phase.running phase.succeeded 0 → Owned transactionId s gs

namespace Owned

variable {transactionId : String} {s : RegistryState} {gs : Nat → Option RegistryPhase} {i : Nat}
  {phase : RegistryPhase} {call : RegistryCall}

theorem owner (h : Owned transactionId s gs) (hi : gs i = some phase) :
    (∀ j, j ≠ i → gs j = none) ∧ s.Tally phase.running phase.succeeded 0 ∧
      ∃ record, s.records.get transactionId = some record ∧ record.status = .PENDING := by
  cases h with
  | unused _ hidle | idle _ _ hidle =>
    rw [hidle] at hi
    cases hi
  | @busy w phase' record hw hidle hget hpending htally =>
    by_cases hiw : i = w
    · subst hiw
      rw [hw] at hi
      cases hi
      exact ⟨hidle, htally, record, hget, hpending⟩
    · rw [hidle i hiw] at hi
      cases hi

theorem advance (h : Owned transactionId s gs) (hi : gs i = some phase) {phase' : RegistryPhase}
    {trace : List RegistryEvent} (htally : s.Tally phase.running phase.succeeded 0 →
      (⟨s.records, trace⟩ : RegistryState).Tally phase'.running phase'.succeeded 0) :
    Owned transactionId ⟨s.records, trace⟩ (Function.update gs i (some phase')) := by
  obtain ⟨hidle, hold, record, hget, hpending⟩ := h.owner hi
  refine .busy (Function.update_self ..) ?_ hget hpending (htally hold)
  intro j hj
  rw [Function.update_of_ne hj, hidle j hj]

theorem finish (h : Owned transactionId s gs) {outcome : Except Failure Response}
    (hi : gs i = some (.settled outcome)) {f : TransactionRecord → TransactionRecord} {status : TransactionRecordStatus}
    (hf : ∀ record, (f record).status = status) (hne : status ≠ .PENDING) {trace : List RegistryEvent} {n : Nat}
    (htally : s.Tally 0 (RegistryPhase.settled outcome).succeeded 0 →
      (⟨s.records.modify transactionId f, trace⟩ : RegistryState).Tally 0 n n)
    (hn : n = if status = .COMPLETED then 1 else 0) :
    Owned transactionId ⟨s.records.modify transactionId f, trace⟩ (Function.update gs i none) := by
  obtain ⟨hidle, hold, record, hget, -⟩ := h.owner hi
  have hmarked : (s.records.modify transactionId f).get transactionId = some (f record) := by
    simp [OrderedMap.get_modify, hget]
  refine .idle hmarked (hf record ▸ hne) ?_ (htally hold) (by rw [hf record, hn])
  intro j
  by_cases hj : j = i
  · rw [hj, Function.update_self]
  · rw [Function.update_of_ne hj, hidle j hj]

theorem look (h : Owned transactionId s gs) (call : RegistryCall) :
    Owned transactionId ⟨s.records, s.trace ++ [.reserved call]⟩ gs := by
  cases h with
  | unused hget hidle htally => exact .unused hget hidle (htally.other rfl rfl rfl)
  | idle hget hne hidle htally hn => exact .idle hget hne hidle (htally.other rfl rfl rfl) hn
  | busy hw hidle hget hpending htally => exact .busy hw hidle hget hpending (htally.other rfl rfl rfl)

theorem create (h : Owned transactionId s gs) (hnone : s.records.get transactionId = none)
    {record : TransactionRecord} (hpending : record.status = .PENDING) (i : Nat) (call : RegistryCall) :
    Owned transactionId ⟨s.records.set transactionId record, s.trace ++ [.reserved call]⟩
      (Function.update gs i (some .reserved)) := by
  cases h with
  | unused _ hidle htally =>
    refine .busy (Function.update_self ..) ?_ (OrderedMap.get_set_self ..) hpending (htally.other rfl rfl rfl)
    intro j hj
    rw [Function.update_of_ne hj, hidle j]
  | idle hget | busy _ _ hget =>
    rw [hnone] at hget
    cases hget

theorem reopen (h : Owned transactionId s gs) {record : TransactionRecord}
    (hget : s.records.get transactionId = some record) (hfailed : record.status = .FAILED_RETRYABLE) (i : Nat)
    (call : RegistryCall) :
    Owned transactionId ⟨s.records.markPending transactionId, s.trace ++ [.reopened call]⟩
      (Function.update gs i (some .reserved)) := by
  cases h with
  | unused hnone =>
    rw [hnone] at hget
    cases hget
  | @idle record' n hget' _ hidle htally hn =>
    obtain rfl : record' = record := Option.some.inj (hget'.symm.trans hget)
    rw [hfailed] at hn
    rw [hn] at htally
    have hopened : (s.records.markPending transactionId).get transactionId =
      some { record' with status := .PENDING } := by
      simp [TransactionRecords.markPending, OrderedMap.get_modify, hget]
    refine .busy (Function.update_self ..) ?_ hopened rfl (htally.other rfl rfl rfl)
    intro j hj
    rw [Function.update_of_ne hj, hidle j]
  | @busy w phase record' _ _ hget' hpending =>
    obtain rfl : record' = record := Option.some.inj (hget'.symm.trans hget)
    rw [hfailed] at hpending
    cases hpending

end Owned

/-! ## The calls keep it -/

def RegistryCall.Intends (transactionId : String) (call : RegistryCall) (records : TransactionRecords) : Prop :=
  ∃ record, records.get transactionId = some record ∧ call.input.Matches record

theorem RegistryCall.Intends.mono {transactionId : String} {call : RegistryCall} {records records' : TransactionRecords}
    (h : call.Intends transactionId records) (hle : records.Le records') : call.Intends transactionId records' := by
  obtain ⟨record, hget, hmatches⟩ := h
  obtain ⟨record', hget', hsame⟩ := hle transactionId record hget
  exact ⟨record', hget', hsame.matches_iff.mpr hmatches⟩

/-- Calls that act have the intent of the record; and careful ones own it one at a time. -/
structure RegistryInv (transactionId : String) (careful : Prop) (s : RegistryState) (gs : Nat → Option RegistryPhase) :
    Prop where
  intent : ∀ call ∈ s.trace.filterMap RegistryEvent.acting, call.Intends transactionId s.records
  owned : careful → Owned transactionId s gs

theorem RegistryStep.le {careful : Prop} {call : RegistryCall} {op : RegistryOp} {s s' : RegistryState}
    {r : Except Failure op.Result} (h : RegistryStep careful call op s r s') : s.records.Le s'.records := by
  cases h with
  | reserve => exact TransactionRecords.le_reserve _ _
  | markPending | markCompleted | markFailed => exact TransactionRecords.le_modify _ _ fun _ => rfl
  | startHandler | settleHandler => exact TransactionRecords.Le.refl _

def registryOutline (transactionId : String) (careful : Prop) :
    Outline (registrations transactionId careful) (Option RegistryPhase) where
  idle := none
  le s s' := s.records.Le s'.records
  inv := RegistryInv transactionId careful
  le_refl _ := TransactionRecords.Le.refl _
  le_trans := TransactionRecords.Le.trans
  le_step := RegistryStep.le

section
variable {transactionId : String} {careful : Prop} {s : RegistryState} {gs : Nat → Option RegistryPhase}
  {call : RegistryCall}

theorem RegistryInv.intent_snoc (h : RegistryInv transactionId careful s gs) {records : TransactionRecords}
    (hle : s.records.Le records) {event : RegistryEvent}
    (hcall : ∀ call, event.acting = some call → call.Intends transactionId records) :
    ∀ call ∈ (s.trace ++ [event]).filterMap RegistryEvent.acting, call.Intends transactionId records := by
  intro call hmem
  rw [List.filterMap_append, List.mem_append] at hmem
  rcases hmem with hmem | hmem
  · exact (h.intent call hmem).mono hle
  · simp only [List.mem_filterMap, List.mem_singleton] at hmem
    obtain ⟨_, rfl, hacting⟩ := hmem
    exact hcall call hacting

theorem RegistryInv.intent_acts (h : RegistryInv transactionId careful s gs) {records : TransactionRecords}
    (hle : s.records.Le records) {event : RegistryEvent} (hacting : event.acting = some call)
    (hintends : call.Intends transactionId records) :
    ∀ call ∈ (s.trace ++ [event]).filterMap RegistryEvent.acting, call.Intends transactionId records := by
  refine h.intent_snoc hle fun call' hcall' => ?_
  obtain rfl := Option.some.inj (hacting.symm.trans hcall')
  exact hintends

def ReturnsIntended (transactionId : String) (call : RegistryCall) (s : RegistryState) (_ : Option RegistryPhase)
    (r : Except Failure Response) : Prop := ∀ response, r = .ok response → call.Intends transactionId s.records

theorem ReturnsIntended.error {g : Option RegistryPhase} {e : Failure} :
    ReturnsIntended transactionId call s g (.error e) := by
  intro response h
  cases h

theorem wp_registryHandler (hintends : call.Intends transactionId s.records) :
    (registryOutline transactionId careful).wp call registryHandler s (some .reserved) fun s g r =>
      call.Intends transactionId s.records ∧ g = some (.settled r) := by
  refine Outline.wp_bind (Outline.wp_call fun i s₁ gs hle hinv hg r s₂ hstep => ?_)
  cases hstep
  have hintends₁ := hintends.mono hle
  refine ⟨some .started, ⟨hinv.intent_acts (.refl _) rfl hintends₁, fun hcareful =>
    (hinv.owned hcareful).advance hg RegistryState.Tally.started⟩, ?_⟩
  refine Outline.wp_call fun i s₂ gs hle hinv hg r s₃ hstep => ?_
  cases hstep
  have hintends₂ := hintends₁.mono hle
  exact ⟨some (.settled r), ⟨hinv.intent_acts (.refl _) rfl hintends₂, fun hcareful =>
    (hinv.owned hcareful).advance hg fun htally => htally.settled r⟩, hintends₂, rfl⟩

theorem wp_runHandlerWith (hid : call.input.transactionId = transactionId)
    (hintends : call.Intends transactionId s.records) :
    (registryOutline transactionId careful).wp call (TransactionRegistryService.runHandlerWith registryRepository
      call.input.transactionId registryHandler call.options) s (some .reserved)
      (ReturnsIntended transactionId call) := by
  rw [hid]
  refine Outline.wp_tryCatch (Outline.wp_bind (Outline.wp_mono ?_ (wp_registryHandler hintends)))
  rintro s g r - ⟨hintends, rfl⟩
  cases r with
  | ok response =>
    refine Outline.wp_bind (Outline.wp_call fun i s₁ gs hle hinv hg r s₂ hstep => ?_)
    cases hstep
    have hmark := TransactionRecords.le_modify s₁.records transactionId
      (f := fun current => { current with status := .COMPLETED, errorMessage := none }) fun _ => rfl
    have hintends₁ := (hintends.mono hle).mono hmark
    refine ⟨none, ⟨hinv.intent_acts hmark rfl hintends₁, fun hcareful => ?_⟩, fun _ _ => hintends₁⟩
    exact (hinv.owned hcareful).finish hg
      (f := fun current => { current with status := .COMPLETED, errorMessage := none })
      (fun _ => rfl) (by decide) (fun htally => htally.completed) rfl
  | error e =>
    refine Outline.wp_bind (Outline.wp_call fun i s₁ gs hle hinv hg r s₂ hstep => ?_)
    cases hstep
    generalize hstatus : (if call.options.isRetryableError e = true then TransactionRecordStatus.FAILED_RETRYABLE
      else TransactionRecordStatus.FAILED_TERMINAL) = status
    have hfailed : status ≠ .PENDING ∧ status ≠ .COMPLETED := by
      rw [← hstatus]
      split <;> decide
    have hmark := TransactionRecords.le_modify s₁.records transactionId
      (f := fun current => { current with status := status, errorMessage := some e.message }) fun _ => rfl
    have hintends₁ := (hintends.mono hle).mono hmark
    refine ⟨none, ⟨hinv.intent_acts hmark rfl hintends₁, fun hcareful => ?_⟩, ReturnsIntended.error⟩
    exact (hinv.owned hcareful).finish hg
      (f := fun current => { current with status := status, errorMessage := some e.message })
      (fun _ => rfl) hfailed.1 (fun htally => htally.other rfl rfl rfl) (if_neg hfailed.2).symm

theorem wp_reopen (hid : call.input.transactionId = transactionId) (hintends : call.Intends transactionId s.records) :
    (registryOutline transactionId careful).wp call (do
      RegistryOp.call (.markPending call.input.transactionId)
      TransactionRegistryService.runHandlerWith registryRepository call.input.transactionId registryHandler
        call.options) s none (ReturnsIntended transactionId call) := by
  refine Outline.wp_bind (Outline.wp_call fun i s₁ gs hle hinv _ r s₂ hstep => ?_)
  rw [hid] at hstep
  cases hstep with
  | markPending hfailed =>
    have hmark := TransactionRecords.le_modify s₁.records transactionId
      (f := fun current => { current with status := .PENDING }) fun _ => rfl
    have hintends₁ := (hintends.mono hle).mono hmark
    refine ⟨some .reserved, ⟨hinv.intent_acts hmark rfl hintends₁, fun hcareful => ?_⟩, wp_runHandlerWith hid hintends₁⟩
    obtain ⟨record, hget, -⟩ := hintends.mono hle
    exact (hinv.owned hcareful).reopen hget (hfailed hcareful record hget) i call

theorem wp_registryCall (hid : call.input.transactionId = transactionId) :
    (registryOutline transactionId careful).wp call call.execute s none (ReturnsIntended transactionId call) := by
  subst hid
  unfold RegistryCall.execute TransactionRegistryService.executeWith
  refine Outline.wp_bind (Outline.wp_call fun i s₁ gs _ hinv hg r s₂ hstep => ?_)
  cases hstep
  have hlook : ∀ call' : RegistryCall, none = some call' → call'.Intends call.input.transactionId
      (s₁.records.reserve call.input).2 := by
    rintro _ ⟨⟩
  have hkept : Function.update gs i none = gs := Outline.update_ghost hg
  rcases TransactionRecords.reserve_cases s₁.records call.input with
    ⟨record, hget, hreserve⟩ | ⟨hnone, e, hreserve⟩ | ⟨hnone, record, hmatches, hpending, hreserve⟩
  · rw [hreserve] at hlook ⊢
    have hinv' : RegistryInv call.input.transactionId careful ⟨s₁.records, s₁.trace ++ [.reserved call]⟩ gs :=
      ⟨hinv.intent_snoc (.refl _) hlook, fun hcareful => (hinv.owned hcareful).look call⟩
    refine ⟨none, hkept.symm ▸ hinv', ?_⟩
    dsimp only
    cases hsame : TransactionRegistryService.ensureSameTransactionIntent call.input record with
    | error e => exact ReturnsIntended.error
    | ok _ =>
      have hintends : call.Intends call.input.transactionId s₁.records :=
        ⟨record, hget, TransactionRegistryService.ensureSameTransactionIntent_ok hsame⟩
      rw [Async.ofExcept_ok_bind]
      cases record.status with
      | COMPLETED => exact fun _ _ => hintends
      | PENDING => exact ReturnsIntended.error
      | FAILED_TERMINAL => exact ReturnsIntended.error
      | FAILED_RETRYABLE =>
        dsimp only
        split
        case isFalse => exact ReturnsIntended.error
        case isTrue => exact wp_reopen rfl hintends
  · rw [hreserve] at hlook ⊢
    exact ⟨none, hkept.symm ▸ ⟨hinv.intent_snoc (.refl _) hlook, fun hcareful => (hinv.owned hcareful).look call⟩,
      ReturnsIntended.error⟩
  · rw [hreserve] at hlook ⊢
    have hle := TransactionRecords.le_reserve s₁.records call.input
    rw [hreserve] at hle
    exact ⟨some .reserved, ⟨hinv.intent_snoc hle hlook,
      fun hcareful => (hinv.owned hcareful).create hnone hpending i call⟩,
      wp_runHandlerWith rfl ⟨record, OrderedMap.get_set_self .., hmatches⟩⟩

end

/-! ## What holds of every run -/

abbrev RegistryConfig := Config RegistryOp RegistryOp.Result Failure RegistryState RegistryCall Response

theorem registry_sound (transactionId : String) (careful : Prop) {c : RegistryConfig}
    (hc : (registrations transactionId careful).Reachable c) :
    ∃ gs, (registryOutline transactionId careful).Tied (ReturnsIntended transactionId) c gs := by
  have hinit : RegistryInv transactionId careful ⟨.empty, []⟩ fun _ => none :=
    ⟨by simp, fun _ => .unused rfl (fun _ => rfl) ⟨rfl, rfl, rfl⟩⟩
  exact Outline.sound hinit (fun _ _ hid => wp_registryCall hid) hc

theorem registry_le {transactionId : String} {careful : Prop} {c c' : RegistryConfig}
    (hsteps : Relation.ReflTransGen (registrations transactionId careful).Step c c') :
    c.state.records.Le c'.state.records := by
  induction hsteps with
  | refl => exact .refl _
  | tail _ hstep ih =>
    cases hstep with
    | spawn => exact ih
    | crash => exact ih
    | call _ hs => exact ih.trans (RegistryStep.le hs)

/-- A step that is not a reservation marks its call as one that acts. -/
theorem RegistryStep.kept_or_acts {careful : Prop} {call : RegistryCall} {op : RegistryOp} {s s' : RegistryState}
    {r : Except Failure op.Result} (h : RegistryStep careful call op s r s') {transactionId : String}
    {record : TransactionRecord} (hget : s.records.get transactionId = some record) :
    s'.records.get transactionId = some record ∨ call ∈ s'.trace.filterMap RegistryEvent.acting := by
  cases h with
  | reserve => exact .inl (TransactionRecords.get_reserve _ hget)
  | startHandler | settleHandler => exact .inl hget
  | markPending | markCompleted | markFailed =>
    right
    simp [RegistryEvent.acting]

theorem RegistryState.acting_of_handlerRuns {s : RegistryState} {call : RegistryCall} (h : call ∈ s.handlerRuns) :
    call ∈ s.trace.filterMap RegistryEvent.acting := by
  rw [handlerRuns, List.mem_filterMap] at h
  obtain ⟨event, hmem, hrun⟩ := h
  refine List.mem_filterMap.mpr ⟨event, hmem, ?_⟩
  cases event with
  | started => exact hrun
  | _ => cases hrun

/-- **First intent.** The record stays of the movement it was made for. A call that asks for
another movement runs no handler, returns nothing and leaves the record as it finds it. -/
structure FirstIntentWins (transactionId : String) (c : RegistryConfig) : Prop where
  kept : ∀ c' record, Relation.ReflTransGen (registrations transactionId False).Step c c' →
    c.state.records.get transactionId = some record →
    ∃ record', c'.state.records.get transactionId = some record' ∧ record.SameMovement record'
  ignored : ∀ record, c.state.records.get transactionId = some record →
    ∀ t ∈ c.threads, ¬ t.request.input.Matches record →
      t.request ∉ c.state.handlerRuns ∧
      (∀ response, t.program ≠ some (.done (.ok response))) ∧
      ∀ op k r s', t.program = some (.await op k) → RegistryStep False t.request op c.state r s' →
        s'.records.get transactionId = some record

theorem first_intent_wins (transactionId : String) {c : RegistryConfig}
    (hc : (registrations transactionId False).Reachable c) : FirstIntentWins transactionId c := by
  refine ⟨fun c' record hsteps hget => registry_le hsteps transactionId record hget, ?_⟩
  intro record hget t ht hdiffers
  obtain ⟨i, hi⟩ := List.mem_iff_getElem?.mp ht
  -- a call that has acted, now or later, has the intent of the record
  have hacted : ∀ {c' : RegistryConfig}, (registrations transactionId False).Reachable c' →
      c.state.records.Le c'.state.records → t.request ∉ c'.state.trace.filterMap RegistryEvent.acting := by
    intro c' hc' hle hacts
    obtain ⟨_, htied⟩ := registry_sound transactionId False hc'
    obtain ⟨record', hget', hmatches⟩ := RegistryInv.intent htied.inv t.request hacts
    obtain ⟨record'', hget'', hsame⟩ := hle transactionId record hget
    obtain rfl : record' = record'' := Option.some.inj (hget'.symm.trans hget'')
    exact hdiffers (hsame.matches_iff.mp hmatches)
  refine ⟨fun hrun => hacted hc (.refl _) (RegistryState.acting_of_handlerRuns hrun), ?_, ?_⟩
  · intro response hdone
    obtain ⟨_, htied⟩ := registry_sound transactionId False hc
    have hi' : c.threads[i]? = some ⟨t.request, some (.done (.ok response))⟩ := by rw [hi, ← hdone]
    obtain ⟨s, hle, hreturns⟩ := htied.ended hi'
    obtain ⟨record', hget', hmatches⟩ := (hreturns response rfl).mono hle
    obtain rfl : record' = record := Option.some.inj (hget'.symm.trans hget)
    exact hdiffers hmatches
  · intro op k r s' hawaits hstep
    have hi' : c.threads[i]? = some ⟨t.request, some (.await op k)⟩ := by rw [hi, ← hawaits]
    refine (hstep.kept_or_acts hget).resolve_right ?_
    exact hacted (.step hc (.call hi' hstep)) hstep.le

/-- **Reopening.** Handlers run one at a time, one of them at most succeeds, and after it
the record is completed, or about to be. -/
structure ReopensSafely (transactionId : String) (s : RegistryState) : Prop where
  apart : s.handlerRuns.length ≤ s.outcomes.length + 1
  once : s.successes.length ≤ 1
  stays : s.completions ≠ [] → ∃ record, s.records.get transactionId = some record ∧ record.status = .COMPLETED
  kept : s.successes ≠ [] → ∃ record, s.records.get transactionId = some record ∧
    (record.status = .COMPLETED ∨ record.status = .PENDING ∧ s.completions = [])

theorem Owned.safe {transactionId : String} {s : RegistryState} {gs : Nat → Option RegistryPhase}
    (h : Owned transactionId s gs) : ReopensSafely transactionId s := by
  cases h with
  | unused _ _ htally =>
    obtain ⟨hruns, hsuccesses, hcompletions⟩ := htally
    rw [List.length_eq_zero_iff] at hsuccesses hcompletions
    exact ⟨by omega, by simp [hsuccesses], fun h => absurd hcompletions h, fun h => absurd hsuccesses h⟩
  | @idle record n hget _ _ htally hn =>
    obtain ⟨hruns, hsuccesses, hcompletions⟩ := htally
    have hmarked : n ≠ 0 → record.status = .COMPLETED := by
      rw [hn]
      split <;> simp_all
    have hone : n ≤ 1 := by
      rw [hn]
      split <;> simp
    refine ⟨by omega, by omega, fun h => ⟨record, hget, hmarked ?_⟩, fun h => ⟨record, hget, .inl (hmarked ?_)⟩⟩
    · rwa [← hcompletions, ne_eq, List.length_eq_zero_iff]
    · rwa [← hsuccesses, ne_eq, List.length_eq_zero_iff]
  | @busy _ phase record _ _ hget hpending htally =>
    obtain ⟨hruns, hsuccesses, hcompletions⟩ := htally
    rw [List.length_eq_zero_iff] at hcompletions
    have hphase : phase.running ≤ 1 ∧ phase.succeeded ≤ 1 := by
      unfold RegistryPhase.running RegistryPhase.succeeded
      constructor <;> split <;> simp
    exact ⟨by omega, by omega, fun h => absurd hcompletions h, fun _ => ⟨record, hget, .inr ⟨hpending, hcompletions⟩⟩⟩

/-- In the runs in which a record is opened again only while it is a failed one. -/
theorem reopens_safely (transactionId : String) {c : RegistryConfig}
    (hc : (registrations transactionId True).Reachable c) : ReopensSafely transactionId c.state := by
  obtain ⟨_, htied⟩ := registry_sound transactionId True hc
  exact (RegistryInv.owned htied.inv trivial).safe

/-! ## Runs in which every call goes on alone, for as long as it is let -/

namespace RegistryCall

/-- What `call` is answered when its handler settles with `outcome`; a careful
call that would reopen a record which is no longer a failed one is left waiting. -/
def answer (careful : Prop) [Decidable careful] (call : RegistryCall) (outcome : Except Failure Response)
    (op : RegistryOp) (s : RegistryState) : Option (Except Failure op.Result × RegistryState) :=
  match op with
  | .reserve input => some ((s.records.reserve input).1, ⟨(s.records.reserve input).2, s.trace ++ [.reserved call]⟩)
  | .markPending transactionId =>
    if careful ∧ (s.records.get transactionId).any (·.status ≠ .FAILED_RETRYABLE) then none
    else some (.ok (), ⟨s.records.markPending transactionId, s.trace ++ [.reopened call]⟩)
  | .markCompleted transactionId =>
    some (.ok (), ⟨s.records.markCompleted transactionId, s.trace ++ [.completed call]⟩)
  | .markFailed transactionId errorMessage status =>
    some (.ok (), ⟨s.records.markFailed transactionId errorMessage status, s.trace ++ [.failed call]⟩)
  | .startHandler => some (.ok (), ⟨s.records, s.trace ++ [.started call]⟩)
  | .settleHandler => some (outcome, ⟨s.records, s.trace ++ [.settled call outcome]⟩)

theorem step_of_answer {careful : Prop} [Decidable careful] {call : RegistryCall} {outcome : Except Failure Response}
    {op : RegistryOp} {s s' : RegistryState} {r : Except Failure op.Result}
    (h : call.answer careful outcome op s = some (r, s')) : RegistryStep careful call op s r s' := by
  cases op with
  | settleHandler =>
    cases h
    exact .settleHandler _
  | markPending transactionId =>
    simp only [answer] at h
    split at h
    case isTrue => cases h
    case isFalse hopens =>
      cases h
      refine .markPending fun hcareful record hget => ?_
      by_contra hne
      exact hopens ⟨hcareful, by simp [hget, hne]⟩
  | _ =>
    cases h
    constructor

def retried (amount : Amount) : RegistryCall :=
  ⟨⟨"txn-1", "acc-1", .DEPOSIT, amount, "USD", some "key-1"⟩, ⟨true, fun _ => true⟩⟩

end RegistryCall

def registryRun (careful : Prop) [Decidable careful] (outcome : Nat → Except Failure Response)
    (moves : List (System.Move RegistryCall)) : RegistryConfig :=
  (registrations "txn-1" careful).schedule (fun i call => call.answer careful (outcome i)) moves

theorem registryRun_reachable (careful : Prop) [Decidable careful] {outcome : Nat → Except Failure Response}
    {moves : List (System.Move RegistryCall)}
    (hmoves : (moves.all fun
      | .serve call _ => call.input.transactionId = "txn-1"
      | .resume .. => true) = true) :
    (registrations "txn-1" careful).Reachable (registryRun careful outcome moves) := by
  refine System.reachable_schedule moves (fun call n hmem => ?_) RegistryCall.step_of_answer
  have hid : call.input.transactionId = "txn-1" := by simpa using List.all_eq_true.mp hmoves _ hmem
  exact hid

def accepts (_ : Nat) : Except Failure Response := .ok { status := "accepted" }

def failsFirst (i : Nat) : Except Failure Response := if i = 0 then .error (.error "connection lost") else accepts i

/-- A number, the same amount as text while the first call runs and after it has ended, and another amount. -/
def sameIntents : List (System.Move RegistryCall) :=
  [.serve (.retried (.number ⟨"10.25"⟩)) 2, .serve (.retried (.text "10.25")) 9, .resume 0 9,
    .serve (.retried (.text "10.25")) 9, .serve (.retried (.text "10.35")) 9]

theorem first_intent_wins_sameIntents :
    ((registryRun False accepts sameIntents).threads.map Thread.returned) = [true, false, true, false] ∧
      FirstIntentWins "txn-1" (registryRun False accepts sameIntents) :=
  ⟨by decide +kernel, first_intent_wins "txn-1" (registryRun_reachable False (by decide +kernel))⟩

def retriedCall : RegistryCall := .retried (.number ⟨"10.25"⟩)

/-- A call fails, and another one opens the record again. -/
def retriedAlone : List (System.Move RegistryCall) := [.serve retriedCall 9, .serve retriedCall 9]

theorem reopens_safely_retriedAlone :
    (registryRun True failsFirst retriedAlone).state.completions.length = 1 ∧
      ReopensSafely "txn-1" (registryRun True failsFirst retriedAlone).state :=
  ⟨by decide +kernel, reopens_safely "txn-1" (registryRun_reachable True (by decide +kernel))⟩

/-- Two calls find the record failed before either of them opens it again. -/
def retriedTwice : List (System.Move RegistryCall) :=
  [.serve retriedCall 9, .serve retriedCall 1, .serve retriedCall 1, .resume 1 9, .resume 2 9]

theorem not_reopens_safely :
    ¬ ∀ c, (registrations "txn-1" False).Reachable c → (∀ t ∈ c.threads, t.request.options.retryFailed = true) →
      ReopensSafely "txn-1" c.state := by
  intro h
  have hsafe := h (registryRun False failsFirst retriedTwice)
    (registryRun_reachable False (by decide +kernel)) (by decide +kernel)
  have htwice : (registryRun False failsFirst retriedTwice).state.successes.length = 2 := by decide +kernel
  exact absurd hsafe.once (by omega)

end CoreBanking
