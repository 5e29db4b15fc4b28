import CoreBanking.TransferHistory

/-!
# Calls of one transfer aggregate

A new aggregate takes any calls, each accepted or rejected. The guards of the
calls look at the status; whether the failure stage that a caller names fits the
status is not checked, and decides what may be refunded.
-/

namespace CoreBanking

structure TransferCall where
  method : TransferMethod
  context : CommandContext
  stamp : Stamp
  deriving DecidableEq

namespace TransferAggregate

def attempt (transfer : TransferAggregate) (c : TransferCall) : TransferAggregate :=
  match c.method.call c.context c.stamp transfer with
  | .ok transfer' => transfer'
  | .error _ => transfer

def afterCalls (calls : List TransferCall) : TransferAggregate := calls.foldl attempt {}

theorem afterCalls_snoc (calls : List TransferCall) (c : TransferCall) :
    afterCalls (calls ++ [c]) = (afterCalls calls).attempt c := List.foldl_concat ..

def Named (calls : List TransferCall) : Prop := ∀ c ∈ calls, c.method.initiates ≠ some ""

variable {transfer : TransferAggregate} {c : TransferCall} {calls : List TransferCall} {event : DomainEvent}

theorem attempt_cases (transfer : TransferAggregate) (c : TransferCall) :
    ((∃ e, c.method.call c.context c.stamp transfer = .error e) ∧ transfer.attempt c = transfer) ∨
    ∃ data, c.method.Emits transfer data ∧ transfer.attempt c =
      transfer.apply (transfer.makeEvent data (c.method.dataTransferId transfer) c.context c.stamp) := by
  unfold attempt
  cases h : c.method.call c.context c.stamp transfer with
  | error e => exact .inl ⟨⟨e, rfl⟩, rfl⟩
  | ok transfer' => exact .inr (TransferMethod.call_ok.mp h)

/-! ## The events of an aggregate -/

theorem emits_congr (l : List DomainEvent) {method : TransferMethod} {data : EventData}
    (h : method.Emits transfer data) : method.Emits { transfer with uncommittedEvents := l } data := by
  cases h with
  | initiate hid hne hn hpos => exact .initiate hid hne hn hpos
  | startDebit hs => exact .startDebit hs
  | markDebited hs => exact .markDebited hs
  | startCredit hs => exact .startCredit hs
  | complete hs => exact .complete hs
  | fail hs hr => exact .fail hs hr
  | startCompensation hs hf => exact .startCompensation hs hf
  | markCompensated hs => exact .markCompensated hs

theorem when_congr (l : List DomainEvent) (event : DomainEvent) :
    ({ transfer with uncommittedEvents := l } : TransferAggregate).when event =
      { transfer.when event with uncommittedEvents := l } := by
  unfold when
  cases event.data <;> rfl

theorem afterCalls_replay (calls : List TransferCall) : afterCalls calls =
    { replay (afterCalls calls).uncommittedEvents with uncommittedEvents := (afterCalls calls).uncommittedEvents } := by
  induction calls using List.reverseRecOn with
  | nil => rfl
  | append_singleton calls c ih =>
    rw [afterCalls_snoc]
    rcases attempt_cases (afterCalls calls) c with ⟨-, hsame⟩ | ⟨data, -, hnext⟩
    · rw [hsame]
      exact ih
    · rw [hnext]
      simp only [apply, replay_snoc]
      generalize (afterCalls calls).makeEvent _ _ _ _ = event
      conv_lhs => rw [ih, when_congr]

theorem afterCalls_stream (hnamed : Named calls) :
    ∃ transferId, transferId ≠ "" ∧ TransferStream transferId (afterCalls calls).uncommittedEvents := by
  induction calls using List.reverseRecOn with
  | nil => exact ⟨"transfer", by decide, .nil⟩
  | append_singleton calls c ih =>
    obtain ⟨transferId, hne, hstream⟩ := ih fun c hc => hnamed c (List.mem_append_left _ hc)
    rw [afterCalls_snoc]
    rcases attempt_cases (afterCalls calls) c with ⟨-, hsame⟩ | ⟨data, hemits, hnext⟩
    · rw [hsame]
      exact ⟨transferId, hne, hstream⟩
    · have hreplay : replay (afterCalls calls).uncommittedEvents =
        { afterCalls calls with uncommittedEvents := [] } := by
        conv_rhs => rw [afterCalls_replay calls]
        have hu := replay_uncommittedEvents (afterCalls calls).uncommittedEvents
        generalize replay (afterCalls calls).uncommittedEvents = replayed at hu
        cases replayed
        cases hu
        rfl
      have hcommits : c.method.Commits c.context (replay (afterCalls calls).uncommittedEvents)
          ((afterCalls calls).makeEvent data (c.method.dataTransferId (afterCalls calls)) c.context c.stamp) := by
        rw [hreplay]
        have h := @TransferMethod.Commits.mk _ c.context _ _ c.stamp (emits_congr [] hemits)
        cases hm : c.method <;> rw [hm] at h <;> exact h
      rw [hnext]
      by_cases hnil : (afterCalls calls).uncommittedEvents = []
      · -- the first accepted call names the transfer
        rw [hnil] at hcommits
        simp only [apply, hnil, List.nil_append]
        have hnew : afterCalls calls = {} := by
          rw [afterCalls_replay calls, hnil]
          rfl
        rw [hnew] at hemits
        obtain ⟨t, terms, amount, hmethod, -⟩ := hemits.of_new
        refine ⟨t, ?_, TransferStream.commit .nil ?_ hcommits⟩
        · rintro rfl
          exact hnamed c (by simp) (by rw [hmethod]; rfl)
        · rw [hmethod]
          exact fun t ht => (Option.some.inj ht).symm
      · refine ⟨transferId, hne, hstream.commit ?_ hcommits⟩
        obtain ⟨terms, -, -, -, hhas⟩ := hstream.terms hne hnil
        have hid : truthy (afterCalls calls).transferId = true := by
          rw [afterCalls_replay calls]
          simp [hhas.1, truthy, hne]
        intro t ht
        rw [hemits.initiates_none hid] at ht
        cases ht

/-! ## Which transfers have been debited -/

def Debited (transfer : TransferAggregate) : Prop :=
  ∃ event ∈ transfer.uncommittedEvents, event.data.finished = some .debit

theorem debited_apply : (transfer.apply event).Debited ↔ transfer.Debited ∨ event.data.finished = some .debit := by
  simp [Debited, apply, or_and_right, exists_or]

/-- What the status says of a transfer, whatever stages its callers name. -/
structure StatusFacts (status : Option TransferStatus) (failureStage : Option FailureStage) (named debited : Prop) :
    Prop where
  paid : status ∈ [some .DEBITED, some .CREDIT_IN_PROGRESS, some .COMPLETED] → debited
  unpaid : status ∈ [none, some .INITIATED, some .DEBIT_IN_PROGRESS] → ¬ debited
  named : status ≠ none → named
  staged : failureStage ≠ none → status ∈ [some .FAILED, some .COMPENSATION_IN_PROGRESS, some .COMPENSATED]
  failed : status = some .FAILED → failureStage ≠ none
  refunded : status ∈ [some .COMPENSATION_IN_PROGRESS, some .COMPENSATED] → failureStage = some .CREDIT

def Statused (transfer : TransferAggregate) : Prop :=
  StatusFacts transfer.status transfer.failureStage (truthy transfer.transferId = true) transfer.Debited

theorem Statused.attempt (h : transfer.Statused) (hid : c.method.initiates ≠ some "") :
    (transfer.attempt c).Statused := by
  rcases attempt_cases transfer c with ⟨-, hsame⟩ | ⟨data, hemits, hnext⟩
  · rw [hsame]
    exact h
  · rw [hnext, Statused, propext debited_apply, makeEvent_data]
    simp only [apply, when, makeEvent]
    clear hnext
    obtain ⟨method, context, stamp⟩ := c
    obtain ⟨hpaid, hunpaid, hnamed, hstaged, hfailed, hrefunded⟩ := h
    cases hemits with
    | initiate hnew =>
      have hstatus : transfer.status = none := by
        by_contra hne
        rw [hnamed hne] at hnew
        cases hnew
      have hund := hunpaid (by simp [hstatus])
      constructor <;> simp_all [EventData.finished, truthy, TransferMethod.initiates]
    | startDebit hs =>
      constructor <;> rcases hs with hs | hs <;> simp_all [EventData.finished]
    | markDebited hs => constructor <;> simp_all [EventData.finished]
    | startCredit hs =>
      constructor <;> rcases hs with hs | hs <;> simp_all [EventData.finished]
    | complete hs => constructor <;> simp_all [EventData.finished]
    | fail hs =>
      constructor <;> rcases hs with hs | hs <;> simp_all [EventData.finished]
    | startCompensation hs hf =>
      constructor <;> rcases hs with hs | hs <;> simp_all [EventData.finished]
    | markCompensated hs => constructor <;> simp_all [EventData.finished]

theorem afterCalls_statused (hnamed : Named calls) : (afterCalls calls).Statused := by
  induction calls using List.reverseRecOn with
  | nil =>
    constructor
    case unpaid => simp [Debited, afterCalls]
    all_goals simp [afterCalls]
  | append_singleton calls c ih =>
    rw [afterCalls_snoc]
    exact (ih fun c hc => hnamed c (List.mem_append_left _ hc)).attempt (hnamed c (by simp))

/-! ## What may be refunded -/

/-- A caller that fails a transfer names the leg that is under way. -/
def NamesLeg (transfer : TransferAggregate) : TransferMethod → Prop
  | .fail reason stage => reason ≠ "" →
      (transfer.status = some .DEBIT_IN_PROGRESS → stage = .DEBIT) ∧
      (transfer.status = some .CREDIT_IN_PROGRESS → stage = .CREDIT)
  | _ => True

instance (transfer : TransferAggregate) (method : TransferMethod) : Decidable (transfer.NamesLeg method) :=
  match method with
  | .fail reason stage => inferInstanceAs (Decidable (reason ≠ "" →
      (transfer.status = some .DEBIT_IN_PROGRESS → stage = .DEBIT) ∧
      (transfer.status = some .CREDIT_IN_PROGRESS → stage = .CREDIT)))
  | .initiate .. | .startDebit _ | .markDebited | .startCredit _ | .complete | .startCompensation _
  | .markCompensated => .isTrue trivial

/-- The stage of a failure tells whether there is something to refund; a transfer that has
been debited and has failed can be compensated, no other can, and what has ended stays. -/
structure RefundsDebits (transfer : TransferAggregate) : Prop where
  credit : transfer.failureStage = some .CREDIT → transfer.Debited
  debit : transfer.failureStage = some .DEBIT → ¬ transfer.Debited
  only : ∀ transactionId context stamp transfer',
    transfer.startCompensation transactionId context stamp = .ok transfer' → transfer.Debited
  refundable : transfer.status = some .FAILED → transfer.Debited → ∀ transactionId context stamp context' stamp',
    ∃ started compensated, transfer.startCompensation transactionId context stamp = .ok started ∧
      started.markCompensated context' stamp' = .ok compensated
  ended : transfer.status = some .COMPLETED ∨ transfer.status = some .COMPENSATED ∨
      transfer.status = some .FAILED ∧ transfer.failureStage = some .DEBIT →
    ∀ (method : TransferMethod) context stamp transfer', method.call context stamp transfer ≠ .ok transfer'

theorem Statused.refundsDebits (h : transfer.Statused)
    (hcredit : transfer.failureStage = some .CREDIT → transfer.Debited)
    (hdebit : transfer.failureStage = some .DEBIT → ¬ transfer.Debited) : transfer.RefundsDebits where
  credit := hcredit
  debit := hdebit
  only := by
    intro transactionId context stamp transfer' hok
    obtain ⟨data, hemits, -⟩ :=
      TransferMethod.call_ok.mp (show TransferMethod.call context stamp transfer (.startCompensation transactionId) = _
        from hok)
    cases hemits with
    | startCompensation hs hf => exact hcredit hf
  refundable := by
    intro hfailed hdebited transactionId context stamp context' stamp'
    have hstage : transfer.failureStage = some .CREDIT := by
      cases hs : transfer.failureStage with
      | none => exact absurd hs (h.failed hfailed)
      | some stage =>
        cases stage with
        | DEBIT => exact absurd hdebited (hdebit hs)
        | CREDIT => rfl
    have hstarted : TransferMethod.call context stamp transfer (.startCompensation transactionId) = .ok _ :=
      TransferMethod.call_ok.mpr ⟨_, .startCompensation (.inl hfailed) hstage, rfl⟩
    generalize hnext : transfer.apply _ = started at hstarted
    have hstatus : started.status = some .COMPENSATION_IN_PROGRESS := by
      rw [← hnext]
      rfl
    have hmarked : TransferMethod.call context' stamp' started .markCompensated = .ok _ :=
      TransferMethod.call_ok.mpr ⟨_, .markCompensated hstatus, rfl⟩
    exact ⟨started, _, hstarted, hmarked⟩
  ended := by
    intro hended method context stamp transfer' hok
    obtain ⟨data, hemits, -⟩ := TransferMethod.call_ok.mp hok
    cases hemits with
    | initiate hnew =>
      rw [h.named (by rcases hended with hs | hs | ⟨hs, -⟩ <;> simp [hs])] at hnew
      cases hnew
    | startDebit hs | startCredit hs => rcases hs with hs | hs <;> simp [hs] at hended
    | markDebited hs | complete hs | markCompensated hs => simp [hs] at hended
    | fail hs => rcases hs with hs | hs <;> simp [hs] at hended
    | startCompensation hs hf => rcases hs with hs | hs <;> simp [hs, hf] at hended

/-- **Step.** A call keeps the stages right where its caller names the leg under way. -/
theorem Statused.stages_attempt (h : transfer.Statused) (hnames : transfer.NamesLeg c.method)
    (hcredit : transfer.failureStage = some .CREDIT → transfer.Debited)
    (hdebit : transfer.failureStage = some .DEBIT → ¬ transfer.Debited) :
    ((transfer.attempt c).failureStage = some .CREDIT → (transfer.attempt c).Debited) ∧
    ((transfer.attempt c).failureStage = some .DEBIT → ¬ (transfer.attempt c).Debited) := by
  rcases attempt_cases transfer c with ⟨-, hsame⟩ | ⟨data, hemits, hnext⟩
  · rw [hsame]
    exact ⟨hcredit, hdebit⟩
  · rw [hnext, propext debited_apply, makeEvent_data]
    simp only [apply, when, makeEvent]
    clear hnext
    obtain ⟨method, context, stamp⟩ := c
    obtain ⟨hpaid, hunpaid, hnamed, hstaged, hfailed, hrefunded⟩ := h
    cases hemits with
    | fail hs hr =>
      obtain ⟨hd, hc⟩ := hnames hr
      rcases hs with hs | hs
      · simp_all [EventData.finished]
      · simp_all [EventData.finished]
    | markDebited hs => simp_all [EventData.finished]
    | _ => simp_all [EventData.finished]

theorem named_of_isPrefix {p : List TransferCall} (hnamed : Named calls) (hp : p <+: calls) : Named p :=
  fun c hc => hnamed c (hp.subset hc)

/-- **Run.** The stages stay right. -/
theorem afterCalls_refundsDebits (hnamed : Named calls)
    (hnames : ∀ p c, p ++ [c] <+: calls → (afterCalls p).NamesLeg c.method) : (afterCalls calls).RefundsDebits := by
  suffices h : ((afterCalls calls).failureStage = some .CREDIT → (afterCalls calls).Debited) ∧
      ((afterCalls calls).failureStage = some .DEBIT → ¬ (afterCalls calls).Debited) from
    (afterCalls_statused hnamed).refundsDebits h.1 h.2
  induction calls using List.reverseRecOn with
  | nil => constructor <;> intro hs <;> cases hs
  | append_singleton calls c ih =>
    have hsub : calls <+: calls ++ [c] := List.prefix_append ..
    obtain ⟨hcredit, hdebit⟩ := ih (named_of_isPrefix hnamed hsub) fun p c' hp => hnames p c' (hp.trans hsub)
    rw [afterCalls_snoc]
    exact (afterCalls_statused (named_of_isPrefix hnamed hsub)).stages_attempt (hnames calls c (List.prefix_refl _))
      hcredit hdebit

/-- A caller that names the other leg is believed. -/
theorem Statused.namesLeg (h : transfer.Statused) (hafter : (transfer.attempt c).RefundsDebits) :
    transfer.NamesLeg c.method := by
  obtain ⟨method, context, stamp⟩ := c
  cases method with
  | fail reason stage =>
    intro hr
    have hnext (hs : transfer.status = some .DEBIT_IN_PROGRESS ∨ transfer.status = some .CREDIT_IN_PROGRESS) :
        transfer.attempt ⟨.fail reason stage, context, stamp⟩ = transfer.apply (transfer.makeEvent
        (.TransferFailed transfer.transferId reason stage) transfer.transferId context stamp) := by
      have hok : TransferMethod.call context stamp transfer (.fail reason stage) = .ok _ :=
        TransferMethod.call_ok.mpr ⟨_, .fail hs hr, rfl⟩
      rw [TransferAggregate.attempt]
      simp only [hok]
      rfl
    constructor
    · intro hs
      rw [hnext (.inl hs)] at hafter
      cases stage with
      | DEBIT => rfl
      | CREDIT =>
        have hdebited := debited_apply.mp (hafter.credit rfl)
        exact absurd (hdebited.resolve_right nofun) (h.unpaid (by simp [hs]))
    · intro hs
      rw [hnext (.inr hs)] at hafter
      cases stage with
      | CREDIT => rfl
      | DEBIT => exact absurd (debited_apply.mpr (.inl (h.paid (by simp [hs])))) (hafter.debit rfl)
  | _ => trivial

/-- Refunds follow debits, in every state that calls on a new aggregate reach, if and only
if every accepted failure names the leg that is under way. -/
theorem refunds_debits_iff (calls : List TransferCall) (hnamed : Named calls) :
    (∀ p, p <+: calls → (afterCalls p).RefundsDebits) ↔
      ∀ p c, p ++ [c] <+: calls → (afterCalls p).NamesLeg c.method := by
  constructor
  · intro h p c hp
    have hsub : p <+: calls := (List.prefix_append p [c]).trans hp
    exact (afterCalls_statused (named_of_isPrefix hnamed hsub)).namesLeg (afterCalls_snoc p c ▸ h _ hp)
  · intro h p hp
    exact afterCalls_refundsDebits (named_of_isPrefix hnamed hp) fun p' c hp' => h p' c (hp'.trans hp)

def sampleCalls (methods : List TransferMethod) : List TransferCall :=
  methods.mapIdx fun n method => ⟨method, ⟨"cmd-1", "corr-1", none, some "tester", none⟩, ⟨s!"event-{n}", n⟩⟩

def refundedCalls : List TransferCall :=
  sampleCalls [.initiate "trf-1" "acc-1" "acc-2" (.text "100") "NGN", .startDebit "trf-1:debit", .markDebited,
    .startCredit "trf-1:credit", .fail "Account is not active" .CREDIT, .startCompensation "trf-1:comp",
    .markCompensated]

theorem refunds_debits_iff_refunded :
    (afterCalls refundedCalls).RefundsDebits ∧ (afterCalls refundedCalls).status = some .COMPENSATED := by
  refine ⟨(refunds_debits_iff refundedCalls (by unfold Named; decide)).mpr ?_ _ (List.prefix_refl _), by decide +kernel⟩
  intro p c hp
  have hall : ∀ k < refundedCalls.length, ∀ c ∈ refundedCalls[k]?,
      (afterCalls (refundedCalls.take k)).NamesLeg c.method := by decide +kernel
  obtain ⟨r, hr⟩ := hp
  have htake : refundedCalls.take p.length = p := by simp [← hr]
  have hget : refundedCalls[p.length]? = some c := by simp [← hr]
  have h := hall p.length (by rw [← hr]; simp) c hget
  rwa [htake] at h

/-- A debit that a caller fails as a credit. -/
def misnamedCalls : List TransferCall :=
  sampleCalls [.initiate "trf-1" "acc-1" "acc-2" (.text "100") "NGN", .startDebit "trf-1:debit",
    .fail "Insufficient funds" .CREDIT]

theorem not_refunds_debits : ¬ ∀ calls, Named calls → (afterCalls calls).RefundsDebits := by
  intro h
  have hall := h misnamedCalls (by unfold Named; decide)
  have hdebited := hall.credit (by decide +kernel)
  exact absurd hdebited (by unfold Debited; decide +kernel)

end TransferAggregate

end CoreBanking
