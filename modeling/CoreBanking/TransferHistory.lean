import CoreBanking.Lib.Numbered
import CoreBanking.Services
import Mathlib.Data.List.Induction

/-!
# Transfer histories

The streams that accepted commands on one transfer can make. What a transfer
replays to is tied to the events of its stream: its terms are those it was
initiated with, and each status and each remembered id has an event behind it.
-/

namespace CoreBanking

namespace TransferAggregate

@[simp] theorem when_version (transfer : TransferAggregate) (event : DomainEvent) :
    (transfer.when event).version = event.streamVersion := by
  unfold when
  split <;> rfl

@[simp] theorem when_updatedAt (transfer : TransferAggregate) (event : DomainEvent) :
    (transfer.when event).updatedAt = some event.occurredAt := by
  unfold when
  split <;> rfl

@[simp] theorem when_uncommittedEvents (transfer : TransferAggregate) (event : DomainEvent) :
    (transfer.when event).uncommittedEvents = transfer.uncommittedEvents := by
  unfold when
  split <;> rfl

@[simp] theorem loadFromHistory_uncommittedEvents (es : List DomainEvent) (transfer : TransferAggregate) :
    (transfer.loadFromHistory es).uncommittedEvents = transfer.uncommittedEvents := by
  induction es generalizing transfer with
  | nil => rfl
  | cons e es ih => exact (ih _).trans (when_uncommittedEvents transfer e)

@[simp] theorem replay_nil : replay [] = {} := rfl

theorem replay_snoc (es : List DomainEvent) (e : DomainEvent) : replay (es ++ [e]) = (replay es).when e :=
  List.foldl_append

@[simp] theorem replay_uncommittedEvents (es : List DomainEvent) : (replay es).uncommittedEvents = [] :=
  loadFromHistory_uncommittedEvents es {}

@[simp] theorem makeEvent_data (transfer : TransferAggregate) (data : EventData) (dataTransferId : Option String)
    (context : CommandContext) (stamp : Stamp) :
    (transfer.makeEvent data dataTransferId context stamp).data = data := rfl

end TransferAggregate

open TransferAggregate (replay replay_snoc)

inductive TransferMethod.Commits (method : TransferMethod) (context : CommandContext) (transfer : TransferAggregate) :
    DomainEvent → Prop
  | mk {data} (stamp : Stamp) : method.Emits transfer data →
      method.Commits context transfer (transfer.makeEvent data (method.dataTransferId transfer) context stamp)

def TransferCommand.Commits (cmd : TransferCommand) (transfer : TransferAggregate) : DomainEvent → Prop :=
  cmd.method.Commits cmd.context transfer

inductive TransferHistory (transferId : String) : List DomainEvent → Prop
  | nil : TransferHistory transferId []
  | commit {es cmd event} : TransferHistory transferId es → TransferCommand.transferId cmd = transferId →
      cmd.Commits (replay es) event → TransferHistory transferId (es ++ [event])

def TransferMethod.initiates : TransferMethod → Option String
  | .initiate transferId .. => some transferId
  | _ => none

/-- The streams that calls of the aggregate make, with any amounts and contexts. -/
inductive TransferStream (transferId : String) : List DomainEvent → Prop
  | nil : TransferStream transferId []
  | commit {es method context event} : TransferStream transferId es →
      (∀ t ∈ TransferMethod.initiates method, t = transferId) → method.Commits context (replay es) event →
      TransferStream transferId (es ++ [event])

theorem TransferHistory.stream {transferId : String} {es : List DomainEvent} (h : TransferHistory transferId es) :
    TransferStream transferId es := by
  induction h with
  | nil => exact .nil
  | @commit es cmd event h hid hc ih =>
    refine ih.commit ?_ hc
    intro t ht
    cases cmd with
    | InitiateTransfer => exact (Option.some.inj ht).symm.trans hid
    | _ => cases ht

theorem TransferMethod.Commits.streamVersion {method : TransferMethod} {context : CommandContext}
    {transfer : TransferAggregate} {event : DomainEvent} (h : method.Commits context transfer event) :
    event.streamVersion = transfer.version + 1 := by
  cases h; rfl

theorem TransferCommand.Commits.streamVersion {cmd : TransferCommand} {transfer : TransferAggregate}
    {event : DomainEvent} (h : cmd.Commits transfer event) : event.streamVersion = transfer.version + 1 := by
  cases h; rfl

theorem TransferCommand.Commits.metadata {cmd : TransferCommand} {transfer : TransferAggregate}
    {event : DomainEvent} (h : cmd.Commits transfer event) : event.metadata = cmd.context := by
  cases h; rfl

/-- An accepted operation on a replayed transfer leaves one event to commit. -/
theorem TransferCommand.operation_replay {stamp : Stamp} {es : List DomainEvent} {transfer' : TransferAggregate}
    {cmd : TransferCommand} (h : cmd.operation stamp (replay es) = .ok transfer') :
    ∃ event, cmd.Commits (replay es) event ∧
      transfer' = { replay (es ++ [event]) with uncommittedEvents := [event] } := by
  obtain ⟨data, he, rfl⟩ := TransferCommand.operation_ok.mp h
  exact ⟨_, .mk stamp he, by simp [TransferAggregate.apply, replay_snoc]⟩

/-! ## What an event records -/

def EventData.transferId : EventData → Option String
  | .TransferInitiated transferId .. => some transferId
  | .TransferDebitStarted transferId _ _ => transferId
  | .TransferDebited transferId _ => transferId
  | .TransferCreditStarted transferId _ _ => transferId
  | .TransferCompleted transferId => transferId
  | .TransferFailed transferId _ _ => transferId
  | .TransferCompensationStarted transferId _ _ => transferId
  | .TransferCompensated transferId _ => transferId
  | _ => none

def EventData.started : EventData → Option (Leg × String)
  | .TransferDebitStarted _ transactionId _ => some (.debit, transactionId)
  | .TransferCreditStarted _ transactionId _ => some (.credit, transactionId)
  | .TransferCompensationStarted _ transactionId _ => some (.compensation, transactionId)
  | _ => none

def EventData.finished : EventData → Option Leg
  | .TransferDebited .. => some .debit
  | .TransferCompleted _ => some .credit
  | .TransferCompensated .. => some .compensation
  | _ => none

def EventData.failed : EventData → Option FailureStage
  | .TransferFailed _ _ stage => some stage
  | _ => none

structure TransferTerms where
  sourceAccountId : String
  destinationAccountId : String
  amountMinorUnits : Int
  currency : String
  deriving DecidableEq

def EventData.terms : EventData → Option TransferTerms
  | .TransferInitiated _ sourceAccountId destinationAccountId amount currency =>
    some ⟨sourceAccountId, destinationAccountId, amount.minorUnits, currency⟩
  | _ => none

def termsOf (es : List DomainEvent) : Option TransferTerms := es.head?.bind fun event => event.data.terms

theorem termsOf_snoc {es : List DomainEvent} (hes : es ≠ []) (event : DomainEvent) :
    termsOf (es ++ [event]) = termsOf es := by
  simp [termsOf, List.head?_append_of_ne_nil _ hes]

theorem termsOf_mono {es fs : List DomainEvent} (hp : es <+: fs) {terms : TransferTerms}
    (h : termsOf es = some terms) : termsOf fs = some terms := by
  obtain ⟨r, rfl⟩ := hp
  cases es with
  | nil => cases h
  | cons e es => exact h

def TransferAggregate.HasTerms (transfer : TransferAggregate) (transferId : String) (terms : TransferTerms) : Prop :=
  transfer.transferId = some transferId ∧ transfer.sourceAccountId = some terms.sourceAccountId ∧
  transfer.destinationAccountId = some terms.destinationAccountId ∧
  transfer.amountMinorUnits = terms.amountMinorUnits ∧ transfer.currency = some terms.currency

theorem TransferAggregate.HasTerms.when {transfer : TransferAggregate} {transferId : String} {terms : TransferTerms}
    (h : transfer.HasTerms transferId terms) {event : DomainEvent} (he : event.data.terms = none) :
    (transfer.when event).HasTerms transferId terms := by
  unfold TransferAggregate.when
  cases hd : event.data <;> first | exact h | (rw [hd] at he; cases he)

/-- Only an initiation is accepted on a transfer that does not exist. -/
theorem TransferMethod.Emits.of_new {method : TransferMethod} {data : EventData} (h : method.Emits {} data) :
    ∃ (transferId : String) (terms : TransferTerms) (amount : Amount),
      method = .initiate transferId terms.sourceAccountId terms.destinationAccountId amount terms.currency ∧
      data = .TransferInitiated transferId terms.sourceAccountId terms.destinationAccountId
        (.format terms.amountMinorUnits) terms.currency ∧
      terms.sourceAccountId ≠ terms.destinationAccountId ∧
      parseMoneyToMinorUnits amount = .ok terms.amountMinorUnits ∧ 0 < terms.amountMinorUnits := by
  cases h with
  | @initiate t src dst amount cur n hid hsd hn hpos =>
    exact ⟨t, ⟨src, dst, n, cur⟩, amount, rfl, rfl, hsd, hn, hpos⟩
  | startDebit hs | startCredit hs => rcases hs with hs | hs <;> cases hs
  | markDebited hs | complete hs | markCompensated hs => cases hs
  | fail hs => rcases hs with hs | hs <;> cases hs
  | startCompensation hs => rcases hs with hs | hs <;> cases hs

/-- A call other than the first leaves the terms alone. -/
theorem TransferMethod.Emits.terms_none {transfer : TransferAggregate} {method : TransferMethod} {data : EventData}
    (h : method.Emits transfer data) (hid : truthy transfer.transferId = true) : data.terms = none := by
  cases h with
  | initiate hid' => rw [hid] at hid'; cases hid'
  | _ => rfl

theorem TransferMethod.Emits.initiates_none {transfer : TransferAggregate} {method : TransferMethod} {data : EventData}
    (h : method.Emits transfer data) (hid : truthy transfer.transferId = true) : method.initiates = none := by
  cases h with
  | initiate hid' => rw [hid] at hid'; cases hid'
  | _ => rfl

namespace TransferStream

variable {transferId : String} {es fs : List DomainEvent} {event : DomainEvent}

theorem snoc_inv (h : TransferStream transferId (es ++ [event])) :
    TransferStream transferId es ∧
      ∃ (method : TransferMethod) (context : CommandContext), (∀ t ∈ method.initiates, t = transferId) ∧
        method.Commits context (replay es) event := by
  generalize hfs : es ++ [event] = fs at h
  cases h with
  | nil => simp at hfs
  | commit h hid hc =>
    obtain ⟨rfl, he⟩ := List.append_inj' hfs rfl
    obtain rfl := List.singleton_inj.mp he
    exact ⟨h, _, _, hid, hc⟩

theorem of_append (h : TransferStream transferId (es ++ fs)) : TransferStream transferId es := by
  induction fs using List.reverseRecOn with
  | nil => simpa using h
  | append_singleton fs e ih =>
    rw [← List.append_assoc] at h
    exact ih h.snoc_inv.1

theorem anti (h : TransferStream transferId fs) (hp : es <+: fs) : TransferStream transferId es := by
  obtain ⟨r, rfl⟩ := hp
  exact h.of_append

theorem version (h : TransferStream transferId es) : (replay es).version = es.length := by
  induction h with
  | nil => rfl
  | @commit es method context event h hid hc ih =>
    rw [replay_snoc, TransferAggregate.when_version, hc.streamVersion, ih, List.length_append,
      List.length_singleton]

theorem numbered (h : TransferStream transferId es) : Numbered DomainEvent.streamVersion es := by
  induction h with
  | nil => exact .nil
  | @commit es method context e h hid hc ih => exact ih.snoc (by rw [hc.streamVersion, h.version])

/-! ## Events behind the state -/

section
variable (hne : transferId ≠ "")
include hne

theorem terms (h : TransferStream transferId es) (hes : es ≠ []) :
    ∃ terms, termsOf es = some terms ∧ 0 < terms.amountMinorUnits ∧
      terms.sourceAccountId ≠ terms.destinationAccountId ∧ (replay es).HasTerms transferId terms := by
  induction h with
  | nil => exact absurd rfl hes
  | @commit es method context event h hid hc ih =>
    by_cases hnil : es = []
    · subst hnil
      obtain ⟨stamp, he⟩ := hc
      obtain ⟨t, terms, amount, rfl, rfl, hsd, _, hpos⟩ := TransferMethod.Emits.of_new he
      obtain rfl := hid t rfl
      refine ⟨terms, by simp [termsOf, EventData.terms], hpos, hsd, ?_⟩
      rw [replay_snoc]
      simp only [TransferAggregate.HasTerms, TransferAggregate.when, TransferAggregate.makeEvent_data,
        MoneyText.minorUnits_format, and_self]
    · obtain ⟨terms, ht, hpos, hsd, hhas⟩ := ih hnil
      obtain ⟨stamp, he⟩ := hc
      have hid : truthy (replay es).transferId = true := by simp [hhas.1, truthy, hne]
      refine ⟨terms, by rw [termsOf_snoc hnil, ht], hpos, hsd, ?_⟩
      rw [replay_snoc]
      exact hhas.when (he.terms_none hid)

theorem opening (h : TransferStream transferId es) (hes : es ≠ []) :
    ∃ first rest, es = first :: rest ∧ first.data.terms ≠ none ∧ ∀ e ∈ rest, e.data.terms = none := by
  induction h with
  | nil => exact absurd rfl hes
  | @commit es method context event h hid hc ih =>
    by_cases hnil : es = []
    · subst hnil
      obtain ⟨stamp, he⟩ := hc
      obtain ⟨t, terms, amount, rfl, rfl, -⟩ := TransferMethod.Emits.of_new he
      exact ⟨_, [], rfl, by simp [EventData.terms], by simp⟩
    · obtain ⟨first, rest, rfl, hfirst, hrest⟩ := ih hnil
      obtain ⟨terms, -, -, -, hhas⟩ := h.terms hne hnil
      obtain ⟨stamp, he⟩ := hc
      refine ⟨first, _, rfl, hfirst, fun e hmem => ?_⟩
      rcases List.mem_append.mp hmem with hmem | hmem
      · exact hrest e hmem
      · rw [List.mem_singleton.mp hmem]
        exact he.terms_none (by simp [hhas.1, truthy, hne])

theorem stamped (h : TransferStream transferId es) :
    ∀ e ∈ es, e.streamId = transferStream transferId ∧ e.data.transferId = some transferId := by
  induction h with
  | nil => simp
  | @commit es method context event h hid hc ih =>
    intro e he
    rcases List.mem_append.mp he with he | he
    · exact ih e he
    · rw [List.mem_singleton.mp he]
      by_cases hnil : es = []
      · subst hnil
        obtain ⟨stamp, hemits⟩ := hc
        obtain ⟨t, terms, amount, rfl, rfl, -⟩ := TransferMethod.Emits.of_new hemits
        obtain rfl := hid t rfl
        exact ⟨rfl, rfl⟩
      · obtain ⟨terms, _, _, _, hhas⟩ := h.terms hne hnil
        have htruthy : truthy (replay es).transferId = true := by simp [hhas.1, truthy, hne]
        obtain ⟨stamp, hemits⟩ := hc
        constructor
        · have hto : (replay es).streamIdFor (method.dataTransferId (replay es)) = transferStream transferId := by
            rw [TransferAggregate.streamIdFor, if_pos htruthy, hhas.1]
            rfl
          exact hto
        · rw [TransferAggregate.makeEvent_data]
          cases hemits with
          | initiate hid' => rw [htruthy] at hid'; cases hid'
          | _ => exact hhas.1

end

theorem exists_snoc {p : EventData → Prop} (h : (∃ e ∈ es, p e.data) ∨ p event.data) :
    ∃ e ∈ es ++ [event], p e.data := by
  rcases h with ⟨e, he, hp⟩ | hp
  · exact ⟨e, List.mem_append_left _ he, hp⟩
  · exact ⟨event, by simp, hp⟩

theorem debited (h : TransferStream transferId es)
    (hs : (replay es).status ∈ [some .DEBITED, some .CREDIT_IN_PROGRESS, some .COMPLETED]) :
    ∃ e ∈ es, e.data.finished = some .debit := by
  induction h with
  | nil => simp at hs
  | @commit es method context event h hid hc ih =>
    obtain ⟨stamp, he⟩ := hc
    rw [replay_snoc] at hs
    apply exists_snoc (p := fun data => data.finished = some .debit)
    cases he with
    | markDebited => exact .inr rfl
    | startCredit hpre => exact .inl (ih (by rcases hpre with hpre | hpre <;> simp [hpre]))
    | complete hpre => exact .inl (ih (by simp [hpre]))
    | _ => simp [TransferAggregate.when] at hs

theorem completed (h : TransferStream transferId es) (hs : (replay es).status = some .COMPLETED) :
    ∃ e ∈ es, e.data.finished = some .credit := by
  cases h with
  | nil => cases hs
  | @commit es method context event h hid hc =>
    obtain ⟨stamp, he⟩ := hc
    rw [replay_snoc] at hs
    apply exists_snoc (p := fun data => data.finished = some .credit)
    cases he with
    | complete => exact .inr rfl
    | _ => cases hs

theorem compensated (h : TransferStream transferId es) (hs : (replay es).status = some .COMPENSATED) :
    ∃ e ∈ es, e.data.finished = some .compensation := by
  cases h with
  | nil => cases hs
  | @commit es method context event h hid hc =>
    obtain ⟨stamp, he⟩ := hc
    rw [replay_snoc] at hs
    apply exists_snoc (p := fun data => data.finished = some .compensation)
    cases he with
    | markCompensated => exact .inr rfl
    | _ => cases hs

theorem failed (h : TransferStream transferId es) {stage : FailureStage}
    (hs : (replay es).failureStage = some stage) : ∃ e ∈ es, e.data.failed = some stage := by
  induction h with
  | nil => cases hs
  | @commit es method context event h hid hc ih =>
    obtain ⟨stamp, he⟩ := hc
    rw [replay_snoc] at hs
    apply exists_snoc (p := fun data => data.failed = some stage)
    cases he with
    | fail => exact .inr hs
    | initiate | startDebit | startCredit => cases hs
    | _ => exact .inl (ih hs)

/-- A failed transfer knows its stage, and only a failed credit is compensated. -/
theorem failureStage (h : TransferStream transferId es) :
    ((replay es).status = some .FAILED → (replay es).failureStage ≠ none) ∧
    ((replay es).status ∈ [some .COMPENSATION_IN_PROGRESS, some .COMPENSATED] →
      (replay es).failureStage = some .CREDIT) := by
  induction h with
  | nil => simp
  | @commit es method context event h hid hc ih =>
    obtain ⟨stamp, he⟩ := hc
    rw [replay_snoc]
    cases he with
    | startCompensation hs hf => simpa [TransferAggregate.when] using hf
    | markCompensated hs => simpa [TransferAggregate.when] using ih.2 (by simp [hs])
    | _ => simp [TransferAggregate.when]

theorem recordedId (h : TransferStream transferId es) {leg : Leg} {transactionId : String}
    (hr : leg.recordedId (replay es) = some transactionId) :
    ∃ e ∈ es, e.data.started = some (leg, transactionId) := by
  induction h with
  | nil => cases leg <;> cases hr
  | @commit es method context event h hid hc ih =>
    obtain ⟨stamp, he⟩ := hc
    rw [replay_snoc] at hr
    apply exists_snoc (p := fun data => data.started = some (leg, transactionId))
    cases he with
    | startDebit =>
      cases leg
      case debit => exact .inr (by cases hr; rfl)
      all_goals exact .inl (ih hr)
    | startCredit =>
      cases leg
      case credit => exact .inr (by cases hr; rfl)
      all_goals exact .inl (ih hr)
    | startCompensation =>
      cases leg
      case compensation => exact .inr (by cases hr; rfl)
      all_goals exact .inl (ih hr)
    | _ => cases leg <;> exact .inl (ih hr)

end TransferStream

end CoreBanking
