import CoreBanking.CoordinatorRules
import Mathlib.Data.List.NodupEquivFin

/-!
# Safety of the saga

However passes, requests, crashes and faults are interleaved: no transaction id
moves money twice, and the legs of a transfer move exactly its amount, in order,
and never both forward and back.
-/

namespace CoreBanking

/-! ## One movement for each transaction id -/

def movements (s : Store) (x : String) : List DomainEvent :=
  (s.events.allEvents.map PositionedEvent.event).filter fun e => e.data.movement = some x

structure MovedOnce (s : Store) (x : String) : Prop where
  streams : ∀ {streamId streamId'} {k k' : Nat} {e e' : DomainEvent}, (s.stream streamId)[k]? = some e →
    (s.stream streamId')[k']? = some e' → e.data.movement = some x → e'.data.movement = some x →
    streamId = streamId' ∧ k = k'
  log : (movements s x).length ≤ 1

/-- What occurs once in the streams occurs once in the log. -/
theorem Ledger.movedOnce {s : Store} {x : String} (hl : Ledger s)
    (honce : ∀ {streamId streamId'} {k k' : Nat} {e e' : DomainEvent}, (s.stream streamId)[k]? = some e →
      (s.stream streamId')[k']? = some e' → e.data.movement = some x → e'.data.movement = some x →
      streamId = streamId' ∧ k = k') : MovedOnce s x := by
  refine ⟨honce, ?_⟩
  obtain ⟨journal, hj⟩ := hl.journal
  have hmem : ∀ p ∈ journal, p.2 ∈ s.stream p.1 := fun p hp => by
    rw [← hj.streams]
    exact List.mem_map_of_mem (List.mem_filter.mpr ⟨hp, beq_self_eq_true _⟩)
  rw [movements, ← hj.log, List.filter_map, List.length_map]
  by_contra hlen
  obtain ⟨a, b, rest, hab⟩ : ∃ a b rest,
      journal.filter ((fun e : DomainEvent => decide (e.data.movement = some x)) ∘ Prod.snd) = a :: b :: rest := by
    match h : journal.filter ((fun e : DomainEvent => decide (e.data.movement = some x)) ∘ Prod.snd) with
    | [] | [_] => rw [h] at hlen; simp at hlen
    | a :: b :: rest => exact ⟨a, b, rest, rfl⟩
  have hsub : [a, b].Sublist journal :=
    ((List.nil_sublist rest).cons_cons b).cons_cons a |>.trans (hab ▸ List.filter_sublist)
  have hmoves : ∀ p ∈ [a, b], p.2.data.movement = some x := fun p hp => by
    have hp : p ∈ a :: b :: rest := (((List.nil_sublist rest).cons_cons b).cons_cons a).subset hp
    rw [← hab] at hp
    simpa using (List.mem_filter.mp hp).2
  have ha := hmoves a (by simp)
  have hb := hmoves b (by simp)
  -- Both are in one stream, and there they are two.
  have hstream : a.1 = b.1 := by
    obtain ⟨k, hk⟩ := List.getElem?_of_mem (hmem a (hsub.subset (by simp)))
    obtain ⟨k', hk'⟩ := List.getElem?_of_mem (hmem b (hsub.subset (by simp)))
    exact (honce hk hk' ha hb).1
  have hpair : [a.2, b.2].Sublist (s.stream a.1) := by
    have := (hsub.filter fun p => p.1 == a.1).map Prod.snd
    rw [hj.streams] at this
    simpa [hstream] using this
  obtain ⟨f, hf⟩ := List.sublist_iff_exists_orderEmbedding_getElem?_eq.mp hpair
  have h01 := (honce (hf 0).symm (hf 1).symm ha hb).2
  exact absurd (f.injective h01) (by decide)

section
variable [JsRuntime] [RequestDigest]

/-- **At most one movement for each transaction id**, in every run of the bank. -/
theorem money_moved_once {F : FaultModel} {admits : BankRequest → Prop}
    {allows : BankRequest → StoreOp → Store → Prop} {c : BankConfig}
    (hc : (bank F admits allows).system.Reachable c) (x : String) : MovedOnce c.state.store x := by
  obtain ⟨gs, hinv⟩ := bank_books hc
  exact hinv.books.ledger.movedOnce hinv.books.once

end

/-- A second deposit under the id of the first, with another key, on another
account and of another amount. -/
def reuseRun : BankConfig :=
  plainRun .any (fun _ => True) (fun _ _ _ => True) (fun _ _ => .answer)
    (openings ++ [.deposit (some "key-5") "acc-2" ⟨⟨"7.75"⟩, "EUR", "tx-1", none⟩])

theorem money_moved_once_reused :
    (movements reuseRun.state.store "tx-1").length = 1 ∧ MovedOnce reuseRun.state.store "tx-1" := by
  refine ⟨by decide +kernel, @money_moved_once decimalRuntime plainDigest _ _ _ _
    (plainRun_reachable (fun q hq => ?_) (fun _ _ => trivial) fun _ _ => plainBank_permits) "tx-1"⟩
  rcases List.mem_append.mp hq with hq | hq
  · exact openings_wellFormed q hq
  · rw [List.mem_singleton.mp hq]; exact show "acc-2" ≠ "" by decide

/-! ## The legs of a transfer -/

def Leg.events (leg : Leg) (s : Store) (t : String) (terms : TransferTerms) : List DomainEvent :=
  (s.stream (accountStream (leg.accountOf terms))).filter fun e => e.data.movement = some (legId t leg)

def Leg.side : Leg → EventData → Int
  | .debit => EventData.withdrawn
  | _ => EventData.deposited

def Leg.moved (leg : Leg) (s : Store) (t : String) (terms : TransferTerms) : Int :=
  sumOf leg.side (leg.events s t terms)

/-- Taken from the source, and neither with the destination nor back. -/
def inTransit (s : Store) (t : String) (terms : TransferTerms) : Int :=
  Leg.debit.moved s t terms - Leg.credit.moved s t terms - Leg.compensation.moved s t terms

structure SagaSafe (s : Store) (t : String) (terms : TransferTerms) : Prop where
  once : ∀ leg : Leg, (leg.events s t terms).length ≤ 1
  movement : ∀ {leg streamId e}, e ∈ s.stream streamId → e.data.movement = some (legId t leg) →
    LegMovement t leg terms streamId e
  debitFirst : ∀ {leg}, s.Moved (legId t leg) → s.Moved (legId t .debit)
  exclusive : ¬ (s.Moved (legId t .credit) ∧ s.Moved (legId t .compensation))
  inTransit : inTransit s t terms = 0 ∨ inTransit s t terms = terms.amountMinorUnits
  debited : (TransferAggregate.replay (s.stream (transferStream t))).status ∈
    [some .DEBITED, some .CREDIT_IN_PROGRESS] → s.Moved (legId t .debit)
  completed : (TransferAggregate.replay (s.stream (transferStream t))).status = some .COMPLETED →
    s.Moved (legId t .credit) ∧ CoreBanking.inTransit s t terms = 0
  failedDebit : (TransferAggregate.replay (s.stream (transferStream t))).failureStage = some .DEBIT →
    ∀ leg, ¬ s.Moved (legId t leg)
  failedCredit : (TransferAggregate.replay (s.stream (transferStream t))).failureStage = some .CREDIT →
    s.Moved (legId t .debit) ∧ ¬ s.Moved (legId t .credit)
  compensated : (TransferAggregate.replay (s.stream (transferStream t))).status = some .COMPENSATED →
    s.Moved (legId t .compensation) ∧ CoreBanking.inTransit s t terms = 0

theorem filter_length_le_one {α : Type} {p : α → Bool} {l : List α}
    (h : ∀ {i j : Nat} {a b}, l[i]? = some a → l[j]? = some b → p a = true → p b = true → i = j) :
    (l.filter p).length ≤ 1 := by
  induction l with
  | nil => simp
  | cons a l ih =>
    have ih := ih fun {i j a b} hi hj ha hb =>
      Nat.succ.inj (h (i := i + 1) (j := j + 1) (by simpa using hi) (by simpa using hj) ha hb)
    by_cases ha : p a = true
    · have hl : l.filter p = [] := List.filter_eq_nil_iff.mpr fun b hb hpb => by
        obtain ⟨j, hj⟩ := List.getElem?_of_mem hb
        have := h (i := 0) (j := j + 1) rfl (by simpa using hj) ha hpb
        omega
      simp [ha, hl]
    · simpa [ha] using ih

section
variable [JsRuntime] {P : Flags} {s : Store} {gs : Nat → Hold} {t : String} {terms : TransferTerms} {leg : Leg}
  (h : BankInv P s gs) (hlegs : P.legs)
include h hlegs

/-- Money moved forward or back had been taken first. -/
theorem BankInv.debitFirst (hquiet : P.quiet) (hm : s.Moved (legId t leg)) : s.Moved (legId t .debit) := by
  have hB := h.legs hlegs
  have hdebited : Leg.credit.Earned (s.stream (transferStream t)) → s.Moved (legId t .debit) :=
    fun ⟨e, he, hf⟩ => hB.finished he hf
  have hearned := hB.earned (h.recorded hm)
  cases leg with
  | debit => exact hm
  | credit => exact hdebited hearned
  | compensation =>
    obtain ⟨e, he, hf⟩ := hearned
    exact hdebited (((h.quiet hquiet).failed he hf).2 rfl)

/-- A credit that is compensated has failed for good. -/
theorem BankInv.exclusive (hquiet : P.quiet) :
    ¬ (s.Moved (legId t .credit) ∧ s.Moved (legId t .compensation)) := by
  rintro ⟨hcredit, hcompensation⟩
  obtain ⟨e, he, hf⟩ := (h.legs hlegs).earned (h.recorded hcompensation)
  exact ((h.quiet hquiet).failed he hf).1.unmoved hcredit

variable (ht : termsOf (s.stream (transferStream t)) = some terms)
include ht

theorem BankInv.legMovement {streamId : String} {e : DomainEvent} (he : e ∈ s.stream streamId)
    (hm : e.data.movement = some (legId t leg)) : LegMovement t leg terms streamId e := by
  obtain ⟨terms', ht', hmove⟩ := (h.legs hlegs).movement he hm
  obtain rfl := Option.some.inj (ht'.symm.trans ht)
  exact hmove

omit hlegs ht in
theorem BankInv.events_once : (leg.events s t terms).length ≤ 1 :=
  filter_length_le_one fun hi hj ha hb =>
    (h.once hi hj (by simpa using ha) (by simpa using hb)).2

omit h hlegs ht [JsRuntime] in
theorem Leg.moved_of_not (hm : ¬ s.Moved (legId t leg)) : leg.moved s t terms = 0 := by
  have hnil : leg.events s t terms = [] := List.filter_eq_nil_iff.mpr fun e he hx =>
    hm ⟨_, e, he, by simpa using hx⟩
  rw [Leg.moved, hnil]
  rfl

theorem BankInv.moved_of (hm : s.Moved (legId t leg)) : leg.moved s t terms = terms.amountMinorUnits := by
  obtain ⟨streamId, e, he, hx⟩ := hm
  have hmove := h.legMovement hlegs ht he hx
  have hmem : e ∈ leg.events s t terms := List.mem_filter.mpr ⟨hmove.stream ▸ he, by simpa using hx⟩
  have hsingle : leg.events s t terms = [e] := by
    obtain ⟨e', hl⟩ := List.length_eq_one_iff.mp
      (Nat.le_antisymm h.events_once (List.length_pos_of_mem hmem) : (leg.events s t terms).length = 1)
    rw [hl] at hmem ⊢
    rw [List.mem_singleton.mp hmem]
  obtain ⟨accountId, hdata⟩ := hmove.data
  rw [Leg.moved, hsingle]
  cases leg <;> simp [sumOf, hdata, Leg.side, Leg.data, EventData.withdrawn, EventData.deposited]

theorem BankInv.inTransit_cases (hquiet : P.quiet) : inTransit s t terms = 0 ∨
    inTransit s t terms = terms.amountMinorUnits := by
  have hexclusive : ¬ (s.Moved (legId t .credit) ∧ s.Moved (legId t .compensation)) := h.exclusive hlegs hquiet
  unfold inTransit
  by_cases hd : s.Moved (legId t .debit)
  · rw [h.moved_of hlegs ht hd]
    by_cases hc : s.Moved (legId t .credit) <;> by_cases hb : s.Moved (legId t .compensation)
    · exact absurd ⟨hc, hb⟩ hexclusive
    · rw [h.moved_of hlegs ht hc, Leg.moved_of_not hb]; omega
    · rw [Leg.moved_of_not hc, h.moved_of hlegs ht hb]; omega
    · rw [Leg.moved_of_not hc, Leg.moved_of_not hb]; omega
  · have hnone : ∀ {leg : Leg}, leg.moved s t terms = 0 := fun {leg} =>
      Leg.moved_of_not fun hm => hd (h.debitFirst hlegs hquiet hm)
    simp [hnone]

theorem BankInv.inTransit_zero (hquiet : P.quiet) (hm : s.Moved (legId t .credit) ∨ s.Moved (legId t .compensation)) :
    inTransit s t terms = 0 := by
  have hexclusive : ¬ (s.Moved (legId t .credit) ∧ s.Moved (legId t .compensation)) := h.exclusive hlegs hquiet
  have hd : s.Moved (legId t .debit) := hm.elim (h.debitFirst hlegs hquiet) (h.debitFirst hlegs hquiet)
  unfold inTransit
  rw [h.moved_of hlegs ht hd]
  rcases hm with hm | hm
  · rw [h.moved_of hlegs ht hm, Leg.moved_of_not fun hb => hexclusive ⟨hm, hb⟩]; omega
  · rw [h.moved_of hlegs ht hm, Leg.moved_of_not fun hc => hexclusive ⟨hc, hm⟩]; omega

theorem BankInv.sagaSafe (hquiet : P.quiet) : SagaSafe s t terms := by
  have hhist := h.ledger.transfer t
  have hfinished : ∀ {leg}, (∃ e ∈ s.stream (transferStream t), e.data.finished = some leg) →
      s.Moved (legId t leg) := fun ⟨e, he, hf⟩ => (h.legs hlegs).finished he hf
  have hfailed : ∀ {stage}, (TransferAggregate.replay (s.stream (transferStream t))).failureStage = some stage →
      Dead s gs (legId t stage.leg) ∧ (stage = .CREDIT → Leg.credit.Earned (s.stream (transferStream t))) := by
    intro stage hst
    obtain ⟨e, he, hf⟩ := hhist.stream.failed hst
    exact (h.quiet hquiet).failed he hf
  refine ⟨fun _ => h.events_once, h.legMovement hlegs ht, h.debitFirst hlegs hquiet, h.exclusive hlegs hquiet,
    h.inTransit_cases hlegs ht hquiet, fun hst => ?_, fun hst => ?_, fun hst leg hm => ?_, fun hst => ?_,
    fun hst => ?_⟩
  · refine hfinished (hhist.stream.debited ?_)
    simp only [List.mem_cons, List.not_mem_nil, or_false] at hst ⊢
    exact hst.elim .inl fun hst => .inr (.inl hst)
  · have hm := hfinished (hhist.stream.completed hst)
    exact ⟨hm, h.inTransit_zero hlegs ht hquiet (.inl hm)⟩
  · exact (hfailed hst).1.unmoved (h.debitFirst hlegs hquiet hm)
  · exact ⟨hfinished ((hfailed hst).2 rfl), (hfailed hst).1.unmoved⟩
  · have hm := hfinished (hhist.stream.compensated hst)
    exact ⟨hm, h.inTransit_zero hlegs ht hquiet (.inr hm)⟩

end

/-- A client leaves the ids of legs to the coordinator, and chooses no transfer
id that makes a refusal read like a guard of an account. -/
def BankRequest.LeavesLegs (q : BankRequest) : Prop :=
  (∀ t leg, q.transactionId? ≠ some (legId t leg)) ∧
  ∀ key dto, q = .initiateTransfer key dto → QuietTexts dto.transferId

theorem quiet_books [JsRuntime] [RequestDigest] {F : FaultModel}
    (hF : ∀ message, F.Reports message → TransferCoordinatorService.isTerminalDomainError (.store message) = false)
    {c : BankConfig} (hc : (bank F BankRequest.LeavesLegs fun _ _ _ => True).system.Reachable c) :
    ∃ gs, bankInv ⟨True, True, False, False⟩ c.state gs :=
  bank_invariant ⟨fun _ _ _ _ t leg ha hq => absurd hq (ha.1 t leg), fun _ _ _ ha => ha.2 _ _ rfl,
    fun _ _ hm => hF _ hm, False.elim, False.elim, False.elim, False.elim⟩ hc

/-- **Transfers are safe** in every run in which only guards of an account read
as terminal and clients leave the ids of legs alone. -/
theorem transfers_safe [JsRuntime] [RequestDigest] {F : FaultModel}
    (hF : ∀ message, F.Reports message → TransferCoordinatorService.isTerminalDomainError (.store message) = false)
    {c : BankConfig} (hc : (bank F BankRequest.LeavesLegs fun _ _ _ => True).system.Reachable c) {t : String}
    (ht : c.state.store.stream (transferStream t) ≠ []) :
    ∃ terms, termsOf (c.state.store.stream (transferStream t)) = some terms ∧ SagaSafe c.state.store t terms := by
  obtain ⟨gs, hinv⟩ := quiet_books hF hc
  obtain ⟨terms, hterms, _⟩ := (hinv.books.ledger.transfer t).stream.terms (hinv.books.named ht).1 ht
  exact ⟨terms, hterms, hinv.books.sagaSafe trivial hterms trivial⟩

/-- No id of a leg ends like this one. -/
theorem ne_legId {x : String} (hx : x.toList.getLast? ∉ [some 't', some 'n']) (t : String) (leg : Leg) :
    x ≠ legId t leg := by
  rintro rfl
  rw [legId_toList, List.getLast?_append_of_ne_nil _ (show leg.suffix.toList ≠ [] by cases leg <;> decide)] at hx
  cases leg <;> revert hx <;> decide

theorem quietTexts_demo : QuietTexts "t-1" := by
  have hid : TransferCoordinatorService.mentionsGuard "t-1" = false := by decide +kernel
  have hregistry : ∀ leg, ∀ e ∈ [TransactionRegistryService.alreadyInProgress (legId "t-1" leg),
      TransactionRegistryService.previouslyFailed (legId "t-1" leg),
      TransactionRegistryService.differentMovement (legId "t-1" leg)],
      TransferCoordinatorService.isTerminalDomainError e = false :=
    fun leg e he => (TransferCoordinatorService.registry_terminal he).trans hid
  constructor
  · exact fun leg => hregistry leg _ (by simp)
  · exact fun leg => hregistry leg _ (by simp)
  · exact fun leg => hregistry leg _ (by simp)
  · exact (TransferCoordinatorService.writeConflict_terminal "t-1").2.trans hid

theorem transferRequests_leaveLegs : ∀ q ∈ transferRequests, q.LeavesLegs := by
  simp only [transferRequests, openings, List.cons_append, List.nil_append, List.mem_cons, List.not_mem_nil, or_false]
  rintro q (rfl | rfl | rfl | rfl | rfl | rfl)
  case inr.inr.inl =>
    exact ⟨fun t leg h => ne_legId (x := "tx-1") (by decide) t leg (Option.some.inj h), fun key dto h => by cases h⟩
  case inr.inr.inr.inl =>
    refine ⟨fun t leg h => (by cases h), fun key dto h => ?_⟩
    cases h
    exact quietTexts_demo
  all_goals exact ⟨fun t leg h => (by cases h), fun key dto h => by cases h⟩

theorem transfers_safe_completed :
    let s := (plainRun .none BankRequest.LeavesLegs (fun _ _ _ => True) (fun _ _ => .answer)
      transferRequests).state.store
    (TransferAggregate.replay (s.stream (transferStream "t-1"))).status = some .COMPLETED ∧
      ∃ terms, termsOf (s.stream (transferStream "t-1")) = some terms ∧ SagaSafe s "t-1" terms := by
  refine ⟨by decide +kernel, @transfers_safe decimalRuntime plainDigest .none ?_ _ (plainRun_reachable
    transferRequests_wellFormed transferRequests_leaveLegs fun _ _ => plainBank_permits) "t-1" (by decide +kernel)⟩
  rintro message ⟨op, h | h⟩ <;> cases h

/-! ## Legs and the ids that clients choose -/

def Call.reservation? {Req : Type} : Call Req → Option (String × Bool)
  | ⟨_, _, .reserveTransaction input, .ok reservation⟩ => some (input.transactionId, reservation.created)
  | _ => none

structure ReservedFirst {Req : Type} (w : World Req) : Prop where
  recorded : ∀ {x}, w.store.Recorded x → ∃ call ∈ w.trace, call.reservation? = some (x, true)
  found : ∀ {pre call post x}, w.trace = pre ++ call :: post → call.reservation? = some (x, false) →
    ∃ call' ∈ pre, call'.reservation? = some (x, true)

section
variable {Req Out : Type} {V : Service Req Out} {s s' : Store} {op : StoreOp} {x : String} {i : Nat} {q : Req}

theorem perform_recorded (h : (perform op s).2.Recorded x) :
    s.Recorded x ∨ (Call.mk i q op (perform op s).1).reservation? = some (x, true) := by
  cases op with
  | markTransactionPending | markTransactionCompleted | markTransactionFailed => exact .inl (recorded_modify.mp h)
  | reserveTransaction input =>
    simp only [perform, TransactionRecords.reserve] at h ⊢
    split at h
    · exact .inl h
    · cases hn : parseMoneyToMinorUnits input.amount with
      | error e => rw [hn] at h; exact .inl h
      | ok n =>
        rw [hn] at h
        rcases recorded_set.mp h with rfl | h
        · exact .inr rfl
        · exact .inl h
  | _ => exact .inl h

theorem exec_recorded (hF : ∀ input message, ¬ V.faults.ambiguous (.reserveTransaction input) message)
    {r : Except Failure op.Result} (hexec : Exec V.faults op s r s') (h : s'.Recorded x) :
    s.Recorded x ∨ (Call.mk i q op r).reservation? = some (x, true) := by
  cases hexec with
  | performed => exact perform_recorded h
  | ambiguous message hm =>
    rcases perform_recorded (i := i) (q := q) h with h | h
    · exact .inl h
    · cases op with
      | reserveTransaction input => exact absurd hm (hF input message)
      | _ => cases h
  | _ => exact .inl h

theorem exec_reservation {r : Except Failure op.Result} {created : Bool} (hexec : Exec V.faults op s r s')
    (h : (Call.mk i q op r).reservation? = some (x, created)) : created = true ↔ ¬ s.Recorded x := by
  cases hexec with
  | performed =>
    cases op with
    | reserveTransaction input =>
      simp only [perform, TransactionRecords.reserve] at h
      split at h
      case h_1 record hget =>
        obtain ⟨rfl, rfl⟩ := Prod.mk.inj (Option.some.inj h)
        exact iff_of_false Bool.false_ne_true fun hnot => hnot ⟨record, hget⟩
      case h_2 hget =>
        cases hn : parseMoneyToMinorUnits input.amount with
        | error e => rw [hn] at h; cases h
        | ok n =>
          rw [hn] at h
          obtain ⟨rfl, rfl⟩ := Prod.mk.inj (Option.some.inj h)
          refine iff_of_true rfl fun hrecorded => ?_
          obtain ⟨record, hr⟩ := hrecorded
          rw [hget] at hr
          cases hr
    | _ => cases h
  | rejected | ambiguous => cases op <;> cases h
  | _ => cases h

theorem reservedFirst (hF : ∀ input message, ¬ V.faults.ambiguous (.reserveTransaction input) message)
    {c : Config StoreOp StoreOp.Result Failure (World Req) Req Out} (hc : V.system.Reachable c) :
    ReservedFirst c.state := by
  induction hc with
  | start =>
    refine ⟨fun h => ?_, fun h => by simp [System.start, Service.system] at h⟩
    obtain ⟨_, h⟩ := h
    cases h
  | step _ hs ih =>
    cases hs with
    | spawn => exact ih
    | crash => exact ih
    | @call i q op k r w' hi hstep =>
      have hstep : V.CallStep i q op _ r w' := hstep
      refine ⟨fun {x} hr => ?_, fun {pre call post x} heq hx => ?_⟩
      · dsimp only at hr ⊢
        rw [hstep.trace]
        rcases exec_recorded hF hstep.exec hr with hr | hr
        · obtain ⟨call, hcall, h⟩ := ih.recorded hr
          exact ⟨call, List.mem_append_left _ hcall, h⟩
        · exact ⟨_, List.mem_append_right _ (List.mem_singleton_self _), hr⟩
      · dsimp only at heq
        rw [hstep.trace] at heq
        rcases List.eq_nil_or_concat post with rfl | ⟨post', last, rfl⟩
        · obtain ⟨rfl, hl⟩ := List.append_inj' heq rfl
          obtain rfl := List.singleton_inj.mp hl
          refine ih.recorded (Classical.not_not.mp fun hnot => ?_)
          have hcreated := (exec_reservation hstep.exec hx).mpr hnot
          cases hcreated
        · rw [List.concat_eq_append, ← List.cons_append, ← List.append_assoc] at heq
          exact ih.found (List.append_inj' heq rfl).1 hx

end

/-- A client that uses the id of a leg finds the record of the leg there. -/
def BankRequest.KnowsLegs (q : BankRequest) (op : StoreOp) (s : Store) : Prop :=
  q.IsApi → ∀ input t leg, op = .reserveTransaction input → input.transactionId = legId t leg →
    s.Recorded (legId t leg)

/-- The legs of `t` are its own: the money events that its status speaks of were
written for it, and the registry has answered for a leg only from a record that
a pass has reserved. -/
structure LegsOwned (c : BankConfig) (t : String) : Prop where
  debited : (TransferAggregate.replay (c.state.store.stream (transferStream t))).status ∈
      [some .DEBITED, some .CREDIT_IN_PROGRESS, some .COMPLETED] →
    ∃ terms, termsOf (c.state.store.stream (transferStream t)) = some terms ∧
      ∃ e ∈ c.state.store.stream (accountStream terms.sourceAccountId), e.metadata.correlationId = t ∧
        ∃ accountId x, e.data = .MoneyWithdrawn accountId (.format terms.amountMinorUnits) terms.currency x
  completed : (TransferAggregate.replay (c.state.store.stream (transferStream t))).status = some .COMPLETED →
    ∃ terms, termsOf (c.state.store.stream (transferStream t)) = some terms ∧
      ∃ e ∈ c.state.store.stream (accountStream terms.destinationAccountId), e.metadata.correlationId = t ∧
        ∃ accountId x, e.data = .MoneyDeposited accountId (.format terms.amountMinorUnits) terms.currency x
  answered : ∀ {pre call post leg}, c.state.trace = pre ++ call :: post →
    call.reservation? = some (legId t leg, false) →
    ∃ call' ∈ pre, call'.reservation? = some (legId t leg, true) ∧ ¬ call'.request.IsApi

/-- The legs are owned by their transfers in every run in which no client is
the first to use the id of a leg. -/
theorem legs_owned [JsRuntime] [RequestDigest] {F : FaultModel}
    (hF : ∀ input message, ¬ F.ambiguous (.reserveTransaction input) message) {c : BankConfig}
    (hc : (bank F (fun _ => True) BankRequest.KnowsLegs).system.Reachable c) (t : String) : LegsOwned c t := by
  have hp : Promises ⟨True, False, False, False⟩ F (fun _ => True) BankRequest.KnowsLegs := by
    refine ⟨fun _ q input s t leg _ hq hi ha => ha ?_ input t leg rfl hi, False.elim, False.elim, False.elim,
      False.elim, False.elim, False.elim⟩
    cases q <;> trivial
  obtain ⟨gs, hinv⟩ := bank_invariant hp hc
  have hlegs := hinv.books.legs trivial
  have hhist := hinv.books.ledger.transfer t
  have hmoved : ∀ {leg}, (∃ e ∈ c.state.store.stream (transferStream t), e.data.finished = some leg) →
      ∃ terms, termsOf (c.state.store.stream (transferStream t)) = some terms ∧
        ∃ e ∈ c.state.store.stream (accountStream (leg.accountOf terms)), e.metadata.correlationId = t ∧
          ∃ accountId, e.data = leg.data terms accountId (legId t leg) := by
    rintro leg ⟨e, he, hf⟩
    obtain ⟨streamId, e, he, hm⟩ := hlegs.finished he hf
    obtain ⟨terms, hterms, hmove⟩ := hlegs.movement he hm
    exact ⟨terms, hterms, e, hmove.stream ▸ he, hmove.context, hmove.data⟩
  have hapi : ∀ call ∈ c.state.trace, call.request.IsApi → ∀ t leg, call.reservation? ≠ some (legId t leg, true) := by
    refine Service.trace_forall _ (fun {i q op w r w'} hstep hi t leg hx => ?_) hc
    have hnew := (exec_reservation hstep.exec hx).mp rfl
    have hallowed : q.KnowsLegs op w.store := hstep.allowed
    cases op with
    | reserveTransaction input =>
      cases r with
      | error e => cases hx
      | ok reservation =>
        obtain ⟨hid, _⟩ := Prod.mk.inj (Option.some.inj hx)
        exact hnew (hallowed hi input t leg rfl hid)
    | _ => cases hx
  refine ⟨fun hst => ?_, fun hst => ?_, fun {pre call post leg} heq hx => ?_⟩
  · obtain ⟨terms, hterms, e, he, hcontext, accountId, hdata⟩ := hmoved (hhist.stream.debited hst)
    exact ⟨terms, hterms, e, he, hcontext, accountId, _, hdata⟩
  · obtain ⟨terms, hterms, e, he, hcontext, accountId, hdata⟩ := hmoved (hhist.stream.completed hst)
    exact ⟨terms, hterms, e, he, hcontext, accountId, _, hdata⟩
  · obtain ⟨call', hcall', hx'⟩ := (reservedFirst hF hc).found heq hx
    refine ⟨call', hcall', hx', fun hi => hapi call' ?_ hi t leg hx'⟩
    rw [heq]
    exact List.mem_append_left _ hcall'

/-- Passes go through, and clients as far as they reserve nothing but `tx-1`. -/
def keepLegs : BankRequest → StoreOp → Service.Plan
  | .processTransfer _, _ => .answer
  | _, .reserveTransaction input => if input.transactionId = "tx-1" then .answer else .hold
  | _, _ => .answer

theorem keepLegs_permits {q : BankRequest} :
    (plainBank .none (fun _ => True) BankRequest.KnowsLegs).Permits q (keepLegs q) := by
  refine ⟨fun {op} hop s hi input t leg hop' hx => ?_, fun {op message} h => ?_⟩
  · subst hop'
    cases q with
    | processTransfer => exact absurd hi id
    | _ =>
      refine absurd (if_neg fun heq : input.transactionId = "tx-1" => ?_) hop
      exact ne_legId (by decide) t leg (heq.symm.trans hx)
  · unfold keepLegs at h
    split at h <;> first | cases h | (split at h <;> cases h)

theorem legs_owned_completed :
    let c := plainRun .none (fun _ => True) BankRequest.KnowsLegs keepLegs transferRequests
    (TransferAggregate.replay (c.state.store.stream (transferStream "t-1"))).status = some .COMPLETED ∧
      LegsOwned c "t-1" :=
  ⟨by decide +kernel, @legs_owned decimalRuntime plainDigest .none (fun _ _ h => h) _
    (plainRun_reachable transferRequests_wellFormed (fun _ _ => trivial) fun _ _ => keepLegs_permits) "t-1"⟩

/-- A client withdraws a hundred times the transfer's amount under the id of its
debit, and the pass takes that for the debit. -/
theorem legs_not_owned :
    ¬ ∀ c : BankConfig, (plainBank .none (fun _ => True) fun _ _ _ => True).system.Reachable c →
      ∀ t, LegsOwned c t := by
  intro h
  let qs : List BankRequest := openings ++
    [.withdraw (some "key-5") "acc-1" ⟨⟨"525"⟩, "EUR", "t-1:debit", none⟩, .processTransfer "t-1"]
  have hwell : ∀ q ∈ qs, @BankRequest.WellFormed decimalRuntime q := by
    intro q hq
    rcases List.mem_append.mp hq with hq | hq
    · exact openings_wellFormed q hq
    · simp only [List.mem_cons, List.not_mem_nil, or_false] at hq
      rcases hq with rfl | rfl
      · exact show "acc-1" ≠ "" by decide
      · trivial
  have howned := h _ (plainRun_reachable hwell (fun _ _ => trivial) fun _ _ => plainBank_permits) "t-1"
  obtain ⟨terms, hterms, e, he, hcontext, _⟩ := howned.debited (by decide +kernel)
  have hsource : terms.sourceAccountId = "acc-1" := by
    have : (termsOf ((plainRun .none (fun _ => True) (fun _ _ _ => True) (fun _ _ => .answer) qs).state.store.stream
        (transferStream "t-1"))).map (·.sourceAccountId) = some "acc-1" := by decide +kernel
    rw [hterms] at this
    exact Option.some.inj this
  rw [hsource] at he
  have hnone : ∀ e ∈ (plainRun .none (fun _ => True) (fun _ _ _ => True) (fun _ _ => .answer) qs).state.store.stream
      (accountStream "acc-1"), e.metadata.correlationId ≠ "t-1" := by decide +kernel
  exact hnone e he hcontext

end CoreBanking
