import CoreBanking.Lib.Grouping
import CoreBanking.Saga
import CoreBanking.Written
import Mathlib.Algebra.BigOperators.Group.Finset.Sigma
import Mathlib.Algebra.BigOperators.Ring.List
import Mathlib.Algebra.Order.BigOperators.Group.Finset

/-!
# Conservation of money

In every currency, what the accounts hold and what transfers have under way is
what the clients have paid in less what they have drawn. The log is summed
twice: by the accounts whose streams its events are in, and by the transfers
whose legs they are.
-/

namespace CoreBanking

/-! ## Money in one currency -/

def EventData.signedIn (currency : String) : EventData → Int
  | .MoneyDeposited _ amount currency' _ => if currency' = currency then amount.minorUnits else 0
  | .MoneyWithdrawn _ amount currency' _ => if currency' = currency then -amount.minorUnits else 0
  | _ => 0

def EventData.createdAccount : EventData → Option String
  | .AccountCreated accountId _ _ => some accountId
  | _ => none

def EventData.initiatedTransfer : EventData → Option String
  | .TransferInitiated transferId .. => some transferId
  | _ => none

def isLegId (x : String) : Bool := [Leg.debit, .credit, .compensation].any fun leg =>
  leg.suffix.toList.isSuffixOf x.toList

def EventData.ofLeg (data : EventData) : Bool := data.movement.any isLegId

theorem isLegId_iff {x : String} : isLegId x = true ↔ ∃ t leg, x = legId t leg := by
  simp only [isLegId, List.any_eq_true, List.isSuffixOf_iff_suffix]
  constructor
  · rintro ⟨leg, _, rest, hx⟩
    exact ⟨String.ofList rest, leg, String.toList_inj.mp (by rw [legId_toList, ← hx, String.toList_ofList])⟩
  · rintro ⟨t, leg, rfl⟩
    exact ⟨leg, by cases leg <;> simp, t.toList, (legId_toList t leg).symm⟩

theorem EventData.ofLeg_iff {data : EventData} : data.ofLeg = true ↔ ∃ t leg, data.movement = some (legId t leg) := by
  simp only [ofLeg, Option.any_eq_true, isLegId_iff]
  exact ⟨fun ⟨x, hx, t, leg, h⟩ => ⟨t, leg, h ▸ hx⟩, fun ⟨t, leg, h⟩ => ⟨_, h, t, leg, rfl⟩⟩

theorem EventData.signedIn_of_no_movement {currency : String} {data : EventData} (h : data.movement = none) :
    data.signedIn currency = 0 := by
  cases data <;> first | rfl | cases h

/-- The money of an account that was created with an id is all in its currency. -/
theorem AccountStream.balance_in {accountId : String} {es : List DomainEvent} (hne : accountId ≠ "")
    (h : AccountStream accountId es) (currency : String) :
    sumOf (EventData.signedIn currency) es =
        (if (AccountAggregate.replay es).currency = some currency then
          (AccountAggregate.replay es).balanceMinorUnits
        else 0) ∧
      ((AccountAggregate.replay es).currency = none → (AccountAggregate.replay es).balanceMinorUnits = 0) := by
  induction h with
  | nil => exact ⟨rfl, fun _ => rfl⟩
  | @commit es method context e h hid hc ih =>
    obtain ⟨hsum, hnone⟩ := ih
    obtain ⟨stamp, he⟩ := hc
    rw [sumOf_snoc, hsum, AccountAggregate.replay_snoc, AccountAggregate.when_balance]
    cases he with
    | create hnew =>
      -- nothing is created twice, and before its creation an account has no currency
      have hcurrency : (AccountAggregate.replay es).currency = none := by
        by_contra hcurrency
        rw [h.created hcurrency] at hnew
        simp [truthy, hne] at hnew
      simp [AccountAggregate.when, EventData.signedIn, EventData.signedAmount, hcurrency, hnone hcurrency]
    | deposit hs hcurrency =>
      simp only [AccountAggregate.when, EventData.signedIn, EventData.signedAmount,
        AccountAggregate.makeEvent_data, hcurrency, Option.some.injEq, reduceCtorEq, false_implies, and_true]
      split <;> simp
    | withdraw hs hcurrency =>
      simp only [AccountAggregate.when, EventData.signedIn, EventData.signedAmount,
        AccountAggregate.makeEvent_data, hcurrency, Option.some.injEq, reduceCtorEq, false_implies, and_true]
      split <;> simp
    | freeze =>
      simpa [AccountAggregate.when, EventData.signedIn, EventData.signedAmount] using hnone

/-- Money is moved only on an account that was created, under its own id. -/
theorem AccountStream.exists_created {accountId : String} {es : List DomainEvent} (h : AccountStream accountId es) :
    ((AccountAggregate.replay es).currency ≠ none → ∃ e ∈ es, e.data.createdAccount = some accountId) ∧
      ((∃ e ∈ es, e.data.movement ≠ none) → ∃ e ∈ es, e.data.createdAccount = some accountId) := by
  induction h with
  | nil => exact ⟨fun h => absurd rfl h, fun ⟨_, he, _⟩ => by cases he⟩
  | @commit es method context e h hid hc ih =>
    have hkeep : (∃ e ∈ es, e.data.createdAccount = some accountId) →
        ∃ e' ∈ es ++ [e], e'.data.createdAccount = some accountId :=
      fun ⟨e', he', hcreated⟩ => ⟨e', List.mem_append_left _ he', hcreated⟩
    obtain ⟨stamp, he⟩ := hc
    rw [AccountAggregate.replay_snoc]
    simp only [List.mem_append, List.mem_singleton, or_and_right, exists_or, exists_eq_left] at hkeep ⊢
    cases he with
    | create =>
      obtain rfl := hid _ rfl
      exact ⟨fun _ => .inr rfl, fun _ => .inr rfl⟩
    | deposit hs hcurrency =>
      have hcreated := ih.1 (by rw [hcurrency]; simp)
      exact ⟨fun _ => .inl hcreated, fun _ => .inl hcreated⟩
    | withdraw hs hcurrency =>
      have hcreated := ih.1 (by rw [hcurrency]; simp)
      exact ⟨fun _ => .inl hcreated, fun _ => .inl hcreated⟩
    | freeze =>
      refine ⟨fun hcurrency => .inl (ih.1 hcurrency), ?_⟩
      rintro (hmoves | hmoves)
      · exact .inl (ih.2 hmoves)
      · exact absurd rfl hmoves

/-! ## The three sums -/

def createdAccounts (log : List DomainEvent) : Finset String :=
  (log.filterMap fun e => e.data.createdAccount).toFinset

def initiatedTransfers (log : List DomainEvent) : Finset String :=
  (log.filterMap fun e => e.data.initiatedTransfer).toFinset

def heldBy (currency : String) (es : List DomainEvent) : Int :=
  if (AccountAggregate.replay es).currency = some currency then (AccountAggregate.replay es).balanceMinorUnits else 0

/-- What was paid in less what was drawn, the legs of transfers apart. -/
def paidInto (currency : String) (log : List DomainEvent) : Int :=
  (log.map fun e => if e.data.ofLeg then 0 else e.data.signedIn currency).sum

namespace Store

def log (s : Store) : List DomainEvent := s.events.allEvents.map PositionedEvent.event

abbrev accounts (s : Store) : Finset String := createdAccounts s.log

abbrev transfers (s : Store) : Finset String := initiatedTransfers s.log

def held (s : Store) (currency : String) : Int :=
  ∑ accountId ∈ s.accounts, heldBy currency (s.stream (accountStream accountId))

def underWayFor (s : Store) (currency transferId : String) : Int :=
  match termsOf (s.stream (transferStream transferId)) with
  | some terms => if terms.currency = currency then inTransit s transferId terms else 0
  | none => 0

/-- What transfers have taken and not handed on. -/
def underWay (s : Store) (currency : String) : Int := ∑ t ∈ s.transfers, s.underWayFor currency t

abbrev paidIn (s : Store) (currency : String) : Int := paidInto currency s.log

end Store

theorem Journal.mem_log {s : Store} {journal : List (String × DomainEvent)} (hj : Journal s journal) {streamId : String}
    {e : DomainEvent} (he : e ∈ s.stream streamId) : e ∈ s.log := by
  rw [← hj.streams, List.mem_map] at he
  obtain ⟨p, hp, rfl⟩ := he
  rw [Store.log, ← hj.log]
  exact List.mem_map_of_mem (List.mem_of_mem_filter hp)

theorem Journal.mem_stream {s : Store} {journal : List (String × DomainEvent)} (hj : Journal s journal)
    {p : String × DomainEvent} (hp : p ∈ journal) : p.2 ∈ s.stream p.1 := by
  rw [← hj.streams]
  exact List.mem_map_of_mem (List.mem_filter.mpr ⟨hp, beq_self_eq_true _⟩)

theorem mem_transfers {s : Store} {journal : List (String × DomainEvent)} (hj : Journal s journal) {t : String}
    (hne : t ≠ "") (h : TransferStream t (s.stream (transferStream t))) (hes : s.stream (transferStream t) ≠ []) :
    t ∈ s.transfers := by
  obtain ⟨first, rest, hfirst, hterms, -⟩ := h.opening hne hes
  have hmem : first ∈ s.stream (transferStream t) := by rw [hfirst]; exact List.mem_cons_self
  have hid := (h.stamped hne first hmem).2
  refine List.mem_toFinset.mpr (List.mem_filterMap.mpr ⟨first, hj.mem_log hmem, ?_⟩)
  cases hdata : first.data with
  | TransferInitiated => rw [hdata] at hid; exact hid
  | _ => rw [hdata] at hterms; exact absurd rfl hterms

/-! ## The log summed twice -/

section
variable [JsRuntime] {P : Flags} {s : Store} {gs : Nat → Hold} {journal : List (String × DomainEvent)}
  (h : BankInv P s gs) (hj : Journal s journal) (currency : String)
include h hj

theorem BankInv.held_eq (hnamed : ∀ {streamId e}, e ∈ s.stream streamId → e.data.createdAccount ≠ some "") :
    (s.log.map fun e => e.data.signedIn currency).sum = s.held currency := by
  have haccounts : ∀ accountId ∈ s.accounts, accountId ≠ "" := by
    intro accountId ha
    obtain ⟨e, he, hcreated⟩ := List.mem_filterMap.mp (List.mem_toFinset.mp ha)
    rw [Store.log, ← hj.log] at he
    obtain ⟨p, hp, rfl⟩ := List.mem_map.mp he
    rintro rfl
    exact hnamed (hj.mem_stream hp) hcreated
  have hfiber : ∀ accountId ∈ s.accounts, ((journal.filter fun p => p.1 = accountStream accountId).map fun p =>
      p.2.data.signedIn currency).sum = heldBy currency (s.stream (accountStream accountId)) := by
    intro accountId ha
    have hstream := hj.streams (accountStream accountId)
    have hsum := ((h.ledger.account accountId).stream.balance_in (haccounts accountId ha) currency).1
    rw [heldBy, ← hsum, ← hstream, sumOf, List.map_map]
    congr 2
  rw [Store.log, ← hj.log, List.map_map, Store.held, ← Finset.sum_congr rfl hfiber]
  refine List.sum_map_fiber_image (fun _ _ => accountStream_inj.mp) fun p hp hmoves => ?_
  have hmem := hj.mem_stream hp
  have hmovement : p.2.data.movement ≠ none := fun hnone =>
    hmoves (EventData.signedIn_of_no_movement hnone)
  rcases h.ledger.named p.1 (List.ne_nil_of_mem hmem) with ⟨accountId, hid⟩ | ⟨t, hid⟩
  · rw [hid] at hmem
    obtain ⟨e, he, hcreated⟩ := (h.ledger.account accountId).stream.exists_created.2 ⟨p.2, hmem, hmovement⟩
    exact ⟨accountId, List.mem_toFinset.mpr (List.mem_filterMap.mpr ⟨e, hj.mem_log he, hcreated⟩), hid⟩
  · rw [hid] at hmem
    have hne := (h.named (List.ne_nil_of_mem hmem)).1
    have htransfer := ((h.ledger.transfer t).stream.stamped hne _ hmem).2
    refine absurd ?_ hmovement
    revert htransfer
    cases p.2.data <;> simp [EventData.transferId, EventData.movement]

variable (hlegs : P.legs)
include hlegs

/-- In the log, the events of a leg are those on the account of the leg. -/
theorem BankInv.journal_leg {t : String} {terms : TransferTerms}
    (ht : termsOf (s.stream (transferStream t)) = some terms) (leg : Leg) :
    (journal.filter fun p => p.2.data.movement = some (legId t leg)).map Prod.snd = leg.events s t terms := by
  have hsame : journal.filter (fun p => p.2.data.movement = some (legId t leg)) =
      (journal.filter fun p => p.1 == accountStream (leg.accountOf terms)).filter
        fun p => p.2.data.movement = some (legId t leg) := by
    rw [List.filter_filter]
    refine List.filter_congr fun p hp => ?_
    by_cases hm : p.2.data.movement = some (legId t leg)
    · simp [hm, (h.legMovement hlegs ht (hj.mem_stream hp) hm).stream]
    · simp [hm]
  rw [hsame, Leg.events, ← hj.streams, List.filter_map]
  rfl

omit h hj hlegs [JsRuntime] in
def Leg.sign : Leg → Int
  | .debit => -1
  | _ => 1

theorem BankInv.leg_sum {t : String} {terms : TransferTerms}
    (ht : termsOf (s.stream (transferStream t)) = some terms) (leg : Leg) :
    ((journal.filter fun p => p.2.data.movement = some (legId t leg)).map fun p =>
        p.2.data.signedIn currency).sum =
      if terms.currency = currency then leg.sign * leg.moved s t terms else 0 := by
  have hcomp : (fun p : String × DomainEvent => p.2.data.signedIn currency) =
      (fun e : DomainEvent => e.data.signedIn currency) ∘ Prod.snd := rfl
  have heach : ∀ e ∈ leg.events s t terms, e.data.signedIn currency =
      if terms.currency = currency then leg.sign * leg.side e.data else 0 := by
    intro e he
    obtain ⟨hstream, hm⟩ := List.mem_filter.mp he
    obtain ⟨accountId, hdata⟩ := (h.legMovement hlegs ht hstream (by simpa using hm)).data
    rw [hdata]
    cases leg <;> simp [Leg.data, EventData.signedIn, Leg.sign, Leg.side, EventData.withdrawn, EventData.deposited]
  rw [hcomp, ← List.map_map, h.journal_leg hj hlegs ht, List.map_congr_left heach, Leg.moved, sumOf]
  split
  · rw [List.sum_map_mul_left]
  · simp

theorem BankInv.underWay_eq : (s.log.map fun e => if e.data.ofLeg then e.data.signedIn currency else 0).sum =
    -s.underWay currency := by
  let legs : Finset Leg := {.debit, .credit, .compensation}
  have hfiber : ∀ t ∈ s.transfers, ∑ leg ∈ legs, ((journal.filter fun p =>
      p.2.data.movement = some (legId t leg)).map fun p =>
        if p.2.data.ofLeg then p.2.data.signedIn currency else 0).sum = -s.underWayFor currency t := by
    intro t _
    have hofLeg : ∀ leg, (journal.filter fun p => p.2.data.movement = some (legId t leg)).map (fun p =>
        if p.2.data.ofLeg then p.2.data.signedIn currency else 0) =
          (journal.filter fun p => p.2.data.movement = some (legId t leg)).map fun p =>
            p.2.data.signedIn currency := fun leg => by
      refine List.map_congr_left fun p hp => if_pos (EventData.ofLeg_iff.mpr ⟨t, leg, ?_⟩)
      simpa using (List.mem_filter.mp hp).2
    simp only [hofLeg]
    rw [Finset.sum_insert (by decide), Finset.sum_insert (by decide), Finset.sum_singleton, Store.underWayFor]
    cases ht : termsOf (s.stream (transferStream t)) with
    | some terms =>
      simp only [h.leg_sum hj currency hlegs ht]
      split
      · simp only [Leg.sign, inTransit]
        omega
      · rfl
    | none =>
      have hnone : ∀ leg, (journal.filter fun p => p.2.data.movement = some (legId t leg)) = [] := fun leg => by
        refine List.filter_eq_nil_iff.mpr fun p hp hm => ?_
        obtain ⟨terms, hterms, -⟩ := (h.legs hlegs).movement (hj.mem_stream hp) (by simpa using hm)
        rw [ht] at hterms
        cases hterms
      simp [hnone]
  rw [Store.log, ← hj.log, List.map_map, Store.underWay, ← Finset.sum_neg_distrib, ← Finset.sum_congr rfl hfiber,
    ← Finset.sum_product']
  have hname : Function.Injective fun i : String × Leg => some (legId i.1 i.2) := fun i i' heq =>
    Prod.ext_iff.mpr (legId_inj (Option.some.inj heq))
  refine List.sum_map_fiber_image hname fun p hp hmoves => ?_
  · have hofLeg : p.2.data.ofLeg = true := by
      by_contra hnot
      exact hmoves (if_neg hnot)
    obtain ⟨t, leg, hm⟩ := EventData.ofLeg_iff.mp hofLeg
    obtain ⟨terms, hterms, -⟩ := (h.legs hlegs).movement (hj.mem_stream hp) hm
    have hes : s.stream (transferStream t) ≠ [] := fun hnil => by rw [hnil] at hterms; cases hterms
    have ht : t ∈ s.transfers := mem_transfers hj (h.named hes).1 (h.ledger.transfer t).stream hes
    exact ⟨(t, leg), Finset.mem_product.mpr ⟨ht, by cases leg <;> simp [legs]⟩, hm⟩

omit h hj hlegs [JsRuntime] in
theorem Store.log_sum (s : Store) (currency : String) : (s.log.map fun e => e.data.signedIn currency).sum =
    s.paidIn currency + (s.log.map fun e => if e.data.ofLeg then e.data.signedIn currency else 0).sum := by
  rw [Store.paidIn, paidInto, ← List.sum_map_add]
  refine congrArg List.sum (List.map_congr_left fun e _ => ?_)
  split <;> simp

omit hj in
theorem BankInv.underWayFor_nonneg (hquiet : P.quiet) (t : String) : 0 ≤ s.underWayFor currency t := by
  unfold Store.underWayFor
  cases hterms : termsOf (s.stream (transferStream t)) with
  | none => exact Int.le_refl 0
  | some terms =>
    dsimp only
    split
    · have hes : s.stream (transferStream t) ≠ [] := fun hnil => by rw [hnil] at hterms; cases hterms
      obtain ⟨terms', hterms', hpos, -⟩ := (h.ledger.transfer t).stream.terms (h.named hes).1 hes
      obtain rfl := Option.some.inj (hterms'.symm.trans hterms)
      rcases h.inTransit_cases hlegs hterms hquiet with hzero | hall
      · rw [hzero]
      · rw [hall]
        exact Int.le_of_lt hpos
    · exact Int.le_refl 0

end

theorem Ledger.heldBy_nonneg {s : Store} (h : Ledger s) (currency accountId : String) :
    0 ≤ heldBy currency (s.stream (accountStream accountId)) := by
  unfold heldBy
  split
  · exact (h.account accountId).stream.balance_nonneg
  · exact Int.le_refl 0

/-! ## Conservation -/

def TransferAggregate.Settled (transfer : TransferAggregate) : Prop :=
  transfer.status = some .COMPLETED ∨ transfer.status = some .COMPENSATED ∨ transfer.failureStage = some .DEBIT

/-- No account and no transfer owes money, and together they have what was paid in. -/
structure Conserved (s : Store) (currency : String) : Prop where
  total : s.held currency + s.underWay currency = s.paidIn currency
  accounts : ∀ accountId, 0 ≤ heldBy currency (s.stream (accountStream accountId))
  transfers : ∀ t, 0 ≤ s.underWayFor currency t
  settled : (∀ t ∈ s.transfers, (TransferAggregate.replay (s.stream (transferStream t))).Settled) →
    s.held currency = s.paidIn currency

namespace Conserved

variable {s : Store} {currency : String} (h : Conserved s currency)
include h

theorem held_nonneg : 0 ≤ s.held currency := Finset.sum_nonneg fun accountId _ => h.accounts accountId

theorem held_le : s.held currency ≤ s.paidIn currency := by
  have hunderWay : 0 ≤ s.underWay currency := Finset.sum_nonneg fun t _ => h.transfers t
  have htotal := h.total
  omega

end Conserved

theorem SagaSafe.settled {s : Store} {t : String} {terms : TransferTerms} (h : SagaSafe s t terms)
    (hsettled : (TransferAggregate.replay (s.stream (transferStream t))).Settled) :
    CoreBanking.inTransit s t terms = 0 := by
  rcases hsettled with hcompleted | hcompensated | hfailed
  · exact (h.completed hcompleted).2
  · exact (h.compensated hcompensated).2
  · have hnone := h.failedDebit hfailed
    simp [CoreBanking.inTransit, Leg.moved_of_not (hnone _)]

theorem BankInv.conserved [JsRuntime] {P : Flags} {s : Store} {gs : Nat → Hold} (h : BankInv P s gs)
    (hnamed : ∀ {streamId e}, e ∈ s.stream streamId → e.data.createdAccount ≠ some "") (hlegs : P.legs)
    (hquiet : P.quiet) (currency : String) : Conserved s currency := by
  obtain ⟨journal, hj⟩ := h.ledger.journal
  have htotal : s.held currency + s.underWay currency = s.paidIn currency := by
    have hheld := h.held_eq hj currency hnamed
    have hunderWay := h.underWay_eq hj currency hlegs
    have hsum := s.log_sum currency
    omega
  refine ⟨htotal, h.ledger.heldBy_nonneg currency, h.underWayFor_nonneg currency hlegs hquiet, fun hsettled => ?_⟩
  have hzero : s.underWay currency = 0 := by
    refine Finset.sum_eq_zero fun t ht => ?_
    unfold Store.underWayFor
    cases hterms : termsOf (s.stream (transferStream t)) with
    | none => rfl
    | some terms =>
      dsimp only
      rw [(h.sagaSafe hlegs hterms hquiet).settled (hsettled t ht), ite_self]
  omega

section
variable [JsRuntime] [RequestDigest]

theorem creations_named {F : FaultModel} {admits : BankRequest → Prop} {allows : BankRequest → StoreOp → Store → Prop}
    {c : BankConfig} (hc : (bank F admits allows).system.Reachable c) {streamId : String} {e : DomainEvent}
    (he : e ∈ c.state.store.stream streamId) : e.data.createdAccount ≠ some "" := by
  refine Service.written (P := fun data => data.createdAccount ≠ some "") (fun q hq => ?_) hc he
  refine BankRequest.only_body (fun {key dto} hq' => ?_) fun {data} hdata => ?_
  · subst hq'
    have hne : dto.accountId ≠ "" := hq.1
    exact fun heq => hne (Option.some.inj heq)
  · cases data <;> simp_all [EventData.createdAccount, EventData.isAccountCreated]

/-- **Money is conserved**, in every run in which only guards of an account read
as terminal, whatever a store reports and whatever ids clients choose for their
transfers, and in which clients leave the ids of legs alone. -/
theorem money_conserved {F : FaultModel}
    (hF : ∀ message, F.Reports message → TransferCoordinatorService.isTerminalDomainError (.store message) = false)
    {c : BankConfig} (hc : (bank F BankRequest.LeavesLegs fun _ _ _ => True).system.Reachable c) (currency : String) :
    Conserved c.state.store currency := by
  obtain ⟨gs, hinv⟩ := quiet_books hF hc
  exact hinv.books.conserved (creations_named hc) trivial trivial currency

end

def debitedRun : BankConfig :=
  plainRun .none BankRequest.LeavesLegs (fun _ _ _ => True) (fun _ _ => .answer) (openings ++ [.processTransfer "t-1"])

theorem money_conserved_debited :
    (debitedRun.state.store.held "EUR" = 99500 ∧ debitedRun.state.store.underWay "EUR" = 525) ∧
      Conserved debitedRun.state.store "EUR" := by
  refine ⟨by decide +kernel, @money_conserved decimalRuntime plainDigest .none ?_ _ (plainRun_reachable
    (fun q hq => transferRequests_wellFormed q ?_) (fun q hq => transferRequests_leaveLegs q ?_)
    fun _ _ => plainBank_permits) "EUR"⟩
  · rintro message ⟨op, hm | hm⟩ <;> cases hm
  all_goals
    rcases List.mem_append.mp hq with hq | hq
    · exact List.mem_append_left _ hq
    · rw [List.mem_singleton.mp hq]
      simp [transferRequests]

end CoreBanking
