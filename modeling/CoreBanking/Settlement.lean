import CoreBanking.Recovery

/-!
# How transfers are settled

What the passes over a transfer come to, as a machine of its own. It sees where
the transfer stands, what the guards look at in every account, and what the
registry answers a leg it has a record of. One step is one pass that nothing
interferes with.
-/

namespace CoreBanking

open TransferCoordinatorService

/-- What the guards of the money commands look at. -/
structure Standing where
  status : AccountStatus
  currency : Option String
  balanceMinorUnits : Int
  deriving DecidableEq

def AccountAggregate.standing (account : AccountAggregate) : Standing :=
  ⟨account.status, account.currency, account.balanceMinorUnits⟩

namespace Leg

/-- What a leg makes of an account, or the guard that refuses it. -/
def settle (leg : Leg) (terms : TransferTerms) (standing : Standing) : Except Failure Standing :=
  if standing.status ≠ .ACTIVE then .error (.badRequest "Account is not active")
  else if standing.currency ≠ some terms.currency then .error (.badRequest
    s!"Currency mismatch. Account currency={orUndefined standing.currency}, request={terms.currency}")
  else if leg = .debit then
    if standing.balanceMinorUnits < terms.amountMinorUnits then .error (.badRequest "Insufficient funds")
    else .ok { standing with balanceMinorUnits := standing.balanceMinorUnits - terms.amountMinorUnits }
  else .ok { standing with balanceMinorUnits := standing.balanceMinorUnits + terms.amountMinorUnits }

def done : Leg → TransferStatus
  | .debit => .DEBITED
  | .credit => .COMPLETED
  | .compensation => .COMPENSATED

def passes : Leg → Nat
  | .debit => 3
  | .credit => 2
  | .compensation => 1

variable {leg : Leg} {terms : TransferTerms} {standing standing' : Standing} {e : Failure}

theorem settle_kept (h : leg.settle terms standing = .ok standing') :
    standing'.status = standing.status ∧ standing'.currency = standing.currency := by
  unfold settle at h
  split at h
  · cases h
  split at h
  · cases h
  split at h
  · split at h
    · cases h
    · obtain rfl := Except.ok.inj h
      exact ⟨rfl, rfl⟩
  · obtain rfl := Except.ok.inj h
    exact ⟨rfl, rfl⟩

/-- The guards that may refuse a leg. -/
theorem settle_error (h : leg.settle terms standing = .error e) :
    e = .badRequest "Account is not active" ∨
    e = .badRequest
      s!"Currency mismatch. Account currency={orUndefined standing.currency}, request={terms.currency}" ∨
    e = .badRequest "Insufficient funds" := by
  unfold settle at h
  split at h
  · exact .inl (Except.error.inj h).symm
  split at h
  · exact .inr (.inl (Except.error.inj h).symm)
  split at h
  · split at h
    · exact .inr (.inr (Except.error.inj h).symm)
    · cases h
  · cases h

theorem settle_terminal (h : leg.settle terms standing = .error e) : isTerminalDomainError e = true := by
  obtain rfl | rfl | rfl := settle_error h
  · decide
  · exact currencyMismatch_terminal _ _
  · decide

theorem settle_not_retryable (h : leg.settle terms standing = .error e) : isRetryableError e = false := by
  obtain rfl | rfl | rfl := settle_error h <;> rfl

/-- What a deposit is refused for is not the balance. -/
theorem settle_error_of_kept (hleg : leg ≠ .debit) (hstatus : standing'.status = standing.status)
    (hcurrency : standing'.currency = standing.currency) (h : leg.settle terms standing = .error e) :
    leg.settle terms standing' = .error e := by
  unfold settle at h ⊢
  rw [if_neg hleg] at h ⊢
  rw [hstatus, hcurrency]
  split at h
  case isTrue hactive =>
    rw [if_pos hactive]
    exact h
  case isFalse hactive =>
    rw [if_neg hactive]
    split at h
    case isTrue hsame =>
      rw [if_pos hsame]
      exact h
    · cases h

theorem settle_refund (h : Leg.debit.settle terms standing = .ok standing') :
    Leg.compensation.settle terms standing' = .ok standing := by
  unfold settle at h ⊢
  rw [if_pos rfl] at h
  rw [if_neg (by decide : Leg.compensation ≠ .debit)]
  split at h
  · cases h
  case isFalse hactive =>
    split at h
    · cases h
    case isFalse hcurrency =>
      split at h
      · cases h
      · obtain rfl := Except.ok.inj h
        rw [if_neg hactive, if_neg hcurrency]
        simp

end Leg

/-! ## The machine -/

structure TransferOutcome where
  status : Option TransferStatus
  failureReason : Option String
  failureStage : Option FailureStage
  accounts : String → Standing

structure Progress extends TransferOutcome where
  answers : Leg → Option (Except Failure Unit)

def TransferOutcome.due (o : TransferOutcome) : Option Leg :=
  dueLeg { status := o.status, failureStage := o.failureStage }

namespace Progress

def start (p : Progress) (leg : Leg) : Progress :=
  match leg.failureStage with
  | some _ => { p with status := some leg.inProgress, failureReason := none, failureStage := none }
  | none => { p with status := some leg.inProgress }

def finish (p : Progress) (leg : Leg) : Progress := { p with status := some leg.done }

/-- A leg that was refused: a compensation is left as it is, for the next pass. -/
def refuse (p : Progress) (leg : Leg) (e : Failure) : Progress :=
  match leg.failureStage with
  | some stage =>
    if isTerminalDomainError e then
      { p with status := some .FAILED, failureReason := some e.message, failureStage := some stage }
    else p
  | none => p

def answer (p : Progress) (leg : Leg) (r : Except Failure Unit) : Progress :=
  { p with answers := Function.update p.answers leg (some r) }

def pass (transferId : String) (terms : TransferTerms) (p : Progress) : Progress :=
  match p.due with
  | none => p
  | some leg =>
    match p.answers leg with
    | some (.ok _) => (p.start leg).finish leg
    | some (.error e) => (p.start leg).refuse leg e
    | none =>
      match leg.settle terms (p.accounts (leg.accountOf terms)) with
      | .ok standing =>
        (({ p.start leg with
            accounts := Function.update p.accounts (leg.accountOf terms) standing } :
          Progress).answer leg (.ok ())).finish leg
      | .error e =>
        ((p.start leg).answer leg
          (.error (TransactionRegistryService.previouslyFailed (legId transferId leg)))).refuse leg e

def Shut (terms : TransferTerms) (p : Progress) (leg : Leg) : Prop :=
  p.due = some leg ∧
  match p.answers leg with
  | some (.ok _) => False
  | some (.error e) => leg = .compensation ∨ isTerminalDomainError e = false
  | none => leg = .compensation ∧ ∃ e, leg.settle terms (p.accounts (leg.accountOf terms)) = .error e

def rank (p : Progress) : Nat := p.due.elim 0 Leg.passes

variable {p p' : Progress} {leg : Leg} {t : String} {terms : TransferTerms} {e : Failure} {standing : Standing}

theorem due_start (p : Progress) (leg : Leg) : (p.start leg).due = some leg := by
  cases leg <;> rfl

@[simp] theorem accounts_start (p : Progress) (leg : Leg) : (p.start leg).accounts = p.accounts := by
  unfold start
  split <;> rfl

@[simp] theorem answers_start (p : Progress) (leg : Leg) : (p.start leg).answers = p.answers := by
  unfold start
  split <;> rfl

@[simp] theorem accounts_refuse (p : Progress) (leg : Leg) (e : Failure) : (p.refuse leg e).accounts = p.accounts := by
  unfold refuse
  split
  · split <;> rfl
  · rfl

theorem rank_of_due (h : p.due = some leg) : p.rank = leg.passes := by
  rw [rank, h]
  rfl

theorem rank_of_due_none (h : p.due = none) : p.rank = 0 := by
  rw [rank, h]
  rfl

theorem pass_of_due_none (h : p.due = none) : p.pass t terms = p := by
  rw [pass, h]

theorem pass_accepted (hdue : p.due = some leg) (hanswer : p.answers leg = some (.ok ())) :
    p.pass t terms = (p.start leg).finish leg := by
  rw [pass, hdue]
  dsimp only
  rw [hanswer]

theorem pass_denied (hdue : p.due = some leg) (hanswer : p.answers leg = some (.error e)) :
    p.pass t terms = (p.start leg).refuse leg e := by
  rw [pass, hdue]
  dsimp only
  rw [hanswer]

theorem pass_taken (hdue : p.due = some leg) (hanswer : p.answers leg = none)
    (hsettle : leg.settle terms (p.accounts (leg.accountOf terms)) = .ok standing) :
    p.pass t terms = (({ p.start leg with
      accounts := Function.update p.accounts (leg.accountOf terms) standing } : Progress).answer leg
        (.ok ())).finish leg := by
  rw [pass, hdue]
  dsimp only
  rw [hanswer]
  dsimp only
  rw [hsettle]

theorem pass_refused (hdue : p.due = some leg) (hanswer : p.answers leg = none)
    (hsettle : leg.settle terms (p.accounts (leg.accountOf terms)) = .error e) :
    p.pass t terms = ((p.start leg).answer leg
      (.error (TransactionRegistryService.previouslyFailed (legId t leg)))).refuse leg e := by
  rw [pass, hdue]
  dsimp only
  rw [hanswer]
  dsimp only
  rw [hsettle]

theorem pass_accounts (a : String) : ((p.pass t terms).accounts a).status = (p.accounts a).status ∧
    ((p.pass t terms).accounts a).currency = (p.accounts a).currency := by
  unfold pass
  split
  · exact ⟨rfl, rfl⟩
  rename_i leg _
  split
  · show ((p.start leg).accounts a).status = _ ∧ ((p.start leg).accounts a).currency = _
    rw [accounts_start]
    exact ⟨rfl, rfl⟩
  · rw [accounts_refuse, accounts_start]
    exact ⟨rfl, rfl⟩
  · split
    case h_1 standing hsettle =>
      show (Function.update p.accounts _ standing a).status = _ ∧ (Function.update p.accounts _ standing a).currency = _
      by_cases ha : a = leg.accountOf terms
      · subst ha
        rw [Function.update_self]
        exact leg.settle_kept hsettle
      · rw [Function.update_of_ne ha]
        exact ⟨rfl, rfl⟩
    · rw [accounts_refuse]
      show ((p.start leg).accounts a).status = _ ∧ ((p.start leg).accounts a).currency = _
      rw [accounts_start]
      exact ⟨rfl, rfl⟩

/-! ## Getting on -/

theorem rank_le (p : Progress) : p.rank ≤ 3 := by
  rw [rank]
  cases p.due with
  | none => exact Nat.zero_le 3
  | some leg => cases leg <;> exact show _ ≤ 3 by decide

theorem due_none (h : p.rank = 0) : p.due = none := by
  rw [rank] at h
  cases hdue : p.due with
  | none => rfl
  | some leg =>
    rw [hdue] at h
    cases leg <;> cases h

theorem rank_finish (q : Progress) (leg : Leg) : (q.finish leg).rank < leg.passes := by
  cases leg with
  | debit => exact show 2 < 3 by omega
  | credit => exact show 0 < 2 by omega
  | compensation => exact show 0 < 1 by omega

theorem rank_refuse {q : Progress} {e : Failure} (hleg : leg ≠ .compensation) (he : isTerminalDomainError e = true) :
    (q.refuse leg e).rank < leg.passes := by
  unfold refuse
  cases leg with
  | compensation => exact absurd rfl hleg
  | debit =>
    dsimp only [Leg.failureStage]
    rw [if_pos he]
    exact show 0 < 3 by omega
  | credit =>
    dsimp only [Leg.failureStage]
    rw [if_pos he]
    exact show 1 < 2 by omega

/-- A refusal that does not fail the transfer leaves the leg to the next pass. -/
theorem refuse_eq {q : Progress} {e : Failure} (h : leg = .compensation ∨ isTerminalDomainError e = false) :
    q.refuse leg e = q := by
  unfold refuse
  split
  case h_1 hstage =>
    rcases h with rfl | he
    · cases hstage
    · rw [he]
      rfl
  · rfl

theorem pass_advances (hdue : p.due = some leg) :
    (p.pass t terms).rank < p.rank ∨ ∃ leg, (p.pass t terms).Shut terms leg := by
  rw [rank_of_due hdue]
  cases hanswer : p.answers leg with
  | some r =>
    cases r with
    | ok u =>
      rw [pass_accepted hdue hanswer]
      exact .inl (rank_finish _ leg)
    | error e =>
      rw [pass_denied hdue hanswer]
      by_cases hopen : leg ≠ .compensation ∧ isTerminalDomainError e = true
      · exact .inl (rank_refuse hopen.1 hopen.2)
      · have hshut : leg = .compensation ∨ isTerminalDomainError e = false := by
          by_cases hleg : leg = .compensation
          · exact .inl hleg
          · exact .inr (Bool.eq_false_iff.mpr fun he => hopen ⟨hleg, he⟩)
        rw [refuse_eq hshut]
        refine .inr ⟨leg, due_start p leg, ?_⟩
        rw [answers_start, hanswer]
        exact hshut
  | none =>
    cases hsettle : leg.settle terms (p.accounts (leg.accountOf terms)) with
    | ok standing =>
      rw [pass_taken hdue hanswer hsettle]
      exact .inl (rank_finish _ leg)
    | error e =>
      rw [pass_refused hdue hanswer hsettle]
      by_cases hleg : leg = .compensation
      · rw [refuse_eq (.inl hleg)]
        refine .inr ⟨leg, due_start p leg, ?_⟩
        simp only [answer, Function.update_self]
        exact .inl hleg
      · exact .inl (rank_refuse hleg (Leg.settle_terminal hsettle))

/-- What is shut stays so whatever else is paid in or out. -/
theorem Shut.congr (h : p.Shut terms leg) (hdue : p'.due = p.due) (hanswers : p'.answers = p.answers)
    (haccounts : ∀ a, (p'.accounts a).status = (p.accounts a).status ∧
      (p'.accounts a).currency = (p.accounts a).currency) :
    p'.Shut terms leg := by
  obtain ⟨hleg, hshut⟩ := h
  refine ⟨hdue.trans hleg, ?_⟩
  rw [hanswers]
  split at hshut
  · exact hshut
  · exact hshut
  · obtain ⟨rfl, e, he⟩ := hshut
    obtain ⟨hstatus, hcurrency⟩ := haccounts (Leg.compensation.accountOf terms)
    exact ⟨rfl, e, Leg.settle_error_of_kept (by decide) hstatus hcurrency he⟩

theorem Shut.pass (h : p.Shut terms leg) : (p.pass t terms).Shut terms leg := by
  obtain ⟨hdue, hshut⟩ := h
  cases hanswer : p.answers leg with
  | some r =>
    rw [hanswer] at hshut
    cases r with
    | ok u => exact hshut.elim
    | error e =>
      rw [pass_denied hdue hanswer, refuse_eq hshut]
      refine ⟨due_start p leg, ?_⟩
      rw [answers_start, hanswer]
      exact hshut
  | none =>
    rw [hanswer] at hshut
    obtain ⟨rfl, e, he⟩ := hshut
    rw [pass_refused hdue hanswer he, refuse_eq (.inl rfl)]
    refine ⟨due_start p _, ?_⟩
    simp only [answer, Function.update_self]
    exact .inl trivial

end Progress

/-! ## Where a transfer ends -/

/-- Where passes take a transfer whose legs the registry has no record of yet. -/
def TransferOutcome.settlement (terms : TransferTerms) (o : TransferOutcome) : TransferOutcome :=
  match o.due with
  | none => o
  | some .debit =>
    match Leg.debit.settle terms (o.accounts terms.sourceAccountId) with
    | .error e => ⟨some .FAILED, some e.message, some .DEBIT, o.accounts⟩
    | .ok paid =>
      match Leg.credit.settle terms (o.accounts terms.destinationAccountId) with
      | .error e => ⟨some .COMPENSATED, some e.message, some .CREDIT, o.accounts⟩
      | .ok received => ⟨some .COMPLETED, none, none,
          Function.update (Function.update o.accounts terms.sourceAccountId paid) terms.destinationAccountId received⟩
  | some .credit =>
    match Leg.credit.settle terms (o.accounts terms.destinationAccountId) with
    | .ok received =>
      ⟨some .COMPLETED, none, none, Function.update o.accounts terms.destinationAccountId received⟩
    | .error e =>
      match Leg.compensation.settle terms (o.accounts terms.sourceAccountId) with
      | .ok refunded =>
        ⟨some .COMPENSATED, some e.message, some .CREDIT, Function.update o.accounts terms.sourceAccountId refunded⟩
      | .error _ => ⟨some .COMPENSATION_IN_PROGRESS, some e.message, some .CREDIT, o.accounts⟩
  | some .compensation =>
    match Leg.compensation.settle terms (o.accounts terms.sourceAccountId) with
    | .ok refunded =>
      { o with
        status := some .COMPENSATED
        accounts := Function.update o.accounts terms.sourceAccountId refunded }
    | .error _ => { o with status := some .COMPENSATION_IN_PROGRESS }

/-- Once the source has paid, the destination stands as it did, and a refund restores the source. -/
theorem TransferOutcome.settlement_paid {o o' : TransferOutcome} {terms : TransferTerms} {paid : Standing}
    (hdue : o.due = some .debit) (hdue' : o'.due = some .credit)
    (hpaid : Leg.debit.settle terms (o.accounts terms.sourceAccountId) = .ok paid)
    (haccounts : o'.accounts = Function.update o.accounts terms.sourceAccountId paid)
    (hne : terms.sourceAccountId ≠ terms.destinationAccountId) : o'.settlement terms = o.settlement terms := by
  rw [settlement, settlement, hdue, hdue']
  dsimp only
  rw [hpaid, haccounts, Function.update_of_ne hne.symm, Function.update_self, Leg.settle_refund hpaid]
  dsimp only
  rw [Function.update_idem, Function.update_eq_self]
  cases Leg.credit.settle terms (o.accounts terms.destinationAccountId) <;> rfl

namespace Progress

variable {p : Progress} {leg : Leg} {t : String} {terms : TransferTerms} {e : Failure} {standing : Standing}

/-- No leg that is still to come has been asked for. -/
def Clear (p : Progress) : Prop := ∀ leg : Leg, leg.passes ≤ p.rank → p.answers leg = none

/-- A compensation that the account refused is where it was. -/
theorem pass_stuck (hstatus : p.status = some .COMPENSATION_IN_PROGRESS)
    (hanswer : p.answers .compensation = some (.error e)) : p.pass t terms = p := by
  have hdue : p.due = some .compensation := by
    rw [TransferOutcome.due, hstatus]
    rfl
  rw [pass_denied hdue hanswer, refuse_eq (.inl rfl)]
  obtain ⟨⟨status, reason, stage, accounts⟩, answers⟩ := p
  obtain rfl : status = some .COMPENSATION_IN_PROGRESS := hstatus
  rfl

def Reaches (t : String) (terms : TransferTerms) (p : Progress) (n : Nat) (o : TransferOutcome) : Prop :=
  ∃ q, (pass t terms)^[n] p = q ∧ q.pass t terms = q ∧ q.toTransferOutcome = o

variable {n : Nat} {o : TransferOutcome}

theorem Reaches.here (h : p.pass t terms = p) : p.Reaches t terms n p.toTransferOutcome :=
  ⟨p, Function.iterate_fixed h n, h, rfl⟩

theorem Reaches.head (h : (p.pass t terms).Reaches t terms n o) : p.Reaches t terms (n + 1) o := h

theorem Reaches.more (h : p.Reaches t terms n o) {m : Nat} (hm : n ≤ m) : p.Reaches t terms m o := by
  obtain ⟨q, hq, hfixed, ho⟩ := h
  refine ⟨q, ?_, hfixed, ho⟩
  obtain ⟨k, rfl⟩ := Nat.exists_eq_add_of_le' hm
  rw [Function.iterate_add_apply, hq]
  exact Function.iterate_fixed hfixed k

theorem reaches_compensation (hdue : p.due = some .compensation) (hanswer : p.answers .compensation = none) :
    p.Reaches t terms 1 (p.toTransferOutcome.settlement terms) := by
  apply Reaches.head
  rw [TransferOutcome.settlement, hdue]
  dsimp only
  cases hsettle : Leg.compensation.settle terms (p.accounts terms.sourceAccountId) with
  | ok refunded =>
    rw [pass_taken hdue hanswer hsettle]
    exact .here rfl
  | error e =>
    rw [pass_refused hdue hanswer hsettle, refuse_eq (.inl rfl)]
    have hstuck : ((p.start .compensation).answer .compensation
        (.error (TransactionRegistryService.previouslyFailed (legId t .compensation)))).answers .compensation =
        some (.error (TransactionRegistryService.previouslyFailed (legId t .compensation))) := by
      simp only [answer, Function.update_self]
    exact .here (pass_stuck rfl hstuck)

theorem reaches_credit (hdue : p.due = some .credit) (hanswer : p.answers .credit = none)
    (hnext : p.answers .compensation = none) : p.Reaches t terms 2 (p.toTransferOutcome.settlement terms) := by
  apply Reaches.head
  rw [TransferOutcome.settlement, hdue]
  dsimp only
  cases hsettle : Leg.credit.settle terms (p.accounts terms.destinationAccountId) with
  | ok received =>
    rw [pass_taken hdue hanswer hsettle]
    exact .here rfl
  | error e =>
    rw [pass_refused hdue hanswer hsettle]
    simp only [refuse, Leg.failureStage, Leg.settle_terminal hsettle, if_true]
    exact reaches_compensation rfl hnext

theorem reaches_debit (hdue : p.due = some .debit) (hclear : ∀ leg, p.answers leg = none)
    (hne : terms.sourceAccountId ≠ terms.destinationAccountId) :
    p.Reaches t terms 3 (p.toTransferOutcome.settlement terms) := by
  apply Reaches.head
  cases hsettle : Leg.debit.settle terms (p.accounts terms.sourceAccountId) with
  | error e =>
    rw [TransferOutcome.settlement, hdue]
    dsimp only
    rw [hsettle, pass_refused hdue (hclear .debit) hsettle]
    simp only [refuse, Leg.failureStage, Leg.settle_terminal hsettle, if_true]
    exact .here rfl
  | ok paid =>
    generalize hq : p.pass t terms = q
    rw [pass_taken hdue (hclear .debit) hsettle] at hq
    have hreaches : q.Reaches t terms 2 (q.toTransferOutcome.settlement terms) := by
      subst hq
      exact reaches_credit rfl (hclear .credit) (hclear .compensation)
    have hsame : q.toTransferOutcome.settlement terms = p.toTransferOutcome.settlement terms := by
      subst hq
      exact TransferOutcome.settlement_paid hdue rfl hsettle rfl hne
    rw [← hsame]
    exact hreaches

theorem iterate_pass_settles (hne : terms.sourceAccountId ≠ terms.destinationAccountId) (hclear : p.Clear)
    (hn : 3 ≤ n) : ((pass t terms)^[n] p).toTransferOutcome = p.toTransferOutcome.settlement terms := by
  suffices h : p.Reaches t terms 3 (p.toTransferOutcome.settlement terms) by
    obtain ⟨q, hq, -, ho⟩ := h.more hn
    rw [hq, ho]
  cases hdue : p.due with
  | none =>
    rw [TransferOutcome.settlement, hdue]
    exact .here (pass_of_due_none hdue)
  | some leg =>
    have hrank : p.rank = leg.passes := rank_of_due hdue
    cases leg with
    | debit => exact reaches_debit hdue (fun leg => hclear leg (hrank ▸ (by cases leg <;> decide))) hne
    | credit =>
      have hclear : ∀ leg : Leg, leg.passes ≤ 2 → p.answers leg = none := fun leg h => hclear leg (hrank ▸ h)
      exact (reaches_credit hdue (hclear _ (by decide)) (hclear _ (by decide))).more (by decide)
    | compensation => exact (reaches_compensation hdue (hclear _ hrank.ge)).more (by decide)

end Progress

end CoreBanking
