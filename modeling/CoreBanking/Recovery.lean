import CoreBanking.Outcomes
import Mathlib.Data.List.Infix

/-!
# Recovery

One pass over a transfer, alone and without faults, whatever crashes and
requests have come before. The pass gets the transfer forward exactly when the
registry lets the leg run, or has its outcome, or refuses it in words that read
like a guard of an account.
-/

namespace CoreBanking

open TransferCoordinatorService

namespace Leg

def inProgress : Leg → TransferStatus
  | .debit => .DEBIT_IN_PROGRESS
  | .credit => .CREDIT_IN_PROGRESS
  | .compensation => .COMPENSATION_IN_PROGRESS

def ends : Leg → List (Option TransferStatus)
  | .debit => [some .DEBITED, some .FAILED]
  | .credit => [some .COMPLETED, some .FAILED]
  | .compensation => [some .COMPENSATED]

theorem inProgress_not_end (leg : Leg) : some leg.inProgress ∉ leg.ends := by
  cases leg <;> decide

end Leg

abbrev Store.transferAt (s : Store) (t : String) : TransferAggregate :=
  TransferAggregate.replay (s.stream (transferStream t))

abbrev Store.accountAt (s : Store) (accountId : String) : AccountAggregate :=
  AccountAggregate.replay (s.stream (accountStream accountId))

/-- The status after a pass is strictly ahead of the one before. -/
def MovesForward (before after : Option TransferStatus) : Prop :=
  match before with
  | some .INITIATED | some .DEBIT_IN_PROGRESS => after = some .DEBITED ∨ after = some .FAILED
  | some .DEBITED | some .CREDIT_IN_PROGRESS => after = some .COMPLETED ∨ after = some .FAILED
  | some .FAILED | some .COMPENSATION_IN_PROGRESS => after = some .COMPENSATED
  | _ => False

theorem movesForward_iff {transfer : TransferAggregate} {leg : Leg} (hdue : dueLeg transfer = some leg)
    (after : Option TransferStatus) : MovesForward transfer.status after ↔ after ∈ leg.ends := by
  unfold dueLeg at hdue
  cases hst : transfer.status with
  | none =>
    rw [hst] at hdue
    cases hdue
  | some status =>
    rw [hst] at hdue
    cases status with
    | FAILED =>
      dsimp only at hdue
      split at hdue <;> cases hdue
      simp [MovesForward, Leg.ends]
    | COMPLETED | COMPENSATED => cases hdue
    | _ =>
      cases hdue
      simp [MovesForward, Leg.ends]

def TakesDeposit (account : AccountAggregate) (transfer : TransferAggregate) : Prop :=
  account.status = .ACTIVE ∧ account.currency = transfer.currency

/-- The registry lets the leg run, or has its outcome, or refuses it in words
that read like a guard of an account. A compensation that runs has to be taken
by the account, and one that is refused fails in any words. -/
def LegOpen (s : Store) (leg : Leg) (transfer : TransferAggregate) (x : String) : Prop :=
  match s.transactions.get x with
  | none => leg = .compensation → TakesDeposit (s.accountAt (leg.account transfer)) transfer
  | some record =>
    (TransactionRegistryService.ensureSameTransactionIntent (legInput leg transfer x) record = .ok () ∧
      record.status = .COMPLETED) ∨
    (leg ≠ .compensation ∧ isTerminalDomainError (refusal (legInput leg transfer x) record) = true)

/-! ## Guards of an account -/

theorem currencyMismatch_terminal (currency requested : String) : isTerminalDomainError (.badRequest
    s!"Currency mismatch. Account currency={currency}, request={requested}") = true := by
  refine List.any_eq_true.mpr ⟨"Currency mismatch", by simp [terminalMessages], includes_iff.mpr ?_⟩
  simp only [Failure.message_badRequest, toString, String.toList_append, List.append_assoc]
  have hstart : "Currency mismatch".toList <+: "Currency mismatch. Account currency=".toList := by decide
  exact (hstart.trans (List.prefix_append _ _)).isInfix

theorem isTerminalDomainError_nonempty {e : Failure} (h : isTerminalDomainError e = true) : e.message ≠ "" := by
  intro hempty
  have hnone : (terminalMessages.any fun message => includes "" message) = false := by decide
  rw [isTerminalDomainError, hempty, hnone] at h
  cases h

section
variable [JsRuntime] {s : Store} {t : String} {leg : Leg} {terms : TransferTerms} {transfer : TransferAggregate}
  {context : CommandContext} {x : String}

theorem legCommand_error (hterms : transfer.HasTerms t terms) (hpos : 0 < terms.amountMinorUnits)
    (hamount : parseMoneyToMinorUnits (.number (minorUnitsToNumber terms.amountMinorUnits)) =
      .ok terms.amountMinorUnits) {stamp : Stamp} {account : AccountAggregate} {e : Failure}
    (h : (legCommand leg transfer context x).operation stamp account = .error e) :
    isTerminalDomainError e = true ∧ (leg ≠ .debit → ¬ TakesDeposit account transfer) := by
  have hparse : parseMoneyToMinorUnits (.number (minorUnitsToNumber transfer.amountMinorUnits)) =
      .ok terms.amountMinorUnits := by rw [hterms.2.2.2.1]; exact hamount
  have hcurrency : transfer.currency = some (orUndefined transfer.currency) := by simp [hterms.2.2.2.2, orUndefined]
  -- What is left after the guards that both commands share.
  have hguarded : ∀ {k : Int → Except Failure AccountAggregate},
      (k terms.amountMinorUnits = .error e → isTerminalDomainError e = true ∧ leg = .debit) →
      (do
        account.ensureActive
        account.ensureCurrency (orUndefined transfer.currency)
        let n ← parseMoneyToMinorUnits (.number (minorUnitsToNumber transfer.amountMinorUnits))
        k n) = .error e →
      isTerminalDomainError e = true ∧ (leg ≠ .debit → ¬ TakesDeposit account transfer) := by
    intro k hk h
    rw [AccountAggregate.guarded_eq, hparse] at h
    split at h
    case isTrue hst =>
      cases h
      exact ⟨by decide, fun _ htakes => hst htakes.1⟩
    · split at h
      case isTrue hcur =>
        cases h
        exact ⟨currencyMismatch_terminal _ _, fun _ htakes => hcur (htakes.2.trans hcurrency)⟩
      · exact ⟨(hk h).1, fun hne => absurd (hk h).2 hne⟩
  cases leg with
  | debit =>
    refine hguarded (fun hk => ?_) h
    rw [if_neg (by omega)] at hk
    split at hk <;> cases hk
    exact ⟨by decide, rfl⟩
  | credit | compensation =>
    refine hguarded (fun hk => ?_) h
    rw [if_neg (by omega)] at hk
    cases hk

theorem legCommand_takes (hterms : transfer.HasTerms t terms) {account : AccountAggregate} {event : DomainEvent}
    (h : (legCommand leg transfer context x).Commits account event) :
    leg ≠ .debit → TakesDeposit account transfer := by
  have hcurrency : transfer.currency = some (orUndefined transfer.currency) := by simp [hterms.2.2.2.2, orUndefined]
  cases leg with
  | debit => exact absurd rfl
  | credit | compensation =>
    intro _
    obtain ⟨stamp, he⟩ := h
    cases he with
    | deposit hst hcur => exact ⟨hst, hcur.trans hcurrency.symm⟩

/-! ## Commands on the transfer -/

omit [JsRuntime] in
theorem alone_transfer_command (hl : Ledger s) {cmd : TransferCommand} (hid : cmd.transferId = t)
    {Q : Except Failure Unit → Store → Prop}
    (hok : ∀ event s', cmd.Commits (s.transferAt t) event → Ledger s' →
      s'.transferAt t = (s.transferAt t).when event → s'.transactions = s.transactions →
      (∀ accountId, s'.accountAt accountId = s.accountAt accountId) → Q (.ok ()) s')
    (herr : ∀ stamp e, cmd.operation stamp (s.transferAt t) = .error e → Q (.error e) s) :
    cmd.execute.Post (Exec .none) s Q := by
  subst hid
  refine alone_transfer_execute hl (fun event hc he => hok event _ hc (hl.write he) ?_ rfl fun accountId => ?_) herr
  · rw [Store.transferAt, hl.stream_write he, if_pos rfl, TransferAggregate.replay_snoc]
  · rw [Store.accountAt, hl.stream_write he, if_neg (accountStream_ne_transferStream _ _).symm]

omit [JsRuntime] in
theorem alone_finish (hl : Ledger s) (hst : (s.transferAt t).status = some leg.inProgress) :
    (leg.finishCommand t context).execute.Post (Exec .none) s fun r s' =>
      r = .ok () ∧ (s'.transferAt t).status ∈ leg.ends := by
  refine alone_transfer_command hl (Leg.finishCommand_transferId ..) (fun event s' hc _ hs' _ _ => ⟨rfl, ?_⟩)
    fun stamp e he => ?_
  · rw [hs']
    obtain ⟨stamp, hemits⟩ := hc
    cases leg <;> cases hemits <;> simp [TransferAggregate.when, Leg.ends]
  · cases leg <;> simp [Leg.finishCommand, TransferCommand.operation, TransferAggregate.markDebited,
      TransferAggregate.complete, TransferAggregate.markCompensated, hst, Leg.inProgress] at he

omit [JsRuntime] in
theorem alone_fail {stage : FailureStage} {reason : String} (hl : Ledger s)
    (hst : (s.transferAt t).status = some stage.leg.inProgress) (hreason : reason ≠ "") :
    (TransferCommand.FailTransfer t reason stage context).execute.Post (Exec .none) s fun _ s' =>
      (s'.transferAt t).status = some .FAILED := by
  have hid : (TransferCommand.FailTransfer t reason stage context).transferId = t := rfl
  refine alone_transfer_command hl hid (fun event s' hc _ hs' _ _ => ?_) fun stamp e he => ?_
  · rw [hs']
    obtain ⟨stamp, hemits⟩ := hc
    cases hemits
    simp [TransferAggregate.when]
  · cases stage <;> simp [TransferCommand.operation, TransferAggregate.fail, TransferAggregate.statusIn, hst,
      FailureStage.leg, Leg.inProgress, hreason] at he

structure PassDue (s : Store) (t : String) (leg : Leg) (terms : TransferTerms) : Prop where
  ledger : Ledger s
  due : dueLeg (s.transferAt t) = some leg
  has : (s.transferAt t).HasTerms t terms
  positive : 0 < terms.amountMinorUnits
  amount : parseMoneyToMinorUnits (.number (minorUnitsToNumber terms.amountMinorUnits)) = .ok terms.amountMinorUnits
  stage : leg = .compensation → (s.transferAt t).failureStage = some .CREDIT

theorem PassDue.startsFrom (h : PassDue s t leg terms) : (s.transferAt t).statusIn leg.startsFrom = true := by
  have hdue := h.due
  unfold dueLeg at hdue
  unfold TransferAggregate.statusIn
  split at hdue
  case h_5 hst => split at hdue <;> cases hdue; rw [hst]; rfl
  all_goals first | cases hdue; done | (rename_i hst; cases hdue; rw [hst]; rfl)

theorem PassDue.start (h : PassDue s t leg terms) {Q : Except Failure Unit → Store → Prop}
    (hok : ∀ s', Ledger s' → (s'.transferAt t).status = some leg.inProgress → s'.transactions = s.transactions →
      (∀ accountId, s'.accountAt accountId = s.accountAt accountId) → Q (.ok ()) s') :
    (leg.startCommand t x context).execute.Post (Exec .none) s Q := by
  refine alone_transfer_command h.ledger (Leg.startCommand_transferId ..) (fun event s' hc hl hs' htx hacc =>
    hok s' hl ?_ htx hacc) fun stamp e he => ?_
  · rw [hs']
    obtain ⟨stamp, hemits⟩ := hc
    cases leg <;> cases hemits <;> simp [TransferAggregate.when, Leg.inProgress]
  · have hstarts := h.startsFrom
    have hstage := h.stage
    cases leg <;> simp only [Leg.startsFrom] at hstarts <;>
      simp [Leg.startCommand, TransferCommand.operation, TransferAggregate.startDebit, TransferAggregate.startCredit,
        TransferAggregate.startCompensation, hstarts, hstage] at he

/-! ## One leg -/

omit [JsRuntime] in
theorem alone_leg_catch (hl : Ledger s) (hst : (s.transferAt t).status = some leg.inProgress) {e : Failure} :
    (match leg.failureStage with
      | some stage =>
        if isTerminalDomainError e then (TransferCommand.FailTransfer t e.message stage context).execute
        else throw (.retryable e.message)
      | none => throw (.retryable e.message) : Task Unit).Post (Exec .none) s fun _ s' =>
      (s'.transferAt t).status ∈ leg.ends ↔ leg ≠ .compensation ∧ isTerminalDomainError e = true := by
  have hstuck : (s.transferAt t).status ∉ leg.ends := hst ▸ leg.inProgress_not_end
  cases hstage : leg.failureStage with
  | none =>
    refine Async.post_throw (iff_of_false hstuck fun h => h.1 ?_)
    cases leg <;> first | rfl | cases hstage
  | some stage =>
    obtain rfl : leg = stage.leg := by
      cases leg <;> cases hstage <;> rfl
    cases hterminal : isTerminalDomainError e with
    | false => exact Async.post_throw (iff_of_false hstuck fun h => nomatch h.2)
    | true =>
      simp only [if_true]
      refine Async.post_mono (fun _ s' hs' => iff_of_true ?_ ⟨?_, trivial⟩)
        (alone_fail hl hst (isTerminalDomainError_nonempty hterminal))
      · rw [hs']; cases stage <;> simp [FailureStage.leg, Leg.ends]
      · cases stage <;> nofun

theorem alone_registry_new (hl : Ledger s) (hget : s.transactions.get x = none) (hterms : transfer.HasTerms t terms)
    (hpos : 0 < terms.amountMinorUnits)
    (hamount : parseMoneyToMinorUnits (.number (minorUnitsToNumber terms.amountMinorUnits)) =
      .ok terms.amountMinorUnits) {Q : Except Failure Response → Store → Prop}
    (hok : ∀ s', Ledger s' → s'.transferAt t = s.transferAt t →
      (leg ≠ .debit → TakesDeposit (s.accountAt (leg.account transfer)) transfer) → Q (.ok accepted) s')
    (herr : ∀ e s', Ledger s' → s'.transferAt t = s.transferAt t → isTerminalDomainError e = true →
      (leg ≠ .debit → ¬ TakesDeposit (s.accountAt (leg.account transfer)) transfer) → Q (.error e) s') :
    (TransactionRegistryService.execute (legInput leg transfer x) (legHandler leg transfer context x)
      legOptions).Post (Exec .none) s Q := by
  obtain ⟨record, hperform⟩ : ∃ record, perform (.reserveTransaction (legInput leg transfer x)) s =
      (.ok ⟨true, some record⟩, { s with transactions := s.transactions.set x record }) := by
    have hget' : s.transactions.get (legInput leg transfer x).transactionId = none := hget
    simp only [perform, TransactionRecords.reserve, hget', parse_legInput hterms hpos]
    exact ⟨_, rfl⟩
  refine Async.post_bind (alone_call (by simp) ?_)
  rw [hperform]
  have hl₁ : Ledger { s with transactions := s.transactions.set x record } := hl.congr rfl rfl
  refine Async.post_tryCatch (Async.post_bind (Async.post_bind (alone_account_execute hl₁
    (fun event snapshots hc he hl₂ => ?_) fun stamp e he => ?_)))
  · rw [legCommand_accountId] at hc he
    refine Async.post_pure (Async.post_bind (alone_call (by simp) (Async.post_pure ?_)))
    refine hok _ (hl₂.congr rfl rfl) ?_ (legCommand_takes hterms hc)
    show TransferAggregate.replay ((Store.write _ _ _).stream _) = _
    rw [legCommand_accountId, hl₁.stream_write he, if_neg (accountStream_ne_transferStream _ _)]
    rfl
  · rw [legCommand_accountId] at he
    obtain ⟨hterminal, htakes⟩ := legCommand_error hterms hpos hamount he
    exact Async.post_bind (alone_call (by simp) (Async.post_throw
      (herr e _ (hl₁.congr rfl rfl) rfl hterminal htakes)))

/-- The part of a pass after the leg has been started. -/
theorem alone_leg_run (hl : Ledger s) (hst : (s.transferAt t).status = some leg.inProgress)
    (hterms : transfer.HasTerms t terms) (hpos : 0 < terms.amountMinorUnits)
    (hamount : parseMoneyToMinorUnits (.number (minorUnitsToNumber terms.amountMinorUnits)) =
      .ok terms.amountMinorUnits)
    (hrecord : ∀ record, s.transactions.get x = some record → record.status ≠ .FAILED_RETRYABLE) :
    (tryCatch (do
        let _ ← TransactionRegistryService.execute (legInput leg transfer x) (legHandler leg transfer context x)
          legOptions
        (leg.finishCommand t context).execute)
      fun error =>
        match leg.failureStage with
        | some stage =>
          if isTerminalDomainError error then
            (TransferCommand.FailTransfer t error.message stage context).execute
          else throw (.retryable error.message)
        | none => throw (.retryable error.message) : Task Unit).Post (Exec .none) s fun _ s' =>
      (s'.transferAt t).status ∈ leg.ends ↔ LegOpen s leg transfer x := by
  refine Async.post_tryCatch (Async.post_bind ?_)
  cases hget : s.transactions.get x with
  | none =>
    have hopen : LegOpen s leg transfer x ↔
        (leg = .compensation → TakesDeposit (s.accountAt (leg.account transfer)) transfer) := by
      rw [LegOpen, hget]
    have htakes_of : leg = .compensation → leg ≠ .debit := fun hleg => by rw [hleg]; exact nofun
    refine alone_registry_new hl hget hterms hpos hamount (fun s₁ hl₁ hs₁ htakes => ?_)
      fun e s₁ hl₁ hs₁ hterminal htakes => ?_
    · refine Async.post_mono (fun r s₂ hr => ?_) (alone_finish hl₁ (hs₁ ▸ hst))
      obtain ⟨rfl, hend⟩ := hr
      exact iff_of_true hend (hopen.mpr fun hleg => htakes (htakes_of hleg))
    · refine Async.post_mono (fun _ s₂ hs₂ => hs₂.trans ?_) (alone_leg_catch hl₁ (hs₁ ▸ hst))
      refine Iff.trans ⟨fun h hleg => absurd hleg h.1, fun h => ⟨fun hleg => ?_, hterminal⟩⟩ hopen.symm
      exact htakes (htakes_of hleg) (h hleg)
  | some record =>
    have hopen : LegOpen s leg transfer x ↔
        (TransactionRegistryService.ensureSameTransactionIntent (legInput leg transfer x) record = .ok () ∧
          record.status = .COMPLETED) ∨
        (leg ≠ .compensation ∧ isTerminalDomainError (refusal (legInput leg transfer x) record) = true) := by
      rw [LegOpen, hget]
    refine alone_registry_found hget (hrecord record hget) (fun hsame hcompleted => ?_) fun hnot => ?_
    · refine Async.post_mono (fun r s₂ hr => ?_) (alone_finish hl hst)
      obtain ⟨rfl, hend⟩ := hr
      exact iff_of_true hend (hopen.mpr (.inl ⟨hsame, hcompleted⟩))
    · refine Async.post_mono (fun _ s₂ hs₂ => hs₂.trans ?_) (alone_leg_catch hl hst)
      exact Iff.trans ⟨Or.inr, fun h => h.resolve_left hnot⟩ hopen.symm

theorem alone_processTransfer (h : PassDue s t leg terms)
    (hid : (leg.recordedId (s.transferAt t)).getD (legId t leg) = x)
    (hrecord : ∀ record, s.transactions.get x = some record → record.status ≠ .FAILED_RETRYABLE) :
    (processTransfer t).Post (Exec .none) s fun _ s' =>
      (s'.transferAt t).status ∈ leg.ends ↔ LegOpen s leg (s.transferAt t) x := by
  refine Async.post_bind (alone_transfer_getById h.ledger (alone_randomUUID fun commandId => ?_))
  simp only [h.due, h.has.1, orUndefined, Option.getD_some, hid]
  refine Async.post_tryCatch (Async.post_mono (fun r s' hr => ?_)
    (Async.post_bind (alone_transfer_getById h.ledger (?_ : Async.Post _ _ _ fun _ s' =>
      (s'.transferAt t).status ∈ leg.ends ↔ LegOpen s leg (s.transferAt t) x))))
  · cases r with
    | ok u => exact hr
    | error e => exact Async.post_pure hr
  · dsimp only
    rw [if_pos h.startsFrom]
    refine Async.post_bind (h.start fun s₁ hl₁ hst₁ htx hacc => ?_)
    refine Async.post_mono (fun _ s' hs' => hs'.trans ?_)
      (alone_leg_run hl₁ hst₁ h.has h.positive h.amount (htx ▸ hrecord))
    rw [LegOpen, LegOpen, htx, hacc]

end

/-! ## Every reachable state -/

def Ended (transfer : TransferAggregate) : Prop :=
  transfer.status = some .COMPLETED ∨ transfer.status = some .COMPENSATED ∨
  (transfer.status = some .FAILED ∧ transfer.failureStage = some .DEBIT)

theorem TransferStream.status_some {t : String} {es : List DomainEvent} (h : TransferStream t es) (hes : es ≠ []) :
    (TransferAggregate.replay es).status ≠ none := by
  cases h with
  | nil => exact absurd rfl hes
  | commit h hid hc =>
    obtain ⟨stamp, hemits⟩ := hc
    rw [TransferAggregate.replay_snoc]
    cases hemits <;> simp [TransferAggregate.when]

theorem TransferHistory.due {t : String} {es : List DomainEvent} (h : TransferHistory t es) (hes : es ≠ [])
    (hopen : ¬ Ended (TransferAggregate.replay es)) : ∃ leg, dueLeg (TransferAggregate.replay es) = some leg ∧
      (leg = .compensation → (TransferAggregate.replay es).failureStage = some .CREDIT) := by
  have hsome := h.stream.status_some hes
  have hstage := h.stream.failureStage
  generalize TransferAggregate.replay es = transfer at hopen hsome hstage ⊢
  unfold dueLeg
  cases hst : transfer.status with
  | none => exact absurd hst hsome
  | some status =>
    cases status with
    | INITIATED | DEBIT_IN_PROGRESS | DEBITED | CREDIT_IN_PROGRESS => exact ⟨_, rfl, nofun⟩
    | COMPLETED => exact absurd (.inl hst) hopen
    | COMPENSATED => exact absurd (.inr (.inl hst)) hopen
    | COMPENSATION_IN_PROGRESS => exact ⟨_, rfl, fun _ => hstage.2 (by simp [hst])⟩
    | FAILED =>
      cases hf : transfer.failureStage with
      | none => exact absurd hf (hstage.1 hst)
      | some stage =>
        cases stage with
        | DEBIT => exact absurd (.inr (.inr ⟨hst, hf⟩)) hopen
        | CREDIT => exact ⟨_, if_pos rfl, fun _ => rfl⟩

section
variable [JsRuntime] [RequestDigest] {F : FaultModel} {admits : BankRequest → Prop}
  {allows : BankRequest → StoreOp → Store → Prop} {c : BankConfig} {t : String}

/-- A pass over a transfer that has not ended is due for a leg. -/
theorem pass_forward_iff (hc : (bank F admits allows).system.Reachable c)
    (hes : c.state.store.stream (transferStream t) ≠ []) (hopen : ¬ Ended (c.state.store.transferAt t)) :
    ∃ leg, dueLeg (c.state.store.transferAt t) = some leg ∧
      (processTransfer t).Post (Exec .none) c.state.store fun _ s' =>
        MovesForward (c.state.store.transferAt t).status (s'.transferAt t).status ↔
          LegOpen c.state.store leg (c.state.store.transferAt t) (legId t leg) := by
  obtain ⟨gs, hinv⟩ := bank_books hc
  have hB := hinv.books.toBooks
  have hhist := hB.ledger.transfer t
  obtain ⟨leg, hdue, hstage⟩ := hhist.due hes hopen
  obtain ⟨terms, hterms, hpos, _, hhas⟩ := hhist.stream.terms (hB.named hes).1 hes
  refine ⟨leg, hdue, Async.post_mono (fun _ s' hs' => (movesForward_iff hdue _).trans hs') ?_⟩
  exact alone_processTransfer ⟨hB.ledger, hdue, hhas, hpos, hB.amount hterms, hstage⟩ (hB.recordedId t leg)
    fun _ => hB.notReopened

/-- **Recovery.** In every reachable state, one pass that runs alone ends, and
gets a transfer that has not ended forward exactly when the leg is open. -/
theorem pass_recovers_iff (hc : (bank F admits allows).system.Reachable c)
    (hes : c.state.store.stream (transferStream t) ≠ []) (hopen : ¬ Ended (c.state.store.transferAt t)) :
    (∃ out s', (processTransfer t).Runs (Exec .none) c.state.store out s') ∧
    ∃ leg, dueLeg (c.state.store.transferAt t) = some leg ∧
      ∀ out s', (processTransfer t).Runs (Exec .none) c.state.store out s' →
        (MovesForward (c.state.store.transferAt t).status (s'.transferAt t).status ↔
          LegOpen c.state.store leg (c.state.store.transferAt t) (legId t leg)) :=
  ⟨Async.exists_run exists_exec _ _, pass_forward_iff hc hes hopen⟩

end

theorem pass_recovers_iff_initiated :
    let s := (plainRun .none (fun _ => True) (fun _ _ _ => True) (fun _ _ => .answer) openings).state.store
    (∃ out s', (@processTransfer decimalRuntime "t-1").Runs (Exec .none) s out s') ∧
    ∃ leg, dueLeg (s.transferAt "t-1") = some leg ∧
      ∀ out s', (@processTransfer decimalRuntime "t-1").Runs (Exec .none) s out s' →
        (MovesForward (s.transferAt "t-1").status (s'.transferAt "t-1").status ↔
          LegOpen s leg (s.transferAt "t-1") (legId "t-1" leg)) :=
  @pass_recovers_iff decimalRuntime plainDigest .none (fun _ => True) (fun _ _ _ => True) _ "t-1"
    (plainRun_reachable openings_wellFormed (fun _ _ => trivial) fun _ _ => plainBank_permits)
    (by decide +kernel) (by unfold Ended; decide +kernel)

/-- The process crashes when the debit has been reserved and its account has not
been loaded. -/
def crashedPass : BankConfig :=
  let c := plainRun .none (fun _ => True) (fun _ _ _ => True)
    (fun q op => match q, op with
      | .processTransfer _, .getLatestSnapshot _ => .hold
      | _, _ => .answer)
    (openings ++ [.processTransfer "t-1"])
  { c with threads := c.threads.modify 4 fun t => ⟨t.request, none⟩ }

theorem crashedPass_reachable : (plainBank .none (fun _ => True) fun _ _ _ => True).system.Reachable crashedPass := by
  refine System.Reachable.crash (plainRun_reachable (fun q hq => ?_) (fun _ _ => trivial)
    fun q _ => ⟨fun _ _ => trivial, fun {op message} h => ?_⟩) trivial 4
  · rcases List.mem_append.mp hq with hq | hq
    · exact openings_wellFormed q hq
    · rw [List.mem_singleton.mp hq]; trivial
  · split at h <;> cases h

/-- The record of the crashed pass stays pending, and stops every later pass. -/
theorem pass_not_forward :
    ¬ ∀ c : BankConfig, (plainBank .none (fun _ => True) fun _ _ _ => True).system.Reachable c →
      System.Quiescent c → ∀ t, c.state.store.stream (transferStream t) ≠ [] →
      ¬ Ended (c.state.store.transferAt t) →
      ∀ out s', (@processTransfer decimalRuntime t).Runs (Exec .none) c.state.store out s' →
        MovesForward (c.state.store.transferAt t).status (s'.transferAt t).status := by
  intro h
  have hes : crashedPass.state.store.stream (transferStream "t-1") ≠ [] := by decide +kernel
  have hopen : ¬ Ended (crashedPass.state.store.transferAt "t-1") := by unfold Ended; decide +kernel
  obtain ⟨out, s', hrun⟩ := Async.exists_run exists_exec (@processTransfer decimalRuntime "t-1") crashedPass.state.store
  have hforward := h crashedPass crashedPass_reachable (System.quiescent_of_all (by decide +kernel)) "t-1" hes hopen
    out s' hrun
  obtain ⟨leg, hdue, hiff⟩ := @pass_forward_iff decimalRuntime plainDigest _ _ _ _ "t-1" crashedPass_reachable hes hopen
  have hleg : dueLeg (crashedPass.state.store.transferAt "t-1") = some .debit := by decide +kernel
  obtain rfl := Option.some.inj (hdue.symm.trans hleg)
  have hshut := (hiff out s' hrun).mp hforward
  unfold LegOpen at hshut
  have hrecord : (crashedPass.state.store.transactions.get (legId "t-1" .debit)).map (fun record =>
      (record.status, isTerminalDomainError (refusal (legInput .debit (crashedPass.state.store.transferAt "t-1")
        (legId "t-1" .debit)) record))) = some (.PENDING, false) := by decide +kernel
  cases hget : crashedPass.state.store.transactions.get (legId "t-1" .debit) with
  | none => rw [hget] at hrecord; cases hrecord
  | some record =>
    rw [hget] at hrecord hshut
    obtain ⟨hst, hterminal⟩ := Prod.mk.inj (Option.some.inj hrecord)
    rcases hshut with ⟨_, hcompleted⟩ | ⟨_, htext⟩
    · cases hst.symm.trans hcompleted
    · cases hterminal.symm.trans htext

end CoreBanking
