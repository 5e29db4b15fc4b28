import CoreBanking.Settlement

/-!
# Passes that run alone

A pass that nothing interferes with is one step of the machine of
`Settlement`, from any state the bank can be in. What the machine says of many
passes is then so of the rounds of the coordinator.
-/

namespace CoreBanking

open TransferCoordinatorService

/-! ## What a pass sees -/

def TransferTerms.aggregate (terms : TransferTerms) (transferId : String) : TransferAggregate where
  transferId := some transferId
  sourceAccountId := some terms.sourceAccountId
  destinationAccountId := some terms.destinationAccountId
  amountMinorUnits := terms.amountMinorUnits
  currency := some terms.currency

theorem legInput_eq {leg : Leg} {transfer : TransferAggregate} {t x : String} {terms : TransferTerms}
    (h : transfer.HasTerms t terms) : legInput leg transfer x = legInput leg (terms.aggregate t) x := by
  obtain ⟨hid, hsource, hdestination, hamount, hcurrency⟩ := h
  cases leg <;>
    simp only [legInput, Leg.account, TransferTerms.aggregate, hid, hsource, hdestination, hamount, hcurrency]

namespace TransactionRegistryService

/-- What `execute` answers from a record that it finds, and that is not to be retried. -/
def answerFrom (input : ReserveTransactionInput) (record : TransactionRecord) : Except Failure Unit :=
  match ensureSameTransactionIntent input record, record.status with
  | .ok _, .COMPLETED => .ok ()
  | _, _ => .error (refusal input record)

variable {input : ReserveTransactionInput} {record : TransactionRecord}

theorem answerFrom_completed (hintent : ensureSameTransactionIntent input record = .ok ())
    (hstatus : record.status = .COMPLETED) : answerFrom input record = .ok () := by
  rw [answerFrom, hintent, hstatus]

theorem answerFrom_failed (hintent : ensureSameTransactionIntent input record = .ok ())
    (hstatus : record.status = .FAILED_TERMINAL) :
    answerFrom input record = .error (previouslyFailed input.transactionId) := by
  rw [answerFrom, hintent, hstatus]
  dsimp only
  rw [refusal, hintent]
  dsimp only
  rw [hstatus, if_neg (by decide)]

theorem answerFrom_refused (h : ¬ (ensureSameTransactionIntent input record = .ok () ∧ record.status = .COMPLETED)) :
    answerFrom input record = .error (refusal input record) := by
  unfold answerFrom
  split
  case h_1 hintent hstatus =>
    exact absurd ⟨hintent, hstatus⟩ h
  · rfl

end TransactionRegistryService

def Store.outcome (s : Store) (t : String) : TransferOutcome where
  status := (s.transferAt t).status
  failureReason := (s.transferAt t).failureReason
  failureStage := (s.transferAt t).failureStage
  accounts a := (s.accountAt a).standing

def Store.progress (s : Store) (t : String) (terms : TransferTerms) : Progress where
  toTransferOutcome := s.outcome t
  answers leg := (s.transactions.get (legId t leg)).map
    (TransactionRegistryService.answerFrom (legInput leg (terms.aggregate t) (legId t leg)))

structure Passed (s s' : Store) (t : String) (terms : TransferTerms) (p : Progress) : Prop where
  ledger : Ledger s'
  progress : s'.progress t terms = p
  transfer : ∀ t', t' ≠ t → s'.transferAt t' = s.transferAt t'
  record : ∀ t' leg, t' ≠ t → s'.transactions.get (legId t' leg) = s.transactions.get (legId t' leg)

namespace Passed

variable {s s₁ s₂ : Store} {t : String} {terms : TransferTerms} {p p' : Progress}

theorem refl (hl : Ledger s) : Passed s s t terms (s.progress t terms) := ⟨hl, rfl, fun _ _ => rfl, fun _ _ _ => rfl⟩

theorem trans (h : Passed s s₁ t terms p) (h' : Passed s₁ s₂ t terms p') : Passed s s₂ t terms p' where
  ledger := h'.ledger
  progress := h'.progress
  transfer t' ht := (h'.transfer t' ht).trans (h.transfer t' ht)
  record t' leg ht := (h'.record t' leg ht).trans (h.record t' leg ht)

end Passed

section
variable {s : Store} {t : String} {terms : TransferTerms} {leg : Leg} {context : CommandContext} {x : String}

def Progress.move (p : Progress) (transfer : TransferAggregate) : Progress :=
  { p with
    status := transfer.status
    failureReason := transfer.failureReason
    failureStage := transfer.failureStage }

theorem passed_transfer (hl : Ledger s) {event : DomainEvent}
    (he : Extends (transferStream t) (s.stream (transferStream t)) event) :
    Passed s (s.write (transferStream t) [event]) t terms
      ((s.progress t terms).move ((s.transferAt t).when event)) where
  ledger := hl.write he
  progress := by
    have haccounts : ∀ a, (s.write (transferStream t) [event]).accountAt a = s.accountAt a := by
      intro a
      rw [Store.accountAt, hl.stream_write he, if_neg (accountStream_ne_transferStream _ _).symm]
    have htransfer : (s.write (transferStream t) [event]).transferAt t = (s.transferAt t).when event := by
      rw [Store.transferAt, hl.stream_write he, if_pos rfl, TransferAggregate.replay_snoc]
    simp only [Store.progress, Store.outcome, haccounts, htransfer]
    rfl
  transfer t' ht := by
    rw [Store.transferAt, hl.stream_write he, if_neg fun heq => ht (transferStream_inj.mp heq).symm]
  record _ _ _ := rfl

theorem alone_transfer_passed (terms : TransferTerms) (hl : Ledger s) {cmd : TransferCommand} (hid : cmd.transferId = t)
    {Q : Except Failure Unit → Store → Prop}
    (hok : ∀ event s', cmd.Commits (s.transferAt t) event →
      Passed s s' t terms ((s.progress t terms).move ((s.transferAt t).when event)) →
      s'.transferAt t = (s.transferAt t).when event → s'.transactions = s.transactions → Q (.ok ()) s')
    (herr : ∀ stamp e, cmd.operation stamp (s.transferAt t) = .error e → Q (.error e) s) :
    cmd.execute.Post (Exec .none) s Q := by
  subst hid
  refine alone_transfer_execute hl (fun event hc he => hok event _ hc (passed_transfer hl he) ?_ rfl) herr
  rw [Store.transferAt, hl.stream_write he, if_pos rfl, TransferAggregate.replay_snoc]

theorem Progress.start_eq {p : Progress} {transfer : TransferAggregate}
    (hstatus : transfer.status = some leg.inProgress)
    (hreset : leg.failureStage ≠ none → transfer.failureReason = none ∧ transfer.failureStage = none)
    (hkept : leg.failureStage = none →
      transfer.failureReason = p.failureReason ∧ transfer.failureStage = p.failureStage) :
    p.move transfer = p.start leg := by
  unfold move start
  rw [hstatus]
  cases hstage : leg.failureStage with
  | some stage =>
    obtain ⟨hreason, hnone⟩ := hreset (by simp [hstage])
    rw [hreason, hnone]
  | none =>
    obtain ⟨hreason, hsame⟩ := hkept hstage
    rw [hreason, hsame]

theorem PassDue.passed_start [JsRuntime] (h : PassDue s t leg terms) {Q : Except Failure Unit → Store → Prop}
    (hok : ∀ s', Passed s s' t terms ((s.progress t terms).start leg) →
      (s'.transferAt t).status = some leg.inProgress → s'.transactions = s.transactions → Q (.ok ()) s') :
    (leg.startCommand t x context).execute.Post (Exec .none) s Q := by
  refine alone_transfer_passed terms h.ledger (Leg.startCommand_transferId ..)
    (fun event s' hc hpassed hs' htx => ?_) fun stamp e he => ?_
  · have hstatus : ((s.transferAt t).when event).status = some leg.inProgress := by
      obtain ⟨stamp, hemits⟩ := hc
      cases leg <;> cases hemits <;> rfl
    have hstart : (s.progress t terms).move ((s.transferAt t).when event) = (s.progress t terms).start leg := by
      refine Progress.start_eq hstatus (fun hstage => ?_) fun hstage => ?_
      all_goals obtain ⟨stamp, hemits⟩ := hc
      · cases leg <;> cases hemits <;> first | exact ⟨rfl, rfl⟩ | exact absurd rfl hstage
      · cases leg <;> cases hemits <;> first | exact ⟨rfl, rfl⟩ | cases hstage
    exact hok s' (hstart ▸ hpassed) (hs' ▸ hstatus) htx
  · have hstarts := h.startsFrom
    have hstage := h.stage
    cases leg <;> simp only [Leg.startsFrom] at hstarts <;>
      simp [Leg.startCommand, TransferCommand.operation, TransferAggregate.startDebit, TransferAggregate.startCredit,
        TransferAggregate.startCompensation, hstarts, hstage] at he

theorem passed_finish (terms : TransferTerms) (hl : Ledger s) (hstatus : (s.transferAt t).status = some leg.inProgress)
    {Q : Except Failure Unit → Store → Prop}
    (hok : ∀ s', Passed s s' t terms ((s.progress t terms).finish leg) → Q (.ok ()) s') :
    (leg.finishCommand t context).execute.Post (Exec .none) s Q := by
  refine alone_transfer_passed terms hl (Leg.finishCommand_transferId ..)
    (fun event s' hc hpassed _ _ => hok s' ?_) fun stamp e he => ?_
  · have hfinish : (s.progress t terms).move ((s.transferAt t).when event) = (s.progress t terms).finish leg := by
      obtain ⟨stamp, hemits⟩ := hc
      cases leg <;> cases hemits <;> rfl
    exact hfinish ▸ hpassed
  · cases leg <;> simp [Leg.finishCommand, TransferCommand.operation, TransferAggregate.markDebited,
      TransferAggregate.complete, TransferAggregate.markCompensated, hstatus, Leg.inProgress] at he

/-- The leg's `catch`, whatever it ends with. -/
theorem passed_refuse (terms : TransferTerms) (hl : Ledger s)
    (hstatus : (s.transferAt t).status = some leg.inProgress) {e : Failure} :
    (match leg.failureStage with
      | some stage =>
        if isTerminalDomainError e then (TransferCommand.FailTransfer t e.message stage context).execute
        else throw (.retryable e.message)
      | none => throw (.retryable e.message) : Task Unit).Post (Exec .none) s fun _ s' =>
      Passed s s' t terms ((s.progress t terms).refuse leg e) := by
  unfold Progress.refuse
  cases hstage : leg.failureStage with
  | none => exact Async.post_throw (.refl hl)
  | some stage =>
    obtain rfl : leg = stage.leg := by
      cases leg <;> cases hstage <;> rfl
    dsimp only
    cases hterminal : isTerminalDomainError e with
    | false => exact Async.post_throw (.refl hl)
    | true =>
      simp only [if_true]
      have hid : (TransferCommand.FailTransfer t e.message stage context).transferId = t := rfl
      refine alone_transfer_passed terms hl hid (fun event s' hc hpassed _ _ => ?_) fun stamp e' he => ?_
      · obtain ⟨stamp, hemits⟩ := hc
        cases hemits
        exact hpassed
      · have hreason := isTerminalDomainError_nonempty hterminal
        cases stage <;> simp [TransferCommand.operation, TransferAggregate.fail, TransferAggregate.statusIn, hstatus,
          FailureStage.leg, Leg.inProgress, hreason] at he

/-! ## The leg -/

section
variable [JsRuntime] {transfer : TransferAggregate} {account : AccountAggregate} (hterms : transfer.HasTerms t terms)
  (hpos : 0 < terms.amountMinorUnits)
  (hamount : parseMoneyToMinorUnits (.number (minorUnitsToNumber terms.amountMinorUnits)) = .ok terms.amountMinorUnits)
include hterms hpos hamount

omit hpos in
/-- The guards that the command has passed are those of the machine. -/
theorem legCommand_settles {event : DomainEvent} (h : (legCommand leg transfer context x).Commits account event) :
    leg.settle terms account.standing = .ok (account.when event).standing := by
  obtain ⟨-, -, -, hminor, hcurrency⟩ := hterms
  have hsame : orUndefined transfer.currency = terms.currency := by simp [hcurrency, orUndefined]
  obtain ⟨stamp, hemits⟩ := h
  rw [← hminor] at hamount
  cases leg with
  | debit =>
    cases hemits with
    | withdraw hactive hcur hn hn' hfunds =>
      obtain rfl := Except.ok.inj (hamount.symm.trans hn)
      rw [hsame] at hcur
      rw [hminor] at hfunds
      simp [Leg.settle, AccountAggregate.standing, AccountAggregate.when, hactive, hcur, hminor, Int.not_lt.mpr hfunds]
  | credit | compensation =>
    cases hemits with
    | deposit hactive hcur hn hn' =>
      obtain rfl := Except.ok.inj (hamount.symm.trans hn)
      rw [hsame] at hcur
      simp [Leg.settle, AccountAggregate.standing, AccountAggregate.when, hactive, hcur, hminor]

theorem legCommand_refuses {stamp : Stamp} {e : Failure}
    (h : (legCommand leg transfer context x).operation stamp account = .error e) :
    leg.settle terms account.standing = .error e := by
  obtain ⟨-, -, -, hminor, hcurrency⟩ := hterms
  have hsame : orUndefined transfer.currency = terms.currency := by simp [hcurrency, orUndefined]
  have hparse : parseMoneyToMinorUnits (.number (minorUnitsToNumber transfer.amountMinorUnits)) =
      .ok terms.amountMinorUnits := by
    rw [hminor]
    exact hamount
  -- What is left after the guards that both commands share.
  have hguarded : ∀ {k : Int → Except Failure AccountAggregate},
      (account.status = .ACTIVE → account.currency = some terms.currency → k terms.amountMinorUnits = .error e →
        leg.settle terms account.standing = .error e) →
      (do
        account.ensureActive
        account.ensureCurrency (orUndefined transfer.currency)
        let n ← parseMoneyToMinorUnits (.number (minorUnitsToNumber transfer.amountMinorUnits))
        k n) = .error e →
      leg.settle terms account.standing = .error e := by
    intro k hk h
    rw [AccountAggregate.guarded_eq, hparse, hsame] at h
    split at h
    case isTrue hactive =>
      rw [Leg.settle, if_pos (show account.standing.status ≠ .ACTIVE from hactive)]
      exact congrArg Except.error (Except.error.inj h)
    case isFalse hactive =>
      split at h
      case isTrue hcur =>
        rw [Leg.settle, if_neg (show ¬ account.standing.status ≠ .ACTIVE from hactive),
          if_pos (show account.standing.currency ≠ some terms.currency from hcur)]
        exact congrArg Except.error (Except.error.inj h)
      case isFalse hcur =>
        exact hk (Classical.not_not.mp hactive) (Classical.not_not.mp hcur) h
  cases leg with
  | debit =>
    refine hguarded (fun hactive hcur hk => ?_) h
    rw [if_neg (by omega)] at hk
    split at hk
    case isTrue hfunds =>
      cases hk
      simp [Leg.settle, AccountAggregate.standing, hactive, hcur, hfunds]
    · cases hk
  | credit | compensation =>
    refine hguarded (fun _ _ hk => ?_) h
    rw [if_neg (by omega)] at hk
    cases hk

end

/-! ## The registry -/

theorem passed_account (t : String) (terms : TransferTerms) (hl : Ledger s) {a : String} {event : DomainEvent}
    {snapshots : OrderedMap String Snapshot}
    (he : Extends (accountStream a) (s.stream (accountStream a)) event)
    (hl' : Ledger { s.write (accountStream a) [event] with snapshots := snapshots }) :
    Passed s { s.write (accountStream a) [event] with snapshots := snapshots } t terms
      { s.progress t terms with
        accounts := Function.update (s.progress t terms).accounts a ((s.accountAt a).when event).standing } := by
  have htransfer : ∀ t, ({ s.write (accountStream a) [event] with snapshots := snapshots } : Store).transferAt t =
      s.transferAt t := by
    intro t
    show TransferAggregate.replay ((s.write _ _).stream _) = _
    rw [hl.stream_write he, if_neg (accountStream_ne_transferStream _ _)]
  refine ⟨hl', ?_, fun t' _ => htransfer t', fun _ _ _ => rfl⟩
  have haccounts : (fun b => (AccountAggregate.replay
      ((s.write (accountStream a) [event]).stream (accountStream b))).standing) =
      Function.update (fun b => (s.accountAt b).standing) a ((s.accountAt a).when event).standing := by
    funext b
    rw [hl.stream_write he]
    by_cases hb : b = a
    · subst hb
      rw [if_pos rfl, Function.update_self, AccountAggregate.replay_snoc]
    · rw [if_neg fun heq => hb (accountStream_inj.mp heq).symm, Function.update_of_ne hb]
  simp only [Store.progress, Store.outcome, htransfer]
  rw [← haccounts]
  rfl

theorem passed_record (terms : TransferTerms) (hl : Ledger s) {records : TransactionRecords}
    {record : TransactionRecord} (hget : records.get (legId t leg) = some record)
    (hkept : ∀ y, y ≠ legId t leg → records.get y = s.transactions.get y) :
    Passed s { s with transactions := records } t terms ((s.progress t terms).answer leg
      (TransactionRegistryService.answerFrom (legInput leg (terms.aggregate t) (legId t leg)) record)) := by
  refine ⟨hl.congr rfl rfl, ?_, fun _ _ => rfl, fun t' leg' ht => hkept _ fun heq => ht (legId_inj heq).1⟩
  have hanswers : (fun leg' => (records.get (legId t leg')).map
      (TransactionRegistryService.answerFrom (legInput leg' (terms.aggregate t) (legId t leg')))) =
      Function.update (s.progress t terms).answers leg (some
        (TransactionRegistryService.answerFrom (legInput leg (terms.aggregate t) (legId t leg)) record)) := by
    funext leg'
    by_cases hleg : leg' = leg
    · subst hleg
      rw [hget, Function.update_self]
      rfl
    · rw [hkept _ fun heq => hleg (legId_inj heq).2, Function.update_of_ne hleg]
      rfl
  rw [Progress.answer, ← hanswers]
  rfl

theorem passed_mark (hl : Ledger s) {record : TransactionRecord} (hget : s.transactions.get (legId t leg) = some record)
    (f : TransactionRecord → TransactionRecord) :
    Passed s { s with transactions := OrderedMap.modify s.transactions (legId t leg) f } t terms
      ((s.progress t terms).answer leg
        (TransactionRegistryService.answerFrom (legInput leg (terms.aggregate t) (legId t leg)) (f record))) := by
  refine passed_record terms hl ?_ fun y hy => ?_
  · rw [OrderedMap.get_modify, if_pos rfl, hget]
    rfl
  · rw [OrderedMap.get_modify, if_neg hy.symm]

theorem Passed.answered {s₁ s₂ : Store} {p : Progress} {r r' : Except Failure Unit}
    (h : Passed s s₁ t terms (p.answer leg r)) (h' : Passed s₁ s₂ t terms ((s₁.progress t terms).answer leg r')) :
    Passed s s₂ t terms (p.answer leg r') := by
  have heq : (s₁.progress t terms).answer leg r' = p.answer leg r' := by
    rw [h.progress]
    simp only [Progress.answer, Function.update_idem]
  exact heq ▸ h.trans h'

section
variable [JsRuntime] {transfer : TransferAggregate} (hterms : transfer.HasTerms t terms)
  (hpos : 0 < terms.amountMinorUnits)
  (hamount : parseMoneyToMinorUnits (.number (minorUnitsToNumber terms.amountMinorUnits)) = .ok terms.amountMinorUnits)
include hterms hpos hamount

omit [JsRuntime] hamount in
/-- The registry takes a leg for what it has reserved it as. -/
theorem reserve_leg (leg : Leg) (hget : s.transactions.get x = none) :
    ∃ record, perform (.reserveTransaction (legInput leg transfer x)) s =
      (.ok ⟨true, some record⟩, { s with transactions := s.transactions.set x record }) ∧
      ∀ status errorMessage, TransactionRegistryService.ensureSameTransactionIntent (legInput leg (terms.aggregate t) x)
        { record with status := status, errorMessage := errorMessage } = .ok () := by
  have hparse : parseMoneyToMinorUnits (legInput leg (terms.aggregate t) x).amount =
      .ok (100 * terms.amountMinorUnits) := by
    rw [← legInput_eq hterms]
    exact parse_legInput hterms hpos
  have hget' : s.transactions.get (legInput leg (terms.aggregate t) x).transactionId = none := hget
  rw [legInput_eq hterms]
  simp only [perform, TransactionRecords.reserve, hget', hparse]
  refine ⟨_, rfl, fun status errorMessage => ?_⟩
  unfold TransactionRegistryService.ensureSameTransactionIntent
  rw [if_neg (by simp), hparse]
  exact if_neg (by simp)

theorem passed_registry_new (hl : Ledger s) (hget : s.transactions.get (legId t leg) = none)
    {Q : Except Failure Response → Store → Prop}
    (hok : ∀ standing s', leg.settle terms ((s.progress t terms).accounts (leg.accountOf terms)) = .ok standing →
      Passed s s' t terms (({ s.progress t terms with
        accounts := Function.update (s.progress t terms).accounts (leg.accountOf terms) standing } : Progress).answer
          leg (.ok ())) → Q (.ok accepted) s')
    (herr : ∀ e s', leg.settle terms ((s.progress t terms).accounts (leg.accountOf terms)) = .error e →
      Passed s s' t terms ((s.progress t terms).answer leg
        (.error (TransactionRegistryService.previouslyFailed (legId t leg)))) → Q (.error e) s') :
    (TransactionRegistryService.execute (legInput leg transfer (legId t leg))
      (legHandler leg transfer context (legId t leg)) legOptions).Post (Exec .none) s Q := by
  obtain ⟨record, hperform, hintent⟩ := reserve_leg hterms hpos leg hget
  refine Async.post_bind (alone_call (by simp) ?_)
  rw [hperform]
  have h₁ : Passed s { s with transactions := s.transactions.set (legId t leg) record } t terms _ :=
    passed_record terms hl (OrderedMap.get_set_self ..) fun y hy => OrderedMap.get_set_of_ne _ _ hy.symm
  refine Async.post_tryCatch (Async.post_bind (Async.post_bind (alone_account_execute h₁.ledger
    (fun event snapshots hc he hl₂ => ?_) fun stamp e he => ?_)))
  · rw [legCommand_accountId, Leg.account_eq hterms] at hc he
    rw [legCommand_accountId, Leg.account_eq hterms] at hl₂ ⊢
    have h₂ := h₁.trans (passed_account t terms h₁.ledger he hl₂)
    rw [h₁.progress] at h₂
    refine Async.post_pure (Async.post_bind (alone_call (by simp) (Async.post_pure ?_)))
    refine hok _ _ (legCommand_settles hterms hamount hc) (Passed.answered h₂ ?_)
    rw [← TransactionRegistryService.answerFrom_completed (hintent .COMPLETED none) rfl]
    exact passed_mark hl₂ (OrderedMap.get_set_self ..) _
  · rw [legCommand_accountId, Leg.account_eq hterms] at he
    have hsettle := legCommand_refuses hterms hpos hamount he
    refine Async.post_bind (alone_call (by simp) (Async.post_throw ?_))
    refine herr e _ hsettle (Passed.answered h₁ ?_)
    have hterminal : (if legOptions.isRetryableError e then TransactionRecordStatus.FAILED_RETRYABLE
        else .FAILED_TERMINAL) = .FAILED_TERMINAL := if_neg (Bool.eq_false_iff.mp (Leg.settle_not_retryable hsettle))
    rw [hterminal]
    have hanswer := TransactionRegistryService.answerFrom_failed (hintent .FAILED_TERMINAL (some e.message)) rfl
    exact hanswer ▸ passed_mark h₁.ledger (OrderedMap.get_set_self ..) _

end

/-! ## One pass -/

structure PassReady [JsRuntime] (s : Store) (t : String) (terms : TransferTerms) : Prop where
  ledger : Ledger s
  has : (s.transferAt t).HasTerms t terms
  positive : 0 < terms.amountMinorUnits
  amount : parseMoneyToMinorUnits (.number (minorUnitsToNumber terms.amountMinorUnits)) = .ok terms.amountMinorUnits
  apart : terms.sourceAccountId ≠ terms.destinationAccountId
  recordedId : ∀ leg : Leg, (leg.recordedId (s.transferAt t)).getD (legId t leg) = legId t leg
  stage : dueLeg (s.transferAt t) = some .compensation → (s.transferAt t).failureStage = some .CREDIT
  closed : ∀ x record, s.transactions.get x = some record → record.status ≠ .FAILED_RETRYABLE
  ended : dueLeg (s.transferAt t) = none → Ended (s.transferAt t)

variable [JsRuntime]

theorem PassReady.takes_leg (h : PassReady s t terms) (hdue : dueLeg (s.transferAt t) = some leg) :
    (processLeg leg t context (legId t leg)).Post (Exec .none) s fun _ s' =>
      Passed s s' t terms ((s.progress t terms).pass t terms) := by
  have hpass : PassDue s t leg terms :=
    ⟨h.ledger, hdue, h.has, h.positive, h.amount, fun hleg => h.stage (hleg ▸ hdue)⟩
  have hleg : (s.progress t terms).due = some leg := hdue
  refine Async.post_bind (alone_transfer_getById h.ledger ?_)
  dsimp only
  rw [if_pos hpass.startsFrom]
  refine Async.post_bind (hpass.passed_start fun s₁ h₁ hst₁ htx => ?_)
  refine Async.post_tryCatch (Async.post_bind ?_)
  cases hget : s.transactions.get (legId t leg) with
  | none =>
    have hanswer : (s.progress t terms).answers leg = none := by
      show (s.transactions.get (legId t leg)).map _ = none
      rw [hget]
      rfl
    refine passed_registry_new h.has h.positive h.amount h₁.ledger (htx ▸ hget) (fun standing s₂ hsettle h₂ => ?_)
      fun e s₂ hsettle h₂ => ?_
    all_goals
      rw [h₁.progress, Progress.accounts_start] at hsettle
      have hst₂ : (s₂.transferAt t).status = some leg.inProgress :=
        (congrArg (fun p : Progress => p.status) h₂.progress).trans hst₁
    · refine passed_finish terms h₂.ledger hst₂ fun s₃ h₃ => ?_
      have hall := h₁.trans (h₂.trans h₃)
      rw [h₂.progress, h₁.progress, Progress.accounts_start] at hall
      rw [Progress.pass_taken hleg hanswer hsettle]
      exact hall
    · refine Async.post_mono (fun _ s₃ h₃ => ?_) (passed_refuse terms h₂.ledger hst₂)
      have hall := h₁.trans (h₂.trans h₃)
      rw [h₂.progress, h₁.progress] at hall
      rw [Progress.pass_refused hleg hanswer hsettle]
      exact hall
  | some record =>
    have hanswer : (s.progress t terms).answers leg = some (TransactionRegistryService.answerFrom
        (legInput leg (s.transferAt t) (legId t leg)) record) := by
      show (s.transactions.get (legId t leg)).map _ = _
      rw [hget, legInput_eq h.has]
      rfl
    have hget₁ : s₁.transactions.get (legInput leg (s.transferAt t) (legId t leg)).transactionId = some record :=
      htx ▸ hget
    refine alone_registry_found hget₁ (h.closed _ record hget) (fun hintent hstatus => ?_) fun hnot => ?_
    · rw [TransactionRegistryService.answerFrom_completed hintent hstatus] at hanswer
      refine passed_finish terms h₁.ledger hst₁ fun s₃ h₃ => ?_
      have hall := h₁.trans h₃
      rw [h₁.progress] at hall
      rw [Progress.pass_accepted hleg hanswer]
      exact hall
    · rw [TransactionRegistryService.answerFrom_refused hnot] at hanswer
      refine Async.post_mono (fun _ s₃ h₃ => ?_) (passed_refuse terms h₁.ledger hst₁)
      have hall := h₁.trans h₃
      rw [h₁.progress] at hall
      rw [Progress.pass_denied hleg hanswer]
      exact hall

/-- **One pass is one step of the machine.** -/
theorem PassReady.pass (h : PassReady s t terms) :
    (processTransfer t).Post (Exec .none) s fun out s' =>
      out = .ok () ∧ Passed s s' t terms ((s.progress t terms).pass t terms) := by
  refine Async.post_bind (alone_transfer_getById h.ledger (alone_randomUUID fun commandId => ?_))
  cases hdue : dueLeg (s.transferAt t) with
  | none =>
    have hnone : (s.progress t terms).due = none := hdue
    rw [Progress.pass_of_due_none hnone]
    dsimp only
    exact Async.post_pure ⟨rfl, .refl h.ledger⟩
  | some leg =>
    simp only [h.has.1, orUndefined, Option.getD_some, h.recordedId]
    refine Async.post_tryCatch (Async.post_mono (fun r s' hr => ?_) (h.takes_leg hdue))
    cases r with
    | ok u => exact ⟨rfl, hr⟩
    | error e => exact Async.post_pure ⟨rfl, hr⟩

end

end CoreBanking
