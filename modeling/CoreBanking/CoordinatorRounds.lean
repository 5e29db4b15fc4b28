import CoreBanking.Passes
import CoreBanking.ReadModels

/-!
# The rounds of the coordinator

A round takes the transfers that the read model lists, whatever they are, one
after the other. Three passes settle a transfer or find it stuck; which of the
two, and with what in the accounts, is known from where it stands.
-/

namespace CoreBanking

open TransferCoordinatorService

namespace TransferCoordinatorService

variable [JsRuntime]

/-- For what `listPendingTransfers` has returned. -/
def processPendingTransfersOnce : List TransferSummaryReadModel → Task Unit
  | [] => pure ()
  | transfer :: pending => do
    processTransfer (orUndefined transfer.transferId)
    processPendingTransfersOnce pending

def runLoop : List (List TransferSummaryReadModel) → Task Unit
  | [] => pure ()
  | pending :: rounds => do
    tryCatch (processPendingTransfersOnce pending) fun _ => pure ()
    runLoop rounds

end TransferCoordinatorService

/-! ## The stores of a bank -/

theorem Exec.of_none {F : FaultModel} {op : StoreOp} {s s' : Store} {r : Except Failure op.Result}
    (h : Exec .none op s r s') : Exec F op s r s' := by
  cases h with
  | randomUUID uuid => exact .randomUUID uuid
  | now time => exact .now time
  | performed hop => exact .performed hop
  | lost hm => exact hm.elim
  | rejected message hm => exact hm.elim
  | ambiguous message hm => exact hm.elim

theorem runs_le {α : Type} {p : Task α} {s s' : Store} {out : Except Failure α} (h : p.Runs (Exec .none) s out s') :
    s.Le s' := by
  induction p generalizing s with
  | done r =>
    obtain ⟨-, rfl⟩ := h
    exact .refl _
  | await op k ih =>
    obtain ⟨r, s₁, hexec, h⟩ := h
    exact hexec.le.trans (ih r h)

/-- A program that runs alone over the stores runs so in a service. -/
theorem Service.runs_alone {Req Out α : Type} {V : Service Req Out} {i : Nat} {q : Req}
    (hallows : ∀ op s, V.allows q op s) {p : Task α} {w : World Req} {out : Except Failure α} {s' : Store}
    (h : p.Runs (Exec .none) w.store out s') : ∃ trace, p.Runs (V.system.step i q) w out ⟨s', trace⟩ := by
  induction p generalizing w with
  | done r =>
    obtain ⟨rfl, rfl⟩ := h
    exact ⟨w.trace, rfl, rfl⟩
  | await op k ih =>
    obtain ⟨r, s₁, hexec, h⟩ := h
    obtain ⟨trace, h⟩ := ih r (w := ⟨s₁, w.trace ++ [⟨i, q, op, r⟩]⟩) h
    exact ⟨trace, r, _, ⟨hallows op w.store, hexec.of_none, rfl⟩, h⟩

section
variable [JsRuntime] [RequestDigest]

def BankStore (F : FaultModel) (s : Store) : Prop :=
  ∃ c : BankConfig, (bank F (fun _ => True) fun _ _ _ => True).system.Reachable c ∧ c.state.store = s

variable {F : FaultModel} {admits : BankRequest → Prop} {allows : BankRequest → StoreOp → Store → Prop} {c : BankConfig}
  {s s' : Store} {t : String} {terms : TransferTerms}

theorem bankStore (hc : (bank F admits allows).system.Reachable c) : BankStore F c.state.store := by
  refine ⟨c, hc.mono ?_ ?_ ?_ ?_ ?_, rfl⟩
  · rfl
  · exact fun q hq => ⟨hq.1, trivial⟩
  · rfl
  · exact fun hs => ⟨trivial, hs.exec, hs.trace⟩
  · exact id

omit [JsRuntime] [RequestDigest] in
theorem not_ended_of_due {transfer : TransferAggregate} {leg : Leg} (hdue : dueLeg transfer = some leg) :
    ¬ Ended transfer := by
  unfold dueLeg at hdue
  rintro (hst | hst | ⟨hst, hstage⟩)
  · rw [hst] at hdue
    cases hdue
  · rw [hst] at hdue
    cases hdue
  · rw [hst, hstage] at hdue
    cases hdue

theorem BankStore.ready (h : BankStore F s) (hterms : termsOf (s.stream (transferStream t)) = some terms) :
    PassReady s t terms := by
  obtain ⟨c, hc, rfl⟩ := h
  obtain ⟨gs, hinv⟩ := bank_books hc
  have hB := hinv.books.toBooks
  have hhist := hB.ledger.transfer t
  have hes : c.state.store.stream (transferStream t) ≠ [] := by
    intro hnil
    rw [hnil] at hterms
    cases hterms
  obtain ⟨terms', hterms', hpos, hapart, hhas⟩ := hhist.stream.terms (hB.named hes).1 hes
  obtain rfl := Option.some.inj (hterms.symm.trans hterms')
  refine ⟨hB.ledger, hhas, hpos, hB.amount hterms, hapart, hB.recordedId t, fun hdue => ?_, fun _ _ => hB.notReopened,
    fun hdue => ?_⟩
  · obtain ⟨leg, hleg, hstage⟩ := hhist.due hes (not_ended_of_due hdue)
    obtain rfl := Option.some.inj (hleg.symm.trans hdue)
    exact hstage rfl
  · apply Classical.byContradiction
    intro hopen
    obtain ⟨leg, hleg, -⟩ := hhist.due hes hopen
    cases hleg.symm.trans hdue

theorem BankStore.ledger (h : BankStore F s) : Ledger s := by
  obtain ⟨c, hc, rfl⟩ := h
  obtain ⟨gs, hinv⟩ := bank_books hc
  exact hinv.books.toBooks.ledger

theorem BankStore.exists_terms (h : BankStore F s) (hes : s.stream (transferStream t) ≠ []) :
    ∃ terms, termsOf (s.stream (transferStream t)) = some terms := by
  obtain ⟨c, hc, rfl⟩ := h
  obtain ⟨gs, hinv⟩ := bank_books hc
  have hB := hinv.books.toBooks
  obtain ⟨terms, hterms, -⟩ := (hB.ledger.transfer t).stream.terms (hB.named hes).1 hes
  exact ⟨terms, hterms⟩

omit [RequestDigest] in
theorem pass_unknown (hl : Ledger s) (hes : s.stream (transferStream t) = []) :
    (processTransfer t).Post (Exec .none) s fun out s' => out = .ok () ∧ s' = s := by
  refine Async.post_bind (alone_transfer_getById hl (alone_randomUUID fun commandId => ?_))
  rw [hes]
  exact Async.post_pure ⟨rfl, rfl⟩

theorem BankStore.pass (h : BankStore F s) {out : Except Failure Unit}
    (hrun : (processTransfer t).Runs (Exec .none) s out s') : out = .ok () ∧ BankStore F s' ∧
      (s' = s ∨ ∃ terms, termsOf (s.stream (transferStream t)) = some terms ∧
        Passed s s' t terms ((s.progress t terms).pass t terms)) := by
  have hcases : out = .ok () ∧ (s' = s ∨ ∃ terms, termsOf (s.stream (transferStream t)) = some terms ∧
      Passed s s' t terms ((s.progress t terms).pass t terms)) := by
    by_cases hes : s.stream (transferStream t) = []
    · obtain ⟨hout, hsame⟩ := pass_unknown h.ledger hes out s' hrun
      exact ⟨hout, .inl hsame⟩
    · obtain ⟨terms, hterms⟩ := h.exists_terms hes
      obtain ⟨hout, hpassed⟩ := (h.ready hterms).pass out s' hrun
      exact ⟨hout, .inr ⟨terms, hterms, hpassed⟩⟩
  obtain ⟨rfl, hcases⟩ := hcases
  refine ⟨rfl, ?_, hcases⟩
  obtain ⟨c, hc, rfl⟩ := h
  obtain ⟨trace, hrun⟩ := Service.runs_alone (V := bank F (fun _ => True) fun _ _ _ => True) (i := c.threads.length)
    (q := .processTransfer t) (fun _ _ => trivial) hrun
  have hbody : (BankRequest.body (.processTransfer t)).Runs _ c.state (.ok none) ⟨s', trace⟩ :=
    Async.runs_bind hrun ⟨rfl, rfl⟩
  have hadmits : (bank F (fun _ => True) fun _ _ _ => True).system.admits (.processTransfer t) := ⟨trivial, trivial⟩
  exact ⟨_, hc.trans (System.steps_served hadmits hbody), rfl⟩

/-! ## Rounds -/

def taken (rounds : List (List TransferSummaryReadModel)) : List String :=
  rounds.flatten.map fun transfer => orUndefined transfer.transferId

/-- What every pass keeps holds after any rounds. -/
theorem BankStore.rounds (I : List String → Store → Prop)
    (hpass : ∀ {seen s s' t}, BankStore F s → I seen s → (processTransfer t).Runs (Exec .none) s (.ok ()) s' →
      I (seen ++ [t]) s') (rounds : List (List TransferSummaryReadModel)) (seen : List String) (hs : BankStore F s)
    (hI : I seen s) : (runLoop rounds).Post (Exec .none) s fun out s' =>
      out = .ok () ∧ BankStore F s' ∧ I (seen ++ taken rounds) s' := by
  have hround : ∀ (pending : List TransferSummaryReadModel) {seen s}, BankStore F s → I seen s →
      (processPendingTransfersOnce pending).Post (Exec .none) s fun out s' => out = .ok () ∧ BankStore F s' ∧
        I (seen ++ pending.map fun transfer => orUndefined transfer.transferId) s' := by
    intro pending
    induction pending with
    | nil =>
      intro seen s hs hI
      exact Async.post_pure ⟨rfl, hs, by simpa using hI⟩
    | cons transfer pending ih =>
      intro seen s hs hI
      refine Async.post_bind fun out s₁ hrun => ?_
      obtain ⟨rfl, hs₁, -⟩ := hs.pass hrun
      refine Async.post_mono (fun out s₂ h => ?_) (ih hs₁ (hpass hs hI hrun))
      simpa using h
  induction rounds generalizing seen s with
  | nil => exact Async.post_pure ⟨rfl, hs, by simpa [taken] using hI⟩
  | cons pending rounds ih =>
    refine Async.post_bind (Async.post_tryCatch (Async.post_mono (fun out s₁ h => ?_) (hround pending hs hI)))
    obtain ⟨rfl, hs₁, hI₁⟩ := h
    refine Async.post_mono (fun out s₂ h => ?_) (ih _ hs₁ hI₁)
    simpa [taken] using h

omit [JsRuntime] [RequestDigest] in
/-- What a pass over another transfer leaves of one. -/
theorem Passed.other (terms : TransferTerms) {t' : String} {terms' : TransferTerms} (ht : t ≠ t')
    (h : Passed s s' t' terms' ((s.progress t' terms').pass t' terms')) :
    (s'.progress t terms).due = (s.progress t terms).due ∧
    (s'.progress t terms).answers = (s.progress t terms).answers ∧
    ∀ a, ((s'.progress t terms).accounts a).status = ((s.progress t terms).accounts a).status ∧
      ((s'.progress t terms).accounts a).currency = ((s.progress t terms).accounts a).currency := by
  refine ⟨?_, ?_, fun a => ?_⟩
  · show dueLeg { status := (s'.transferAt t).status, failureStage := (s'.transferAt t).failureStage } = _
    rw [h.transfer t ht]
    rfl
  · funext leg
    show (s'.transactions.get (legId t leg)).map _ = _
    rw [h.record t leg ht]
    rfl
  · have haccounts : (s'.progress t terms).accounts a = ((s.progress t' terms').pass t' terms').accounts a := by
      rw [← h.progress]
      rfl
    rw [haccounts]
    exact Progress.pass_accounts a

/-- What is left to be done for a transfer goes down with every pass over it, or the transfer is stuck. -/
def Settling (t : String) (terms : TransferTerms) (seen : List String) (s : Store) : Prop :=
  termsOf (s.stream (transferStream t)) = some terms ∧
  ((∃ leg, (s.progress t terms).Shut terms leg) ∨ (s.progress t terms).rank = 0 ∨
    (s.progress t terms).rank + seen.count t ≤ 3)

theorem Settling.pass {seen : List String} {t' : String} (hs : BankStore F s) (h : Settling t terms seen s)
    (hrun : (processTransfer t').Runs (Exec .none) s (.ok ()) s') : Settling t terms (seen ++ [t']) s' := by
  obtain ⟨hterms, hcases⟩ := h
  refine ⟨termsOf_mono ((runs_le hrun).stream _) hterms, ?_⟩
  have hready := hs.ready hterms
  by_cases ht : t = t'
  · subst ht
    obtain ⟨-, hpassed⟩ := hready.pass _ _ hrun
    rw [hpassed.progress, List.count_append, List.count_singleton_self]
    rcases hcases with ⟨leg, hshut⟩ | hcases
    · exact .inl ⟨leg, hshut.pass⟩
    cases hdue : (s.progress t terms).due with
    | none =>
      rw [Progress.pass_of_due_none hdue]
      exact .inr (.inl (Progress.rank_of_due_none hdue))
    | some leg =>
      have hadvances : ((s.progress t terms).pass t terms).rank < (s.progress t terms).rank ∨
          ∃ leg, ((s.progress t terms).pass t terms).Shut terms leg := Progress.pass_advances hdue
      rcases hadvances with hlt | hshut
      · omega
      · exact .inl hshut
  · obtain ⟨-, -, hpassed⟩ := hs.pass hrun
    have hcount : (seen ++ [t']).count t = seen.count t := by
      rw [List.count_append, List.count_singleton]
      simp [Ne.symm ht]
    rw [hcount]
    rcases hpassed with rfl | ⟨terms', -, hpassed⟩
    · exact hcases
    obtain ⟨hdue, hanswers, haccounts⟩ := hpassed.other terms ht
    have hrank : (s'.progress t terms).rank = (s.progress t terms).rank := by
      rw [Progress.rank, Progress.rank, hdue]
    rw [hrank]
    rcases hcases with ⟨leg, hshut⟩ | hcases
    · exact .inl ⟨leg, hshut.congr hdue hanswers haccounts⟩
    · exact .inr hcases

omit [RequestDigest] in
/-- What no pass gets any further is what the registry does not let run. -/
theorem PassReady.not_open (h : PassReady s t terms) {leg : Leg} (hshut : (s.progress t terms).Shut terms leg) :
    dueLeg (s.transferAt t) = some leg ∧ ¬ LegOpen s leg (s.transferAt t) (legId t leg) := by
  obtain ⟨hdue, hshut⟩ := hshut
  refine ⟨hdue, fun hopen => ?_⟩
  have hanswers : (s.progress t terms).answers leg = (s.transactions.get (legId t leg)).map
      (TransactionRegistryService.answerFrom (legInput leg (s.transferAt t) (legId t leg))) := by
    rw [legInput_eq h.has]
    rfl
  rw [hanswers] at hshut
  unfold LegOpen at hopen
  cases hget : s.transactions.get (legId t leg) with
  | none =>
    rw [hget] at hshut hopen
    obtain ⟨rfl, e, he⟩ := hshut
    obtain ⟨hactive, hcurrency⟩ := hopen rfl
    rw [Leg.account_eq h.has] at hactive hcurrency
    rw [h.has.2.2.2.2] at hcurrency
    have hsettle : Leg.compensation.settle terms ((s.progress t terms).accounts (Leg.compensation.accountOf terms)) ≠
        .error e := by
      unfold Leg.settle
      rw [if_neg (show ¬ ((s.progress t terms).accounts _).status ≠ .ACTIVE from not_not.mpr hactive),
        if_neg (show ¬ ((s.progress t terms).accounts _).currency ≠ some terms.currency from not_not.mpr hcurrency),
        if_neg (by decide)]
      exact fun h => by cases h
    exact hsettle he
  | some record =>
    rw [hget] at hshut hopen
    dsimp only [Option.map_some] at hshut hopen
    by_cases hsame : TransactionRegistryService.ensureSameTransactionIntent
        (legInput leg (s.transferAt t) (legId t leg)) record = .ok () ∧ record.status = .COMPLETED
    · rw [TransactionRegistryService.answerFrom_completed hsame.1 hsame.2] at hshut
      exact hshut
    · rw [TransactionRegistryService.answerFrom_refused hsame] at hshut
      obtain ⟨hleg, hterminal⟩ := hopen.resolve_left hsame
      rcases hshut with hshut | hshut
      · exact hleg hshut
      · rw [hterminal] at hshut
        cases hshut

/-- **The coordinator settles every transfer that can be settled.** From any
state of the bank, with nothing else under way, the rounds end, and a transfer
that they have taken three times has ended, or the registry has a record that
keeps its leg from running. -/
theorem rounds_settle (hc : (bank F admits allows).system.Reachable c) (rounds : List (List TransferSummaryReadModel)) :
    (∃ out s', (runLoop rounds).Runs (Exec .none) c.state.store out s') ∧
    ∀ out s', (runLoop rounds).Runs (Exec .none) c.state.store out s' → out = .ok () ∧
      ∀ t, c.state.store.stream (transferStream t) ≠ [] → 3 ≤ (taken rounds).count t →
        Ended (s'.transferAt t) ∨ ∃ leg, dueLeg (s'.transferAt t) = some leg ∧
          ¬ LegOpen s' leg (s'.transferAt t) (legId t leg) := by
  have hstore : BankStore F c.state.store := bankStore hc
  refine ⟨Async.exists_run exists_exec _ _, fun out s' hrun => ?_⟩
  obtain ⟨hout, hstore', -⟩ := hstore.rounds (fun _ _ => True) (fun _ _ _ => trivial) rounds [] trivial out s' hrun
  refine ⟨hout, fun t hes hcount => ?_⟩
  obtain ⟨terms, hterms⟩ := hstore.exists_terms hes
  have hrank : (c.state.store.progress t terms).rank ≤ 3 := Progress.rank_le _
  obtain ⟨-, -, hterms', hcases⟩ := hstore.rounds (Settling t terms) Settling.pass rounds []
    ⟨hterms, .inr (.inr hrank)⟩ out s' hrun
  have hready := hstore'.ready hterms'
  rw [List.nil_append] at hcases
  rcases hcases with ⟨leg, hshut⟩ | hcases
  · exact .inr ⟨leg, hready.not_open hshut⟩
  · have hzero : (s'.progress t terms).rank = 0 := by omega
    exact .inl (hready.ended (Progress.due_none hzero))

/-- **Where a transfer ends.** Passes over one transfer, at least three and
nothing else, take it where its terms and the two accounts say, when the
registry has no record of the legs that are left. -/
theorem transfer_settles (hc : (bank F admits allows).system.Reachable c)
    (hterms : termsOf (c.state.store.stream (transferStream t)) = some terms)
    (hclear : ∀ due leg : Leg, dueLeg (c.state.store.transferAt t) = some due → leg.passes ≤ due.passes →
      c.state.store.transactions.get (legId t leg) = none)
    {rounds : List (List TransferSummaryReadModel)} (honly : ∀ t' ∈ taken rounds, t' = t)
    (hcount : 3 ≤ (taken rounds).length) :
    ∀ out s', (runLoop rounds).Runs (Exec .none) c.state.store out s' →
      out = .ok () ∧ s'.outcome t = (c.state.store.outcome t).settlement terms := by
  intro out s' hrun
  have hstore : BankStore F c.state.store := bankStore hc
  have hready := hstore.ready hterms
  let reached (seen : List String) (s : Store) : Prop := (∀ t' ∈ seen, t' = t) →
    termsOf (s.stream (transferStream t)) = some terms ∧
      s.progress t terms = (Progress.pass t terms)^[seen.length] (c.state.store.progress t terms)
  have hpass : ∀ {seen s s' t'}, BankStore F s → reached seen s →
      (processTransfer t').Runs (Exec .none) s (.ok ()) s' → reached (seen ++ [t']) s' := by
    intro seen s s' t' hs hreached hrun honly
    obtain rfl : t' = t := honly t' (List.mem_append_right _ List.mem_cons_self)
    obtain ⟨hterms, hprogress⟩ := hreached fun t'' ht => honly t'' (List.mem_append_left _ ht)
    refine ⟨termsOf_mono ((runs_le hrun).stream _) hterms, ?_⟩
    rw [((hs.ready hterms).pass _ _ hrun).2.progress, hprogress, List.length_append, List.length_singleton,
      Function.iterate_succ_apply']
  obtain ⟨hout, -, hend⟩ := hstore.rounds reached hpass rounds [] (fun _ => ⟨hterms, rfl⟩) out s' hrun
  have hclear : (c.state.store.progress t terms).Clear := by
    intro leg hle
    show (c.state.store.transactions.get (legId t leg)).map _ = none
    cases hdue : dueLeg (c.state.store.transferAt t) with
    | none =>
      rw [Progress.rank_of_due_none (p := c.state.store.progress t terms) hdue] at hle
      cases leg <;> exact absurd hle (by decide)
    | some due =>
      rw [Progress.rank_of_due (p := c.state.store.progress t terms) hdue] at hle
      rw [hclear due leg hdue hle]
      rfl
  refine ⟨hout, ?_⟩
  have hprogress := (hend (by simpa using honly)).2
  rw [List.nil_append] at hprogress
  have hsettles := Progress.iterate_pass_settles (t := t) hready.apart hclear hcount
  rw [← hprogress] at hsettles
  exact hsettles

end

/-! ## A transfer that is completed -/

def listed : TransferSummaryReadModel where
  transferId := some "t-1"
  sourceAccountId := "acc-1"
  destinationAccountId := "acc-2"
  amountMinorUnits := 525
  amount := ⟨"5.25"⟩
  currency := "EUR"
  status := .INITIATED
  debitAttempts := 0
  creditAttempts := 0
  compensationAttempts := 0
  createdAt := 0
  updatedAt := 0

def listedRounds : List (List TransferSummaryReadModel) := [[listed, listed], [listed]]

def initiated : BankConfig := plainRun .none (fun _ => True) (fun _ _ _ => True) (fun _ _ => .answer) openings

theorem initiated_reachable : (plainBank .none (fun _ => True) fun _ _ _ => True).system.Reachable initiated :=
  plainRun_reachable openings_wellFormed (fun _ _ => trivial) fun _ _ => plainBank_permits

theorem rounds_settle_initiated :
    (∃ out s', (@runLoop decimalRuntime listedRounds).Runs (Exec .none) initiated.state.store out s') ∧
    ∀ out s', (@runLoop decimalRuntime listedRounds).Runs (Exec .none) initiated.state.store out s' → out = .ok () ∧
      (Ended (s'.transferAt "t-1") ∨ ∃ leg, dueLeg (s'.transferAt "t-1") = some leg ∧
        ¬ LegOpen s' leg (s'.transferAt "t-1") (legId "t-1" leg)) := by
  obtain ⟨hends, hall⟩ := @rounds_settle decimalRuntime plainDigest _ _ _ _ initiated_reachable listedRounds
  refine ⟨hends, fun out s' hrun => ?_⟩
  obtain ⟨hout, hsettled⟩ := hall out s' hrun
  exact ⟨hout, hsettled "t-1" (by decide +kernel) (by decide)⟩

theorem transfer_settles_initiated :
    (∃ out s', (@runLoop decimalRuntime listedRounds).Runs (Exec .none) initiated.state.store out s') ∧
    ∀ out s', (@runLoop decimalRuntime listedRounds).Runs (Exec .none) initiated.state.store out s' → out = .ok () ∧
      (s'.transferAt "t-1").status = some .COMPLETED ∧ (s'.accountAt "acc-1").balanceMinorUnits = 99500 ∧
      (s'.accountAt "acc-2").balanceMinorUnits = 525 := by
  refine ⟨Async.exists_run exists_exec _ _, fun out s' hrun => ?_⟩
  have hterms : termsOf (initiated.state.store.stream (transferStream "t-1")) =
      some ⟨"acc-1", "acc-2", 525, "EUR"⟩ := by decide +kernel
  have hnone : initiated.state.store.transactions.get (legId "t-1" .debit) = none ∧
      initiated.state.store.transactions.get (legId "t-1" .credit) = none ∧
      initiated.state.store.transactions.get (legId "t-1" .compensation) = none := by decide +kernel
  obtain ⟨hout, hsettled⟩ := @transfer_settles decimalRuntime plainDigest _ _ _ _ "t-1" _ initiated_reachable hterms
    (fun _ leg _ _ => by cases leg <;> [exact hnone.1; exact hnone.2.1; exact hnone.2.2]) listedRounds (by decide)
    (by decide) out s' hrun
  have hstatus := congrArg TransferOutcome.status hsettled
  have hsource := congrArg (fun o : TransferOutcome => (o.accounts "acc-1").balanceMinorUnits) hsettled
  have hdestination := congrArg (fun o : TransferOutcome => (o.accounts "acc-2").balanceMinorUnits) hsettled
  exact ⟨hout, hstatus.trans (by decide +kernel), hsource.trans (by decide +kernel),
    hdestination.trans (by decide +kernel)⟩

end CoreBanking
