import CoreBanking.BankRules
import CoreBanking.Messages

/-!
# The coordinator

A pass over a transfer is due for one leg. What made the leg due is kept by the
stream of the transfer, so it still holds when the pass gets to the registry,
to the account and back to the transfer, whatever the others have done by then.
-/

namespace CoreBanking

/-! ## What makes a leg due -/

theorem dueLeg_earned {t : String} {es : List DomainEvent} {leg : Leg} (hne : t ≠ "") (h : TransferHistory t es)
    (hd : TransferCoordinatorService.dueLeg (TransferAggregate.replay es) = some leg) : leg.Earned es := by
  have hes : es ≠ [] := by rintro rfl; cases hd
  obtain ⟨terms, ht, _⟩ := h.stream.terms hne hes
  unfold TransferCoordinatorService.dueLeg at hd
  split at hd
  · cases hd; exact Option.isSome_iff_exists.mpr ⟨terms, ht⟩
  · cases hd; exact Option.isSome_iff_exists.mpr ⟨terms, ht⟩
  case h_3 hs => cases hd; exact h.stream.debited (by simp [hs])
  case h_4 hs => cases hd; exact h.stream.debited (by simp [hs])
  · split at hd
    case isTrue hs => cases hd; exact h.stream.failed hs
    · cases hd
  case h_6 hs =>
    cases hd
    exact h.stream.failed (h.stream.failureStage.2 (by simp [hs]))
  · cases hd

/-! ## Commands on transfers -/

theorem Leg.start_commits {leg : Leg} {t x : String} {context : CommandContext} {transfer : TransferAggregate}
    {e : DomainEvent} (h : (leg.startCommand t x context).Commits transfer e) :
    e.data.started = some (leg, x) ∧ e.data.finished = none ∧ e.data.failed = none ∧ e.data.terms = none := by
  cases leg <;> obtain ⟨stamp, he⟩ := h <;> cases he <;> exact ⟨rfl, rfl, rfl, rfl⟩

theorem Leg.finish_commits {leg : Leg} {t : String} {context : CommandContext} {transfer : TransferAggregate}
    {e : DomainEvent} (h : (leg.finishCommand t context).Commits transfer e) :
    e.data.finished = some leg ∧ e.data.started = none ∧ e.data.failed = none ∧ e.data.terms = none := by
  cases leg <;> obtain ⟨stamp, he⟩ := h <;> cases he <;> exact ⟨rfl, rfl, rfl, rfl⟩

@[simp] theorem Leg.startCommand_transferId (leg : Leg) (t x : String) (context : CommandContext) :
    (leg.startCommand t x context).transferId = t := by
  cases leg <;> rfl

@[simp] theorem Leg.finishCommand_transferId (leg : Leg) (t : String) (context : CommandContext) :
    (leg.finishCommand t context).transferId = t := by
  cases leg <;> rfl

theorem TransferMethod.Commits.movement {method : TransferMethod} {context : CommandContext}
    {transfer : TransferAggregate} {event : DomainEvent} (h : method.Commits context transfer event) :
    event.data.movement = none := by
  obtain ⟨stamp, he⟩ := h
  cases he <;> rfl

theorem TransferMethod.Commits.isAccountFrozen {method : TransferMethod} {context : CommandContext}
    {transfer : TransferAggregate} {event : DomainEvent} (h : method.Commits context transfer event) :
    event.data.isAccountFrozen = false := by
  obtain ⟨stamp, he⟩ := h
  cases he <;> rfl

section
variable [JsRuntime] [RequestDigest] {P : Flags} {F : FaultModel} {admits : BankRequest → Prop}
  {allows : BankRequest → StoreOp → Store → Prop} {q : BankRequest} {w : World BankRequest} {g : Hold}

omit [RequestDigest] in
theorem Warrant.transfer {s : Store} {gs : Nat → Hold} {i : Nat} {cmd : TransferCommand} {e : DomainEvent}
    (hext : Extends (transferStream cmd.transferId) (s.stream (transferStream cmd.transferId)) e)
    (hc : cmd.Commits (TransferAggregate.replay (s.stream (transferStream cmd.transferId))) e)
    (hkey : P.calm → (gs i).key = some cmd.context.commandId)
    (hnamed : cmd.transferId ≠ "" ∧ (P.quiet → QuietTexts cmd.transferId))
    (hamount : ∀ {terms}, e.data.terms = some terms →
      parseMoneyToMinorUnits (.number (minorUnitsToNumber terms.amountMinorUnits)) = .ok terms.amountMinorUnits)
    (hstarted : ∀ {leg x}, e.data.started = some (leg, x) → x = legId cmd.transferId leg)
    (hfinished : P.legs → ∀ {leg}, e.data.finished = some leg → s.Moved (legId cmd.transferId leg))
    (hfailed : P.quiet → ∀ {stage}, e.data.failed = some stage → Dead s gs (legId cmd.transferId stage.leg) ∧
      (stage = .CREDIT → Leg.credit.Earned (s.stream (transferStream cmd.transferId)))) :
    Warrant P s gs i (transferStream cmd.transferId) e where
  extension := hext
  money hx := by cases (TransferMethod.Commits.movement hc).symm.trans hx
  key hP := by rw [hc.metadata]; exact hkey hP
  named hs := transferStream_inj.mp hs ▸ hnamed
  amount := hamount
  started hs := transferStream_inj.mp hs ▸ hstarted
  movement _ _ _ hx := by cases (TransferMethod.Commits.movement hc).symm.trans hx
  finished hP _ _ hs := transferStream_inj.mp hs ▸ hfinished hP
  failed hP _ _ hs := transferStream_inj.mp hs ▸ hfailed hP
  opened _ _ := ⟨fun _ hs => absurd hs.symm (accountStream_ne_transferStream _ _),
    TransferMethod.Commits.isAccountFrozen hc⟩

theorem wp_transfer_command {cmd : TransferCommand} (hkey : P.calm → g.key = some cmd.context.commandId)
    (hnamed : cmd.transferId ≠ "" ∧ (P.quiet → QuietTexts cmd.transferId))
    (hamount : ∀ {transfer e terms}, cmd.Commits transfer e → e.data.terms = some terms →
      parseMoneyToMinorUnits (.number (minorUnitsToNumber terms.amountMinorUnits)) = .ok terms.amountMinorUnits)
    (hstarted : ∀ {transfer e leg x}, cmd.Commits transfer e → e.data.started = some (leg, x) →
      x = legId cmd.transferId leg)
    (hfinished : P.legs → ∀ {transfer e leg}, cmd.Commits transfer e → e.data.finished = some leg →
      w.store.Moved (legId cmd.transferId leg))
    (hfailed : P.quiet → ∀ {transfer e stage}, cmd.Commits transfer e → e.data.failed = some stage →
      g.failed = some (legId cmd.transferId stage.leg) ∧
      (stage = .CREDIT → Leg.credit.Earned (w.store.stream (transferStream cmd.transferId)))) :
    (bankOutline P F admits allows).wp q cmd.execute w g
      (Settled F g (fun _ g' => g' = { g with key := none }) cmd.Rejects) := by
  refine bankInv_hosts.wp_transfer_execute fun {i w₁ gs e r w₂} hle hinv hg hc hstep => ?_
  have hmarks := marks_step hinv.marks hstep.call nofun
  have hinv := hinv.books
  have hw : Warrant P w₁.store gs i (transferStream cmd.transferId) e := by
    refine .transfer hstep.extension hc (fun hP => hg ▸ hkey hP) hnamed (hamount hc) (hstarted hc)
      (fun hP {leg} hf => hle.store.moved (hfinished hP hc hf)) fun hP {stage} hf => ?_
    obtain ⟨hheld, hearned⟩ := hfailed hP hc hf
    exact ⟨(hinv.quiet hP).held (hg ▸ hheld), fun hst => (hearned hst).mono (hle.store.stream _)⟩
  have hcommit := hinv.commit hw
  rw [← hstep.store] at hcommit
  refine ⟨_, ⟨hcommit, hmarks⟩, ?_⟩
  rw [hg, Hold.commit, if_pos (TransferMethod.Commits.movement hc)]

/-! ## One leg -/

structure LegDue (P : Flags) (s : Store) (t : String) (leg : Leg) (terms : TransferTerms) : Prop where
  named : t ≠ "" ∧ (P.quiet → QuietTexts t)
  initiated : termsOf (s.stream (transferStream t)) = some terms
  amount : parseMoneyToMinorUnits (.number (minorUnitsToNumber terms.amountMinorUnits)) = .ok terms.amountMinorUnits
  positive : 0 < terms.amountMinorUnits
  earned : leg.Earned (s.stream (transferStream t))

omit [RequestDigest] in
theorem LegDue.mono {s s' : Store} {t : String} {leg : Leg} {terms : TransferTerms} (h : LegDue P s t leg terms)
    (hle : s.Le s') : LegDue P s' t leg terms :=
  ⟨h.named, termsOf_mono (hle.stream _) h.initiated, h.amount, h.positive, h.earned.mono (hle.stream _)⟩

open TransferCoordinatorService

omit [JsRuntime] [RequestDigest] in
theorem Leg.account_eq {transfer : TransferAggregate} {t : String} {terms : TransferTerms}
    (h : transfer.HasTerms t terms) (leg : Leg) : leg.account transfer = leg.accountOf terms := by
  cases leg <;> simp [Leg.account, Leg.accountOf, h.2.1, h.2.2.1, orUndefined]

omit [RequestDigest] in
theorem legCommand_accountId (leg : Leg) (transfer : TransferAggregate) (context : CommandContext) (x : String) :
    (legCommand leg transfer context x).accountId = leg.account transfer := by
  cases leg <;> rfl

omit [JsRuntime] [RequestDigest] in
theorem parse_legInput {leg : Leg} {transfer : TransferAggregate} {t x : String} {terms : TransferTerms}
    (h : transfer.HasTerms t terms) (hpos : 0 < terms.amountMinorUnits) :
    parseMoneyToMinorUnits (legInput leg transfer x).amount = .ok (100 * terms.amountMinorUnits) := by
  obtain ⟨n, hn⟩ := Int.eq_ofNat_of_zero_le (Int.le_of_lt hpos)
  simp only [legInput, h.2.2.2.1, hn]
  exact parse_minorUnits_text n

omit [RequestDigest] in
theorem legCommand_movement {leg : Leg} {transfer : TransferAggregate} {context : CommandContext} {x : String}
    {account : AccountAggregate} {e : DomainEvent} (h : (legCommand leg transfer context x).Commits account e) :
    e.data.movement = some x := by
  cases leg <;> obtain ⟨stamp, he⟩ := h <;> cases he <;> rfl

omit [RequestDigest] in
theorem legCommand_moves {leg : Leg} {transfer : TransferAggregate} {t : String} {terms : TransferTerms}
    (hterms : transfer.HasTerms t terms)
    (hamount : parseMoneyToMinorUnits (.number (minorUnitsToNumber terms.amountMinorUnits)) =
      .ok terms.amountMinorUnits) {context : CommandContext} (hcontext : context.correlationId = t)
    {account : AccountAggregate} {e : DomainEvent}
    (h : (legCommand leg transfer context (legId t leg)).Commits account e) :
    LegMovement t leg terms (accountStream (legCommand leg transfer context (legId t leg)).accountId) e := by
  refine ⟨by rw [legCommand_accountId, Leg.account_eq hterms], ?_, ?_⟩
  · rw [← hterms.2.2.2.1] at hamount
    have hcurrency : orUndefined transfer.currency = terms.currency := by simp [hterms.2.2.2.2, orUndefined]
    cases leg <;> obtain ⟨stamp, he⟩ := h
    · cases he with
      | withdraw _ _ hn =>
        obtain rfl := Except.ok.inj (hamount.symm.trans hn)
        exact ⟨account.accountId, by simp [Leg.data, hterms.2.2.2.1, hcurrency]⟩
    all_goals
      cases he with
      | deposit _ _ hn =>
        obtain rfl := Except.ok.inj (hamount.symm.trans hn)
        exact ⟨account.accountId, by simp [Leg.data, hterms.2.2.2.1, hcurrency]⟩
  · rw [h.metadata]
    cases leg <;> exact hcontext

omit [JsRuntime] [RequestDigest] in
/-- A finish that is refused is not refused by a guard of an account. -/
theorem finish_rejects_quiet {t : String} (hquiet : QuietTexts t) {leg : Leg} {context : CommandContext} {e : Failure}
    (h : (leg.finishCommand t context).Rejects e) : isTerminalDomainError e = false := by
  cases h with
  | conflict => rw [Leg.finishCommand_transferId]; exact hquiet.conflict
  | guard stamp es _ he => exact finishCommand_terminal he

/-- A failure is recorded for the stage of the leg that failed, and only after
a handler of this program did. -/
theorem wp_leg_catch {t : String} {leg : Leg} {terms : TransferTerms} (hd : LegDue P w.store t leg terms)
    (hcalm : ¬ P.calm) {context : CommandContext} {e : Failure}
    (he : P.quiet → isTerminalDomainError e = true → g.failed = some (legId t leg)) :
    (bankOutline P F admits allows).wp q
      (match leg.failureStage with
        | some stage =>
          if isTerminalDomainError e then (TransferCommand.FailTransfer t e.message stage context).execute
          else throw (.retryable e.message)
        | none => throw (.retryable e.message)) w g fun _ _ _ => True := by
  cases hstage : leg.failureStage with
  | none => exact Outline.wp_throw trivial
  | some stage =>
    obtain rfl : leg = stage.leg := by
      cases leg <;> cases hstage <;> rfl
    cases hterminal : isTerminalDomainError e with
    | false => exact Outline.wp_throw trivial
    | true =>
      simp only [if_true]
      refine Outline.wp_mono (fun _ _ _ _ _ => trivial) (wp_transfer_command (fun hP => absurd hP hcalm) hd.named
        (fun hc ht => ?_) (fun hc hs => ?_) (fun _ {_ _ _} hc hf => ?_) fun hP {_ _ _} hc hf => ?_)
      all_goals
        obtain ⟨stamp, hemits⟩ := hc
        cases hemits
      · cases ht
      · cases hs
      · cases hf
      · cases hf
        refine ⟨he hP hterminal, fun hst => ?_⟩
        subst hst
        exact hd.earned

section
variable (hp : Promises P F admits allows) {t : String} {leg : Leg} {terms : TransferTerms}
  (hcalm : ¬ P.calm)
include hp hcalm

theorem wp_leg_finish (hd : LegDue P w.store t leg terms) (hmoved : P.legs → w.store.Moved (legId t leg))
    {context : CommandContext} :
    (bankOutline P F admits allows).wp q (leg.finishCommand t context).execute w g fun _ _ r =>
      ∀ e, r = .error e → P.quiet → isTerminalDomainError e = false := by
  refine Outline.wp_mono (fun w' g' r _ hr e he hP => ?_)
    (wp_transfer_command (fun hP => absurd hP hcalm) (by simpa using hd.named) (fun hc ht => ?_) (fun hc hs => ?_)
      (fun hP {_ _ leg'} hc hf => ?_) fun _ {_ _ stage} hc hf => ?_)
  · subst he
    rcases hr with ⟨_, hr⟩ | ⟨message, rfl, ⟨_, hm⟩ | ⟨_, hm⟩⟩
    · exact finish_rejects_quiet (hd.named.2 hP) hr
    · exact hp.reports hP hm
    · exact hp.reports hP hm.reports
  · rw [(Leg.finish_commits hc).2.2.2] at ht; cases ht
  · rw [(Leg.finish_commits hc).2.1] at hs; cases hs
  · rw [(Leg.finish_commits hc).1] at hf
    obtain rfl := Option.some.inj hf
    rw [Leg.finishCommand_transferId]
    exact hmoved hP
  · rw [(Leg.finish_commits hc).2.2.1] at hf; cases hf

/-- The part of a pass after the leg has been started. -/
theorem wp_leg_run (hd : LegDue P w.store t leg terms) {transfer : TransferAggregate}
    (hterms : transfer.HasTerms t terms) {context : CommandContext} (hcontext : context.correlationId = t) :
    (bankOutline P F admits allows).wp q
      (tryCatch (do
          let _ ← TransactionRegistryService.execute (legInput leg transfer (legId t leg))
            (legHandler leg transfer context (legId t leg)) legOptions
          (leg.finishCommand t context).execute)
        fun error =>
          match leg.failureStage with
          | some stage =>
            if isTerminalDomainError error then
              (TransferCommand.FailTransfer t error.message stage context).execute
            else throw (.retryable error.message)
          | none => throw (.retryable error.message)) w g fun _ _ _ => True := by
  refine Outline.wp_tryCatch (Outline.wp_bind (Outline.wp_mono (fun w' g' r hle hr => ?_)
    (wp_registry_execute hp (fun e he => ?_) (fun {s} hle _ _ _ {t' leg'} hx => ?_) fun w' hle _ =>
      wp_handler hp (wp_money_command rfl legCommand_movement (fun hP => absurd hP hcalm)
        fun _ {s account e t' leg'} hle' hc hx => ?_))))
  · cases r with
    | ok response =>
      refine Outline.wp_mono (fun w'' g'' r hle' hr' => ?_)
        (wp_leg_finish hp hcalm (hd.mono hle.store) fun hP => hr hP rfl)
      cases r with
      | ok u => trivial
      | error e =>
        refine wp_leg_catch (hd.mono (hle.store.trans hle'.store)) hcalm fun hP hterminal => ?_
        rw [hr' e rfl hP] at hterminal
        cases hterminal
    | error e =>
      refine wp_leg_catch (hd.mono hle.store) hcalm fun hP hterminal => ?_
      rcases hr.2 with hr | ⟨message, rfl, hm⟩ | hf
      · -- A refusal of the registry does not read as a guard's.
        have hquiet := hd.named.2 hP
        cases hr with
        | inProgress => exact nomatch (hquiet.inProgress leg).symm.trans hterminal
        | failed => exact nomatch (hquiet.failed leg).symm.trans hterminal
        | different => exact nomatch (hquiet.different leg).symm.trans hterminal
        | amount e hn => rw [parse_legInput hterms hd.positive] at hn; cases hn
      · rw [hp.reports hP hm] at hterminal; cases hterminal
      · exact hf
  · cases e with
    | retryable message => exact absurd rfl (he message)
    | _ => rfl
  · obtain ⟨rfl, rfl⟩ := legId_inj hx
    exact hd.earned.mono (hle.stream _)
  · obtain ⟨rfl, rfl⟩ := legId_inj hx
    exact ⟨terms, (hd.mono (hle.store.trans hle')).initiated, legCommand_moves hterms hd.amount hcontext hc⟩

theorem wp_processLeg (hd : LegDue P w.store t leg terms) {context : CommandContext}
    (hcontext : context.correlationId = t) :
    (bankOutline P F admits allows).wp q (processLeg leg t context (legId t leg)) w g fun _ _ _ => True := by
  refine Outline.wp_bind (bankInv_hosts.wp_transfer_getById t (fun w₁ hle ⟨gs, hinv⟩ => ?_) fun _ _ _ _ => trivial)
  have hd₁ := hd.mono hle.store
  have hhist := hinv.books.ledger.transfer t
  have hterms : (TransferAggregate.replay (w₁.store.stream (transferStream t))).HasTerms t terms := by
    have hne : w₁.store.stream (transferStream t) ≠ [] := fun hnil => by
      have := hd₁.initiated
      rw [hnil] at this
      cases this
    obtain ⟨terms', ht, _, _, hhas⟩ := hhist.stream.terms hd.named.1 hne
    obtain rfl := Option.some.inj (ht.symm.trans hd₁.initiated)
    exact hhas
  dsimp only
  split
  · refine Outline.wp_bind (Outline.wp_mono (fun w₂ g₂ r hle₂ hr => ?_)
      (wp_transfer_command (fun hP => absurd hP hcalm) (by simpa using hd.named) (fun hc ht => ?_) (fun hc hs => ?_)
        (fun _ {_ _ _} hc hf => ?_) fun _ {_ _ stage} hc hf => ?_))
    · cases r with
      | ok u => exact wp_leg_run hp hcalm (hd₁.mono hle₂.store) hterms hcontext
      | error e => trivial
    · rw [(Leg.start_commits hc).2.2.2] at ht; cases ht
    · rw [(Leg.start_commits hc).1] at hs
      obtain ⟨rfl, rfl⟩ := Prod.mk.inj (Option.some.inj hs)
      rw [Leg.startCommand_transferId]
    · rw [(Leg.start_commits hc).2.1] at hf; cases hf
    · rw [(Leg.start_commits hc).2.2.1] at hf; cases hf
  · exact wp_leg_run hp hcalm hd₁ hterms hcontext

end

/-! ## Passes and initiations -/

section
variable (hp : Promises P F admits allows)
include hp

theorem wp_processTransfer (hcalm : ¬ P.calm) {t : String} :
    (bankOutline P F admits allows).wp q (processTransfer t) w g fun _ _ _ => True := by
  refine Outline.wp_bind (bankInv_hosts.wp_transfer_getById t (fun w₁ hle ⟨gs, hinv⟩ => ?_) fun _ _ _ _ => trivial)
  refine wp_randomUUID (fun w₂ commandId hle₂ => ?_) fun _ _ _ => trivial
  have hB := hinv.books.toBooks
  have hhist := hB.ledger.transfer t
  cases hdue : dueLeg (TransferAggregate.replay (w₁.store.stream (transferStream t))) with
  | none => exact Outline.wp_pure trivial
  | some leg =>
    have hne : w₁.store.stream (transferStream t) ≠ [] := fun hnil => by rw [hnil] at hdue; cases hdue
    have hnamed := hB.named hne
    obtain ⟨terms, ht, hpos, _, hterms⟩ := hhist.stream.terms hnamed.1 hne
    have hd : LegDue P w₁.store t leg terms :=
      ⟨hnamed, ht, hB.amount ht, hpos, dueLeg_earned hnamed.1 hhist hdue⟩
    simp only [hterms.1, orUndefined, Option.getD_some, hB.recordedId]
    refine Outline.wp_tryCatch (Outline.wp_mono (fun _ _ r _ _ => ?_)
      (wp_processLeg hp hcalm (hd.mono hle₂.store) rfl))
    cases r with
    | ok u => trivial
    | error e => exact Outline.wp_pure trivial

theorem wp_initiate {k t src dst currency : String} {amount : JsNumber} {context : CommandContext} (ht : t ≠ "")
    (htexts : P.quiet → QuietTexts t) (hamount : amount.IsNumber) (hcontext : context.commandId = k)
    (hk : g.key = some k) :
    (bankOutline P F admits allows).wp q (initiateTransfer t src dst amount currency context) w g
      fun _ g' r => RequestEnds P k g' r := by
  refine Outline.wp_bind (bankInv_hosts.loads.wp_account_getById src (fun w₁ _ _ => ?_) fun _ _ _ _ _ _ _ => hk)
  refine Outline.wp_bind (bankInv_hosts.loads.wp_account_getById dst (fun w₂ _ _ => ?_) fun _ _ _ _ _ _ _ => hk)
  dsimp only
  split
  · exact Outline.wp_throw fun _ _ _ => hk
  · split
    · exact Outline.wp_throw fun _ _ _ => hk
    · split
      · exact Outline.wp_throw fun _ _ _ => hk
      · refine wp_settle hp hk (wp_transfer_command (fun _ => hcontext ▸ hk) ⟨ht, htexts⟩ (fun hc hs => ?_)
          (fun hc hs => ?_) (fun _ {_ _ _} hc hf => ?_) fun _ {_ _ _} hc hf => ?_)
        all_goals
          obtain ⟨stamp, hemits⟩ := hc
          cases hemits
        · rename_i n _ _ _ hn
          cases hs
          simp only [MoneyText.minorUnits_format]
          rw [minorUnitsToNumber_of_parse hamount hn]
          exact hn
        · cases hs
        · cases hf
        · cases hf

theorem wp_initiateTransfer {key : Option String} {dto : InitiateTransferDto} (ht : dto.transferId ≠ "")
    (hamount : dto.amount.IsNumber) (hadmits : admits (.initiateTransfer key dto)) :
    (bankOutline P F admits allows).wp q (TransfersController.initiateTransfer key dto) w g fun _ _ _ => True :=
  wp_idempotency_execute hp fun _ _ _ =>
    wp_respond (wp_initiate hp ht (fun hP => hp.texts hP hadmits) hamount rfl rfl)

/-- **Every program of the bank keeps the invariant.** -/
theorem wp_body (hadmits : (bank F admits allows).admits q) :
    (bankOutline P F admits allows).wp q q.body w {} fun _ _ _ => True := by
  obtain ⟨hwell, hadmits⟩ := hadmits
  have respond : ∀ {p : Task Response}, (bankOutline P F admits allows).wp q p w {} (fun _ _ _ => True) →
      (bankOutline P F admits allows).wp q (do let response ← p; return some response : Task (Option Response)) w {}
        fun _ _ _ => True := by
    refine fun h => Outline.wp_bind (Outline.wp_mono (fun _ _ r _ _ => ?_) h)
    cases r <;> trivial
  have hmoves : ∀ {cmd : AccountCommand} {x account e}, (∀ {data streamId}, cmd.Emits account data streamId →
      data.movement = some x) → cmd.Commits account e → e.data.movement = some x := by
    rintro cmd x account e h ⟨stamp, he⟩
    exact h he
  cases q with
  | createAccount key dto => exact respond (wp_createAccount hp hwell)
  | deposit key accountId dto =>
    exact respond (wp_moveMoney hp hadmits rfl (hmoves fun he => by cases he; rfl) rfl)
  | withdraw key accountId dto =>
    exact respond (wp_moveMoney hp hadmits rfl (hmoves fun he => by cases he; rfl) rfl)
  | freeze key accountId dto => exact respond (wp_freeze hp rfl hwell)
  | initiateTransfer key dto => exact respond (wp_initiateTransfer hp hwell.1 hwell.2 hadmits)
  | processTransfer t =>
    refine Outline.wp_bind (Outline.wp_mono (fun _ _ r _ _ => ?_)
      (wp_processTransfer hp fun hP => (hp.api hP hadmits)))
    cases r <;> trivial

theorem bank_invariant {c : BankConfig} (hc : (bank F admits allows).system.Reachable c) :
    ∃ gs, bankInv P c.state gs := by
  have hbody : ∀ q w, (bank F admits allows).admits q →
      (bankOutline P F admits allows).wp q ((bank F admits allows).body q) w {} fun _ _ _ => True :=
    fun _ _ hq => wp_body hp hq
  have hinit : bankInv P (⟨.empty, []⟩ : World BankRequest) fun _ => {} := ⟨.empty P, by simp⟩
  obtain ⟨gs, ht⟩ := Outline.sound hinit hbody hc
  exact ⟨gs, ht.inv⟩

omit hp in
theorem bank_books {c : BankConfig} (hc : (bank F admits allows).system.Reachable c) :
    ∃ gs, bankInv ⟨False, False, False, False⟩ c.state gs :=
  bank_invariant ⟨False.elim, False.elim, False.elim, False.elim, False.elim, False.elim, False.elim⟩ hc

end

end

end CoreBanking
