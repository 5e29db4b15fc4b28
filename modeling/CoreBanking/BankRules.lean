import CoreBanking.BankInvariant

/-!
# The programs of the bank

Each program keeps the invariant of the bank. The rules follow the layers of
the code: the registry around a handler, the idempotency service around a
request, the endpoints, and the passes of the coordinator.
-/

namespace CoreBanking

namespace BankRequest

def transactionId? : BankRequest → Option String
  | .deposit _ _ dto => some dto.transactionId
  | .withdraw _ _ dto => some dto.transactionId
  | _ => none

end BankRequest

/-- The restrictions of the runs give what the invariant promises. -/
structure Promises (P : Flags) (F : FaultModel) (admits : BankRequest → Prop)
    (allows : BankRequest → StoreOp → Store → Prop) : Prop where
  legs : P.legs → ∀ {q input s t leg}, admits q → q.transactionId? = some (legId t leg) →
    input.transactionId = legId t leg → allows q (.reserveTransaction input) s → s.Recorded (legId t leg)
  texts : P.quiet → ∀ {key dto}, admits (.initiateTransfer key dto) → QuietTexts dto.transferId
  reports : P.quiet → ∀ {message}, F.Reports message →
    TransferCoordinatorService.isTerminalDomainError (.store message) = false
  api : P.calm → ∀ {q}, admits q → q.IsApi
  late : P.calm → ∀ {message}, ¬ F.Late message
  completed : P.calm → ∀ {op message}, F.rejected op message ∨ F.ambiguous op message →
    (∀ x, op ≠ .markTransactionCompleted x) ∧ ∀ k response, op ≠ .markIdempotencyCompleted k response
  freezes : P.opened → ∀ {key accountId dto op s}, allows (.freeze key accountId dto) op s →
    FreezesKnown accountId op s

theorem FaultModel.Late.reports {F : FaultModel} {message : String} (h : F.Late message) : F.Reports message := by
  cases h with
  | append streamId events v hm => exact ⟨_, .inr hm⟩
  | snapshotBeforeSave streamId hm => exact ⟨_, hm⟩
  | putSnapshot snapshot hm => exact ⟨_, hm⟩

def FaultModel.Raises (F : FaultModel) (e : Failure) : Prop := ∃ message, e = .store message ∧ F.Reports message

/-- A failure is marked as terminal, on a record there is. -/
def StoreOp.MarksTerminal (op : StoreOp) (s : Store) : Prop :=
  ∀ x message status, op = .markTransactionFailed x message status → status = .FAILED_TERMINAL ∧ s.Recorded x

structure bankInv [JsRuntime] (P : Flags) (w : World BankRequest) (gs : Nat → Hold) : Prop where
  books : BankInv P w.store gs
  marks : ∀ call ∈ w.trace, call.op.MarksTerminal w.store

section
variable [JsRuntime] [RequestDigest] {P : Flags} {F : FaultModel} {admits : BankRequest → Prop}
  {allows : BankRequest → StoreOp → Store → Prop}

theorem marks_step {i : Nat} {q : BankRequest} {op : StoreOp} {w w' : World BankRequest} {r : Except Failure op.Result}
    (h : ∀ call ∈ w.trace, call.op.MarksTerminal w.store) (hstep : (bank F admits allows).CallStep i q op w r w')
    (hop : op.MarksTerminal w.store) : ∀ call ∈ w'.trace, call.op.MarksTerminal w'.store := by
  have hle : w.store.Le w'.store := hstep.exec.le
  have hmono : ∀ {op : StoreOp}, op.MarksTerminal w.store → op.MarksTerminal w'.store := by
    intro op h x message status hop
    obtain ⟨hst, record, hr⟩ := h x message status hop
    obtain ⟨record', hr', _⟩ := hle.transaction hr
    exact ⟨hst, record', hr'⟩
  intro call hcall
  rw [hstep.trace] at hcall
  rcases List.mem_append.mp hcall with hcall | hcall
  · exact hmono (h call hcall)
  · rw [List.mem_singleton.mp hcall]
    exact hmono hop

theorem bankInv_hosts : Hosts (bank F admits allows) (bankInv P) where
  ledger h := h.books.ledger
  quiet h hstep hq hsame hl :=
    ⟨h.books.congr hsame hl, marks_step h.marks hstep fun _ _ _ hop => by subst hop; cases hq⟩

variable (F admits allows P) in
def bankOutline : Outline (bank F admits allows).system Hold := (bank F admits allows).outline {} (bankInv P)

variable (hp : Promises P F admits allows) {q : BankRequest} {w : World BankRequest} {g : Hold}

/-- A call after which the program goes on with another holding, whether the
call had its effect or not. -/
theorem wp_effect {op : StoreOp} (hop : op ≠ .randomUUID ∧ op ≠ .now)
    {Q : World BankRequest → Hold → Except Failure op.Result → Prop}
    (h : ∀ i w₁ gs, w.Le w₁ → BankInv P w₁.store gs → gs i = g → op.MarksTerminal w₁.store ∧ ∃ g',
      BankInv P w₁.store (Function.update gs i g') ∧
      BankInv P (perform op w₁.store).2 (Function.update gs i g') ∧
      ∀ w₂, w₁.Le w₂ → Q w₂ g' (perform op w₁.store).1 ∧
        ∀ message, F.rejected op message ∨ F.ambiguous op message → Q w₂ g' (.error (.store message))) :
    (bankOutline P F admits allows).wp q (Async.call op) w g Q := by
  refine Outline.wp_call fun i w₁ gs hle hinv hg r w₂ hstep => ?_
  have hle₂ : w₁.Le w₂ := (bankOutline P F admits allows).le_step hstep
  have hexec : Exec F op w₁.store r w₂.store := Service.CallStep.exec hstep
  have hinv : bankInv P w₁ gs := hinv
  obtain ⟨hmarks, g', hkeep, hdo, hQ⟩ := h i w₁ gs hle hinv.books hg
  refine ⟨g', ⟨?_, marks_step hinv.marks hstep hmarks⟩, ?_⟩
  · rcases hexec.effect with hs | hs
    · rw [hs]; exact hkeep
    · rw [hs]; exact hdo
  · rcases hexec.answer hop with rfl | ⟨message, rfl, hm⟩
    · exact (hQ w₂ hle₂).1
    · exact (hQ w₂ hle₂).2 message hm

/-! ## The transaction registry -/

/-- How a handler of the registry ends: with the money moved, with nothing done,
or with an error of a store after the commit, which a calm run does not see. -/
def HandlerEnds (P : Flags) (F : FaultModel) (x : String) (g : Hold) (w : World BankRequest) (g' : Hold) :
    Except Failure Response → Prop
  | .ok _ => w.store.Moved x ∧ g' = g.done
  | .error e => (g' = g ∧ ∀ message, e ≠ .retryable message) ∨
      (¬ P.calm ∧ F.Raises e ∧ w.store.Moved x ∧ g' = g.done)

/-- How the registry ends: what it answered for a leg has been moved; what it
rejected was refused, or has failed without a commit, or met a fault. -/
def RegistryEnds (P : Flags) (F : FaultModel) (x : String) (g : Hold) (Refuses : Failure → Prop)
    (w : World BankRequest) (g' : Hold) : Except Failure Response → Prop
  | .ok _ => P.legs → ∀ {t leg}, x = legId t leg → w.store.Moved x
  | .error e => (P.calm → g'.key = g.key) ∧ (Refuses e ∨ F.Raises e ∨ g'.failed = some x)

section
variable {x : String} {options : TransactionRegistryService.Options} {Refuses : Failure → Prop}
  (hx : g.running = some x)
  (hoptions : ∀ e, (∀ message, e ≠ .retryable message) → options.isRetryableError e = false)
include hx hoptions

/-- The catch block, after a handler that committed nothing and after one that did. -/
theorem wp_runHandler_catch {e : Failure} {g' : Hold} (hr : (g' = g ∧ ∀ message, e ≠ .retryable message) ∨
      (¬ P.calm ∧ F.Raises e ∧ w.store.Moved x ∧ g' = g.done)) :
    (bankOutline P F admits allows).wp q (do
      let status : TransactionRecordStatus :=
        if options.isRetryableError e then .FAILED_RETRYABLE else .FAILED_TERMINAL
      StoreOp.call (.markTransactionFailed x e.message status)
      throw e) w g' (RegistryEnds P F x g Refuses) := by
  have hst : (if options.isRetryableError e = true then TransactionRecordStatus.FAILED_RETRYABLE
      else .FAILED_TERMINAL) = .FAILED_TERMINAL := by
    rw [hoptions e]
    · rfl
    · rcases hr with ⟨_, hne⟩ | ⟨_, ⟨m, rfl, _⟩, _⟩
      · exact hne
      · exact nofun
  dsimp only
  rw [hst]
  refine Outline.wp_bind (wp_effect (by simp) fun i w₁ gs hle hinv hg => ?_)
  rcases hr with ⟨rfl, hne⟩ | ⟨hcalm, hraises, hm, rfl⟩
  · obtain ⟨hreleased, hdead⟩ := hinv.release (hg ▸ hx)
    rw [hg] at hreleased hdead
    refine ⟨?_, _, hreleased, hreleased.mark (fun _ => rfl) nofun (fun _ => nofun) fun _ _ => hdead,
      fun w₂ _ => ⟨?_, ?_⟩⟩
    · rintro _ _ _ ⟨rfl, rfl, rfl⟩
      exact ⟨rfl, hdead.recorded⟩
    · exact ⟨fun _ => rfl, .inr (.inr rfl)⟩
    · exact fun message hf => ⟨fun _ => rfl, .inr (.inr rfl)⟩
  · refine ⟨?_, gs i, ?_, ?_, fun w₂ _ => ⟨?_, ?_⟩⟩
    · rintro _ _ _ ⟨rfl, rfl, rfl⟩
      exact ⟨rfl, hinv.recorded (hle.store.moved hm)⟩
    · rw [Function.update_eq_self]; exact hinv
    · rw [Function.update_eq_self]
      exact hinv.mark (fun _ => rfl) nofun (fun _ => nofun) fun hP => absurd hP hcalm
    · exact ⟨fun hP => absurd hP hcalm, .inr (.inl hraises)⟩
    · exact fun message hf => ⟨fun hP => absurd hP hcalm, .inr (.inl ⟨message, rfl, _, hf⟩)⟩

include hp

theorem wp_runHandler {handler : Task Response}
    (hhandler : (bankOutline P F admits allows).wp q handler w g (HandlerEnds P F x g)) :
    (bankOutline P F admits allows).wp q (TransactionRegistryService.runHandler x handler options) w g
      (RegistryEnds P F x g Refuses) := by
  refine Outline.wp_tryCatch (Outline.wp_bind (Outline.wp_mono (fun w' g' r _ hr => ?_) hhandler))
  cases r with
  | error e => exact wp_runHandler_catch hx hoptions hr
  | ok response =>
    obtain ⟨hm, rfl⟩ := hr
    refine Outline.wp_bind (wp_effect (by simp) fun i w₁ gs hle hinv hg =>
      ⟨nofun, gs i, ?_, ?_, fun w₂ hle₂ => ⟨?_, ?_⟩⟩)
    · rw [Function.update_eq_self]; exact hinv
    · rw [Function.update_eq_self]
      exact hinv.mark (fun _ => rfl) nofun (fun _ _ _ _ _ => hle.store.moved hm) fun _ => nofun
    · exact fun _ _ _ _ => hle₂.store.moved (hle.store.moved hm)
    · intro message hf
      refine wp_runHandler_catch hx hoptions (.inr ⟨fun hP => ?_, ⟨message, rfl, _, hf⟩,
        hle₂.store.moved (hle.store.moved hm), hg⟩)
      exact (hp.completed hP hf).1 x rfl

end

inductive RegistryRefuses (input : ReserveTransactionInput) : Failure → Prop
  | inProgress : RegistryRefuses input (TransactionRegistryService.alreadyInProgress input.transactionId)
  | failed : RegistryRefuses input (TransactionRegistryService.previouslyFailed input.transactionId)
  | different : RegistryRefuses input (TransactionRegistryService.differentMovement input.transactionId)
  | amount (e) : parseMoneyToMinorUnits input.amount = .error e → RegistryRefuses input e

omit [JsRuntime] [RequestDigest] in
theorem RegistryRefuses.of_intent {input : ReserveTransactionInput} {record : TransactionRecord} {e : Failure}
    (h : TransactionRegistryService.ensureSameTransactionIntent input record = .error e) : RegistryRefuses input e := by
  rcases TransactionRegistryService.ensureSameTransactionIntent_error h with rfl | hparse
  · exact .different
  · exact .amount _ hparse

include hp

theorem wp_registry_execute {input : ReserveTransactionInput} {handler : Task Response}
    {options : TransactionRegistryService.Options}
    (hoptions : ∀ e, (∀ message, e ≠ .retryable message) → options.isRetryableError e = false)
    (hearned : ∀ {s : Store}, w.store.Le s → allows q (.reserveTransaction input) s →
      ¬ s.Recorded input.transactionId → P.legs → ∀ {t leg}, input.transactionId = legId t leg →
      leg.Earned (s.stream (transferStream t)))
    (hhandler : ∀ w', w.Le w' → (∃ s, w.store.Le s ∧ allows q (.reserveTransaction input) s ∧
        ¬ s.Recorded input.transactionId) →
      (bankOutline P F admits allows).wp q handler w' { g with running := some input.transactionId }
        (HandlerEnds P F input.transactionId { g with running := some input.transactionId })) :
    (bankOutline P F admits allows).wp q (TransactionRegistryService.execute input handler options) w g
      (RegistryEnds P F input.transactionId g (RegistryRefuses input)) := by
  refine Outline.wp_bind (Outline.wp_call fun i w₁ gs hle hinv hg r w₂ hstep => ?_)
  have hle₂ : w₁.Le w₂ := (bankOutline P F admits allows).le_step hstep
  have hexec : Exec F (.reserveTransaction input) w₁.store r w₂.store := Service.CallStep.exec hstep
  have hinv : bankInv P w₁ gs := hinv
  have hmarks := marks_step hinv.marks hstep fun _ _ _ h => by cases h
  have hinv := hinv.books
  have hrejected : ∀ message, F.rejected (.reserveTransaction input) message ∨
      F.ambiguous (.reserveTransaction input) message → RegistryEnds P F input.transactionId g (RegistryRefuses input)
      w₂ g (.error (.store message)) := fun message hf => ⟨fun _ => rfl, .inr (.inl ⟨message, rfl, _, hf⟩)⟩
  have hsame : w₂.store = w₁.store → bankInv P w₂ (Function.update gs i g) := fun hs => by
    rw [Outline.update_ghost hg]
    exact ⟨hs ▸ hinv, hmarks⟩
  cases hget : w₁.store.transactions.get input.transactionId with
  | some record =>
    have hperform : perform (.reserveTransaction input) w₁.store = (.ok ⟨false, some record⟩, w₁.store) := by
      simp only [perform, TransactionRecords.reserve, hget]
    refine ⟨g, hsame (hexec.unchanged (by rw [hperform])), ?_⟩
    rcases hexec.answer (by simp) with rfl | ⟨message, rfl, hf⟩
    · rw [hperform]
      refine Outline.wp_bind (Outline.wp_ofExcept ?_)
      cases hsame : TransactionRegistryService.ensureSameTransactionIntent input record with
      | error e => exact ⟨fun _ => rfl, .inl (RegistryRefuses.of_intent hsame)⟩
      | ok u =>
        dsimp only
        cases hst : record.status with
        | COMPLETED =>
          intro hP t leg hx
          have hmoved := (hinv.legs hP).completed (hx ▸ hget) hst
          exact hle₂.store.moved (hx ▸ hmoved)
        | PENDING => exact ⟨fun _ => rfl, .inl .inProgress⟩
        | FAILED_RETRYABLE => exact absurd hst (hinv.notReopened hget)
        | FAILED_TERMINAL => exact ⟨fun _ => rfl, .inl .failed⟩
    · exact hrejected message hf
  | none =>
    have hnew : ¬ w₁.store.Recorded input.transactionId := by
      rintro ⟨record, hr⟩
      rw [hget] at hr
      cases hr
    cases hn : parseMoneyToMinorUnits input.amount with
    | error e' =>
      have hperform : perform (.reserveTransaction input) w₁.store = (.error e', w₁.store) := by
        simp only [perform, TransactionRecords.reserve, hget, hn]
      refine ⟨g, hsame (hexec.unchanged (by rw [hperform])), ?_⟩
      rcases hexec.answer (by simp) with rfl | ⟨message, rfl, hf⟩
      · rw [hperform]
        exact ⟨fun _ => rfl, .inl (.amount _ hn)⟩
      · exact hrejected message hf
    | ok n =>
      obtain ⟨record, hperform, hpending⟩ : ∃ record : TransactionRecord,
          perform (.reserveTransaction input) w₁.store = (.ok ⟨true, some record⟩,
            { w₁.store with transactions := w₁.store.transactions.set input.transactionId record }) ∧
          record.status = .PENDING := by
        simp only [perform, TransactionRecords.reserve, hget, hn]
        exact ⟨_, rfl, rfl⟩
      have hallowed : allows q (.reserveTransaction input) w₁.store := Service.CallStep.allowed hstep
      have hreserved : BankInv P (perform (.reserveTransaction input) w₁.store).2
          (Function.update gs i { g with running := some input.transactionId }) := by
        rw [hperform, ← hg]
        exact hinv.reserve hget hpending (hearned hle.store hallowed hnew)
      generalize hs₂ : w₂.store = s₂ at hexec
      cases hexec with
      | performed =>
        refine ⟨_, ⟨show BankInv P w₂.store _ from hs₂ ▸ hreserved, hmarks⟩, ?_⟩
        rw [hperform]
        exact wp_runHandler hp rfl hoptions (hhandler _ ((bankOutline P F admits allows).le_trans hle hle₂)
          ⟨w₁.store, hle.store, hallowed, hnew⟩)
      | rejected message hf => exact ⟨g, hsame hs₂, hrejected message (.inl hf)⟩
      | ambiguous message hf =>
        -- The record is there, and nobody will ever run its handler.
        have hreleased := (hreserved.release (by rw [Function.update_self])).1
        rw [Function.update_self, Function.update_idem] at hreleased
        refine ⟨{ g with running := none, failed := some input.transactionId }, ?_, fun _ => rfl, .inr (.inr rfl)⟩
        exact ⟨show BankInv P w₂.store _ from hs₂ ▸ hreleased, hmarks⟩

/-! ## Requests under an idempotency key -/

def RequestEnds (P : Flags) (k : String) {α : Type} (g' : Hold) (r : Except Failure α) : Prop :=
  ∀ e, r = .error e → P.calm → g'.key = some k

omit hp in
theorem wp_idempotency_catch {k : String} {e : Failure} (hk : P.calm → g.key = some k) :
    (bankOutline P F admits allows).wp q (do
      StoreOp.call (.markIdempotencyFailed k e.message)
      throw e : Task Response) w g fun _ _ _ => True := by
  refine Outline.wp_bind (wp_effect (by simp) fun i w₁ gs hle hinv hg =>
    ⟨nofun, _, hinv.dropKey, ?_, fun w₂ _ => ⟨?_, ?_⟩⟩)
  · exact hinv.markKey (fun _ => rfl) fun hP _ => hg ▸ hk hP
  · exact Outline.wp_throw trivial
  · exact fun _ _ => trivial

theorem wp_idempotency_runHandler {k : String} {handler : Task Response}
    (hhandler : (bankOutline P F admits allows).wp q handler w g fun _ g' r => RequestEnds P k g' r) :
    (bankOutline P F admits allows).wp q (IdempotencyService.runHandler k handler) w g fun _ _ _ => True := by
  refine Outline.wp_tryCatch (Outline.wp_bind (Outline.wp_mono (fun w' g' r _ hr => ?_) hhandler))
  cases r with
  | error e => exact wp_idempotency_catch (hr e rfl)
  | ok response =>
    refine Outline.wp_bind (wp_effect (by simp) fun i w₁ gs hle hinv hg =>
    ⟨nofun, _, hinv.dropKey, ?_, fun w₂ _ => ⟨?_, ?_⟩⟩)
    · exact hinv.markKey (fun _ => rfl) fun _ => nofun
    · exact trivial
    · exact fun message hf => wp_idempotency_catch fun hP => absurd rfl ((hp.completed hP hf).2 k response)

theorem wp_idempotency_execute {key : Option String} {operation : String} {payload : Payload}
    {handler : String → Task Response}
    (hhandler : ∀ k w', w.Le w' → (bankOutline P F admits allows).wp q (handler k) w' { g with key := some k }
      fun _ g' r => RequestEnds P k g' r) :
    (bankOutline P F admits allows).wp q (IdempotencyService.execute key operation payload handler) w g
      fun _ _ _ => True := by
  unfold IdempotencyService.execute IdempotencyService.executeWith
  cases key with
  | none => exact Outline.wp_throw trivial
  | some k =>
    by_cases hk : k = ""
    · simp only [if_pos hk]
      exact Outline.wp_throw trivial
    simp only [if_neg hk]
    refine Outline.wp_bind (Outline.wp_call fun i w₁ gs hle hinv hg r w₂ hstep => ?_)
    have hle₂ : w₁.Le w₂ := (bankOutline P F admits allows).le_step hstep
    have hexec := Service.CallStep.exec hstep
    have hinv : bankInv P w₁ gs := hinv
    have hmarks := marks_step hinv.marks hstep nofun
    have hinv := hinv.books
    have hsame : w₂.store = w₁.store → bankInv P w₂ (Function.update gs i g) := fun hs => by
      rw [Outline.update_ghost hg]
      exact ⟨hs ▸ hinv, hmarks⟩
    cases hget : w₁.store.idempotency.get k with
    | some record =>
      have hperform : perform (.reserveIdempotency ⟨k, operation, RequestDigest.hashRequest operation payload⟩)
          w₁.store = (.ok ⟨false, some record⟩, w₁.store) := by
        simp only [perform, IdempotencyRecords.reserve, hget]
      refine ⟨g, hsame (hexec.unchanged (by rw [hperform])), ?_⟩
      rcases hexec.answer (by simp) with rfl | ⟨message, rfl, hf⟩
      · rw [hperform]
        dsimp only
        split
        · exact Outline.wp_throw trivial
        · exact Outline.wp_ofExcept trivial
      · trivial
    | none =>
      obtain ⟨record, hperform, hprogress⟩ : ∃ record : IdempotencyRecord,
          perform (.reserveIdempotency ⟨k, operation, RequestDigest.hashRequest operation payload⟩) w₁.store =
            (.ok ⟨true, some record⟩, { w₁.store with idempotency := w₁.store.idempotency.set k record }) ∧
          record.status = .IN_PROGRESS := by
        simp only [perform, IdempotencyRecords.reserve, hget]
        exact ⟨_, rfl, rfl⟩
      have hreserved : BankInv P { w₁.store with idempotency := w₁.store.idempotency.set k record }
          (Function.update gs i { g with key := some k }) := hg ▸ hinv.reserveKey hget hprogress
      generalize hs₂ : w₂.store = s₂ at hexec
      cases hexec with
      | performed =>
        rw [hperform] at hs₂
        refine ⟨{ g with key := some k }, ⟨show BankInv P w₂.store _ from hs₂ ▸ hreserved, hmarks⟩, ?_⟩
        rw [hperform]
        exact wp_idempotency_runHandler hp (hhandler k w₂ ((bankOutline P F admits allows).le_trans hle hle₂))
      | rejected message hf => exact ⟨g, hsame hs₂, trivial⟩
      | ambiguous message hf =>
        rw [hperform] at hs₂
        exact ⟨{ g with key := some k }, ⟨show BankInv P w₂.store _ from hs₂ ▸ hreserved, hmarks⟩, trivial⟩

/-! ## Commands on accounts -/

omit [RequestDigest] in
omit hp in
theorem Warrant.account {s : Store} {gs : Nat → Hold} {i : Nat} {cmd : AccountCommand} {e : DomainEvent}
    (hext : Extends (accountStream cmd.accountId) (s.stream (accountStream cmd.accountId)) e)
    (hc : cmd.Commits (AccountAggregate.replay (s.stream (accountStream cmd.accountId))) e)
    (hmoney : ∀ {x}, e.data.movement = some x → (gs i).running = some x)
    (hkey : P.calm → (gs i).key = some cmd.context.commandId)
    (hlegs : P.legs → ∀ {t leg}, e.data.movement = some (legId t leg) → ∃ terms,
      termsOf (s.stream (transferStream t)) = some terms ∧
      LegMovement t leg terms (accountStream cmd.accountId) e)
    (hopened : P.opened → s.stream (accountStream cmd.accountId) = [] →
      cmd.accountId ≠ "" ∧ e.data.isAccountFrozen = false) :
    Warrant P s gs i (accountStream cmd.accountId) e where
  extension := hext
  money := hmoney
  key hP := by rw [hc.metadata]; exact hkey hP
  named hs := absurd hs (accountStream_ne_transferStream _ _)
  amount ht := by
    obtain ⟨stamp, he⟩ := hc
    generalize cmd.method = method at he
    cases he <;> cases ht
  started hs := absurd hs (accountStream_ne_transferStream _ _)
  movement hP := hlegs hP
  finished _ _ _ hs := absurd hs (accountStream_ne_transferStream _ _)
  failed _ _ _ hs := absurd hs (accountStream_ne_transferStream _ _)
  opened hP hnil := ⟨fun _ hs => accountStream_inj.mp hs ▸ (hopened hP hnil).1, (hopened hP hnil).2⟩

omit hp in
theorem wp_money_command {cmd : AccountCommand} {x : String} (hx : g.running = some x)
    (hmoves : ∀ {account e}, cmd.Commits account e → e.data.movement = some x)
    (hkey : P.calm → g.key = some cmd.context.commandId)
    (hlegs : P.legs → ∀ {s account e t leg}, w.store.Le s → cmd.Commits account e → x = legId t leg → ∃ terms,
      termsOf (s.stream (transferStream t)) = some terms ∧
      LegMovement t leg terms (accountStream cmd.accountId) e) :
    (bankOutline P F admits allows).wp q cmd.execute w g
      (Settled F g (fun w' g' => w'.store.Moved x ∧ g' = g.done) cmd.Rejects) := by
  refine bankInv_hosts.wp_account_execute (fun hle hd => ⟨hle.store.moved hd.1, hd.2⟩)
    fun {i w₁ gs e r w₂} hle hinv hg haccepts hstep => ?_
  have hmarks := marks_step hinv.marks hstep.call nofun
  have hinv := hinv.books
  have hc := haccepts.1
  have hm := hmoves hc
  have hw : Warrant P w₁.store gs i (accountStream cmd.accountId) e := by
    refine .account hstep.extension hc (fun hx' => ?_) (fun hP => hg ▸ hkey hP)
      (fun hP {t leg} ht => hlegs hP hle.store hc (Option.some.inj (hm.symm.trans ht)))
      fun _ hnil => ?_
    · rw [hg, hx]; exact hm.symm.trans hx'
    · -- Money is moved only on an account with a history.
      rw [hnil] at hc
      rw [EventData.movement_of_first hc.first] at hm
      cases hm
  have hcommit := hinv.commit hw
  rw [← hstep.store] at hcommit
  have hmoved : w₂.store.Moved x := by
    rw [hstep.store]
    exact (Store.moved_write hinv.ledger hstep.extension).mpr (.inr hm)
  exact ⟨_, ⟨hcommit, hmarks⟩, hmoved, by rw [hg, Hold.commit, hm]; rfl⟩

omit hp in
theorem wp_plain_command {cmd : AccountCommand} (hplain : ∀ {account e}, cmd.Commits account e → e.data.movement = none)
    (hkey : P.calm → g.key = some cmd.context.commandId)
    (hopened : P.opened → cmd.accountId ≠ "" ∧ ∀ {s account e events v},
      allows q (.append (accountStream cmd.accountId) events v) s → cmd.Commits account e →
      s.stream (accountStream cmd.accountId) = [] → e.data.isAccountFrozen = false) :
    (bankOutline P F admits allows).wp q cmd.execute w g (Settled F g (fun _ _ => True) cmd.Rejects) := by
  refine bankInv_hosts.wp_account_execute (fun _ _ => trivial) fun {i w₁ gs e r w₂} hle hinv hg haccepts hstep => ?_
  have hmarks := marks_step hinv.marks hstep.call nofun
  have hinv := hinv.books
  have hm := hplain haccepts.1
  have hw : Warrant P w₁.store gs i (accountStream cmd.accountId) e := by
    refine .account hstep.extension haccepts.1 (fun hx => ?_) (fun hP => hg ▸ hkey hP) (fun _ {t leg} ht => ?_)
      fun hP hnil => ⟨(hopened hP).1, (hopened hP).2 (Service.CallStep.allowed hstep.call) haccepts.1 hnil⟩
    · rw [hm] at hx; cases hx
    · rw [hm] at ht; cases ht
  have hcommit := hinv.commit hw
  rw [← hstep.store] at hcommit
  exact ⟨_, ⟨hcommit, hmarks⟩, trivial⟩

/-! ## The account endpoints -/

omit hp [RequestDigest] [JsRuntime] in
theorem AccountCommand.Rejects.ne_retryable {cmd : AccountCommand} {e : Failure} (h : cmd.Rejects e)
    (message : String) :
    e ≠ .retryable message := by
  rintro rfl
  cases h with
  | guard stamp es e he => cases AccountCommand.operation_error he

theorem wp_settle {p : Task Unit} {k : String} {Done : World BankRequest → Hold → Prop} {Rejects : Failure → Prop}
    (hk : g.key = some k) (h : (bankOutline P F admits allows).wp q p w g (Settled F g Done Rejects)) :
    (bankOutline P F admits allows).wp q p w g fun _ g' r => RequestEnds P k g' r := by
  refine Outline.wp_mono (fun w' g' r _ hr e he hP => ?_) h
  subst he
  rcases hr with ⟨rfl, _⟩ | ⟨message, _, ⟨rfl, _⟩ | ⟨_, hlate⟩⟩
  · exact hk
  · exact hk
  · exact absurd hlate (hp.late hP)

omit hp in
theorem wp_respond {p : Task Unit} {response : Response} {k : String}
    (h : (bankOutline P F admits allows).wp q p w g fun _ g' r => RequestEnds P k g' r) :
    (bankOutline P F admits allows).wp q (do p; return response) w g fun _ g' r => RequestEnds P k g' r := by
  refine Outline.wp_bind (Outline.wp_mono (fun w' g' r _ hr => ?_) h)
  cases r with
  | ok u => exact Outline.wp_pure nofun
  | error e => exact fun e' he => hr e' (by cases he; rfl)

theorem wp_handler {cmd : AccountCommand} {x : String}
    (h : (bankOutline P F admits allows).wp q cmd.execute w g
      (Settled F g (fun w' g' => w'.store.Moved x ∧ g' = g.done) cmd.Rejects)) :
    (bankOutline P F admits allows).wp q (do cmd.execute; return accepted) w g (HandlerEnds P F x g) := by
  refine Outline.wp_bind (Outline.wp_mono (fun w' g' r _ hr => ?_) h)
  cases r with
  | ok u => exact Outline.wp_pure hr
  | error e =>
    rcases hr with ⟨rfl, hr⟩ | ⟨message, rfl, ⟨rfl, _⟩ | ⟨hd, hlate⟩⟩
    · exact .inl ⟨rfl, hr.ne_retryable⟩
    · exact .inl ⟨rfl, nofun⟩
    · exact .inr ⟨fun hP => hp.late hP hlate, ⟨message, rfl, hlate.reports⟩, hd⟩

omit hp in
theorem wp_randomUUID {α : Type} {body : String → Task α} {Q : World BankRequest → Hold → Except Failure α → Prop}
    (hok : ∀ w' uuid, w.Le w' → (bankOutline P F admits allows).wp q (body uuid) w' g Q)
    (herr : ∀ w' message, F.Reports message → Q w' g (.error (.store message))) :
    (bankOutline P F admits allows).wp q (do
      let uuid : String ← StoreOp.call .randomUUID
      body uuid) w g Q := by
  refine Outline.wp_bind (bankInv_hosts.loads.wp_read .randomUUID nofun (fun h => by cases h <;> rfl)
    fun w₁ r hle _ hexec => ?_)
  cases hexec with
  | rejected message hf => exact herr w₁ message ⟨_, .inl hf⟩
  | ambiguous message hf => exact herr w₁ message ⟨_, .inr hf⟩
  | performed h => exact absurd rfl h.1
  | randomUUID uuid => exact hok w₁ uuid hle

theorem wp_createAccount {key : Option String} {dto : CreateAccountDto} (hid : dto.accountId ≠ "") :
    (bankOutline P F admits allows).wp q (AccountsController.createAccount key dto) w g fun _ _ _ => True := by
  refine wp_idempotency_execute hp fun k w' _ => wp_randomUUID (fun w₂ uuid _ => ?_) fun _ _ _ _ _ _ => rfl
  refine wp_respond (wp_settle hp rfl
    (wp_plain_command (fun hc => ?_) (fun _ => rfl) fun _ => ⟨hid, fun _ hc _ => ?_⟩))
  · obtain ⟨_, he⟩ := hc; cases he; rfl
  · obtain ⟨_, he⟩ := hc; cases he; rfl

theorem wp_freeze {key : Option String} {accountId : String} {dto : FreezeAccountDto}
    (hq : q = .freeze key accountId dto) (hid : accountId ≠ "") :
    (bankOutline P F admits allows).wp q (AccountsController.freeze key accountId dto) w g fun _ _ _ => True := by
  refine wp_idempotency_execute hp fun k w' _ => wp_randomUUID (fun w₂ uuid _ => ?_) fun _ _ _ _ _ _ => rfl
  refine wp_respond (wp_settle hp rfl
    (wp_plain_command (fun hc => ?_) (fun _ => rfl) fun hP => ⟨hid, fun ha _ hnil => ?_⟩))
  · obtain ⟨_, he⟩ := hc; cases he; rfl
  · subst hq
    exact absurd hnil (hp.freezes hP ha _ _ rfl)

theorem wp_moveMoney {operation : String} {operationType : TransactionOperationType}
    {command : String → JsNumber → String → CommandContext → String → AccountCommand} {key : Option String}
    {accountId : String} {dto : MoneyDto} (hadmits : admits q) (hq : q.transactionId? = some dto.transactionId)
    (hcommand : ∀ {context account e}, (command accountId dto.amount dto.currency context dto.transactionId).Commits
      account e → e.data.movement = some dto.transactionId)
    (hcontext : ∀ {context}, (command accountId dto.amount dto.currency context dto.transactionId).context = context) :
    (bankOutline P F admits allows).wp q
      (AccountsController.moveMoney operation operationType command key accountId dto) w g fun _ _ _ => True := by
  refine wp_idempotency_execute hp fun k w' _ => ?_
  -- A client that is first to use the id of a leg has been excluded.
  have hleg : P.legs → ∀ {s : Store} {input : ReserveTransactionInput} {t leg},
    input.transactionId = dto.transactionId →
      allows q (.reserveTransaction input) s → dto.transactionId = legId t leg → s.Recorded dto.transactionId :=
    fun hP _ _ _ _ hi ha hx => hx ▸ hp.legs hP hadmits (hx ▸ hq) (hi.trans hx) ha
  refine Outline.wp_mono (fun w'' g'' r _ hr e he hP => ?_) (wp_registry_execute hp (fun _ _ => rfl)
    (fun {s} _ ha hnew hP {t leg} hx => absurd (hleg hP rfl ha hx) hnew) fun w₁ hle₁ hreserved => ?_)
  · subst he; exact hr.1 hP
  · refine wp_randomUUID (fun w₂ uuid hle₂ => wp_handler hp (wp_money_command rfl hcommand ?_ ?_))
      fun _ message hm => .inl ⟨rfl, nofun⟩
    · intro _; rw [hcontext]
    · intro hP s account e t leg _ _ hx
      obtain ⟨s₀, _, ha, hnew⟩ := hreserved
      exact absurd (hleg hP rfl ha hx) hnew

end

end CoreBanking
