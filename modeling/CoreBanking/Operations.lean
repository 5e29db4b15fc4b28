import CoreBanking.AccountWrites

/-!
# Operations of any length

`executeWithRetry` is handed a function that may run any number of commands on
the account, and may look at the account and at what the commands threw in
between. Its events are appended as one batch, so the call has written all of
them or none, unless the snapshot that follows the append cannot be saved.
-/

namespace CoreBanking

/-- What a caller does with the account it is given. -/
inductive AccountOperation where
  | done
  | fail (e : Failure)
  | command (cmd : AccountCommand) (next : Except Failure Unit → AccountAggregate → AccountOperation)

namespace AccountOperation

def run : AccountOperation → AccountAggregate → Task AccountAggregate
  | .done, account => pure account
  | .fail e, _ => throw e
  | .command cmd next, account => do
    let stamp ← takeStamp
    match cmd.operation stamp account with
    | .ok account' => (next (.ok ()) account').run account'
    | .error e => (next (.error e) account).run account

/-- One application of the operation may turn the account into this one. -/
inductive Yields : AccountOperation → AccountAggregate → AccountAggregate → Prop
  | done {account} : Yields .done account account
  | accepted {cmd next account account' account''} (stamp : Stamp) :
      AccountCommand.operation stamp account cmd = .ok account' → Yields (next (.ok ()) account') account' account'' →
      Yields (.command cmd next) account account''
  | refused {cmd next account account' e} (stamp : Stamp) :
      AccountCommand.operation stamp account cmd = .error e → Yields (next (.error e) account) account account' →
      Yields (.command cmd next) account account'

def ofCommand (cmd : AccountCommand) : AccountOperation :=
  .command cmd fun outcome _ =>
    match outcome with
    | .ok _ => .done
    | .error e => .fail e

end AccountOperation

def AccountRepository.executeOperation (accountId : String) (operation : AccountOperation) : Task Unit :=
  executeWithRetry accountId operation.run

/-! ## The account while an operation works on it -/

structure AccountAggregate.Ahead (account : AccountAggregate) (es : List DomainEvent) : Prop where
  numbered : Numbered DomainEvent.streamVersion (es ++ account.uncommittedEvents)
  replayed : account =
    { replay (es ++ account.uncommittedEvents) with uncommittedEvents := account.uncommittedEvents }

namespace AccountAggregate.Ahead

variable {account account' : AccountAggregate} {es : List DomainEvent}

theorem replay (h : Numbered DomainEvent.streamVersion es) : (AccountAggregate.replay es).Ahead es := by
  constructor
  · rw [replay_uncommittedEvents, List.append_nil]
    exact h
  · rw [replay_uncommittedEvents, List.append_nil]
    exact congrArg (fun u => { AccountAggregate.replay es with uncommittedEvents := u }) (replay_uncommittedEvents es)

theorem version (h : account.Ahead es) : account.version = es.length + account.uncommittedEvents.length := by
  rw [h.replayed]
  exact (replay_version h.numbered).trans List.length_append

theorem operation (h : account.Ahead es) {cmd : AccountCommand} {stamp : Stamp}
    (hop : cmd.operation stamp account = .ok account') : account'.Ahead es := by
  obtain ⟨data, streamId, -, rfl⟩ := AccountCommand.operation_ok hop
  generalize hevent : account.makeEvent data cmd.context streamId stamp = event
  have hversion : event.streamVersion = (es ++ account.uncommittedEvents).length + 1 := by
    rw [← hevent, makeEvent_streamVersion, h.version, List.length_append]
  have hwhen : account.when event =
      { (AccountAggregate.replay (es ++ account.uncommittedEvents)).when event with
        uncommittedEvents := account.uncommittedEvents } := by
    rw [h.replayed]
    unfold AccountAggregate.when
    cases event.data <;> rfl
  constructor
  · rw [AccountAggregate.apply, ← List.append_assoc]
    exact h.numbered.snoc hversion
  · simp only [AccountAggregate.apply, ← List.append_assoc, replay_snoc]
    rw [hwhen]

theorem yields (h : account.Ahead es) {operation : AccountOperation} (hy : operation.Yields account account') :
    account'.Ahead es := by
  induction hy with
  | done => exact h
  | accepted stamp hop _ ih => exact ih (h.operation hop)
  | refused stamp hop _ ih => exact ih h

/-- The store has nothing to renumber. -/
theorem renumber (h : account.Ahead es) :
    EventStore.renumber es.length account.uncommittedEvents = account.uncommittedEvents := by
  refine List.ext_getElem? fun k => ?_
  rw [EventStore.getElem?_renumber]
  cases hk : account.uncommittedEvents[k]? with
  | none => rfl
  | some event =>
    have hversion := h.numbered (es.length + k) event
      (by rw [List.getElem?_append_right (Nat.le_add_right _ _), Nat.add_sub_cancel_left, hk])
    rw [Option.map_some, ← hversion]

end AccountAggregate.Ahead

/-! ## All or nothing -/

structure OperationRequest where
  accountId : String
  operation : AccountOperation

def operationService : Service OperationRequest Unit where
  faults := .failStop
  admits _ := True
  allows _ _ _ := True
  body q := AccountRepository.executeOperation q.accountId q.operation
  crashes := True

abbrev OperationConfig := Config StoreOp StoreOp.Result Failure (World OperationRequest) OperationRequest Unit

def SaveFailed (trace : List (Call OperationRequest)) (thread : Nat) : Prop :=
  ∃ call ∈ trace, call.thread = thread ∧ FailedSave call.op call.result

/-- A call that rejects has written nothing, and one that resolves the events of
one application of its operation, in one piece. -/
def AllOrNothing (c : OperationConfig) (i : Nat) (q : OperationRequest) : Except Failure Unit → Prop
  | .error _ => contributions c.state.trace i = []
  | .ok _ => ∃ es account, q.operation.Yields (AccountAggregate.replay es) account ∧
      es ++ account.uncommittedEvents <+: c.state.store.stream (accountStream q.accountId) ∧
      contributions c.state.trace i =
        if account.uncommittedEvents = [] then [] else [(accountStream q.accountId, account.uncommittedEvents)]

structure CallGhost where
  batch : Option (String × List DomainEvent) := none
  saveFailed : Bool := false

structure OperationsInv (w : World OperationRequest) (gs : Nat → CallGhost) : Prop where
  loadable : w.store.Loadable
  stream : ∀ streamId, w.store.stream streamId = committed w.trace streamId
  contributed : ∀ i, contributions w.trace i = (gs i).batch.toList
  saves : ∀ i, SaveFailed w.trace i ↔ (gs i).saveFailed = true

theorem saveFailed_snoc {t : List (Call OperationRequest)} {call : Call OperationRequest} {i : Nat} :
    SaveFailed (t ++ [call]) i ↔ SaveFailed t i ∨ (call.thread = i ∧ FailedSave call.op call.result) := by
  unfold SaveFailed
  simp only [List.mem_append, List.mem_singleton, or_and_right, exists_or, exists_eq_left]

theorem OperationsInv.empty : OperationsInv ⟨.empty, []⟩ fun _ => {} where
  loadable := .empty
  stream _ := rfl
  contributed _ := rfl
  saves _ := by simp [SaveFailed]

theorem OperationsInv.loads : Loads operationService OperationsInv fun g => { g with saveFailed := true } where
  loadable h := h.loadable
  quiet {i q op w r w' gs} h hstep hq hn hsame hl := by
    have hnone := hq.commit?_eq_none i q
    refine ⟨hl, fun streamId => ?_, fun j => ?_, fun j => ?_⟩
    · rw [hstep.trace, committed_snoc_none hnone, ← h.stream, Store.stream, hsame.events]
      rfl
    · rw [hstep.trace, contributions_snoc, hnone, h.contributed]
      simp
    · rw [hstep.trace, saveFailed_snoc, h.saves]
      simp [hn]
  failed {i q op w r w' gs} h hstep hf hsame hl := by
    have hnone := hf.quiet.commit?_eq_none i q
    refine ⟨hl, fun streamId => ?_, fun j => ?_, fun j => ?_⟩
    · rw [hstep.trace, committed_snoc_none hnone, ← h.stream, Store.stream, hsame.events]
      rfl
    · rw [hstep.trace, contributions_snoc, hnone, h.contributed]
      by_cases hij : i = j
      · subst hij
        simp
      · simp [Function.update_of_ne (Ne.symm hij)]
    · rw [hstep.trace, saveFailed_snoc, h.saves]
      by_cases hij : i = j
      · subst hij
        simp [hf]
      · simp [hij, Function.update_of_ne (Ne.symm hij)]

abbrev operationOutline : Outline operationService.system CallGhost := operationService.outline {} OperationsInv

/-- How a call ends: with its batch in the stream, with nothing done and an
error, or with the batch written and the snapshot after it not saved. -/
def CallEnds (q : OperationRequest) (w : World OperationRequest) (g : CallGhost) : Except Failure Unit → Prop
  | .error _ => g.batch.isSome = g.saveFailed
  | .ok _ => g.saveFailed = false ∧ ∃ es account, q.operation.Yields (AccountAggregate.replay es) account ∧
      es ++ account.uncommittedEvents <+: w.store.stream (accountStream q.accountId) ∧
      g.batch =
        if account.uncommittedEvents = [] then none else some (accountStream q.accountId, account.uncommittedEvents)

theorem Loads.wp_run {Req Out G : Type} {V : Service Req Out} {idle : G} {inv : World Req → (Nat → G) → Prop}
    {fail : G → G} (H : Loads V inv fail) {q : Req} {w : World Req} {g : G}
    {Q : World Req → G → Except Failure AccountAggregate → Prop}
    (operation : AccountOperation) (account : AccountAggregate)
    (hok : ∀ w' account', w.Le w' → operation.Yields account account' → Q w' g (.ok account'))
    (herr : ∀ w' e, Q w' g (.error e)) :
    (V.outline idle inv).wp q (operation.run account) w g Q := by
  induction operation generalizing account w with
  | done => exact Outline.wp_pure (hok w account ((V.outline idle inv).le_refl w) .done)
  | fail e => exact Outline.wp_throw (herr w e)
  | command cmd next ih =>
    unfold AccountOperation.run
    refine Outline.wp_bind (H.wp_takeStamp (fun w₁ stamp hle₁ => ?_) fun w₁ message _ _ => herr w₁ _)
    have hle : ∀ {w'}, w₁.Le w' → w.Le w' := (V.outline idle inv).le_trans hle₁
    dsimp only
    cases hop : cmd.operation stamp account with
    | ok account' =>
      exact ih _ _ _ (fun w' account'' hle' hy => hok w' account'' (hle hle') (.accepted stamp hop hy))
    | error e =>
      exact ih _ _ _ (fun w' account'' hle' hy => hok w' account'' (hle hle') (.refused stamp hop hy))

section
variable {q : OperationRequest} {w : World OperationRequest}

theorem attempted_error {g : CallGhost} (e : Failure) (hg : g = {}) :
    Attempted {} (CallEnds q) w g (.error e) := by
  subst hg
  cases e with
  | wrongExpectedVersion streamId expected actual => exact .inl ⟨streamId, expected, actual, rfl, rfl⟩
  | _ => exact .inr ⟨nofun, rfl⟩

theorem wp_operation_save {es : List DomainEvent} {account : AccountAggregate}
    (hes : es <+: w.store.stream (accountStream q.accountId)) (hahead : account.Ahead es)
    (hy : q.operation.Yields (AccountAggregate.replay es) account) :
    operationOutline.wp q (AccountRepository.save q.accountId account) w {}
      (Attempted {} (CallEnds q)) := by
  let Done : World OperationRequest → CallGhost → Prop := fun w' g' =>
    es ++ account.uncommittedEvents <+: w'.store.stream (accountStream q.accountId) ∧
      g' = { batch := some (accountStream q.accountId, account.uncommittedEvents) }
  simp only [AccountRepository.save, AccountAggregate.pullUncommittedEvents, hahead.version, Nat.add_sub_cancel]
  by_cases hnil : account.uncommittedEvents = []
  · rw [if_pos (by rw [hnil]; rfl)]
    exact Outline.wp_pure (.inr ⟨fun _ _ _ h => (by cases h), rfl, es, account, hy, by rwa [hnil, List.append_nil],
      by rw [if_pos hnil]⟩)
  rw [if_neg (by simpa using hnil)]
  have hended : ∀ {w' g'}, Done w' g' → Attempted {} (CallEnds q) w' g' (.ok ()) := by
    rintro w' g' ⟨hp, rfl⟩
    exact .inr ⟨fun _ _ _ h => (by cases h), rfl, es, account, hy, hp, by rw [if_neg hnil]⟩
  refine Outline.wp_bind (@Loads.wp_append _ _ _ _ _ _ _ OperationsInv.loads _ _ _ Done _ _ _ hes
    (fun {i w₁ gs r w₂} _ hinv hg hs hstep hw ha => ?_) _ (fun w₁ g' hd => ?_)
    (fun _ _ _ _ hm => absurd rfl (hm _ _ _)) (fun _ _ => attempted_error _ rfl) fun _ _ _ => attempted_error _ rfl)
  · obtain rfl : r = .ok () := by
      rcases ha with h | ⟨message, _, hf⟩
      · exact h
      · exact absurd rfl (hf _ _ _)
    subst hs
    have hstream : w₂.store.stream (accountStream q.accountId) =
        w₁.store.stream (accountStream q.accountId) ++ account.uncommittedEvents := by
      rw [hw, Store.stream_write, if_pos rfl, hahead.renumber]
    refine ⟨_, ⟨hw ▸ hinv.loadable.write _ _, fun streamId => ?_, fun j => ?_, fun j => ?_⟩,
      hstream ▸ List.prefix_rfl, rfl⟩
    · rw [hstep.trace, committed_snoc rfl, ← hinv.stream]
      split
      case isTrue heq =>
        rw [← heq, hstream]
      case isFalse hne =>
        rw [hw, Store.stream_write, if_neg hne, List.append_nil]
    · rw [hstep.trace, contributions_snoc, hinv.contributed]
      by_cases hij : i = j
      · subst hij
        simp [hg, Call.commit?]
      · simp [hij, Function.update_of_ne (Ne.symm hij)]
    · rw [hstep.trace, saveFailed_snoc, hinv.saves]
      have hsaved : ¬ FailedSave (.append (accountStream q.accountId) account.uncommittedEvents
          (w₁.store.stream (accountStream q.accountId)).length) (.ok ()) := by
        intro h
        cases h
      by_cases hij : i = j
      · subst hij
        simp [hg, hsaved]
      · simp [hij, Function.update_of_ne (Ne.symm hij)]
  · dsimp only
    have hstate : account.getSnapshotState =
        (AccountAggregate.replay (es ++ account.uncommittedEvents)).getSnapshotState :=
      (congrArg AccountAggregate.getSnapshotState hahead.replayed).trans rfl
    split
    · obtain ⟨hp, hg⟩ := hd
      refine OperationsInv.loads.wp_snapshot_save (.of_isPrefix hp List.length_append.symm hstate)
        (fun w₂ hle => hended ⟨hp.trans (hle.store.stream _), hg⟩) fun w₂ message _ _ => ?_
      subst hg
      exact .inr ⟨fun _ _ _ h => (by cases h), rfl⟩
    · exact Outline.wp_pure (hended hd)

theorem wp_executeOperation :
    operationOutline.wp q (AccountRepository.executeOperation q.accountId q.operation) w {}
      (CallEnds q) := by
  refine wp_retryLoop (fun w₀ _ => ?_) (fun w' => show CallEnds q w' {} (.error _) from rfl) 2
  refine Outline.wp_bind (OperationsInv.loads.wp_account_getById q.accountId (fun w₁ _ ⟨_, hinv₁⟩ => ?_)
    fun w₁ message _ _ => attempted_error _ rfl)
  have hahead := AccountAggregate.Ahead.replay (hinv₁.loadable.numbered (accountStream q.accountId))
  refine Outline.wp_bind (OperationsInv.loads.wp_run q.operation _ (fun w₂ account hle₂ hy => ?_)
    fun w₂ e => attempted_error e rfl)
  exact wp_operation_save (hle₂.store.stream _) (hahead.yields hy) hy

end

/-- **A call is all or nothing**, exactly where the snapshot after it could be saved. -/
theorem executeOperation_atomic_iff {c : OperationConfig} (hc : operationService.system.Reachable c) :
    (∀ streamId, c.state.store.stream streamId = committed c.state.trace streamId) ∧
    ∀ {i q r}, c.threads[i]? = some ⟨q, some (.done r)⟩ → (AllOrNothing c i q r ↔ ¬ SaveFailed c.state.trace i) := by
  obtain ⟨gs, ht⟩ := Outline.sound (L := operationOutline) OperationsInv.empty (fun q w _ => wp_executeOperation) hc
  have hinv : OperationsInv c.state gs := ht.inv
  refine ⟨hinv.stream, fun {i q r} hi => ?_⟩
  obtain ⟨w, hle, hends⟩ := ht.ended hi
  have hle : w.Le c.state := hle
  rw [hinv.saves]
  cases r with
  | error e =>
    have hends : (gs i).batch.isSome = (gs i).saveFailed := hends
    show contributions c.state.trace i = [] ↔ _
    rw [hinv.contributed, ← hends]
    cases (gs i).batch <;> simp
  | ok u =>
    obtain ⟨hsaved, es, account, hy, hp, hbatch⟩ := hends
    rw [hsaved]
    refine iff_of_true ⟨es, account, hy, hp.trans (hle.store.stream _), ?_⟩ nofun
    rw [hinv.contributed, hbatch]
    split <;> rfl

/-- 10.25 and then 5.25 from one caller, in one call. -/
def depositTwice (accountId : String) (context : CommandContext) : AccountOperation :=
  .command (.DepositMoney accountId ⟨"10.25"⟩ "EUR" context "tx-1") fun _ _ =>
    .ofCommand (.DepositMoney accountId ⟨"5.25"⟩ "EUR" context "tx-2")

def operationContext : CommandContext := { commandId := "key-1", correlationId := "corr-1" }

def operationRun : OperationConfig :=
  operationService.serveAll 20 (fun _ _ => .answer)
    [⟨"acc-1", .ofCommand (.CreateAccount "acc-1" "owner-1" "EUR" operationContext)⟩,
      ⟨"acc-1", depositTwice "acc-1" operationContext⟩]

theorem operationRun_reachable : operationService.system.Reachable operationRun :=
  Service.reachable_serveAll 20 (fun _ _ => trivial) fun _ _ => Service.permits_answer fun _ _ => trivial

theorem executeOperation_atomic_iff_twice :
    operationRun.threads[1]? = some ⟨⟨"acc-1", depositTwice "acc-1" operationContext⟩, some (.done (.ok ()))⟩ ∧
    (AllOrNothing operationRun 1 ⟨"acc-1", depositTwice "acc-1" operationContext⟩ (.ok ()) ↔
      ¬ SaveFailed operationRun.state.trace 1) ∧
    (operationRun.state.store.stream "account-acc-1").length = 3 := by
  have hi : operationRun.threads[1]? =
    some ⟨⟨"acc-1", depositTwice "acc-1" operationContext⟩, some (.done (.ok ()))⟩ := by rfl
  exact ⟨hi, (executeOperation_atomic_iff operationRun_reachable).2 hi, by decide +kernel⟩

/-- The call whose event is the fiftieth saves a snapshot. -/
def fiftyRun : OperationConfig :=
  let V := operationService
  V.serveAll 20 (fun _ op => match op with | .snapshotBeforeSave _ => .reject "connection lost" | _ => .answer)
    (⟨"acc-1", .ofCommand (.CreateAccount "acc-1" "owner-1" "EUR" operationContext)⟩ ::
      List.replicate 49 ⟨"acc-1", .ofCommand (.DepositMoney "acc-1" ⟨"1"⟩ "EUR" operationContext "tx-1")⟩)

/-- A snapshot that cannot be saved makes a call reject that has written its event. -/
theorem executeOperation_not_atomic :
    ¬ ∀ c, operationService.system.Reachable c → ∀ i q r, c.threads[i]? = some ⟨q, some (.done r)⟩ →
      AllOrNothing c i q r := by
  intro h
  have hc : operationService.system.Reachable fiftyRun := by
    refine Service.reachable_serveAll 20 (fun _ _ => trivial) fun _ _ => ⟨fun _ _ => trivial, fun _ => trivial⟩
  have hrejected : fiftyRun.threads[49]?.map Thread.rejected = some true := by decide +kernel
  have hwritten : (contributions fiftyRun.state.trace 49).length = 1 := by decide +kernel
  obtain ⟨thread, hi, hthread⟩ := Option.map_eq_some_iff.mp hrejected
  obtain ⟨e, he⟩ := Thread.exists_of_rejected hthread
  have hi : fiftyRun.threads[49]? = some ⟨thread.request, some (.done (.error e))⟩ := he ▸ hi
  have hnothing : contributions fiftyRun.state.trace 49 = [] := h fiftyRun hc 49 thread.request (.error e) hi
  rw [hnothing] at hwritten
  cases hwritten

end CoreBanking
