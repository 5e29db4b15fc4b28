import CoreBanking.Bank
import CoreBanking.StoreRules

/-!
# What the requests write

Which data a request may append does not depend on what its reads are answered.
What is so of all requests of the bank is then so of every event in a stream.
-/

namespace CoreBanking

/-- What the call appends, if it appends anything, has `P`. -/
def StoreOp.Writes (P : EventData → Prop) : StoreOp → Prop
  | .append _ events _ => ∀ e ∈ events, P e.data
  | _ => True

section
variable {P : EventData → Prop}

theorem only_retryLoop {attempt : Task Unit} {lost : Failure} {Q : StoreOp → Prop} (h : attempt.Only Q) (n : Nat) :
    (retryLoop attempt lost n).Only Q := by
  induction n with
  | zero => trivial
  | succ n ih =>
    refine Async.only_tryCatch h fun error => ?_
    split
    · split
      · trivial
      · exact ih
    · trivial

theorem only_takeStamp : takeStamp.Only (StoreOp.Writes P) :=
  Async.only_bind (Async.only_call trivial) fun _ => Async.only_bind (Async.only_call trivial) fun _ => trivial

theorem only_snapshot_save (snapshot : Snapshot) : (SnapshotStore.save snapshot).Only (StoreOp.Writes P) := by
  refine Async.only_bind (Async.only_call trivial) fun current => ?_
  split
  · split
    · trivial
    · exact Async.only_call trivial
  · exact Async.only_call trivial

namespace AccountRepository

theorem only_save {accountId : String} {account : AccountAggregate} (h : ∀ e ∈ account.uncommittedEvents, P e.data) :
    (save accountId account).Only (StoreOp.Writes P) := by
  unfold save
  dsimp only
  split
  · trivial
  · refine Async.only_bind (Async.only_call h) fun _ => ?_
    split
    · exact only_snapshot_save _
    · trivial

/-- A loaded account has nothing to commit, so an operation leaves its own event. -/
theorem only_execute {cmd : AccountCommand} (h : ∀ {account data streamId}, cmd.Emits account data streamId → P data) :
    cmd.execute.Only (StoreOp.Writes P) := by
  refine only_retryLoop ?_ MAX_WRITE_ATTEMPTS
  unfold getById
  simp only [Async.bind_assoc]
  refine Async.only_bind (Async.only_call trivial) fun snapshot => ?_
  refine Async.only_bind (Async.only_call trivial) fun events => ?_
  rw [Async.pure_bind]
  generalize haccount : AccountAggregate.loadFromHistory _ events = account
  have hnone : account.uncommittedEvents = [] := by
    rw [← haccount, AccountAggregate.loadFromHistory_uncommittedEvents]
    cases snapshot <;> rfl
  refine Async.only_bind only_takeStamp fun stamp => ?_
  cases hop : cmd.operation stamp account with
  | error e => trivial
  | ok account' =>
    rw [Async.ofExcept_ok_bind]
    obtain ⟨data, streamId, hemits, rfl⟩ := AccountCommand.operation_ok hop
    refine only_save fun e he => ?_
    simp only [AccountAggregate.apply, hnone, List.nil_append, List.mem_singleton] at he
    subst he
    exact h hemits

end AccountRepository

namespace TransferRepository

theorem only_save {transferId : String} {transfer : TransferAggregate}
    (h : ∀ e ∈ transfer.uncommittedEvents, P e.data) : (save transferId transfer).Only (StoreOp.Writes P) := by
  unfold save
  dsimp only
  split
  · trivial
  · exact Async.only_call h

theorem only_execute {cmd : TransferCommand} (h : ∀ {transfer data}, cmd.Emits transfer data → P data) :
    cmd.execute.Only (StoreOp.Writes P) := by
  refine only_retryLoop ?_ MAX_WRITE_ATTEMPTS
  unfold getById
  simp only [Async.bind_assoc]
  refine Async.only_bind (Async.only_call trivial) fun events => ?_
  rw [Async.pure_bind]
  generalize htransfer : TransferAggregate.loadFromHistory _ events = transfer
  have hnone : transfer.uncommittedEvents = [] := by
    rw [← htransfer, TransferAggregate.loadFromHistory_uncommittedEvents]
  refine Async.only_bind only_takeStamp fun stamp => ?_
  cases hop : cmd.operation stamp transfer with
  | error e => trivial
  | ok transfer' =>
    rw [Async.ofExcept_ok_bind]
    obtain ⟨data, hemits, rfl⟩ := TransferCommand.operation_ok.mp hop
    refine only_save fun e he => ?_
    simp only [TransferAggregate.apply, hnone, List.nil_append, List.mem_singleton] at he
    subst he
    exact h hemits

end TransferRepository

/-! ## The services -/

theorem only_registry {input : ReserveTransactionInput} {handler : Task Response}
    {options : TransactionRegistryService.Options} (h : handler.Only (StoreOp.Writes P)) :
    (TransactionRegistryService.execute input handler options).Only (StoreOp.Writes P) := by
  have hrun : (TransactionRegistryService.runHandler input.transactionId handler options).Only (StoreOp.Writes P) :=
    Async.only_tryCatch (Async.only_bind h fun _ => Async.only_bind (Async.only_call trivial) fun _ => trivial)
      fun _ => Async.only_bind (Async.only_call trivial) fun _ => trivial
  refine Async.only_bind (Async.only_call trivial) fun reservation => ?_
  split
  · refine Async.only_bind trivial fun _ => ?_
    split
    · trivial
    · trivial
    · split
      · exact Async.only_bind (Async.only_call trivial) fun _ => hrun
      · trivial
    · trivial
  · exact hrun

theorem only_idempotency [RequestDigest] {key : Option String} {operation : String} {payload : Payload}
    {handler : String → Task Response} (h : ∀ key, (handler key).Only (StoreOp.Writes P)) :
    (IdempotencyService.execute key operation payload handler).Only (StoreOp.Writes P) := by
  unfold IdempotencyService.execute IdempotencyService.executeWith
  split
  · trivial
  · split
    · trivial
    · refine Async.only_bind (Async.only_call trivial) fun reservation => ?_
      split
      · split
        · trivial
        · trivial
      · exact Async.only_tryCatch
          (Async.only_bind (h _) fun _ => Async.only_bind (Async.only_call trivial) fun _ => trivial)
          fun _ => Async.only_bind (Async.only_call trivial) fun _ => trivial

section
variable [JsRuntime]

open TransferCoordinatorService

theorem only_legRun {leg : Leg} {transfer : TransferAggregate} {transferId : String} {context : CommandContext}
    {transactionId : String} (hmoney : ∀ {data}, data.movement ≠ none → P data)
    (htransfer : ∀ {cmd transfer data}, TransferCommand.Emits transfer cmd data → P data) :
    (tryCatch (do
      let _ ← TransactionRegistryService.execute (legInput leg transfer transactionId)
        (legHandler leg transfer context transactionId) legOptions
      (leg.finishCommand transferId context).execute)
      fun error =>
        match leg.failureStage with
        | some stage =>
          if isTerminalDomainError error then
            (TransferCommand.FailTransfer transferId error.message stage context).execute
          else throw (.retryable error.message)
        | none => throw (.retryable error.message) : Task Unit).Only (StoreOp.Writes P) := by
  have hhandler : (legHandler leg transfer context transactionId).Only (StoreOp.Writes P) := by
    refine Async.only_bind (AccountRepository.only_execute fun hemits => hmoney ?_) fun _ => trivial
    cases leg <;> cases hemits <;> simp [EventData.movement]
  refine Async.only_tryCatch (Async.only_bind (only_registry hhandler) fun _ =>
    TransferRepository.only_execute htransfer) fun error => ?_
  split
  · split
    · exact TransferRepository.only_execute htransfer
    · trivial
  · trivial

theorem only_processLeg {leg : Leg} {transferId : String} {context : CommandContext} {transactionId : String}
    (hmoney : ∀ {data}, data.movement ≠ none → P data)
    (htransfer : ∀ {cmd transfer data}, TransferCommand.Emits transfer cmd data → P data) :
    (processLeg leg transferId context transactionId).Only (StoreOp.Writes P) := by
  refine Async.only_bind (Async.only_bind (Async.only_call trivial) fun _ => trivial) fun transfer => ?_
  dsimp only
  split
  · exact Async.only_bind (TransferRepository.only_execute htransfer) fun _ => only_legRun hmoney htransfer
  · exact only_legRun hmoney htransfer

theorem only_processTransfer {transferId : String} (hmoney : ∀ {data}, data.movement ≠ none → P data)
    (htransfer : ∀ {cmd transfer data}, TransferCommand.Emits transfer cmd data → P data) :
    (processTransfer transferId).Only (StoreOp.Writes P) := by
  refine Async.only_bind (Async.only_bind (Async.only_call trivial) fun _ => trivial) fun transfer => ?_
  refine Async.only_bind (Async.only_call trivial) fun commandId => ?_
  dsimp only
  split
  · exact Async.only_tryCatch (only_processLeg hmoney htransfer) fun _ => trivial
  · trivial

omit [JsRuntime] in
theorem only_initiateTransfer {transferId sourceAccountId destinationAccountId currency : String} {amount : JsNumber}
    {context : CommandContext} (htransfer : ∀ {cmd transfer data}, TransferCommand.Emits transfer cmd data → P data) :
    (initiateTransfer transferId sourceAccountId destinationAccountId amount currency context).Only
      (StoreOp.Writes P) := by
  have hget : ∀ accountId, (AccountRepository.getById accountId).Only (StoreOp.Writes P) := fun accountId =>
    Async.only_bind (Async.only_call trivial) fun _ => Async.only_bind (Async.only_call trivial) fun _ => trivial
  refine Async.only_bind (hget _) fun source => Async.only_bind (hget _) fun destination => ?_
  split
  · trivial
  · split
    · trivial
    · split
      · trivial
      · exact TransferRepository.only_execute htransfer

/-- Only the creation of an account writes a creation, and it writes its own. -/
theorem BankRequest.only_body [RequestDigest] {q : BankRequest}
    (hcreate : ∀ {key dto}, q = .createAccount key dto → P (.AccountCreated dto.accountId dto.ownerId dto.currency))
    (hrest : ∀ {data}, data.isAccountCreated = false → P data) : q.body.Only (StoreOp.Writes P) := by
  have htransfer : ∀ {cmd transfer data}, TransferCommand.Emits transfer cmd data → P data := by
    intro cmd transfer data hemits
    unfold TransferCommand.Emits at hemits
    generalize cmd.method = method at hemits
    refine hrest ?_
    cases hemits <;> rfl
  cases q with
  | createAccount key dto =>
    refine Async.only_bind (only_idempotency fun key => Async.only_bind (Async.only_call trivial) fun _ =>
      Async.only_bind (AccountRepository.only_execute fun hemits => ?_) fun _ => trivial) fun _ => trivial
    cases hemits
    exact hcreate rfl
  | deposit key accountId dto =>
    refine Async.only_bind (only_idempotency fun key => only_registry (Async.only_bind (Async.only_call trivial)
      fun _ => Async.only_bind (AccountRepository.only_execute fun hemits => ?_) fun _ => trivial)) fun _ => trivial
    cases hemits
    exact hrest rfl
  | withdraw key accountId dto =>
    refine Async.only_bind (only_idempotency fun key => only_registry (Async.only_bind (Async.only_call trivial)
      fun _ => Async.only_bind (AccountRepository.only_execute fun hemits => ?_) fun _ => trivial)) fun _ => trivial
    cases hemits
    exact hrest rfl
  | freeze key accountId dto =>
    refine Async.only_bind (only_idempotency fun key => Async.only_bind (Async.only_call trivial) fun _ =>
      Async.only_bind (AccountRepository.only_execute fun hemits => ?_) fun _ => trivial) fun _ => trivial
    cases hemits
    exact hrest rfl
  | initiateTransfer key dto =>
    exact Async.only_bind (only_idempotency fun key => Async.only_bind (only_initiateTransfer htransfer)
      fun _ => trivial) fun _ => trivial
  | processTransfer transferId =>
    refine Async.only_bind (only_processTransfer (fun hmoves => hrest ?_) htransfer) fun _ => trivial
    cases data_eq : EventData.isAccountCreated _ with
    | false => rfl
    | true => exact absurd (EventData.movement_of_first (.inl data_eq)) hmoves

end

end

/-! ## Runs -/

theorem EventStore.mem_renumber {n : Nat} {events : List DomainEvent} {e : DomainEvent}
    (he : e ∈ EventStore.renumber n events) : ∃ e' ∈ events, e.data = e'.data := by
  obtain ⟨k, hk⟩ := List.getElem?_of_mem he
  rw [EventStore.getElem?_renumber] at hk
  obtain ⟨e', he', rfl⟩ := Option.map_eq_some_iff.mp hk
  exact ⟨e', List.mem_of_getElem? he', rfl⟩

/-- What all programs write is all there is. -/
theorem Service.written {Req Out : Type} {V : Service Req Out} {P : EventData → Prop}
    (hbody : ∀ q, V.admits q → (V.body q).Only (StoreOp.Writes P))
    {c : Config StoreOp StoreOp.Result Failure (World Req) Req Out} (hc : V.system.Reachable c) {streamId : String}
    {e : DomainEvent} (he : e ∈ c.state.store.stream streamId) : P e.data := by
  induction hc generalizing streamId e with
  | start => cases he
  | step hc hs ih =>
    cases hs with
    | spawn => exact ih he
    | crash => exact ih he
    | @call i q op k r w' hi hstep =>
      have hop : op.Writes P := (hc.only (P := fun _ op => op.Writes P) (fun q hq => hbody q hq) _
        (List.mem_of_getElem? hi) _ rfl).1
      have hexec : Exec V.faults op _ r w'.store := Service.CallStep.exec hstep
      rcases hexec.effect with hsame | hsame
      · exact ih (hsame ▸ he)
      · dsimp only at he
        rw [hsame] at he
        cases op with
        | append streamId' events expectedVersion =>
          simp only [perform, EventStore.append] at he
          split at he
          · exact ih he
          · have he : e ∈ (Store.write _ streamId' events).stream streamId := he
            rw [Store.stream_write] at he
            split at he
            case isTrue hid =>
              rcases List.mem_append.mp he with he | he
              · exact ih he
              · obtain ⟨e', he', hdata⟩ := EventStore.mem_renumber he
                exact hdata ▸ hop e' he'
            · exact ih he
        | _ => exact ih he

end CoreBanking
