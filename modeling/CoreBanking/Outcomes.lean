import CoreBanking.AloneRules
import CoreBanking.Saga

/-!
# What a recorded failure means

The registry and the idempotency service record how a handler ended. Recorded
as failed, a request has left nothing behind, unless a fault hit it after its
commit; and no failure of a leg is ever recorded as one to be retried.
-/

namespace CoreBanking

/-! ## Requests recorded as failed -/

def StoreOp.FollowsCommit : StoreOp → Prop
  | .snapshotBeforeSave _ => True
  | .putSnapshot _ => True
  | .markTransactionCompleted _ => True
  | .markIdempotencyCompleted _ _ => True
  | _ => False

/-- Faults before a commit, and with a failure of the marking of a failure; an
append that is rejected has not been made. -/
def FaultModel.beforeCommit : FaultModel where
  rejected op _ := ¬ op.FollowsCommit
  ambiguous op _ := ¬ op.FollowsCommit ∧ ∀ streamId events expectedVersion, op ≠ .append streamId events expectedVersion
  losesSnapshots := True

structure FailedIsVoid (s : Store) : Prop where
  transaction : ∀ {x record}, s.transactions.get x = some record →
    record.status = .FAILED_TERMINAL ∨ record.status = .FAILED_RETRYABLE → ¬ s.Moved x
  idempotency : ∀ {k record}, s.idempotency.get k = some record → record.status = .FAILED → ¬ s.Produced k

/-- **A request recorded as failed has left no event**, in every run of the API
in which no fault follows a commit. -/
theorem failed_is_void [JsRuntime] [RequestDigest] {c : BankConfig}
    (hc : (bank .beforeCommit BankRequest.IsApi fun _ _ _ => True).system.Reachable c) :
    FailedIsVoid c.state.store := by
  have hlate : ∀ {message}, ¬ FaultModel.beforeCommit.Late message := by
    intro message h
    cases h with
    | append streamId events v hm => exact hm.2 streamId events v rfl
    | snapshotBeforeSave streamId hm => exact hm.elim (· trivial) (·.1 trivial)
    | putSnapshot snapshot hm => exact hm.elim (· trivial) (·.1 trivial)
  have hcompleted : ∀ {op message}, FaultModel.beforeCommit.rejected op message ∨
      FaultModel.beforeCommit.ambiguous op message →
      (∀ x, op ≠ .markTransactionCompleted x) ∧ ∀ k response, op ≠ .markIdempotencyCompleted k response := by
    intro op message hm
    have hop : ¬ op.FollowsCommit := hm.elim id And.left
    exact ⟨fun x h => hop (h ▸ trivial), fun k response h => hop (h ▸ trivial)⟩
  have hp : Promises ⟨False, False, True, False⟩ .beforeCommit BankRequest.IsApi fun _ _ _ => True :=
    ⟨False.elim, False.elim, False.elim, fun _ _ h => h, fun _ _ => hlate, fun _ _ _ => hcompleted, False.elim⟩
  obtain ⟨gs, hinv⟩ := bank_invariant hp hc
  have hcalm := hinv.books.calm trivial
  refine ⟨fun hget hst => ?_, fun hget hst => (hcalm.keyFailed hget hst).1⟩
  rcases hst with hst | hst
  · exact (hcalm.failed hget hst).unmoved
  · exact absurd hst (hinv.books.notReopened hget)

def rejectedDeposit : BankConfig :=
  plainRun .beforeCommit BankRequest.IsApi (fun _ _ _ => True)
    (fun q op => match q, op with
      | .deposit .., .append .. => .reject "connection lost"
      | _, _ => .answer)
    openings

theorem failed_is_void_rejected :
    (rejectedDeposit.state.store.transactions.get "tx-1").map (·.status) = some .FAILED_TERMINAL ∧
    (rejectedDeposit.state.store.idempotency.get "key-3").map (·.status) = some .FAILED ∧
    FailedIsVoid rejectedDeposit.state.store := by
  refine ⟨by decide +kernel, by decide +kernel, @failed_is_void decimalRuntime plainDigest _ (plainRun_reachable
    openings_wellFormed (fun q hq => ?_) fun q _ => ⟨fun _ _ => trivial, fun {op message} h => ?_⟩)⟩
  · simp only [openings, List.mem_cons, List.not_mem_nil, or_false] at hq
    rcases hq with rfl | rfl | rfl | rfl <;> trivial
  · split at h
    · exact id
    · cases h

/-- The deposit is made, its registry record cannot be marked as completed, and
the record says that it failed. -/
theorem failed_not_void :
    ¬ ∀ c : BankConfig, (plainBank .failStop BankRequest.IsApi fun _ _ _ => True).system.Reachable c →
      FailedIsVoid c.state.store := by
  intro h
  let plan : BankRequest → StoreOp → Service.Plan := fun _ op =>
    match op with
    | .markTransactionCompleted _ => .reject "connection lost"
    | _ => .answer
  have hc : (plainBank .failStop BankRequest.IsApi fun _ _ _ => True).system.Reachable
      (plainRun .failStop BankRequest.IsApi (fun _ _ _ => True) plan openings) := by
    refine plainRun_reachable openings_wellFormed (fun q hq => ?_) fun q _ => ⟨fun _ _ => trivial, fun _ => trivial⟩
    simp only [openings, List.mem_cons, List.not_mem_nil, or_false] at hq
    rcases hq with rfl | rfl | rfl | rfl <;> trivial
  have hvoid := h _ hc
  generalize hrun : (plainRun .failStop BankRequest.IsApi (fun _ _ _ => True) plan openings).state.store = s at hvoid
  obtain ⟨record, hget⟩ : ∃ record, s.transactions.get "tx-1" = some record :=
    Option.isSome_iff_exists.mp (hrun ▸ by decide +kernel)
  have hst : (s.transactions.get "tx-1").map (·.status) = some .FAILED_TERMINAL := hrun ▸ by decide +kernel
  have hmoved : ∃ e ∈ s.stream "account-acc-1", e.data.movement = some "tx-1" := hrun ▸ by decide +kernel
  obtain ⟨e, he, hx⟩ := hmoved
  rw [hget] at hst
  exact hvoid.transaction hget (.inl (Option.some.inj hst)) ⟨_, e, he, hx⟩

/-! ## Failures of a handler -/

/-- What the registry throws because of a record it finds. -/
def refusal (input : ReserveTransactionInput) (record : TransactionRecord) : Failure :=
  match TransactionRegistryService.ensureSameTransactionIntent input record with
  | .error e => e
  | .ok _ =>
    if record.status = .PENDING then TransactionRegistryService.alreadyInProgress input.transactionId
    else TransactionRegistryService.previouslyFailed input.transactionId

theorem refusal_refuses (input : ReserveTransactionInput) (record : TransactionRecord) :
    RegistryRefuses input (refusal input record) := by
  unfold refusal
  cases h : TransactionRegistryService.ensureSameTransactionIntent input record with
  | error e => exact .of_intent h
  | ok u =>
    dsimp only
    split
    · exact .inProgress
    · exact .failed

theorem alone_registry_found {s : Store} {input : ReserveTransactionInput} {handler : Task Response}
    {options : TransactionRegistryService.Options} {record : TransactionRecord}
    (hget : s.transactions.get input.transactionId = some record) (hst : record.status ≠ .FAILED_RETRYABLE)
    {Q : Except Failure Response → Store → Prop}
    (hok : TransactionRegistryService.ensureSameTransactionIntent input record = .ok () → record.status = .COMPLETED →
      Q (.ok accepted) s)
    (herr : ¬ (TransactionRegistryService.ensureSameTransactionIntent input record = .ok () ∧
      record.status = .COMPLETED) → Q (.error (refusal input record)) s) :
    (TransactionRegistryService.execute input handler options).Post (Exec .none) s Q := by
  have hperform : perform (.reserveTransaction input) s = (.ok ⟨false, some record⟩, s) := by
    simp only [perform, TransactionRecords.reserve, hget]
  refine Async.post_bind (alone_call (by simp) ?_)
  rw [hperform]
  refine Async.post_bind (Async.post_ofExcept ?_)
  unfold refusal at herr
  cases hsame : TransactionRegistryService.ensureSameTransactionIntent input record with
  | error e =>
    rw [hsame] at herr
    exact herr fun h => by cases h.1
  | ok u =>
    rw [hsame] at herr hok
    dsimp only
    cases hstatus : record.status with
    | COMPLETED => exact Async.post_pure (hok rfl hstatus)
    | PENDING =>
      rw [hstatus] at herr
      exact Async.post_throw (herr fun h => by cases h.2)
    | FAILED_RETRYABLE => exact absurd hstatus hst
    | FAILED_TERMINAL =>
      rw [hstatus] at herr
      exact Async.post_throw (herr fun h => by cases h.2)

/-- The leg under `x` is not run again: its record is not one to be retried, and
whoever asks the registry is answered from it. -/
structure Shut (s : Store) (x : String) : Prop where
  record : ∃ record, s.transactions.get x = some record ∧ record.status ≠ .FAILED_RETRYABLE
  answer : ∀ {input handler options}, ReserveTransactionInput.transactionId input = x →
    (TransactionRegistryService.execute input handler options).Post (Exec .none) s fun out s' =>
      s' = s ∧ (out = .ok accepted ∨ ∃ e, out = .error e ∧ RegistryRefuses input e)

theorem shut_of_record {s : Store} {x : String} {record : TransactionRecord} (hget : s.transactions.get x = some record)
    (hst : record.status ≠ .FAILED_RETRYABLE) : Shut s x :=
  ⟨⟨record, hget, hst⟩, fun {input _ _} hx => alone_registry_found (hx ▸ hget) hst
    (fun _ _ => ⟨rfl, .inl rfl⟩) fun _ => ⟨rfl, .inr ⟨_, rfl, refusal_refuses input record⟩⟩⟩

/-- **No failure of a handler is recorded as one to be retried**, and none is
followed by a second run of the handler, whatever the error was. -/
theorem failed_handlers_shut [JsRuntime] [RequestDigest] {F : FaultModel} {admits : BankRequest → Prop}
    {allows : BankRequest → StoreOp → Store → Prop} {c : BankConfig}
    (hc : (bank F admits allows).system.Reachable c) {call : Call BankRequest} (hcall : call ∈ c.state.trace)
    {x message : String} {status : TransactionRecordStatus}
    (hop : call.op = .markTransactionFailed x message status) :
    status = .FAILED_TERMINAL ∧ Shut c.state.store x := by
  obtain ⟨gs, hinv⟩ := bank_books hc
  obtain ⟨hst, record, hget⟩ := hinv.marks call hcall x message status hop
  exact ⟨hst, shut_of_record hget (hinv.books.notReopened hget)⟩

def rejectedDebit : BankConfig :=
  plainRun .failStop (fun _ => True) (fun _ _ _ => True)
    (fun q op => match q, op with
      | .processTransfer _, .append "account-acc-1" .. => .reject "connection lost"
      | _, _ => .answer)
    (openings ++ [.processTransfer "t-1"])

theorem rejectedDebit_reachable :
    (plainBank .failStop (fun _ => True) fun _ _ _ => True).system.Reachable rejectedDebit := by
  refine plainRun_reachable (fun q hq => ?_) (fun _ _ => trivial) fun q _ => ⟨fun _ _ => trivial, fun _ => trivial⟩
  rcases List.mem_append.mp hq with hq | hq
  · exact openings_wellFormed q hq
  · rw [List.mem_singleton.mp hq]; trivial

theorem failed_handlers_shut_debit :
    (rejectedDebit.state.store.transactions.get "t-1:debit").map (·.status) = some .FAILED_TERMINAL ∧
      Shut rejectedDebit.state.store "t-1:debit" := by
  have hany : (rejectedDebit.state.trace.any fun call => decide
      (call.op = .markTransactionFailed "t-1:debit" "connection lost" .FAILED_TERMINAL)) = true := by decide +kernel
  obtain ⟨call, hcall, hop⟩ := List.any_eq_true.mp hany
  obtain ⟨-, hshut⟩ := @failed_handlers_shut decimalRuntime plainDigest _ _ _ _ rejectedDebit_reachable call hcall _ _ _
    (of_decide_eq_true hop)
  exact ⟨by decide +kernel, hshut⟩

/-- An error of a store, before any money was moved, ends the leg. -/
theorem failed_handlers_not_retried :
    ¬ ∀ c : BankConfig, (plainBank .failStop (fun _ => True) fun _ _ _ => True).system.Reachable c →
      ∀ call ∈ c.state.trace, ∀ t leg message status, call.op = .markTransactionFailed (legId t leg) message status →
        TransferCoordinatorService.isTerminalDomainError (.store message) = false →
        (∃ record, c.state.store.transactions.get (legId t leg) = some record ∧ record.status = .FAILED_RETRYABLE) ∧
        ¬ c.state.store.Moved (legId t leg) := by
  intro h
  have hany : (rejectedDebit.state.trace.any fun call => decide
      (call.op = .markTransactionFailed (legId "t-1" .debit) "connection lost" .FAILED_TERMINAL)) = true := by
    decide +kernel
  obtain ⟨call, hcall, hop⟩ := List.any_eq_true.mp hany
  obtain ⟨⟨record, hget, hst⟩, _⟩ := h _ rejectedDebit_reachable call hcall "t-1" .debit _ _ (of_decide_eq_true hop)
    (by decide +kernel)
  have hterminal : (rejectedDebit.state.store.transactions.get (legId "t-1" .debit)).map (·.status) =
      some .FAILED_TERMINAL := by decide +kernel
  rw [hget] at hterminal
  cases hst.symm.trans (Option.some.inj hterminal)

end CoreBanking
