import CoreBanking.AccountHistory
import CoreBanking.Messages

/-!
# Which errors end a transfer

The coordinator tells a guard of an account from any other error by the words of
its message. Other messages quote the ids that clients choose, so whether they
are told apart depends on these ids.
-/

namespace CoreBanking

def StoreOp.MayAnswer (op : StoreOp) (r : Except Failure op.Result) : Prop := ∃ s s', Exec .none op s r s'

theorem StoreOp.mayAnswer_perform {op : StoreOp} (h : op ≠ .randomUUID ∧ op ≠ .now) (s : Store) :
    op.MayAnswer (perform op s).1 :=
  ⟨s, _, .performed h⟩

/-- Only an append and a reservation answer with an error. -/
theorem StoreOp.MayAnswer.error {op : StoreOp} {e : Failure} (h : op.MayAnswer (.error e)) :
    (∃ streamId events expectedVersion actualVersion, op = .append streamId events expectedVersion ∧
      e = .wrongExpectedVersion streamId expectedVersion actualVersion) ∨
    ∃ input, op = .reserveTransaction input ∧ parseMoneyToMinorUnits input.amount = .error e := by
  obtain ⟨s, s', hexec⟩ := h
  generalize hr : (Except.error e : Except Failure op.Result) = r at hexec
  cases hexec with
  | randomUUID => cases hr
  | now => cases hr
  | lost => cases hr
  | rejected message hf => exact hf.elim
  | ambiguous message hf => exact hf.elim
  | performed h =>
    cases op with
    | append streamId events expectedVersion =>
      simp only [perform, EventStore.append] at hr
      split at hr
      · cases hr
        exact .inl ⟨_, _, _, _, rfl, rfl⟩
      · cases hr
    | reserveTransaction input =>
      refine .inr ⟨input, rfl, ?_⟩
      simp only [perform, TransactionRecords.reserve] at hr
      split at hr
      · cases hr
      · split at hr
        case h_1 hparse =>
          cases hr
          exact hparse
        · cases hr
    | _ => cases hr

def StoreOp.Quiet (op : StoreOp) : Prop :=
  (∀ streamId events expectedVersion, op ≠ .append streamId events expectedVersion) ∧
    ∀ input, op ≠ .reserveTransaction input

theorem StoreOp.Quiet.call {op : StoreOp} (h : op.Quiet) (e : Failure) :
    ¬ (StoreOp.call op).MayEnd StoreOp.MayAnswer (.error e) := by
  intro hcall
  rcases StoreOp.MayAnswer.error (Async.mayEnd_call.mp hcall) with ⟨_, _, _, _, hop, _⟩ | ⟨_, hop, _⟩
  · exact h.1 _ _ _ hop
  · exact h.2 _ hop

/-! ## What reaches a catch block -/

theorem retryLoop_mayThrow {attempt : Task Unit} {lost e : Failure} {attempts : Nat}
    (h : (retryLoop attempt lost attempts).MayEnd StoreOp.MayAnswer (.error e)) :
    e = lost ∨ attempt.MayEnd StoreOp.MayAnswer (.error e) ∧ ∀ streamId expected actual,
      e ≠ .wrongExpectedVersion streamId expected actual := by
  induction attempts with
  | zero => cases h
  | succ attempts ih =>
    rcases Async.mayEnd_tryCatch.mp h with ⟨_, _, h⟩ | ⟨e', he', h⟩
    · cases h
    · cases e' with
      | wrongExpectedVersion =>
        dsimp only at h
        split at h
        · exact .inl (Except.error.inj h)
        · exact ih h
      | _ =>
        cases h
        exact .inr ⟨he', by simp⟩

theorem takeStamp_mayThrow (e : Failure) : ¬ takeStamp.MayEnd StoreOp.MayAnswer (.error e) := by
  intro h
  rcases Async.mayEnd_bind.mp h with ⟨_, _, h⟩ | ⟨e', h, _⟩
  · rcases Async.mayEnd_bind.mp h with ⟨_, _, h⟩ | ⟨e', h, _⟩
    · cases h
    · exact StoreOp.Quiet.call ⟨by simp, by simp⟩ _ h
  · exact StoreOp.Quiet.call ⟨by simp, by simp⟩ _ h

theorem appendToStream_mayThrow {streamId : String} {events : List DomainEvent} {expectedVersion : Nat} {e : Failure}
    (h : (appendToStream streamId events expectedVersion).MayEnd StoreOp.MayAnswer (.error e)) :
    ∃ actualVersion, e = .wrongExpectedVersion streamId expectedVersion actualVersion := by
  rcases StoreOp.MayAnswer.error (Async.mayEnd_call.mp h) with ⟨_, _, _, actual, hop, he⟩ | ⟨_, hop, _⟩
  · cases hop
    exact ⟨actual, he⟩
  · cases hop

theorem SnapshotStore.save_mayThrow {snapshot : Snapshot} (e : Failure) :
    ¬ (save snapshot).MayEnd StoreOp.MayAnswer (.error e) := by
  intro h
  rcases Async.mayEnd_bind.mp h with ⟨current, _, h⟩ | ⟨e', h, _⟩
  · split at h
    · split at h
      · cases h
      · exact StoreOp.Quiet.call ⟨by simp, by simp⟩ _ h
    · exact StoreOp.Quiet.call ⟨by simp, by simp⟩ _ h
  · exact StoreOp.Quiet.call ⟨by simp, by simp⟩ _ h

theorem stamped_mayThrow {α : Type} {operation : Stamp → Except Failure α} {e : Failure}
    (h : (takeStamp >>= fun stamp => Async.ofExcept (operation stamp) : Task α).MayEnd StoreOp.MayAnswer (.error e)) :
    ∃ stamp, operation stamp = .error e := by
  rcases Async.mayEnd_bind.mp h with ⟨stamp, _, h⟩ | ⟨e', h, _⟩
  · exact ⟨stamp, (Async.mayEnd_ofExcept.mp h).symm⟩
  · exact absurd h (takeStamp_mayThrow _)

theorem AccountRepository.save_mayThrow {accountId : String} {account : AccountAggregate} {e : Failure}
    (h : (save accountId account).MayEnd StoreOp.MayAnswer (.error e)) :
    ∃ streamId expected actual, e = .wrongExpectedVersion streamId expected actual := by
  unfold AccountRepository.save at h
  dsimp only at h
  split at h
  case isTrue => cases h
  case isFalse =>
    rcases Async.mayEnd_bind.mp h with ⟨_, _, h⟩ | ⟨e', h, he⟩
    · split at h
      · exact absurd h (SnapshotStore.save_mayThrow _)
      · cases h
    · cases he
      exact ⟨_, _, appendToStream_mayThrow h⟩

theorem TransferRepository.save_mayThrow {transferId : String} {transfer : TransferAggregate} {e : Failure}
    (h : (save transferId transfer).MayEnd StoreOp.MayAnswer (.error e)) :
    ∃ streamId expected actual, e = .wrongExpectedVersion streamId expected actual := by
  unfold TransferRepository.save at h
  dsimp only at h
  split at h
  case isTrue => cases h
  case isFalse => exact ⟨_, _, appendToStream_mayThrow h⟩

/-- A command on an account fails with an error of its operation, or by losing its races. -/
theorem AccountCommand.execute_mayThrow {cmd : AccountCommand} {e : Failure}
    (h : cmd.execute.MayEnd StoreOp.MayAnswer (.error e)) :
    (∃ stamp account, cmd.operation stamp account = .error e) ∨ e = AccountRepository.writeConflict cmd.accountId := by
  rcases retryLoop_mayThrow h with h | ⟨h, hne⟩
  · exact .inr h
  · refine .inl ?_
    rcases Async.mayEnd_bind.mp h with ⟨account, _, h⟩ | ⟨e', h, _⟩
    · rcases Async.mayEnd_bind.mp h with ⟨account', _, h⟩ | ⟨e', h, he⟩
      · obtain ⟨_, _, _, rfl⟩ := AccountRepository.save_mayThrow h
        exact absurd rfl (hne _ _ _)
      · cases he
        obtain ⟨stamp, h⟩ := stamped_mayThrow h
        exact ⟨stamp, account, h⟩
    · exfalso
      rcases Async.mayEnd_bind.mp h with ⟨_, _, h⟩ | ⟨e', h, _⟩
      · rcases Async.mayEnd_bind.mp h with ⟨_, _, h⟩ | ⟨e', h, _⟩
        · cases h
        · exact StoreOp.Quiet.call ⟨by simp, by simp⟩ _ h
      · exact StoreOp.Quiet.call ⟨by simp, by simp⟩ _ h

theorem TransferCommand.execute_mayThrow {cmd : TransferCommand} {e : Failure}
    (h : cmd.execute.MayEnd StoreOp.MayAnswer (.error e)) :
    (∃ stamp transfer, cmd.operation stamp transfer = .error e) ∨
      e = TransferRepository.writeConflict cmd.transferId := by
  rcases retryLoop_mayThrow h with h | ⟨h, hne⟩
  · exact .inr h
  · refine .inl ?_
    rcases Async.mayEnd_bind.mp h with ⟨transfer, _, h⟩ | ⟨e', h, _⟩
    · rcases Async.mayEnd_bind.mp h with ⟨transfer', _, h⟩ | ⟨e', h, he⟩
      · obtain ⟨_, _, _, rfl⟩ := TransferRepository.save_mayThrow h
        exact absurd rfl (hne _ _ _)
      · cases he
        obtain ⟨stamp, h⟩ := stamped_mayThrow h
        exact ⟨stamp, transfer, h⟩
    · exfalso
      rcases Async.mayEnd_bind.mp h with ⟨_, _, h⟩ | ⟨e', h, _⟩
      · cases h
      · exact StoreOp.Quiet.call ⟨by simp, by simp⟩ _ h

theorem TransactionRegistryService.runHandler_mayThrow {transactionId : String} {handler : Task Response}
    {options : Options} {e : Failure}
    (h : (runHandler transactionId handler options).MayEnd StoreOp.MayAnswer (.error e)) :
    handler.MayEnd StoreOp.MayAnswer (.error e) := by
  rcases Async.mayEnd_tryCatch.mp h with ⟨_, _, h⟩ | ⟨e', he', h⟩
  · cases h
  · have hhandler : handler.MayEnd StoreOp.MayAnswer (.error e') := by
      rcases Async.mayEnd_bind.mp he' with ⟨_, _, h⟩ | ⟨e'', h, he⟩
      · rcases Async.mayEnd_bind.mp h with ⟨_, _, h⟩ | ⟨_, h, _⟩
        · cases h
        · exact absurd h (StoreOp.Quiet.call ⟨by simp, by simp⟩ _)
      · cases he
        exact h
    rcases Async.mayEnd_bind.mp h with ⟨_, _, h⟩ | ⟨_, h, _⟩
    · cases h
      exact hhandler
    · exact absurd h (StoreOp.Quiet.call ⟨by simp, by simp⟩ _)

theorem TransactionRegistryService.execute_mayThrow {input : ReserveTransactionInput} {handler : Task Response}
    {options : Options} {e : Failure} {n : Int} (hinput : parseMoneyToMinorUnits input.amount = .ok n)
    (h : (execute input handler options).MayEnd StoreOp.MayAnswer (.error e)) :
    e ∈ [alreadyInProgress input.transactionId, previouslyFailed input.transactionId,
      differentMovement input.transactionId] ∨ handler.MayEnd StoreOp.MayAnswer (.error e) := by
  rcases Async.mayEnd_bind.mp h with ⟨reservation, _, h⟩ | ⟨e', h, _⟩
  · split at h
    case h_1 record =>
      rcases Async.mayEnd_bind.mp h with ⟨_, _, h⟩ | ⟨e', h, he⟩
      · split at h
        · cases h
        · cases h
          simp
        · split at h
          · rcases Async.mayEnd_bind.mp h with ⟨_, _, h⟩ | ⟨_, h, _⟩
            · exact .inr (runHandler_mayThrow h)
            · exact absurd h (StoreOp.Quiet.call ⟨by simp, by simp⟩ _)
          · cases h
            simp
        · cases h
          simp
      · cases he
        have hconflict : e = differentMovement input.transactionId := by
          refine (ensureSameTransactionIntent_error (Async.mayEnd_ofExcept.mp h).symm).resolve_right fun herror => ?_
          rw [hinput] at herror
          cases herror
        simp [hconflict]
    · exact .inr (runHandler_mayThrow h)
  · exfalso
    rcases StoreOp.MayAnswer.error (Async.mayEnd_call.mp h) with ⟨_, _, _, _, hop, _⟩ | ⟨_, hop, hparse⟩
    · cases hop
    · cases hop
      rw [hinput] at hparse
      cases hparse

namespace TransferCoordinatorService

section
variable [JsRuntime]

def ReachesCatch (leg : Leg) (transferId : String) (transfer : TransferAggregate) (context : CommandContext)
    (e : Failure) : Prop :=
  (legTry leg transferId transfer context (legId transferId leg)).MayEnd StoreOp.MayAnswer (.error e)

inductive AccountGuardError (currency : String) : Failure → Prop
  | insufficientFunds : AccountGuardError currency (.badRequest "Insufficient funds")
  | notActive : AccountGuardError currency (.badRequest "Account is not active")
  | currencyMismatch (accountCurrency : Option String) : AccountGuardError currency (.badRequest
      s!"Currency mismatch. Account currency={orUndefined accountCurrency}, request={currency}")

/-- The amount is one a client may ask for: a number that is read as these minor units. -/
def AmountAccepted (amountMinorUnits : Int) : Prop :=
  ∃ x : JsNumber, x.IsNumber ∧ parseMoneyToMinorUnits (.number x) = .ok amountMinorUnits ∧ 0 < amountMinorUnits

theorem AmountAccepted.parse {n : Int} (h : AmountAccepted n) :
    parseMoneyToMinorUnits (.number (minorUnitsToNumber n)) = .ok n := by
  obtain ⟨x, hx, hparse, -⟩ := h
  rw [minorUnitsToNumber_of_parse hx hparse, hparse]

section
variable {leg : Leg} {transfer : TransferAggregate} {context : CommandContext} {transferId transactionId : String}
  (hamount : AmountAccepted transfer.amountMinorUnits)
include hamount

theorem legCommand_error {stamp : Stamp} {account : AccountAggregate} {e : Failure}
    (h : (legCommand leg transfer context transactionId).operation stamp account = .error e) :
    AccountGuardError (orUndefined transfer.currency) e := by
  have hpos := hamount.choose_spec.2.2
  have hguards : ∀ {k : Int → Except Failure AccountAggregate},
      (k transfer.amountMinorUnits = .error e → AccountGuardError (orUndefined transfer.currency) e) →
      (do
        account.ensureActive
        account.ensureCurrency (orUndefined transfer.currency)
        let n ← parseMoneyToMinorUnits (.number (minorUnitsToNumber transfer.amountMinorUnits))
        k n) = .error e → AccountGuardError (orUndefined transfer.currency) e := by
    intro k hk h
    rw [AccountAggregate.guarded_eq, hamount.parse] at h
    split at h
    · cases h; exact .notActive
    · split at h
      · cases h; exact .currencyMismatch _
      · exact hk h
  have hdeposit : account.deposit (.number (minorUnitsToNumber transfer.amountMinorUnits))
      (orUndefined transfer.currency) transactionId context stamp = .error e →
      AccountGuardError (orUndefined transfer.currency) e := by
    refine hguards fun hk => ?_
    rw [if_neg (by omega)] at hk
    cases hk
  cases leg with
  | debit =>
    refine hguards (fun hk => ?_) h
    rw [if_neg (by omega)] at hk
    split at hk
    · cases hk; exact .insufficientFunds
    · cases hk
  | credit => exact hdeposit h
  | compensation => exact hdeposit h

theorem legInput_parse (leg : Leg) (transactionId : String) :
    ∃ n, parseMoneyToMinorUnits (legInput leg transfer transactionId).amount = .ok n := by
  obtain ⟨n, hn⟩ := Int.eq_ofNat_of_zero_le (Int.le_of_lt hamount.choose_spec.2.2)
  exact ⟨_, by simp only [legInput, hn]; exact parse_minorUnits_text n⟩

/-- Guards of the account, the registry, lost races and the status of the transfer. -/
theorem reachesCatch_cases {e : Failure} (h : ReachesCatch leg transferId transfer context e) :
    AccountGuardError (orUndefined transfer.currency) e ∨
    e ∈ [TransactionRegistryService.alreadyInProgress (legId transferId leg),
      TransactionRegistryService.previouslyFailed (legId transferId leg),
      TransactionRegistryService.differentMovement (legId transferId leg)] ∨
    e = AccountRepository.writeConflict (leg.account transfer) ∨
    e = TransferRepository.writeConflict transferId ∨
    ∃ stamp transfer', (leg.finishCommand transferId context).operation stamp transfer' = .error e := by
  rcases Async.mayEnd_bind.mp h with ⟨_, _, h⟩ | ⟨e', h, he⟩
  · rcases TransferCommand.execute_mayThrow h with h | h
    · exact .inr (.inr (.inr (.inr h)))
    · exact .inr (.inr (.inr (.inl (by cases leg <;> exact h))))
  · cases he
    obtain ⟨n, hinput⟩ := legInput_parse hamount leg (legId transferId leg)
    rcases TransactionRegistryService.execute_mayThrow hinput h with h | h
    · exact .inr (.inl h)
    · rcases Async.mayEnd_bind.mp h with ⟨_, _, h⟩ | ⟨e', h, he⟩
      · cases h
      · cases he
        rcases AccountCommand.execute_mayThrow h with ⟨stamp, account, h⟩ | h
        · exact .inl (legCommand_error hamount h)
        · exact .inr (.inr (.inl (by cases leg <;> exact h)))

end

/-! ## Errors that do reach a catch block -/

omit [JsRuntime] in
theorem retryLoop_mayLose {attempt : Task Unit} {lost : Failure} {streamId : String} {expected actual : Nat}
    (h : attempt.MayEnd StoreOp.MayAnswer (.error (.wrongExpectedVersion streamId expected actual))) (attempts : Nat) :
    (retryLoop attempt lost (attempts + 1)).MayEnd StoreOp.MayAnswer (.error lost) := by
  induction attempts with
  | zero => exact Async.mayEnd_tryCatch.mpr (.inr ⟨_, h, rfl⟩)
  | succ attempts ih => exact Async.mayEnd_tryCatch.mpr (.inr ⟨_, h, ih⟩)

section
variable {leg : Leg} {transfer : TransferAggregate} {context : CommandContext} {transferId : String}
  (hamount : AmountAccepted transfer.amountMinorUnits)
include hamount

/-- Another pass has reserved the leg and is not done with it. -/
theorem reachesCatch_alreadyInProgress : ReachesCatch leg transferId transfer context
    (TransactionRegistryService.alreadyInProgress (legId transferId leg)) := by
  let input := legInput leg transfer (legId transferId leg)
  obtain ⟨n, hn⟩ := legInput_parse hamount leg (legId transferId leg)
  let record : TransactionRecord :=
    { transactionId := input.transactionId
      accountId := input.accountId
      operationType := input.operationType
      status := .PENDING
      amountMinorUnits := n
      currency := input.currency
      idempotencyKey := input.idempotencyKey
      errorMessage := none }
  let s : Store := { Store.empty with transactions := OrderedMap.empty.set input.transactionId record }
  have hanswer : (StoreOp.reserveTransaction input).MayAnswer (.ok ⟨false, some record⟩) := by
    have hperform : (perform (.reserveTransaction input) s).1 = .ok ⟨false, some record⟩ := by
      simp only [perform, TransactionRecords.reserve, s, OrderedMap.get_set_self]
    exact hperform ▸ StoreOp.mayAnswer_perform ⟨by simp, by simp⟩ s
  have hsame : TransactionRegistryService.ensureSameTransactionIntent input record = .ok () := by
    have hparse : parseMoneyToMinorUnits input.amount = .ok n := hn
    unfold TransactionRegistryService.ensureSameTransactionIntent
    rw [if_neg (by simp [record]), hparse]
    exact if_neg (by simp [record])
  refine Async.mayEnd_bind.mpr (.inr ⟨_, ?_, rfl⟩)
  refine Async.mayEnd_bind.mpr (.inl ⟨_, Async.mayEnd_call.mpr hanswer, ?_⟩)
  refine Async.mayEnd_bind.mpr (.inl ⟨(), ?_, rfl⟩)
  exact Async.mayEnd_ofExcept.mpr hsame.symm

theorem legCommand_ok {account : AccountAggregate} (hstatus : account.status = .ACTIVE)
    (hcurrency : account.currency = some (orUndefined transfer.currency))
    (hfunds : transfer.amountMinorUnits ≤ account.balanceMinorUnits) (transactionId : String) (stamp : Stamp) :
    ∃ event, event.streamVersion = account.version + 1 ∧
      (legCommand leg transfer context transactionId).operation stamp account = .ok (account.apply event) := by
  have hpos := hamount.choose_spec.2.2
  have hguards : ∀ {k : Int → Except Failure AccountAggregate},
      (do
        account.ensureActive
        account.ensureCurrency (orUndefined transfer.currency)
        let n ← parseMoneyToMinorUnits (.number (minorUnitsToNumber transfer.amountMinorUnits))
        k n) = k transfer.amountMinorUnits := by
    intro k
    rw [AccountAggregate.guarded_eq, hamount.parse, if_neg (by simp [hstatus]), if_neg (by simp [hcurrency])]
  have hdeposit : ∃ event, event.streamVersion = account.version + 1 ∧
      account.deposit (.number (minorUnitsToNumber transfer.amountMinorUnits))
        (orUndefined transfer.currency) transactionId context stamp = .ok (account.apply event) :=
    ⟨_, rfl, hguards.trans (if_neg (by omega))⟩
  cases leg with
  | debit => exact ⟨_, rfl, hguards.trans ((if_neg (by omega)).trans (if_neg (by omega)))⟩
  | credit => exact hdeposit
  | compensation => exact hdeposit

omit hamount [JsRuntime] in
theorem getById_mayEnd (accountId : String) {es : List DomainEvent} (hversions : ∀ e ∈ es, 0 < e.streamVersion) :
    (AccountRepository.getById accountId).MayEnd StoreOp.MayAnswer (.ok (AccountAggregate.replay es)) := by
  let streamId := accountStream accountId
  let s : Store := { Store.empty with
    events := { EventStore.empty with streams := OrderedMap.empty.set streamId es } }
  have hread : s.events.readStream streamId 0 = es := by
    simp only [s, EventStore.readStream, EventStore.stream, OrderedMap.get_set_self, Option.getD_some]
    exact List.filter_eq_self.mpr fun e he => by simpa using hversions e he
  have hsnapshot : (StoreOp.getLatestSnapshot streamId).MayAnswer (.ok none) :=
    StoreOp.mayAnswer_perform ⟨by simp, by simp⟩ Store.empty
  have hstream : (StoreOp.readStream streamId 0).MayAnswer (.ok es) := by
    have hperform : (perform (.readStream streamId 0) s).1 = .ok es := congrArg Except.ok hread
    exact hperform ▸ StoreOp.mayAnswer_perform ⟨by simp, by simp⟩ s
  refine Async.mayEnd_bind.mpr (.inl ⟨none, Async.mayEnd_call.mpr hsnapshot, ?_⟩)
  exact Async.mayEnd_bind.mpr (.inl ⟨es, Async.mayEnd_call.mpr hstream, rfl⟩)

omit hamount [JsRuntime] in
theorem save_mayLose (accountId : String) {account : AccountAggregate} {event : DomainEvent}
    (hevents : account.uncommittedEvents = []) (hversion : event.streamVersion = account.version + 1)
    (hpos : 0 < account.version) : ∃ streamId expected actual,
      (AccountRepository.save accountId (account.apply event)).MayEnd StoreOp.MayAnswer
        (.error (.wrongExpectedVersion streamId expected actual)) := by
  let streamId := accountStream accountId
  refine ⟨streamId, account.version, 0, ?_⟩
  have happend : (StoreOp.append streamId [event] account.version).MayAnswer
      (.error (.wrongExpectedVersion streamId account.version 0)) := by
    have hperform : (perform (.append streamId [event] account.version) Store.empty).1 =
        .error (.wrongExpectedVersion streamId account.version 0) := by
      simp only [perform, EventStore.append]
      exact congrArg Prod.fst (if_pos (show account.version ≠ 0 by omega))
    exact hperform ▸ StoreOp.mayAnswer_perform ⟨by simp, by simp⟩ Store.empty
  have hpulled : (account.apply event).uncommittedEvents = [event] := by
    simp [AccountAggregate.apply, hevents]
  have happlied : (account.apply event).version - [event].length = account.version := by
    have hwhen : (account.apply event).version = event.streamVersion := AccountAggregate.when_version account event
    rw [hwhen, hversion]
    rfl
  unfold AccountRepository.save
  simp only [AccountAggregate.pullUncommittedEvents, hpulled]
  rw [if_neg (by simp), happlied]
  exact Async.mayEnd_bind.mpr (.inr ⟨_, Async.mayEnd_call.mpr happend, rfl⟩)

/-- The account would take the leg, but other instances write to it first each time. -/
theorem legCommand_mayLose (transactionId : String) :
    (legCommand leg transfer context transactionId).execute.MayEnd StoreOp.MayAnswer
      (.error (AccountRepository.writeConflict (leg.account transfer))) := by
  let accountId := leg.account transfer
  let es : List DomainEvent :=
    [⟨"event-1", accountStream accountId, 1, 0,
        .AccountCreated accountId "owner-1" (orUndefined transfer.currency), context⟩,
      ⟨"event-2", accountStream accountId, 2, 0, .MoneyDeposited (some accountId) (.format transfer.amountMinorUnits)
        (orUndefined transfer.currency) "tx-1", context⟩]
  let account := AccountAggregate.replay es
  let stamp : Stamp := ⟨"event-3", 0⟩
  have hcmd : (legCommand leg transfer context transactionId).accountId = accountId := by cases leg <;> rfl
  have hbalance : account.balanceMinorUnits = transfer.amountMinorUnits := by
    have hreplayed : account.balanceMinorUnits = 0 + (MoneyText.format transfer.amountMinorUnits).minorUnits := rfl
    rw [hreplayed, MoneyText.minorUnits_format, Int.zero_add]
  obtain ⟨event, hversion, hoperation⟩ : ∃ event, event.streamVersion = account.version + 1 ∧
      (legCommand leg transfer context transactionId).operation stamp account = .ok (account.apply event) :=
    legCommand_ok hamount rfl rfl (Int.le_of_eq hbalance.symm) transactionId stamp
  have hfound : (AccountRepository.getById accountId).MayEnd StoreOp.MayAnswer (.ok account) :=
    getById_mayEnd accountId (by simp [es])
  have hstamp : takeStamp.MayEnd StoreOp.MayAnswer (.ok stamp) := by
    refine Async.mayEnd_bind.mpr (.inl ⟨stamp.eventId, Async.mayEnd_call.mpr ⟨.empty, .empty, .randomUUID _⟩, ?_⟩)
    exact Async.mayEnd_bind.mpr (.inl ⟨stamp.occurredAt, Async.mayEnd_call.mpr ⟨.empty, .empty, .now _⟩, rfl⟩)
  obtain ⟨streamId, expected, actual, hlost⟩ : ∃ streamId expected actual,
      (AccountRepository.save accountId (account.apply event)).MayEnd StoreOp.MayAnswer
        (.error (.wrongExpectedVersion streamId expected actual)) :=
    save_mayLose accountId rfl hversion Nat.two_pos
  unfold AccountCommand.execute AccountRepository.executeWithRetry
  rw [hcmd]
  refine @retryLoop_mayLose _ _ streamId expected actual ?_ 2
  refine Async.mayEnd_bind.mpr (.inl ⟨_, hfound, ?_⟩)
  refine Async.mayEnd_bind.mpr (.inl ⟨account.apply event, ?_, hlost⟩)
  exact Async.mayEnd_bind.mpr (.inl ⟨_, hstamp, Async.mayEnd_ofExcept.mpr hoperation.symm⟩)

theorem reachesCatch_writeConflict : ReachesCatch leg transferId transfer context
    (AccountRepository.writeConflict (leg.account transfer)) := by
  let input := legInput leg transfer (legId transferId leg)
  have hhandler : (legHandler leg transfer context (legId transferId leg)).MayEnd StoreOp.MayAnswer
      (.error (AccountRepository.writeConflict (leg.account transfer))) :=
    Async.mayEnd_bind.mpr (.inr ⟨_, legCommand_mayLose hamount _, rfl⟩)
  obtain ⟨n, hn⟩ := legInput_parse hamount leg (legId transferId leg)
  have hreserved : ∃ record, (StoreOp.reserveTransaction input).MayAnswer (.ok ⟨true, some record⟩) := by
    have hperform : ∃ record, (perform (.reserveTransaction input) Store.empty).1 = .ok ⟨true, some record⟩ := by
      have hparse : parseMoneyToMinorUnits input.amount = .ok n := hn
      simp only [perform, TransactionRecords.reserve, Store.empty, OrderedMap.get_empty, hparse]
      exact ⟨_, rfl⟩
    obtain ⟨record, hperform⟩ := hperform
    exact ⟨record, hperform ▸ StoreOp.mayAnswer_perform ⟨by simp, by simp⟩ Store.empty⟩
  obtain ⟨record, hreserved⟩ := hreserved
  refine Async.mayEnd_bind.mpr (.inr ⟨_, ?_, rfl⟩)
  refine Async.mayEnd_bind.mpr (.inl ⟨_, Async.mayEnd_call.mpr hreserved, ?_⟩)
  refine Async.mayEnd_tryCatch.mpr (.inr ⟨_, Async.mayEnd_bind.mpr (.inr ⟨_, hhandler, rfl⟩), ?_⟩)
  -- the record of the leg is marked failed, and the error is thrown on
  refine Async.mayEnd_bind.mpr (.inl ⟨(), Async.mayEnd_call.mpr ?_, rfl⟩)
  exact StoreOp.mayAnswer_perform ⟨by simp, by simp⟩ .empty

end

/-- Only the guards of the leg's account end the transfer, exactly where the ids say nothing a guard says. -/
theorem classification_iff (leg : Leg) (transferId : String) (transfer : TransferAggregate) (context : CommandContext)
    (hamount : AmountAccepted transfer.amountMinorUnits) :
    (∀ e, ReachesCatch leg transferId transfer context e → isTerminalDomainError e = true →
      AccountGuardError (orUndefined transfer.currency) e) ↔
    mentionsGuard transferId = false ∧ mentionsGuard (leg.account transfer) = false := by
  constructor
  · intro h
    constructor
    · by_contra htransfer
      have hterminal : isTerminalDomainError (TransactionRegistryService.alreadyInProgress (legId transferId leg)) =
          mentionsGuard transferId := registry_terminal List.mem_cons_self
      rw [Bool.not_eq_false] at htransfer
      cases h _ (reachesCatch_alreadyInProgress hamount) (hterminal.trans htransfer)
    · by_contra haccount
      rw [Bool.not_eq_false] at haccount
      cases h _ (reachesCatch_writeConflict hamount) ((writeConflict_terminal _).1.trans haccount)
  · rintro ⟨htransfer, haccount⟩ e hreaches hterminal
    rcases reachesCatch_cases hamount hreaches with hguard | hregistry | rfl | rfl | ⟨stamp, transfer', herror⟩
    · exact hguard
    · rw [registry_terminal hregistry, htransfer] at hterminal
      cases hterminal
    · rw [(writeConflict_terminal _).1, haccount] at hterminal
      cases hterminal
    · rw [(writeConflict_terminal _).2, htransfer] at hterminal
      cases hterminal
    · rw [finishCommand_terminal herror] at hterminal
      cases hterminal

end

def requestedTransfer : TransferAggregate where
  transferId := some "t-1"
  sourceAccountId := some "acc-1"
  destinationAccountId := some "acc-2"
  amountMinorUnits := 1025
  currency := some "EUR"
  status := some .DEBIT_IN_PROGRESS
  version := 2

theorem requestedTransfer_accepted : @AmountAccepted decimalRuntime requestedTransfer.amountMinorUnits :=
  ⟨⟨"10.25"⟩, ⟨"10.25", by decide +kernel⟩, by decide +kernel, by decide⟩

def requestContext : CommandContext := makeContext "command-1" "t-1"

theorem classification_iff_requested :
    @AmountAccepted decimalRuntime requestedTransfer.amountMinorUnits ∧
    ∀ e, @ReachesCatch decimalRuntime .debit "t-1" requestedTransfer requestContext e →
      isTerminalDomainError e = true → AccountGuardError "EUR" e :=
  ⟨requestedTransfer_accepted,
    (@classification_iff decimalRuntime .debit "t-1" requestedTransfer requestContext requestedTransfer_accepted).mpr
      (by decide +kernel)⟩

/-- A transfer may be named after a guard. -/
theorem classification_fails : ¬ ∀ [JsRuntime] (leg : Leg) (transferId : String) (transfer : TransferAggregate)
    (context : CommandContext), AmountAccepted transfer.amountMinorUnits →
    ∀ e, ReachesCatch leg transferId transfer context e → isTerminalDomainError e = true →
      AccountGuardError (orUndefined transfer.currency) e := by
  intro h
  have hreaches := @reachesCatch_alreadyInProgress decimalRuntime .debit requestedTransfer requestContext
    "Insufficient funds" requestedTransfer_accepted
  cases @h decimalRuntime _ _ _ _ requestedTransfer_accepted _ hreaches (by decide +kernel)

end TransferCoordinatorService

end CoreBanking
