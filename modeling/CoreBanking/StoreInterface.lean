import CoreBanking.PostgresStores
import CoreBanking.AccountHistory
import CoreBanking.TransferHistory

/-!
# The interface of the stores

The programs of the bank are written against the methods that both kinds of
stores have, so they run on either, and they do not look at the stream ids that
the events they read carry.
-/

namespace CoreBanking

/-- The calls of the model, with the two of a snapshot's save as one. -/
inductive StoreMethod
  | call (op : StoreOp)
  | saveSnapshot (snapshot : Snapshot)

def DomainEvent.under (streamId : String) (event : DomainEvent) : DomainEvent := { event with streamId := streamId }

namespace StoreMethod

abbrev Result : StoreMethod → Type
  | .call op => op.Result
  | .saveSnapshot _ => Unit

def inMemory : (m : StoreMethod) → Task m.Result
  | .call op => StoreOp.call op
  | .saveSnapshot snapshot => SnapshotStore.save snapshot

def postgres : (m : StoreMethod) → PgTask m.Result
  | .call op => postgresCall op
  | .saveSnapshot snapshot => PostgresSnapshotStore.save snapshot

/-- The same answer, or the same events but for the stream ids they carry. -/
def Like : (m : StoreMethod) → m.Result → m.Result → Prop
  | .call (.readStream _ _), es, es' => es.map (DomainEvent.under "") = es'.map (DomainEvent.under "")
  | _, a, a' => a = a'

/-- Snapshots are saved as a whole, and amounts are reserved that can be parsed. -/
def Proper : StoreMethod → Prop
  | .call (.snapshotBeforeSave _) => False
  | .call (.putSnapshot _) => False
  | .call (.reserveTransaction input) => ∃ n, parseMoneyToMinorUnits input.amount = .ok n
  | _ => True

theorem expand_inMemory (m : StoreMethod) : (inMemory m).expand postgresCall = postgres m := by
  cases m with
  | call op => exact Async.expand_call postgresCall op
  | saveSnapshot snapshot => exact expand_save snapshot

end StoreMethod

open StoreMethod

/-- A program of the model that runs on either kind of store. -/
abbrev Portable {α : Type} (p : Task α) : Prop := p.Against inMemory Proper Like

/-- A call that is one of the methods, with an answer that is looked at in full. -/
theorem portable_call {op : StoreOp} (hproper : Proper (.call op))
    (hlike : ∀ a a', Like (.call op) a a' → a = a') : Portable (StoreOp.call op) :=
  Async.against_call (m := StoreMethod.call op) hproper hlike

/-! ## What is read of events -/

theorem AccountAggregate.loadFromHistory_under (streamId : String) (account : AccountAggregate)
    (es : List DomainEvent) : account.loadFromHistory (es.map (DomainEvent.under streamId)) =
      account.loadFromHistory es := by
  rw [loadFromHistory, List.foldl_map]
  rfl

theorem TransferAggregate.loadFromHistory_under (streamId : String) (transfer : TransferAggregate)
    (es : List DomainEvent) : transfer.loadFromHistory (es.map (DomainEvent.under streamId)) =
      transfer.loadFromHistory es := by
  rw [loadFromHistory, List.foldl_map]
  rfl

/-! ## The repositories -/

theorem portable_takeStamp : Portable takeStamp :=
  Async.against_bind (portable_call trivial fun _ _ h => h) fun _ =>
    Async.against_bind (portable_call trivial fun _ _ h => h) fun _ => Async.against_pure _

theorem portable_retryLoop {attempt : Task Unit} {lost : Failure} (h : Portable attempt) (n : Nat) :
    Portable (retryLoop attempt lost n) := by
  induction n with
  | zero => exact Async.against_pure _
  | succ n ih =>
    refine Async.against_tryCatch h fun error => ?_
    split
    · split
      · exact Async.against_throw _
      · exact ih
    · exact Async.against_throw _

theorem portable_save_snapshot (snapshot : Snapshot) : Portable (SnapshotStore.save snapshot) :=
  Async.against_call (m := StoreMethod.saveSnapshot snapshot) trivial fun _ _ h => h

theorem portable_account_getById (accountId : String) : Portable (AccountRepository.getById accountId) := by
  refine Async.against_bind (portable_call trivial fun _ _ h => h) fun snapshot => ?_
  refine Async.against_method (m := StoreMethod.call (.readStream _ _)) trivial fun es es' hlike => ?_
  rw [← AccountAggregate.loadFromHistory_under "", hlike, AccountAggregate.loadFromHistory_under]

theorem portable_account_save (accountId : String) (account : AccountAggregate) :
    Portable (AccountRepository.save accountId account) := by
  unfold AccountRepository.save
  dsimp only
  split
  · exact Async.against_pure _
  · refine Async.against_bind (portable_call trivial fun _ _ h => h) fun _ => ?_
    split
    · exact portable_save_snapshot _
    · exact Async.against_pure _

theorem portable_account_execute (cmd : AccountCommand) : Portable cmd.execute :=
  portable_retryLoop (Async.against_bind (portable_account_getById _) fun _ =>
    Async.against_bind (Async.against_bind portable_takeStamp fun _ => Async.against_done _) fun _ =>
      portable_account_save _ _) _

theorem portable_transfer_getById (transferId : String) : Portable (TransferRepository.getById transferId) := by
  refine Async.against_method (m := StoreMethod.call (.readStream _ _)) trivial fun es es' hlike => ?_
  rw [← TransferAggregate.loadFromHistory_under "", hlike, TransferAggregate.loadFromHistory_under]

theorem portable_transfer_save (transferId : String) (transfer : TransferAggregate) :
    Portable (TransferRepository.save transferId transfer) := by
  unfold TransferRepository.save
  dsimp only
  split
  · exact Async.against_pure _
  · exact portable_call trivial fun _ _ h => h

theorem portable_transfer_execute (cmd : TransferCommand) : Portable cmd.execute :=
  portable_retryLoop (Async.against_bind (portable_transfer_getById _) fun _ =>
    Async.against_bind (Async.against_bind portable_takeStamp fun _ => Async.against_done _) fun _ =>
      portable_transfer_save _ _) _

/-! ## The services -/

theorem portable_registry {input : ReserveTransactionInput} {handler : Task Response}
    {options : TransactionRegistryService.Options} (hamount : ∃ n, parseMoneyToMinorUnits input.amount = .ok n)
    (h : Portable handler) : Portable (TransactionRegistryService.execute input handler options) := by
  have hrun : Portable (TransactionRegistryService.runHandler input.transactionId handler options) :=
    Async.against_tryCatch (Async.against_bind h fun _ =>
      Async.against_bind (portable_call trivial fun _ _ h => h) fun _ => Async.against_pure _) fun _ =>
        Async.against_bind (portable_call trivial fun _ _ h => h) fun _ => Async.against_throw _
  refine Async.against_bind (portable_call hamount fun _ _ h => h) fun reservation => ?_
  split
  · refine Async.against_bind (Async.against_done _) fun _ => ?_
    split
    · exact Async.against_pure _
    · exact Async.against_throw _
    · split
      · exact Async.against_bind (portable_call trivial fun _ _ h => h) fun _ => hrun
      · exact Async.against_throw _
    · exact Async.against_throw _
  · exact hrun

theorem portable_idempotency [RequestDigest] {key : Option String} {operation : String} {payload : Payload}
    {handler : String → Task Response} (h : ∀ key, Portable (handler key)) :
    Portable (IdempotencyService.execute key operation payload handler) := by
  unfold IdempotencyService.execute IdempotencyService.executeWith
  split
  · exact Async.against_throw _
  · split
    · exact Async.against_throw _
    · refine Async.against_bind (portable_call trivial fun _ _ h => h) fun reservation => ?_
      split
      · split
        · exact Async.against_throw _
        · exact Async.against_done _
      · exact Async.against_tryCatch (Async.against_bind (h _) fun _ =>
          Async.against_bind (portable_call trivial fun _ _ h => h) fun _ => Async.against_pure _) fun _ =>
            Async.against_bind (portable_call trivial fun _ _ h => h) fun _ => Async.against_throw _

/-- The text of any number of minor units is an amount. -/
theorem parse_minorUnits_ok (n : Int) : ∃ k, parseMoneyToMinorUnits (.text (toString n)) = .ok k := by
  cases n with
  | ofNat n => exact ⟨_, parse_minorUnits_text n⟩
  | negSucc n =>
    have hdigits : ∀ c ∈ Nat.toDigits 10 (n + 1), c.isDigit = true := digits_of_toDigits
    have htext : toString (Int.negSucc n) = String.ofList ('-' :: unsignedText (Nat.toDigits 10 (n + 1)) []) := by
      rw [unsignedText, if_pos rfl, List.append_nil, show toString (Int.negSucc n) = "-" ++ toString (n + 1) from rfl,
        Nat.toString_eq_ofList_toDigits]
      exact String.toList_inj.mp (by simp)
    rw [parseMoneyToMinorUnits, htext, normalize_text_of_pattern
      (pattern_negative Nat.toDigits_ne_nil (by simpa using hdigits) (by simp))]
    exact ⟨_, rfl⟩

section
variable [JsRuntime]

open TransferCoordinatorService

theorem portable_legRun (leg : Leg) (transfer : TransferAggregate) (transferId : String) (context : CommandContext)
    (transactionId : String) :
    Portable (tryCatch (do
      let _ ← TransactionRegistryService.execute (legInput leg transfer transactionId)
        (legHandler leg transfer context transactionId) legOptions
      (leg.finishCommand transferId context).execute)
      fun error =>
        match leg.failureStage with
        | some stage =>
          if isTerminalDomainError error then
            (TransferCommand.FailTransfer transferId error.message stage context).execute
          else throw (.retryable error.message)
        | none => throw (.retryable error.message) : Task Unit) := by
  have hhandler : Portable (legHandler leg transfer context transactionId) :=
    Async.against_bind (portable_account_execute _) fun _ => Async.against_pure _
  refine Async.against_tryCatch (Async.against_bind (portable_registry (parse_minorUnits_ok _) hhandler) fun _ =>
    portable_transfer_execute _) fun error => ?_
  split
  · split
    · exact portable_transfer_execute _
    · exact Async.against_throw _
  · exact Async.against_throw _

theorem portable_processLeg (leg : Leg) (transferId : String) (context : CommandContext) (transactionId : String) :
    Portable (processLeg leg transferId context transactionId) := by
  refine Async.against_bind (portable_transfer_getById _) fun transfer => ?_
  dsimp only
  split
  · exact Async.against_bind (portable_transfer_execute _) fun _ => portable_legRun _ _ _ _ _
  · exact portable_legRun _ _ _ _ _

theorem portable_processTransfer (transferId : String) : Portable (processTransfer transferId) := by
  refine Async.against_bind (portable_transfer_getById _) fun transfer => ?_
  refine Async.against_bind (portable_call trivial fun _ _ h => h) fun commandId => ?_
  dsimp only
  split
  · exact Async.against_tryCatch (portable_processLeg _ _ _ _) fun _ => Async.against_pure _
  · exact Async.against_pure _

end

theorem portable_initiateTransfer (transferId sourceAccountId destinationAccountId : String) (amount : JsNumber)
    (currency : String) (context : CommandContext) :
    Portable (initiateTransfer transferId sourceAccountId destinationAccountId amount currency context) := by
  refine Async.against_bind (portable_account_getById _) fun source =>
    Async.against_bind (portable_account_getById _) fun destination => ?_
  split
  · exact Async.against_throw _
  · split
    · exact Async.against_throw _
    · split
      · exact Async.against_throw _
      · exact portable_transfer_execute _

/-- The account requests, which differ in what runs under the key. -/
theorem portable_keyed [RequestDigest] {key : Option String} {operation : String} {payload : Payload}
    {handler : String → Task Response} (h : ∀ key, Portable (handler key)) :
    Portable (do
      let response ← IdempotencyService.execute key operation payload handler
      return some response : Task (Option Response)) :=
  Async.against_bind (portable_idempotency h) fun _ => Async.against_pure _

theorem portable_body [JsRuntime] [RequestDigest] {q : BankRequest} (hq : q.Payable) : Portable q.body := by
  have hcommand : ∀ (cmd : String → AccountCommand), Portable (do
      let correlationId ← StoreOp.call .randomUUID
      (cmd correlationId).execute
      return accepted : Task Response) := fun cmd =>
    Async.against_bind (portable_call trivial fun _ _ h => h) fun _ =>
      Async.against_bind (portable_account_execute _) fun _ => Async.against_pure _
  cases q with
  | createAccount key dto => exact portable_keyed fun key => hcommand _
  | deposit key accountId dto => exact portable_keyed fun key => portable_registry hq (hcommand _)
  | withdraw key accountId dto => exact portable_keyed fun key => portable_registry hq (hcommand _)
  | freeze key accountId dto => exact portable_keyed fun key => hcommand _
  | initiateTransfer key dto =>
    exact portable_keyed fun key => Async.against_bind (portable_initiateTransfer _ _ _ _ _ _) fun _ =>
      Async.against_pure _
  | processTransfer transferId => exact Async.against_bind (portable_processTransfer _) fun _ => Async.against_pure _

end CoreBanking
