import CoreBanking.AccountAggregate

/-!
# The transfer aggregate

The lifecycle of one transfer: a debit leg, a credit leg and, after a failed
credit, a compensation leg. Each command is accepted from the statuses it names
and applies one event.
-/

namespace CoreBanking

inductive TransferStatus where
  | INITIATED
  | DEBIT_IN_PROGRESS
  | DEBITED
  | CREDIT_IN_PROGRESS
  | COMPLETED
  | FAILED
  | COMPENSATION_IN_PROGRESS
  | COMPENSATED
  deriving DecidableEq, Repr

def TransferStatus.text : TransferStatus → String
  | .INITIATED => "INITIATED"
  | .DEBIT_IN_PROGRESS => "DEBIT_IN_PROGRESS"
  | .DEBITED => "DEBITED"
  | .CREDIT_IN_PROGRESS => "CREDIT_IN_PROGRESS"
  | .COMPLETED => "COMPLETED"
  | .FAILED => "FAILED"
  | .COMPENSATION_IN_PROGRESS => "COMPENSATION_IN_PROGRESS"
  | .COMPENSATED => "COMPENSATED"

structure TransferAggregate where
  transferId : Option String := none
  sourceAccountId : Option String := none
  destinationAccountId : Option String := none
  amountMinorUnits : Int := 0
  currency : Option String := none
  status : Option TransferStatus := none
  version : Nat := 0
  failureReason : Option String := none
  failureStage : Option FailureStage := none
  sourceDebitTransactionId : Option String := none
  destinationCreditTransactionId : Option String := none
  compensationTransactionId : Option String := none
  debitAttempts : Nat := 0
  creditAttempts : Nat := 0
  compensationAttempts : Nat := 0
  createdAt : Option Time := none
  updatedAt : Option Time := none
  uncommittedEvents : List DomainEvent := []
  deriving DecidableEq

def transferStream (transferId : String) : String := "transfer-" ++ transferId

namespace TransferAggregate

def when (transfer : TransferAggregate) (event : DomainEvent) : TransferAggregate :=
  let transfer := { transfer with version := event.streamVersion, updatedAt := some event.occurredAt }
  match event.data with
  | .TransferInitiated transferId sourceAccountId destinationAccountId amount currency =>
    { transfer with
      transferId := some transferId
      sourceAccountId := some sourceAccountId
      destinationAccountId := some destinationAccountId
      amountMinorUnits := amount.minorUnits
      currency := some currency
      status := some .INITIATED
      createdAt := some event.occurredAt
      failureReason := none
      failureStage := none }
  | .TransferDebitStarted _ transactionId debitAttempts =>
    { transfer with
      status := some .DEBIT_IN_PROGRESS
      sourceDebitTransactionId := some transactionId
      debitAttempts := debitAttempts
      failureReason := none
      failureStage := none }
  | .TransferDebited _ _ => { transfer with status := some .DEBITED }
  | .TransferCreditStarted _ transactionId creditAttempts =>
    { transfer with
      status := some .CREDIT_IN_PROGRESS
      destinationCreditTransactionId := some transactionId
      creditAttempts := creditAttempts
      failureReason := none
      failureStage := none }
  | .TransferCompleted _ => { transfer with status := some .COMPLETED }
  | .TransferFailed _ reason stage =>
    { transfer with status := some .FAILED, failureReason := some reason, failureStage := some stage }
  | .TransferCompensationStarted _ transactionId compensationAttempts =>
    { transfer with
      status := some .COMPENSATION_IN_PROGRESS
      compensationTransactionId := some transactionId
      compensationAttempts := compensationAttempts }
  | .TransferCompensated _ _ => { transfer with status := some .COMPENSATED }
  | _ => transfer

def apply (transfer : TransferAggregate) (event : DomainEvent) : TransferAggregate :=
  { transfer.when event with uncommittedEvents := transfer.uncommittedEvents ++ [event] }

def loadFromHistory (transfer : TransferAggregate) (events : List DomainEvent) : TransferAggregate :=
  events.foldl when transfer

def pullUncommittedEvents (transfer : TransferAggregate) : List DomainEvent × TransferAggregate :=
  (transfer.uncommittedEvents, { transfer with uncommittedEvents := [] })

def replay (events : List DomainEvent) : TransferAggregate := loadFromHistory {} events

/-- `this.transferId || data.transferId`, in a template literal. -/
def streamIdFor (transfer : TransferAggregate) (dataTransferId : Option String) : String :=
  transferStream (orUndefined (if truthy transfer.transferId then transfer.transferId else dataTransferId))

def makeEvent (transfer : TransferAggregate) (data : EventData) (dataTransferId : Option String)
    (context : CommandContext) (stamp : Stamp) : DomainEvent where
  eventId := stamp.eventId
  streamId := transfer.streamIdFor dataTransferId
  streamVersion := transfer.version + 1
  occurredAt := stamp.occurredAt
  data := data
  metadata := context

/-! ## Commands -/

def statusText (transfer : TransferAggregate) : String :=
  match transfer.status with
  | some status => status.text
  | none => "UNKNOWN"

def statusIn (transfer : TransferAggregate) (allowed : List TransferStatus) : Bool :=
  match transfer.status with
  | some status => allowed.contains status
  | none => false

def initiate (transfer : TransferAggregate) (transferId sourceAccountId destinationAccountId : String)
    (amount : Amount) (currency : String) (context : CommandContext) (stamp : Stamp) :
    Except Failure TransferAggregate :=
  if truthy transfer.transferId then .error (.badRequest "Transfer already exists")
  else if sourceAccountId = destinationAccountId then
    .error (.badRequest "Source and destination accounts must be different")
  else
    match parseMoneyToMinorUnits amount with
    | .error e => .error e
    | .ok amountMinorUnits =>
      if amountMinorUnits ≤ 0 then .error (.badRequest "Transfer amount must be positive")
      else .ok (transfer.apply (transfer.makeEvent
        (.TransferInitiated transferId sourceAccountId destinationAccountId (.format amountMinorUnits) currency)
        (some transferId) context stamp))

def startDebit (transfer : TransferAggregate) (transactionId : String) (context : CommandContext) (stamp : Stamp) :
    Except Failure TransferAggregate :=
  if !transfer.statusIn [.INITIATED, .DEBIT_IN_PROGRESS] then
    .error (.badRequest s!"Cannot start debit from status {transfer.statusText}")
  else .ok (transfer.apply (transfer.makeEvent
    (.TransferDebitStarted transfer.transferId transactionId (transfer.debitAttempts + 1))
    transfer.transferId context stamp))

def markDebited (transfer : TransferAggregate) (context : CommandContext) (stamp : Stamp) :
    Except Failure TransferAggregate :=
  if transfer.status ≠ some .DEBIT_IN_PROGRESS then
    .error (.badRequest s!"Cannot mark transfer debited from status {transfer.statusText}")
  else .ok (transfer.apply (transfer.makeEvent
    (.TransferDebited transfer.transferId transfer.sourceDebitTransactionId) transfer.transferId context stamp))

def startCredit (transfer : TransferAggregate) (transactionId : String) (context : CommandContext) (stamp : Stamp) :
    Except Failure TransferAggregate :=
  if !transfer.statusIn [.DEBITED, .CREDIT_IN_PROGRESS] then
    .error (.badRequest s!"Cannot start credit from status {transfer.statusText}")
  else .ok (transfer.apply (transfer.makeEvent
    (.TransferCreditStarted transfer.transferId transactionId (transfer.creditAttempts + 1))
    transfer.transferId context stamp))

def complete (transfer : TransferAggregate) (context : CommandContext) (stamp : Stamp) :
    Except Failure TransferAggregate :=
  if transfer.status ≠ some .CREDIT_IN_PROGRESS then
    .error (.badRequest s!"Cannot complete transfer from status {transfer.statusText}")
  else .ok (transfer.apply (transfer.makeEvent
    (.TransferCompleted transfer.transferId) transfer.transferId context stamp))

def fail (transfer : TransferAggregate) (reason : String) (stage : FailureStage) (context : CommandContext)
    (stamp : Stamp) : Except Failure TransferAggregate :=
  if !transfer.statusIn [.DEBIT_IN_PROGRESS, .CREDIT_IN_PROGRESS] then
    .error (.badRequest s!"Cannot fail transfer from status {transfer.statusText}")
  else if reason = "" then .error (.badRequest "Failure reason is required")
  else .ok (transfer.apply (transfer.makeEvent
    (.TransferFailed transfer.transferId reason stage) transfer.transferId context stamp))

def startCompensation (transfer : TransferAggregate) (transactionId : String) (context : CommandContext)
    (stamp : Stamp) : Except Failure TransferAggregate :=
  if !transfer.statusIn [.FAILED, .COMPENSATION_IN_PROGRESS] then
    .error (.badRequest s!"Cannot start compensation from status {transfer.statusText}")
  else if transfer.failureStage ≠ some .CREDIT then
    .error (.badRequest "Compensation is only allowed after a debited transfer fails during credit")
  else .ok (transfer.apply (transfer.makeEvent
    (.TransferCompensationStarted transfer.transferId transactionId (transfer.compensationAttempts + 1))
    transfer.transferId context stamp))

def markCompensated (transfer : TransferAggregate) (context : CommandContext) (stamp : Stamp) :
    Except Failure TransferAggregate :=
  if transfer.status ≠ some .COMPENSATION_IN_PROGRESS then
    .error (.badRequest s!"Cannot mark transfer compensated from status {transfer.statusText}")
  else .ok (transfer.apply (transfer.makeEvent
    (.TransferCompensated transfer.transferId transfer.compensationTransactionId)
    transfer.transferId context stamp))

end TransferAggregate

inductive TransferMethod where
  | initiate (transferId sourceAccountId destinationAccountId : String) (amount : Amount) (currency : String)
  | startDebit (transactionId : String)
  | markDebited
  | startCredit (transactionId : String)
  | complete
  | fail (reason : String) (stage : FailureStage)
  | startCompensation (transactionId : String)
  | markCompensated
  deriving DecidableEq

namespace TransferMethod

def call (context : CommandContext) (stamp : Stamp) (transfer : TransferAggregate) :
    TransferMethod → Except Failure TransferAggregate
  | .initiate transferId sourceAccountId destinationAccountId amount currency =>
    transfer.initiate transferId sourceAccountId destinationAccountId amount currency context stamp
  | .startDebit transactionId => transfer.startDebit transactionId context stamp
  | .markDebited => transfer.markDebited context stamp
  | .startCredit transactionId => transfer.startCredit transactionId context stamp
  | .complete => transfer.complete context stamp
  | .fail reason stage => transfer.fail reason stage context stamp
  | .startCompensation transactionId => transfer.startCompensation transactionId context stamp
  | .markCompensated => transfer.markCompensated context stamp

/-- The data of the event that a call makes of a transfer that accepts it, with
the guards that were passed. -/
inductive Emits (transfer : TransferAggregate) : TransferMethod → EventData → Prop
  | initiate {transferId sourceAccountId destinationAccountId amount currency} {n : Int} :
      truthy transfer.transferId = false → sourceAccountId ≠ destinationAccountId →
      parseMoneyToMinorUnits amount = .ok n → 0 < n →
      Emits transfer (.initiate transferId sourceAccountId destinationAccountId amount currency)
        (.TransferInitiated transferId sourceAccountId destinationAccountId (.format n) currency)
  | startDebit {transactionId} : transfer.status = some .INITIATED ∨ transfer.status = some .DEBIT_IN_PROGRESS →
      Emits transfer (.startDebit transactionId)
        (.TransferDebitStarted transfer.transferId transactionId (transfer.debitAttempts + 1))
  | markDebited : transfer.status = some .DEBIT_IN_PROGRESS →
      Emits transfer .markDebited (.TransferDebited transfer.transferId transfer.sourceDebitTransactionId)
  | startCredit {transactionId} : transfer.status = some .DEBITED ∨ transfer.status = some .CREDIT_IN_PROGRESS →
      Emits transfer (.startCredit transactionId)
        (.TransferCreditStarted transfer.transferId transactionId (transfer.creditAttempts + 1))
  | complete : transfer.status = some .CREDIT_IN_PROGRESS →
      Emits transfer .complete (.TransferCompleted transfer.transferId)
  | fail {reason stage} : transfer.status = some .DEBIT_IN_PROGRESS ∨ transfer.status = some .CREDIT_IN_PROGRESS →
      reason ≠ "" → Emits transfer (.fail reason stage) (.TransferFailed transfer.transferId reason stage)
  | startCompensation {transactionId} :
      transfer.status = some .FAILED ∨ transfer.status = some .COMPENSATION_IN_PROGRESS →
      transfer.failureStage = some .CREDIT → Emits transfer (.startCompensation transactionId)
        (.TransferCompensationStarted transfer.transferId transactionId (transfer.compensationAttempts + 1))
  | markCompensated : transfer.status = some .COMPENSATION_IN_PROGRESS →
      Emits transfer .markCompensated (.TransferCompensated transfer.transferId transfer.compensationTransactionId)

def dataTransferId (transfer : TransferAggregate) : TransferMethod → Option String
  | .initiate transferId .. => some transferId
  | _ => transfer.transferId

end TransferMethod

inductive TransferCommand where
  | InitiateTransfer (transferId sourceAccountId destinationAccountId : String) (amount : JsNumber)
      (currency : String) (context : CommandContext)
  | StartDebitTransfer (transferId transactionId : String) (context : CommandContext)
  | MarkTransferDebited (transferId : String) (context : CommandContext)
  | StartCreditTransfer (transferId transactionId : String) (context : CommandContext)
  | CompleteTransfer (transferId : String) (context : CommandContext)
  | FailTransfer (transferId reason : String) (stage : FailureStage) (context : CommandContext)
  | StartTransferCompensation (transferId transactionId : String) (context : CommandContext)
  | CompleteTransferCompensation (transferId : String) (context : CommandContext)
  deriving DecidableEq

namespace TransferCommand

def transferId : TransferCommand → String
  | .InitiateTransfer transferId .. => transferId
  | .StartDebitTransfer transferId .. => transferId
  | .MarkTransferDebited transferId .. => transferId
  | .StartCreditTransfer transferId .. => transferId
  | .CompleteTransfer transferId .. => transferId
  | .FailTransfer transferId .. => transferId
  | .StartTransferCompensation transferId .. => transferId
  | .CompleteTransferCompensation transferId .. => transferId

def context : TransferCommand → CommandContext
  | .InitiateTransfer _ _ _ _ _ context => context
  | .StartDebitTransfer _ _ context => context
  | .MarkTransferDebited _ context => context
  | .StartCreditTransfer _ _ context => context
  | .CompleteTransfer _ context => context
  | .FailTransfer _ _ _ context => context
  | .StartTransferCompensation _ _ context => context
  | .CompleteTransferCompensation _ context => context

def operation (stamp : Stamp) (transfer : TransferAggregate) : TransferCommand → Except Failure TransferAggregate
  | .InitiateTransfer transferId sourceAccountId destinationAccountId amount currency context =>
    transfer.initiate transferId sourceAccountId destinationAccountId (.number amount) currency context stamp
  | .StartDebitTransfer _ transactionId context => transfer.startDebit transactionId context stamp
  | .MarkTransferDebited _ context => transfer.markDebited context stamp
  | .StartCreditTransfer _ transactionId context => transfer.startCredit transactionId context stamp
  | .CompleteTransfer _ context => transfer.complete context stamp
  | .FailTransfer _ reason stage context => transfer.fail reason stage context stamp
  | .StartTransferCompensation _ transactionId context => transfer.startCompensation transactionId context stamp
  | .CompleteTransferCompensation _ context => transfer.markCompensated context stamp

def method : TransferCommand → TransferMethod
  | .InitiateTransfer transferId sourceAccountId destinationAccountId amount currency _ =>
    .initiate transferId sourceAccountId destinationAccountId (.number amount) currency
  | .StartDebitTransfer _ transactionId _ => .startDebit transactionId
  | .MarkTransferDebited .. => .markDebited
  | .StartCreditTransfer _ transactionId _ => .startCredit transactionId
  | .CompleteTransfer .. => .complete
  | .FailTransfer _ reason stage _ => .fail reason stage
  | .StartTransferCompensation _ transactionId _ => .startCompensation transactionId
  | .CompleteTransferCompensation .. => .markCompensated

def Emits (transfer : TransferAggregate) (cmd : TransferCommand) : EventData → Prop := cmd.method.Emits transfer

end TransferCommand

/-! ## What an accepted command has passed -/

theorem TransferAggregate.statusIn_pair {transfer : TransferAggregate} {x y : TransferStatus} :
    transfer.statusIn [x, y] = true ↔ transfer.status = some x ∨ transfer.status = some y := by
  unfold statusIn
  cases transfer.status <;> simp

/-- **Inversion.** A call is accepted exactly when its guards pass, and then
applies one event. -/
theorem TransferMethod.call_ok {context : CommandContext} {stamp : Stamp} {transfer transfer' : TransferAggregate}
    {method : TransferMethod} : method.call context stamp transfer = .ok transfer' ↔
      ∃ data, method.Emits transfer data ∧
        transfer' = transfer.apply (transfer.makeEvent data (method.dataTransferId transfer) context stamp) := by
  constructor
  · intro h
    cases method with
    | initiate transferId sourceAccountId destinationAccountId amount currency =>
      simp only [call, TransferAggregate.initiate] at h
      split at h
      · cases h
      · split at h
        · cases h
        case isFalse hid hne =>
          cases hn : parseMoneyToMinorUnits amount with
          | error e => rw [hn] at h; cases h
          | ok n =>
            rw [hn] at h
            dsimp only at h
            split at h
            · cases h
            · exact ⟨_, .initiate (by simpa using hid) hne hn (by omega), (Except.ok.inj h).symm⟩
    | startDebit transactionId =>
      simp only [call, TransferAggregate.startDebit] at h
      split at h
      · cases h
      case isFalse hs =>
        exact ⟨_, .startDebit (TransferAggregate.statusIn_pair.mp (by simpa using hs)), (Except.ok.inj h).symm⟩
    | markDebited =>
      simp only [call, TransferAggregate.markDebited] at h
      split at h
      · cases h
      case isFalse hs =>
        exact ⟨_, .markDebited (Classical.not_not.mp hs), (Except.ok.inj h).symm⟩
    | startCredit transactionId =>
      simp only [call, TransferAggregate.startCredit] at h
      split at h
      · cases h
      case isFalse hs =>
        exact ⟨_, .startCredit (TransferAggregate.statusIn_pair.mp (by simpa using hs)), (Except.ok.inj h).symm⟩
    | complete =>
      simp only [call, TransferAggregate.complete] at h
      split at h
      · cases h
      case isFalse hs =>
        exact ⟨_, .complete (Classical.not_not.mp hs), (Except.ok.inj h).symm⟩
    | fail reason stage =>
      simp only [call, TransferAggregate.fail] at h
      split at h
      · cases h
      · split at h
        · cases h
        case isFalse hs hr =>
          exact ⟨_, .fail (TransferAggregate.statusIn_pair.mp (by simpa using hs)) hr, (Except.ok.inj h).symm⟩
    | startCompensation transactionId =>
      simp only [call, TransferAggregate.startCompensation] at h
      split at h
      · cases h
      · split at h
        · cases h
        case isFalse hs hf =>
          exact ⟨_, .startCompensation (TransferAggregate.statusIn_pair.mp (by simpa using hs))
            (Classical.not_not.mp hf), (Except.ok.inj h).symm⟩
    | markCompensated =>
      simp only [call, TransferAggregate.markCompensated] at h
      split at h
      · cases h
      case isFalse hs =>
        exact ⟨_, .markCompensated (Classical.not_not.mp hs), (Except.ok.inj h).symm⟩
  · rintro ⟨data, he, rfl⟩
    cases he with
    | initiate hid hne hn hpos =>
      simp [call, TransferAggregate.initiate, hid, hne, hn, Int.not_le.mpr hpos, dataTransferId]
    | startDebit hs =>
      simp [call, TransferAggregate.startDebit, TransferAggregate.statusIn_pair.mpr hs, dataTransferId]
    | markDebited hs => simp [call, TransferAggregate.markDebited, hs, dataTransferId]
    | startCredit hs =>
      simp [call, TransferAggregate.startCredit, TransferAggregate.statusIn_pair.mpr hs, dataTransferId]
    | complete hs => simp [call, TransferAggregate.complete, hs, dataTransferId]
    | fail hs hr => simp [call, TransferAggregate.fail, TransferAggregate.statusIn_pair.mpr hs, hr, dataTransferId]
    | startCompensation hs hf =>
      simp [call, TransferAggregate.startCompensation, TransferAggregate.statusIn_pair.mpr hs, hf, dataTransferId]
    | markCompensated hs => simp [call, TransferAggregate.markCompensated, hs, dataTransferId]

theorem TransferCommand.operation_eq (stamp : Stamp) (transfer : TransferAggregate) (cmd : TransferCommand) :
    cmd.operation stamp transfer = cmd.method.call cmd.context stamp transfer := by
  cases cmd <;> rfl

theorem TransferCommand.operation_ok {stamp : Stamp} {transfer transfer' : TransferAggregate}
    {cmd : TransferCommand} : cmd.operation stamp transfer = .ok transfer' ↔
      ∃ data, cmd.Emits transfer data ∧
        transfer' =
          transfer.apply (transfer.makeEvent data (cmd.method.dataTransferId transfer) cmd.context stamp) := by
  rw [operation_eq]
  exact TransferMethod.call_ok

theorem TransferCommand.operation_error {stamp : Stamp} {transfer : TransferAggregate} {cmd : TransferCommand}
    {e : Failure} (h : cmd.operation stamp transfer = .error e) : e.Domain := by
  cases cmd with
  | InitiateTransfer transferId sourceAccountId destinationAccountId amount currency context =>
    simp only [operation, TransferAggregate.initiate] at h
    split at h
    · cases h; exact .badRequest _
    · split at h
      · cases h; exact .badRequest _
      · cases hn : parseMoneyToMinorUnits (.number amount) with
        | error e' => rw [hn] at h; cases h; exact parse_error hn ▸ .error _
        | ok n =>
          rw [hn] at h
          dsimp only at h
          split at h <;> cases h
          exact .badRequest _
  | FailTransfer transferId reason stage context =>
    simp only [operation, TransferAggregate.fail] at h
    split at h
    · cases h; exact .badRequest _
    · split at h <;> cases h
      exact .badRequest _
  | StartTransferCompensation transferId transactionId context =>
    simp only [operation, TransferAggregate.startCompensation] at h
    split at h
    · cases h; exact .badRequest _
    · split at h <;> cases h
      exact .badRequest _
  | StartDebitTransfer | MarkTransferDebited | StartCreditTransfer | CompleteTransfer
  | CompleteTransferCompensation =>
    simp only [operation, TransferAggregate.startDebit, TransferAggregate.markDebited, TransferAggregate.startCredit,
      TransferAggregate.complete, TransferAggregate.markCompensated] at h
    split at h <;> cases h
    exact .badRequest _

end CoreBanking
