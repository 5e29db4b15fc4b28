import CoreBanking.Repositories

/-!
# Registry, idempotency, the controllers and the coordinator

The transaction registry runs a handler at most once for a transaction id, the
idempotency service at most once for a key. The account and transfer endpoints
wrap their commands in them, and the transfer coordinator runs each leg of a
transfer through the registry, under an id made from the transfer's.
-/

namespace CoreBanking

/-! ## Transaction registry -/

namespace TransactionRegistryService

structure Options where
  retryFailed : Bool
  isRetryableError : Failure → Bool

def noOptions : Options := ⟨false, fun _ => false⟩

def alreadyInProgress (transactionId : String) : Failure :=
  .conflict s!"Transaction {transactionId} is already in progress"

def previouslyFailed (transactionId : String) : Failure :=
  .conflict s!"Transaction {transactionId} previously failed. Retry with a new transactionId."

def differentMovement (transactionId : String) : Failure :=
  .conflict s!"Transaction {transactionId} has already been used for a different money movement"

def ensureSameTransactionIntent (input : ReserveTransactionInput) (record : TransactionRecord) :
    Except Failure Unit := do
  if input.accountId ≠ record.accountId ∨ input.operationType ≠ record.operationType then
    .error (differentMovement input.transactionId)
  else
    let amountMinorUnits ← parseMoneyToMinorUnits input.amount
    if amountMinorUnits ≠ record.amountMinorUnits ∨ input.currency ≠ record.currency then
      .error (differentMovement input.transactionId)
    else .ok ()

theorem ensureSameTransactionIntent_error {input : ReserveTransactionInput} {record : TransactionRecord} {e : Failure}
    (h : ensureSameTransactionIntent input record = .error e) :
    e = differentMovement input.transactionId ∨ parseMoneyToMinorUnits input.amount = .error e := by
  unfold ensureSameTransactionIntent at h
  split at h
  · exact .inl (Except.error.inj h).symm
  · cases hparse : parseMoneyToMinorUnits input.amount with
    | error e' =>
      rw [hparse] at h
      exact .inr (congrArg Except.error (Except.error.inj h))
    | ok amountMinorUnits =>
      rw [hparse] at h
      dsimp only [bind, Except.bind] at h
      split at h
      · exact .inl (Except.error.inj h).symm
      · cases h

structure Repository (m : Type → Type) where
  reserve : ReserveTransactionInput → m TransactionReservation
  markPending : String → m Unit
  markCompleted : String → m Unit
  markFailed : String → String → TransactionRecordStatus → m Unit

section
variable {Op : Type} {R : Op → Type} (repository : Repository (Async Op R Failure))

def runHandlerWith (transactionId : String) (handler : Async Op R Failure Response) (options : Options) :
    Async Op R Failure Response :=
  tryCatch (do
      let response ← handler
      repository.markCompleted transactionId
      return response)
    fun error => do
      let status : TransactionRecordStatus :=
        if options.isRetryableError error then .FAILED_RETRYABLE else .FAILED_TERMINAL
      repository.markFailed transactionId error.message status
      throw error

def executeWith (input : ReserveTransactionInput) (handler : Async Op R Failure Response) (options : Options) :
    Async Op R Failure Response := do
  let reservation ← repository.reserve input
  match reservation with
  | ⟨false, some record⟩ =>
    Async.ofExcept (ensureSameTransactionIntent input record)
    match record.status with
    | .COMPLETED => return { status := "accepted" }
    | .PENDING => throw (alreadyInProgress input.transactionId)
    | .FAILED_RETRYABLE =>
      if options.retryFailed then
        repository.markPending input.transactionId
        runHandlerWith repository input.transactionId handler options
      else throw (previouslyFailed input.transactionId)
    | .FAILED_TERMINAL => throw (previouslyFailed input.transactionId)
  | _ => runHandlerWith repository input.transactionId handler options

end

def recordRepository : Repository Task where
  reserve input := StoreOp.call (.reserveTransaction input)
  markPending transactionId := StoreOp.call (.markTransactionPending transactionId)
  markCompleted transactionId := StoreOp.call (.markTransactionCompleted transactionId)
  markFailed transactionId errorMessage status :=
    StoreOp.call (.markTransactionFailed transactionId errorMessage status)

def runHandler := runHandlerWith recordRepository

def execute := executeWith recordRepository

end TransactionRegistryService

/-! ## Requests -/

structure CreateAccountDto where
  accountId : String
  ownerId : String
  currency : String
  actor : Option String := none
  deriving DecidableEq

/-- `DepositMoneyDto` and `WithdrawMoneyDto`. -/
structure MoneyDto where
  amount : JsNumber
  currency : String
  transactionId : String
  actor : Option String := none
  deriving DecidableEq

structure FreezeAccountDto where
  reason : String
  actor : Option String := none
  deriving DecidableEq

structure InitiateTransferDto where
  transferId : String
  sourceAccountId : String
  destinationAccountId : String
  amount : JsNumber
  currency : String
  deriving DecidableEq

/-- What a request's hash is taken of. -/
inductive Payload where
  | create (dto : CreateAccountDto)
  | money (accountId : String) (dto : MoneyDto)
  | freeze (accountId : String) (dto : FreezeAccountDto)
  | initiate (dto : InitiateTransferDto)
  deriving DecidableEq

class RequestDigest where
  hashRequest : String → Payload → String

/-! ## Idempotency -/

namespace IdempotencyService

def differentRequest (idempotencyKey : String) : Failure :=
  .conflict s!"Idempotency key {idempotencyKey} has already been used for a different request"

def alreadyInProgress (idempotencyKey : String) : Failure :=
  .conflict s!"Request with Idempotency-Key {idempotencyKey} is already in progress"

def previouslyFailed (idempotencyKey : String) : Failure :=
  .conflict s!"Request with Idempotency-Key {idempotencyKey} previously failed. Retry with a new key."

/-- A replay of the request that reserved `record`. -/
def answerFrom (idempotencyKey : String) (record : IdempotencyRecord) : Except Failure Response :=
  match record.status, record.responsePayload with
  | .COMPLETED, some responsePayload => .ok responsePayload
  | .IN_PROGRESS, _ => .error (alreadyInProgress idempotencyKey)
  | _, _ => .error (previouslyFailed idempotencyKey)

structure Repository (m : Type → Type) where
  reserve : ReserveIdempotencyInput → m IdempotencyReservation
  markCompleted : String → Response → m Unit
  markFailed : String → String → m Unit

section
variable {Op : Type} {R : Op → Type} (repository : Repository (Async Op R Failure))

def runHandlerWith (idempotencyKey : String) (handler : Async Op R Failure Response) : Async Op R Failure Response :=
  tryCatch (do
      let response ← handler
      repository.markCompleted idempotencyKey response
      return response)
    fun error => do
      repository.markFailed idempotencyKey error.message
      throw error

def executeWith [RequestDigest] (idempotencyKey : Option String) (operation : String) (payload : Payload)
    (handler : String → Async Op R Failure Response) : Async Op R Failure Response :=
  match idempotencyKey with
  | none => throw (.badRequest "Idempotency-Key header is required")
  | some idempotencyKey =>
    if idempotencyKey = "" then throw (.badRequest "Idempotency-Key header is required")
    else do
      let requestHash := RequestDigest.hashRequest operation payload
      let reservation ← repository.reserve ⟨idempotencyKey, operation, requestHash⟩
      match reservation with
      | ⟨false, some record⟩ =>
        if record.operation ≠ operation ∨ record.requestHash ≠ requestHash then
          throw (differentRequest idempotencyKey)
        else Async.ofExcept (answerFrom idempotencyKey record)
      | _ => runHandlerWith repository idempotencyKey (handler idempotencyKey)

end

def recordRepository : Repository Task where
  reserve input := StoreOp.call (.reserveIdempotency input)
  markCompleted idempotencyKey response := StoreOp.call (.markIdempotencyCompleted idempotencyKey response)
  markFailed idempotencyKey errorMessage := StoreOp.call (.markIdempotencyFailed idempotencyKey errorMessage)

def runHandler := runHandlerWith recordRepository

def execute [RequestDigest] := executeWith recordRepository

end IdempotencyService

/-! ## Controllers -/

def accepted : Response := { status := "accepted" }

namespace AccountsController

variable [RequestDigest]

def createAccount (idempotencyKey : Option String) (dto : CreateAccountDto) : Task Response :=
  IdempotencyService.execute idempotencyKey "accounts.create" (.create dto) fun key => do
    let correlationId ← StoreOp.call .randomUUID
    (AccountCommand.CreateAccount dto.accountId dto.ownerId dto.currency
      { commandId := key, correlationId := correlationId, actor := dto.actor }).execute
    return accepted

/-- `deposit` and `withdraw` differ in the operation's name and type and in the
command. -/
def moveMoney (operation : String) (operationType : TransactionOperationType)
    (command : String → JsNumber → String → CommandContext → String → AccountCommand)
    (idempotencyKey : Option String) (accountId : String) (dto : MoneyDto) : Task Response :=
  IdempotencyService.execute idempotencyKey operation (.money accountId dto) fun key =>
    TransactionRegistryService.execute
      { transactionId := dto.transactionId
        accountId := accountId
        operationType := operationType
        amount := .number dto.amount
        currency := dto.currency
        idempotencyKey := some key }
      (do
        let correlationId ← StoreOp.call .randomUUID
        (command accountId dto.amount dto.currency
          { commandId := key, correlationId := correlationId, actor := dto.actor } dto.transactionId).execute
        return accepted)
      TransactionRegistryService.noOptions

def deposit := moveMoney "accounts.deposit" .DEPOSIT .DepositMoney

def withdraw := moveMoney "accounts.withdraw" .WITHDRAW .WithdrawMoney

def freeze (idempotencyKey : Option String) (accountId : String) (dto : FreezeAccountDto) : Task Response :=
  IdempotencyService.execute idempotencyKey "accounts.freeze" (.freeze accountId dto) fun key => do
    let correlationId ← StoreOp.call .randomUUID
    (AccountCommand.FreezeAccount accountId dto.reason
      { commandId := key, correlationId := correlationId, actor := dto.actor }).execute
    return accepted

end AccountsController

def TransfersController.initiateTransfer [RequestDigest] (idempotencyKey : Option String)
    (dto : InitiateTransferDto) : Task Response :=
  IdempotencyService.execute idempotencyKey "transfers.initiate" (.initiate dto) fun key => do
    CoreBanking.initiateTransfer dto.transferId dto.sourceAccountId dto.destinationAccountId dto.amount dto.currency
      { commandId := key, correlationId := dto.transferId, actor := some "transfer-api" }
    return { transferId := some dto.transferId, status := "accepted" }

/-! ## Coordinator -/

inductive Leg where
  | debit
  | credit
  | compensation
  deriving DecidableEq, Repr

namespace Leg

def suffix : Leg → String
  | .debit => ":debit"
  | .credit => ":credit"
  | .compensation => ":compensation"

def account : Leg → TransferAggregate → String
  | .credit, transfer => orUndefined transfer.destinationAccountId
  | _, transfer => orUndefined transfer.sourceAccountId

def operationType : Leg → TransactionOperationType
  | .debit => .WITHDRAW
  | _ => .DEPOSIT

def recordedId : Leg → TransferAggregate → Option String
  | .debit, transfer => transfer.sourceDebitTransactionId
  | .credit, transfer => transfer.destinationCreditTransactionId
  | .compensation, transfer => transfer.compensationTransactionId

def startsFrom : Leg → List TransferStatus
  | .debit => [.INITIATED, .DEBIT_IN_PROGRESS]
  | .credit => [.DEBITED, .CREDIT_IN_PROGRESS]
  | .compensation => [.FAILED, .COMPENSATION_IN_PROGRESS]

def startCommand : Leg → String → String → CommandContext → TransferCommand
  | .debit => .StartDebitTransfer
  | .credit => .StartCreditTransfer
  | .compensation => .StartTransferCompensation

def finishCommand : Leg → String → CommandContext → TransferCommand
  | .debit => .MarkTransferDebited
  | .credit => .CompleteTransfer
  | .compensation => .CompleteTransferCompensation

/-- The stage a leg's terminal failure is recorded with; a compensation is
never recorded as failed. -/
def failureStage : Leg → Option FailureStage
  | .debit => some .DEBIT
  | .credit => some .CREDIT
  | .compensation => none

end Leg

def legId (transferId : String) (leg : Leg) : String := transferId ++ leg.suffix

namespace TransferCoordinatorService

def terminalMessages : List String :=
  ["Insufficient funds", "Account is not active", "Currency mismatch", "not found"]

def includes (text part : String) : Bool := text.toList.tails.any fun rest => part.toList.isPrefixOf rest

def isTerminalDomainError (error : Failure) : Bool :=
  terminalMessages.any fun message => includes error.message message

def isRetryableError : Failure → Bool
  | .retryable _ => true
  | _ => false

def makeContext (commandId transferId : String) : CommandContext where
  commandId := commandId
  correlationId := transferId
  causationId := some ("transfer-coordinator:" ++ transferId)
  actor := some "transfer-coordinator"

section
variable [JsRuntime]

def legCommand (leg : Leg) (transfer : TransferAggregate) (context : CommandContext) (transactionId : String) :
    AccountCommand :=
  match leg with
  | .debit => .WithdrawMoney (leg.account transfer) (minorUnitsToNumber transfer.amountMinorUnits)
      (orUndefined transfer.currency) context transactionId
  | _ => .DepositMoney (leg.account transfer) (minorUnitsToNumber transfer.amountMinorUnits)
      (orUndefined transfer.currency) context transactionId

/-- What a leg reserves: the amount is the text of the minor units. -/
def legInput (leg : Leg) (transfer : TransferAggregate) (transactionId : String) : ReserveTransactionInput where
  transactionId := transactionId
  accountId := leg.account transfer
  operationType := leg.operationType
  amount := .text (toString transfer.amountMinorUnits)
  currency := orUndefined transfer.currency
  idempotencyKey := transfer.transferId

def legHandler (leg : Leg) (transfer : TransferAggregate) (context : CommandContext) (transactionId : String) :
    Task Response := do
  (legCommand leg transfer context transactionId).execute
  return accepted

def legOptions : TransactionRegistryService.Options := ⟨true, isRetryableError⟩

def legTry (leg : Leg) (transferId : String) (transfer : TransferAggregate) (context : CommandContext)
    (transactionId : String) : Task Unit := do
  let _ ← TransactionRegistryService.execute (legInput leg transfer transactionId)
    (legHandler leg transfer context transactionId) legOptions
  (leg.finishCommand transferId context).execute

/-- `processDebit`, `processCredit` and `processCompensation`: start the leg
where its status asks for it, run it through the registry, and record how it
ended. -/
def processLeg (leg : Leg) (transferId : String) (context : CommandContext) (transactionId : String) :
    Task Unit := do
  let transfer ← TransferRepository.getById transferId
  if transfer.statusIn leg.startsFrom then
    (leg.startCommand transferId transactionId context).execute
  tryCatch (legTry leg transferId transfer context transactionId) fun error =>
    match leg.failureStage with
    | some stage =>
      if isTerminalDomainError error then
        (TransferCommand.FailTransfer transferId error.message stage context).execute
      else throw (.retryable error.message)
    | none => throw (.retryable error.message)

def processDebit := processLeg .debit

def processCredit := processLeg .credit

def processCompensation := processLeg .compensation

def dueLeg (transfer : TransferAggregate) : Option Leg :=
  match transfer.status with
  | some .INITIATED | some .DEBIT_IN_PROGRESS => some .debit
  | some .DEBITED | some .CREDIT_IN_PROGRESS => some .credit
  | some .FAILED => if transfer.failureStage = some .CREDIT then some .compensation else none
  | some .COMPENSATION_IN_PROGRESS => some .compensation
  | _ => none

def processTransfer (transferId : String) : Task Unit := do
  let transfer ← TransferRepository.getById transferId
  let commandId ← StoreOp.call .randomUUID
  let context := makeContext commandId transferId
  match dueLeg transfer with
  | some leg =>
    tryCatch
      (processLeg leg (orUndefined transfer.transferId) context
        ((leg.recordedId transfer).getD (legId (orUndefined transfer.transferId) leg)))
      fun _ => pure ()
  | none => return

end

end TransferCoordinatorService

end CoreBanking
