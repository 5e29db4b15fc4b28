import CoreBanking.AccountHistory
import CoreBanking.TransferHistory
import CoreBanking.ReadModels

/-!
# The projectors

Each handler reads a summary, computes the next one from what it has read, and
stores it; the account projector then appends a statement entry.
-/

namespace CoreBanking

section
variable [JsRuntime]

namespace AccountProjector

def getRequiredSummary (accountId : Option String) : Projection AccountSummaryReadModel := do
  let summary : Option AccountSummaryReadModel ← ReadOp.call (.getAccountSummary accountId)
  match summary with
  | none => throw (.error s!"Projection missing account summary for account {orUndefined accountId}")
  | some summary => return summary

def ensureSequentialVersion (accountId : Option String) (currentVersion incomingVersion : Nat) :
    Except Failure Unit :=
  let expectedNextVersion := currentVersion + 1
  if incomingVersion ≠ expectedNextVersion then
    .error (.projectionGap (orUndefined accountId) expectedNextVersion incomingVersion)
  else .ok ()

structure TransferStatementDetails where
  entryKind : EntryKind := .TRANSFER
  transferId : Option String
  transferDirection : TransferDirection
  sourceAccountId : String
  destinationAccountId : String
  counterpartyAccountId : String
  description : String
  deriving DecidableEq

def mapTransferStatementDetails (transfer : TransferSummaryReadModel) (accountId : Option String) :
    Option TransferStatementDetails :=
  if some transfer.sourceAccountId = accountId then
    let isCompensation : Bool := transfer.compensationTransactionId.isSome &&
      transfer.sourceDebitTransactionId != transfer.compensationTransactionId
    some {
      transferId := transfer.transferId
      transferDirection := if isCompensation then .REVERSAL else .OUTGOING
      sourceAccountId := transfer.sourceAccountId
      destinationAccountId := transfer.destinationAccountId
      counterpartyAccountId := transfer.destinationAccountId
      description :=
        if isCompensation then
          s!"Transfer reversal back from failed transfer to account {transfer.destinationAccountId}"
        else s!"Transfer sent to account {transfer.destinationAccountId}" }
  else if some transfer.destinationAccountId = accountId then
    some {
      transferId := transfer.transferId
      transferDirection := .INCOMING
      sourceAccountId := transfer.sourceAccountId
      destinationAccountId := transfer.destinationAccountId
      counterpartyAccountId := transfer.sourceAccountId
      description := s!"Transfer received from account {transfer.sourceAccountId}" }
  else none

def getTransferStatementDetails (event : DomainEvent) (accountId : Option String) :
    Projection (Option TransferStatementDetails) := do
  let transferId := event.metadata.correlationId
  if transferId = "" then return none
  let transfer : Option TransferSummaryReadModel ← ReadOp.call (.getTransferSummary (some transferId))
  match transfer with
  | none => return none
  | some transfer => return mapTransferStatementDetails transfer accountId

/-! ## The handlers -/

def projectAccountCreated (event : DomainEvent) (accountId ownerId currency : String) : Projection Unit := do
  let existing : Option AccountSummaryReadModel ← ReadOp.call (.getAccountSummary (some accountId))
  match existing with
  | some existing =>
    if event.streamVersion ≤ existing.version then return
    throw (.projectionGap accountId (existing.version + 1) event.streamVersion)
  | none =>
    if event.streamVersion ≠ 1 then throw (.projectionGap accountId 1 event.streamVersion)
    ReadOp.call (.upsertAccountSummary {
      accountId := some accountId
      ownerId := ownerId
      currency := currency
      status := .ACTIVE
      balanceMinorUnits := 0
      balance := ⟨"0"⟩
      version := event.streamVersion
      createdAt := event.occurredAt
      updatedAt := event.occurredAt })
    ReadOp.call (.appendAccountStatement {
      eventId := event.eventId
      accountId := some accountId
      streamVersion := event.streamVersion
      eventType := event.data.eventType
      occurredAt := event.occurredAt })

def movementEntry (event : DomainEvent) (accountId : Option String) (amountMinorUnits : Int)
    (currency transactionId : String) (transferDetails : Option TransferStatementDetails) :
    AccountStatementEntryReadModel where
  eventId := event.eventId
  accountId := accountId
  streamVersion := event.streamVersion
  eventType := event.data.eventType
  entryKind := some (transferDetails.elim .ACCOUNT_OPERATION (·.entryKind))
  amountMinorUnits := some amountMinorUnits
  amount := some (minorUnitsToNumber amountMinorUnits)
  currency := some currency
  transactionId := some transactionId
  transferId := transferDetails.bind (·.transferId)
  transferDirection := transferDetails.map (·.transferDirection)
  sourceAccountId := transferDetails.map (·.sourceAccountId)
  destinationAccountId := transferDetails.map (·.destinationAccountId)
  counterpartyAccountId := transferDetails.map (·.counterpartyAccountId)
  description := transferDetails.map (·.description)
  occurredAt := event.occurredAt

/-- The two money handlers differ in `next` alone. -/
def projectMovement (next : Int → Int → Int) (event : DomainEvent) (accountId : Option String) (amount : MoneyText)
    (currency transactionId : String) : Projection Unit := do
  let summary ← getRequiredSummary accountId
  if event.streamVersion ≤ summary.version then return
  Async.ofExcept (ensureSequentialVersion accountId summary.version event.streamVersion)
  let amountMinorUnits ← Async.ofExcept (parseMoneyToMinorUnits (.text amount.text))
  let nextBalanceMinorUnits := next summary.balanceMinorUnits amountMinorUnits
  let transferDetails ← getTransferStatementDetails event accountId
  ReadOp.call (.upsertAccountSummary { summary with
    balanceMinorUnits := nextBalanceMinorUnits
    balance := minorUnitsToNumber nextBalanceMinorUnits
    version := event.streamVersion
    updatedAt := event.occurredAt })
  ReadOp.call (.appendAccountStatement
    (movementEntry event accountId amountMinorUnits currency transactionId transferDetails))

def projectMoneyDeposited (event : DomainEvent) (accountId : Option String) (amount : MoneyText)
    (currency transactionId : String) : Projection Unit :=
  projectMovement (· + ·) event accountId amount currency transactionId

def projectMoneyWithdrawn (event : DomainEvent) (accountId : Option String) (amount : MoneyText)
    (currency transactionId : String) : Projection Unit :=
  projectMovement (· - ·) event accountId amount currency transactionId

def projectAccountFrozen (event : DomainEvent) (accountId : Option String) (reason : String) : Projection Unit := do
  let summary ← getRequiredSummary accountId
  if event.streamVersion ≤ summary.version then return
  Async.ofExcept (ensureSequentialVersion accountId summary.version event.streamVersion)
  ReadOp.call (.upsertAccountSummary { summary with
    status := .FROZEN
    version := event.streamVersion
    updatedAt := event.occurredAt })
  ReadOp.call (.appendAccountStatement {
    eventId := event.eventId
    accountId := accountId
    streamVersion := event.streamVersion
    eventType := event.data.eventType
    reason := some reason
    occurredAt := event.occurredAt })

def project (event : DomainEvent) : Projection Bool := do
  match event.data with
  | .AccountCreated accountId ownerId currency =>
    projectAccountCreated event accountId ownerId currency
    return true
  | .MoneyDeposited accountId amount currency transactionId =>
    projectMoneyDeposited event accountId amount currency transactionId
    return true
  | .MoneyWithdrawn accountId amount currency transactionId =>
    projectMoneyWithdrawn event accountId amount currency transactionId
    return true
  | .AccountFrozen accountId reason =>
    projectAccountFrozen event accountId reason
    return true
  | _ => return false

end AccountProjector

namespace TransferProjector

def nextSummary (existing : TransferSummaryReadModel) (event : DomainEvent) : TransferSummaryReadModel :=
  match event.data with
  | .TransferDebitStarted _ transactionId debitAttempts => { existing with
      status := .DEBIT_IN_PROGRESS
      sourceDebitTransactionId := some transactionId
      debitAttempts := debitAttempts
      failureReason := none
      failureStage := none
      updatedAt := event.occurredAt }
  | .TransferDebited .. => { existing with status := .DEBITED, updatedAt := event.occurredAt }
  | .TransferCreditStarted _ transactionId creditAttempts => { existing with
      status := .CREDIT_IN_PROGRESS
      destinationCreditTransactionId := some transactionId
      creditAttempts := creditAttempts
      failureReason := none
      failureStage := none
      updatedAt := event.occurredAt }
  | .TransferCompleted _ => { existing with status := .COMPLETED, updatedAt := event.occurredAt }
  | .TransferFailed _ reason stage => { existing with
      status := .FAILED
      failureReason := some reason
      failureStage := some stage
      updatedAt := event.occurredAt }
  | .TransferCompensationStarted _ transactionId compensationAttempts => { existing with
      status := .COMPENSATION_IN_PROGRESS
      compensationTransactionId := some transactionId
      compensationAttempts := compensationAttempts
      updatedAt := event.occurredAt }
  | .TransferCompensated .. => { existing with status := .COMPENSATED, updatedAt := event.occurredAt }
  | _ => existing

def projectTransferEvent (event : DomainEvent) : Projection Unit := do
  let transferId := event.data.transferId
  let existing : Option TransferSummaryReadModel ← ReadOp.call (.getTransferSummary transferId)
  match event.data, existing with
  | .TransferInitiated transferId sourceAccountId destinationAccountId amount currency, _ =>
    let amountMinorUnits ← Async.ofExcept (parseMoneyToMinorUnits (.text amount.text))
    ReadOp.call (.upsertTransferSummary {
      transferId := some transferId
      sourceAccountId := sourceAccountId
      destinationAccountId := destinationAccountId
      amountMinorUnits := amountMinorUnits
      amount := minorUnitsToNumber amountMinorUnits
      currency := currency
      status := .INITIATED
      debitAttempts := 0
      creditAttempts := 0
      compensationAttempts := 0
      createdAt := event.occurredAt
      updatedAt := event.occurredAt })
  | _, none => throw (.error s!"Projection missing transfer summary for transfer {orUndefined transferId}")
  | _, some existing => ReadOp.call (.upsertTransferSummary (nextSummary existing event))

def project (event : DomainEvent) : Projection Bool := do
  match event.data with
  | .TransferInitiated .. | .TransferDebitStarted .. | .TransferDebited .. | .TransferCreditStarted ..
  | .TransferCompleted .. | .TransferFailed .. | .TransferCompensationStarted .. | .TransferCompensated .. =>
    projectTransferEvent event
    return true
  | _ => return false

end TransferProjector

namespace ProjectionRunnerService

/-- The body of the loop over a page. -/
def projectBoth (event : DomainEvent) : Projection Unit := do
  let _ ← AccountProjector.project event
  let _ ← TransferProjector.project event

/-- The loop over a page; the checkpoint is the position of its last event. -/
def projectEach : List PositionedEvent → Nat → Projection Nat
  | [], checkpoint => return checkpoint
  | event :: events, _ => do
    projectBoth event.event
    projectEach events event.position

def replayFrom : Nat → Nat → Projection Nat
  | 0, checkpoint => return checkpoint
  | pages + 1, checkpoint => do
    let events : List PositionedEvent ← ReadOp.call (.readAll checkpoint 1000)
    if events.length = 0 then return checkpoint
    let checkpoint ← projectEach events checkpoint
    replayFrom pages checkpoint

end ProjectionRunnerService

end

end CoreBanking
