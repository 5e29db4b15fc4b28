import CoreBanking.Lib.Async
import CoreBanking.Stores

/-!
# The aggregate repositories

Both repositories load an aggregate, run an operation on it and append the new
events at the version that was loaded; a lost race is retried. The promise lock
a repository takes around this only orders the calls of one instance, which
further instances are free to break, so it is left out here: without it every
order of the awaited calls is possible. Neither does the pause before a retry
appear, since a program may be left waiting anyway.
-/

namespace CoreBanking

abbrev Task (α : Type) := Async StoreOp StoreOp.Result Failure α

abbrev StoreOp.call (op : StoreOp) : Task op.Result := Async.call op

def appendToStream (streamId : String) (events : List DomainEvent) (expectedVersion : Nat) : Task Unit :=
  StoreOp.call (.append streamId events expectedVersion)

def MAX_WRITE_ATTEMPTS : Nat := 3

def SNAPSHOT_INTERVAL : Nat := 50

def takeStamp : Task Stamp := do
  let eventId ← StoreOp.call .randomUUID
  let occurredAt ← StoreOp.call .now
  return ⟨eventId, occurredAt⟩

/-- The loop of `executeWithRetry`, with `attempts` left. Only a lost race is
retried, and the last one lost becomes `lost`. -/
def retryLoop (attempt : Task Unit) (lost : Failure) : Nat → Task Unit
  | 0 => pure ()
  | attempts + 1 => tryCatch attempt fun error =>
    match error with
    | .wrongExpectedVersion .. => if attempts = 0 then throw lost else retryLoop attempt lost attempts
    | error => throw error

namespace SnapshotStore

def save (snapshot : Snapshot) : Task Unit := do
  let current : Option Snapshot ← StoreOp.call (.snapshotBeforeSave snapshot.streamId)
  match current with
  | some current => if snapshot.version ≤ current.version then return else StoreOp.call (.putSnapshot snapshot)
  | none => StoreOp.call (.putSnapshot snapshot)

end SnapshotStore

namespace AccountRepository

def getById (accountId : String) : Task AccountAggregate := do
  let streamId := accountStream accountId
  let snapshot : Option Snapshot ← StoreOp.call (.getLatestSnapshot streamId)
  let aggregate := match snapshot with
    | some snapshot => ({} : AccountAggregate).restoreSnapshot snapshot.state snapshot.version
    | none => {}
  let events ← StoreOp.call (.readStream streamId ((snapshot.map Snapshot.version).getD 0))
  return aggregate.loadFromHistory events

def save (accountId : String) (aggregate : AccountAggregate) : Task Unit := do
  let streamId := accountStream accountId
  let (events, aggregate) := aggregate.pullUncommittedEvents
  if events.length = 0 then return
  let expectedVersion := aggregate.version - events.length
  appendToStream streamId events expectedVersion
  let previousSnapshotBoundary := expectedVersion / SNAPSHOT_INTERVAL
  let currentSnapshotBoundary := aggregate.version / SNAPSHOT_INTERVAL
  if previousSnapshotBoundary < currentSnapshotBoundary then
    SnapshotStore.save ⟨streamId, aggregate.version, aggregate.getSnapshotState⟩

def writeConflict (accountId : String) : Failure :=
  .conflict
    s!"Concurrent modification detected for account {accountId}. All {MAX_WRITE_ATTEMPTS} write attempts failed."

def executeWithRetry (accountId : String) (operation : AccountAggregate → Task AccountAggregate) : Task Unit :=
  retryLoop (do
      let account ← getById accountId
      let account ← operation account
      save accountId account)
    (writeConflict accountId) MAX_WRITE_ATTEMPTS

end AccountRepository

namespace TransferRepository

def getById (transferId : String) : Task TransferAggregate := do
  let events ← StoreOp.call (.readStream (transferStream transferId) 0)
  return ({} : TransferAggregate).loadFromHistory events

def save (transferId : String) (aggregate : TransferAggregate) : Task Unit := do
  let (events, aggregate) := aggregate.pullUncommittedEvents
  if events.length = 0 then return
  let expectedVersion := aggregate.version - events.length
  appendToStream (transferStream transferId) events expectedVersion

def writeConflict (transferId : String) : Failure :=
  .conflict
    s!"Concurrent modification detected for transfer {transferId}. All {MAX_WRITE_ATTEMPTS} write attempts failed."

def executeWithRetry (transferId : String) (operation : TransferAggregate → Task TransferAggregate) : Task Unit :=
  retryLoop (do
      let transfer ← getById transferId
      let transfer ← operation transfer
      save transferId transfer)
    (writeConflict transferId) MAX_WRITE_ATTEMPTS

end TransferRepository

/-! ## Command handlers -/

/-- `CreateAccountHandler`, `DepositMoneyHandler`, `WithdrawMoneyHandler` and
`FreezeAccountHandler`: the command's operation, on the command's account. -/
def AccountCommand.execute (cmd : AccountCommand) : Task Unit :=
  AccountRepository.executeWithRetry cmd.accountId fun account => do
    let stamp ← takeStamp
    Async.ofExcept (cmd.operation stamp account)

def TransferCommand.execute (cmd : TransferCommand) : Task Unit :=
  TransferRepository.executeWithRetry cmd.transferId fun transfer => do
    let stamp ← takeStamp
    Async.ofExcept (cmd.operation stamp transfer)

def initiateTransfer (transferId sourceAccountId destinationAccountId : String) (amount : JsNumber)
    (currency : String) (context : CommandContext) : Task Unit := do
  let source ← AccountRepository.getById sourceAccountId
  let destination ← AccountRepository.getById destinationAccountId
  if !truthy source.accountId then
    throw (.badRequest s!"Source account {sourceAccountId} not found")
  else if !truthy destination.accountId then
    throw (.badRequest s!"Destination account {destinationAccountId} not found")
  else if source.currency ≠ some currency ∨ destination.currency ≠ some currency then
    throw (.badRequest "Transfer currency must match both accounts")
  else (TransferCommand.InitiateTransfer transferId sourceAccountId destinationAccountId amount currency
    context).execute

end CoreBanking
