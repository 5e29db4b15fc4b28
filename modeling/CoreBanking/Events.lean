import CoreBanking.Money

/-!
# Domain events

What the two aggregates write. A field of an aggregate that is still undefined
when an event is made goes into the event as undefined, hence the options.
-/

namespace CoreBanking

/-- Milliseconds; `toISOString` and back is the identity on them. -/
abbrev Time := Nat

def orUndefined (s : Option String) : String := s.getD "undefined"

def truthy (s : Option String) : Bool :=
  match s with
  | none => false
  | some s => s != ""

structure CommandContext where
  commandId : String
  correlationId : String
  causationId : Option String := none
  actor : Option String := none
  traceId : Option String := none
  deriving DecidableEq, Repr

inductive FailureStage where
  | DEBIT
  | CREDIT
  deriving DecidableEq, Repr

inductive EventData where
  | AccountCreated (accountId ownerId currency : String)
  | MoneyDeposited (accountId : Option String) (amount : MoneyText) (currency transactionId : String)
  | MoneyWithdrawn (accountId : Option String) (amount : MoneyText) (currency transactionId : String)
  | AccountFrozen (accountId : Option String) (reason : String)
  | TransferInitiated (transferId sourceAccountId destinationAccountId : String) (amount : MoneyText)
      (currency : String)
  | TransferDebitStarted (transferId : Option String) (transactionId : String) (debitAttempts : Nat)
  | TransferDebited (transferId transactionId : Option String)
  | TransferCreditStarted (transferId : Option String) (transactionId : String) (creditAttempts : Nat)
  | TransferCompleted (transferId : Option String)
  | TransferFailed (transferId : Option String) (reason : String) (stage : FailureStage)
  | TransferCompensationStarted (transferId : Option String) (transactionId : String)
      (compensationAttempts : Nat)
  | TransferCompensated (transferId transactionId : Option String)
  deriving DecidableEq

def EventData.eventType : EventData → String
  | .AccountCreated .. => "AccountCreated"
  | .MoneyDeposited .. => "MoneyDeposited"
  | .MoneyWithdrawn .. => "MoneyWithdrawn"
  | .AccountFrozen .. => "AccountFrozen"
  | .TransferInitiated .. => "TransferInitiated"
  | .TransferDebitStarted .. => "TransferDebitStarted"
  | .TransferDebited .. => "TransferDebited"
  | .TransferCreditStarted .. => "TransferCreditStarted"
  | .TransferCompleted .. => "TransferCompleted"
  | .TransferFailed .. => "TransferFailed"
  | .TransferCompensationStarted .. => "TransferCompensationStarted"
  | .TransferCompensated .. => "TransferCompensated"

structure DomainEvent where
  eventId : String
  streamId : String
  streamVersion : Nat
  occurredAt : Time
  data : EventData
  metadata : CommandContext
  deriving DecidableEq

structure Stamp where
  eventId : String
  occurredAt : Time
  deriving DecidableEq, Repr

end CoreBanking
