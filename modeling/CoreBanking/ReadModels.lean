import CoreBanking.Lib.Async
import CoreBanking.Stores
import Mathlib.Data.List.Sort

/-!
# The stores of the read side

The in-memory read models of accounts and transfers, and the event store the
projections read from. An id in the data of an event may be undefined, and is
then the key the maps are asked for. Minor units are kept as decimal text, from
which `BigInt` gets them back.
-/

namespace CoreBanking

structure AccountSummaryReadModel where
  accountId : Option String
  ownerId : String
  currency : String
  status : AccountStatus
  balanceMinorUnits : Int
  balance : JsNumber
  version : Nat
  createdAt : Time
  updatedAt : Time
  deriving DecidableEq

inductive EntryKind where
  | ACCOUNT_OPERATION
  | TRANSFER
  deriving DecidableEq, Repr

inductive TransferDirection where
  | INCOMING
  | OUTGOING
  | REVERSAL
  deriving DecidableEq, Repr

structure AccountStatementEntryReadModel where
  eventId : String
  accountId : Option String
  streamVersion : Nat
  eventType : String
  entryKind : Option EntryKind := none
  amountMinorUnits : Option Int := none
  amount : Option JsNumber := none
  currency : Option String := none
  transactionId : Option String := none
  transferId : Option String := none
  transferDirection : Option TransferDirection := none
  sourceAccountId : Option String := none
  destinationAccountId : Option String := none
  counterpartyAccountId : Option String := none
  description : Option String := none
  reason : Option String := none
  occurredAt : Time
  deriving DecidableEq

structure TransferSummaryReadModel where
  transferId : Option String
  sourceAccountId : String
  destinationAccountId : String
  amountMinorUnits : Int
  amount : JsNumber
  currency : String
  status : TransferStatus
  failureReason : Option String := none
  failureStage : Option FailureStage := none
  sourceDebitTransactionId : Option String := none
  destinationCreditTransactionId : Option String := none
  compensationTransactionId : Option String := none
  debitAttempts : Nat
  creditAttempts : Nat
  compensationAttempts : Nat
  createdAt : Time
  updatedAt : Time
  deriving DecidableEq

structure ReadSide where
  events : EventStore
  summaries : OrderedMap (Option String) AccountSummaryReadModel
  statements : OrderedMap (Option String) (List AccountStatementEntryReadModel)
  transfers : OrderedMap (Option String) TransferSummaryReadModel

namespace ReadSide

def empty (events : EventStore) : ReadSide := ⟨events, .empty, .empty, .empty⟩

def statement (s : ReadSide) (accountId : Option String) : List AccountStatementEntryReadModel :=
  (s.statements.get accountId).getD []

def upsertAccountSummary (s : ReadSide) (summary : AccountSummaryReadModel) : ReadSide :=
  if (s.summaries.get summary.accountId).any fun current => decide (summary.version ≤ current.version) then s
  else { s with summaries := s.summaries.set summary.accountId summary }

/-- `Array.prototype.sort` is stable. -/
def appendAccountStatement (s : ReadSide) (entry : AccountStatementEntryReadModel) : ReadSide :=
  let current := s.statement entry.accountId
  if current.any fun item => item.eventId == entry.eventId then s
  else
    let next := (current ++ [entry]).insertionSort fun left right => left.streamVersion ≤ right.streamVersion
    { s with statements := s.statements.set entry.accountId next }

def upsertTransferSummary (s : ReadSide) (summary : TransferSummaryReadModel) : ReadSide :=
  if (s.transfers.get summary.transferId).any fun current => decide (summary.updatedAt < current.updatedAt) then s
  else { s with transfers := s.transfers.set summary.transferId summary }

end ReadSide

inductive ReadOp where
  | readAll (fromPosition maxCount : Nat)
  | getAccountSummary (accountId : Option String)
  | upsertAccountSummary (summary : AccountSummaryReadModel)
  | appendAccountStatement (entry : AccountStatementEntryReadModel)
  | getTransferSummary (transferId : Option String)
  | upsertTransferSummary (summary : TransferSummaryReadModel)
  deriving DecidableEq

abbrev ReadOp.Result : ReadOp → Type
  | .readAll .. => List PositionedEvent
  | .getAccountSummary _ => Option AccountSummaryReadModel
  | .getTransferSummary _ => Option TransferSummaryReadModel
  | _ => Unit

abbrev Projection (α : Type) := Async ReadOp ReadOp.Result Failure α

abbrev ReadOp.call (op : ReadOp) : Projection op.Result := Async.call op

namespace ReadSide

def perform : (op : ReadOp) → ReadSide → Except Failure op.Result × ReadSide
  | .readAll fromPosition maxCount, s => (.ok (s.events.readAll fromPosition maxCount), s)
  | .getAccountSummary accountId, s => (.ok (s.summaries.get accountId), s)
  | .upsertAccountSummary summary, s => (.ok (), s.upsertAccountSummary summary)
  | .appendAccountStatement entry, s => (.ok (), s.appendAccountStatement entry)
  | .getTransferSummary transferId, s => (.ok (s.transfers.get transferId), s)
  | .upsertTransferSummary summary, s => (.ok (), s.upsertTransferSummary summary)

/-! ## What a call changes -/

variable (s : ReadSide)

@[simp] theorem appendAccountStatement_summaries (entry : AccountStatementEntryReadModel) :
    (s.appendAccountStatement entry).summaries = s.summaries := by
  unfold appendAccountStatement
  dsimp only
  split <;> rfl

@[simp] theorem appendAccountStatement_transfers (entry : AccountStatementEntryReadModel) :
    (s.appendAccountStatement entry).transfers = s.transfers := by
  unfold appendAccountStatement
  dsimp only
  split <;> rfl

@[simp] theorem upsertAccountSummary_transfers (summary : AccountSummaryReadModel) :
    (s.upsertAccountSummary summary).transfers = s.transfers := by
  unfold upsertAccountSummary
  split <;> rfl

@[simp] theorem upsertAccountSummary_statements (summary : AccountSummaryReadModel) :
    (s.upsertAccountSummary summary).statements = s.statements := by
  unfold upsertAccountSummary
  split <;> rfl

@[simp] theorem upsertTransferSummary_summaries (summary : TransferSummaryReadModel) :
    (s.upsertTransferSummary summary).summaries = s.summaries := by
  unfold upsertTransferSummary
  split <;> rfl

@[simp] theorem upsertTransferSummary_statements (summary : TransferSummaryReadModel) :
    (s.upsertTransferSummary summary).statements = s.statements := by
  unfold upsertTransferSummary
  split <;> rfl

theorem perform_events (op : ReadOp) : (perform op s).2.events = s.events := by
  cases op with
  | upsertAccountSummary | appendAccountStatement | upsertTransferSummary =>
    simp only [perform, upsertAccountSummary, appendAccountStatement, upsertTransferSummary]
    split <;> rfl
  | _ => rfl

variable {s}

theorem upsertAccountSummary_newer {summary : AccountSummaryReadModel}
    (h : ∀ current, s.summaries.get summary.accountId = some current → current.version < summary.version) :
    (s.upsertAccountSummary summary).summaries = s.summaries.set summary.accountId summary := by
  unfold upsertAccountSummary
  cases hget : s.summaries.get summary.accountId with
  | none => rfl
  | some current =>
    rw [if_neg (by simpa using h current hget)]

theorem upsertAccountSummary_older {summary current : AccountSummaryReadModel}
    (hget : s.summaries.get summary.accountId = some current) (hle : summary.version ≤ current.version) :
    s.upsertAccountSummary summary = s := by
  simp [upsertAccountSummary, hget, hle]

theorem upsertTransferSummary_get (summary : TransferSummaryReadModel) (transferId : Option String) :
    (∃ current, (s.upsertTransferSummary summary).transfers.get transferId = some current) ↔
      transferId = summary.transferId ∨ ∃ current, s.transfers.get transferId = some current := by
  unfold upsertTransferSummary
  split
  case isTrue hnewer =>
    refine ⟨.inr, fun h => h.elim (fun heq => ?_) id⟩
    cases hget : s.transfers.get summary.transferId with
    | none => simp [hget] at hnewer
    | some current => exact ⟨current, heq ▸ hget⟩
  · simp only [OrderedMap.get_set]
    split
    case isTrue heq =>
      simp [heq]
    case isFalse hne =>
      simp [Ne.symm hne]

structure Keyed (s : ReadSide) : Prop where
  account : ∀ {accountId summary}, s.summaries.get accountId = some summary → summary.accountId = accountId
  transfer : ∀ {transferId summary}, s.transfers.get transferId = some summary → summary.transferId = transferId

theorem Keyed.empty (events : EventStore) : (empty events).Keyed := ⟨nofun, nofun⟩

theorem Keyed.perform (h : s.Keyed) (op : ReadOp) : (perform op s).2.Keyed := by
  cases op with
  | upsertAccountSummary summary =>
    refine ⟨fun {accountId current} hget => ?_, fun hget => h.transfer (by simpa [ReadSide.perform] using hget)⟩
    simp only [ReadSide.perform, ReadSide.upsertAccountSummary] at hget
    split at hget
    · exact h.account hget
    · simp only [OrderedMap.get_set] at hget
      split at hget
      case isTrue heq =>
        exact Option.some.inj hget ▸ heq
      · exact h.account hget
  | appendAccountStatement entry =>
    exact ⟨fun hget => h.account (by simpa [ReadSide.perform] using hget),
      fun hget => h.transfer (by simpa [ReadSide.perform] using hget)⟩
  | upsertTransferSummary summary =>
    refine ⟨fun hget => h.account (by simpa [ReadSide.perform] using hget), fun {transferId current} hget => ?_⟩
    simp only [ReadSide.perform, ReadSide.upsertTransferSummary] at hget
    split at hget
    · exact h.transfer hget
    · simp only [OrderedMap.get_set] at hget
      split at hget
      case isTrue heq =>
        exact Option.some.inj hget ▸ heq
      · exact h.transfer hget
  | _ => exact h

end ReadSide

end CoreBanking
