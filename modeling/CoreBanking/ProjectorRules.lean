import CoreBanking.Projectors

/-!
# What the projectors do

The four handlers of the account projector have one shape: read the summary,
advance it, ask the transfers for details, store the new summary, append the
entry. `project_eq` says so once, and the proofs about deliveries start there.
-/

namespace CoreBanking

variable [JsRuntime]

namespace AccountProjector

def firstSummary (event : DomainEvent) (accountId ownerId currency : String) : AccountSummaryReadModel where
  accountId := some accountId
  ownerId := ownerId
  currency := currency
  status := .ACTIVE
  balanceMinorUnits := 0
  balance := ⟨"0"⟩
  version := event.streamVersion
  createdAt := event.occurredAt
  updatedAt := event.occurredAt

def nextSummary (summary : AccountSummaryReadModel) (event : DomainEvent) : AccountSummaryReadModel :=
  let summary := { summary with version := event.streamVersion, updatedAt := event.occurredAt }
  let moved (balanceMinorUnits : Int) : AccountSummaryReadModel :=
    { summary with balanceMinorUnits := balanceMinorUnits, balance := minorUnitsToNumber balanceMinorUnits }
  match event.data with
  | .MoneyDeposited _ amount _ _ => moved (summary.balanceMinorUnits + amount.minorUnits)
  | .MoneyWithdrawn _ amount _ _ => moved (summary.balanceMinorUnits - amount.minorUnits)
  | .AccountFrozen _ _ => { summary with status := .FROZEN }
  | _ => summary

@[simp] theorem nextSummary_accountId (summary : AccountSummaryReadModel) (event : DomainEvent) :
    (nextSummary summary event).accountId = summary.accountId := by
  unfold nextSummary
  dsimp only
  split <;> rfl

@[simp] theorem nextSummary_version (summary : AccountSummaryReadModel) (event : DomainEvent) :
    (nextSummary summary event).version = event.streamVersion := by
  unfold nextSummary
  dsimp only
  split <;> rfl

/-- What a handler makes of the summary it has read: an error, nothing if the
event is an old one, or the summary to store. -/
def advance (event : DomainEvent) :
    Option AccountSummaryReadModel → Except Failure (Option AccountSummaryReadModel)
  | none =>
    match event.data with
    | .AccountCreated accountId ownerId currency =>
      if event.streamVersion ≠ 1 then .error (.projectionGap accountId 1 event.streamVersion)
      else .ok (some (firstSummary event accountId ownerId currency))
    | data => .error (.error s!"Projection missing account summary for account {orUndefined data.accountId}")
  | some summary =>
    if event.streamVersion ≤ summary.version then .ok none
    else if event.data.isAccountCreated ∨ event.streamVersion ≠ summary.version + 1 then
      .error (.projectionGap (orUndefined event.data.accountId) (summary.version + 1) event.streamVersion)
    else .ok (some (nextSummary summary event))

def statementEntry (event : DomainEvent) (details : Option TransferStatementDetails) :
    AccountStatementEntryReadModel :=
  match event.data with
  | .MoneyDeposited accountId amount currency transactionId =>
    movementEntry event accountId amount.minorUnits currency transactionId details
  | .MoneyWithdrawn accountId amount currency transactionId =>
    movementEntry event accountId amount.minorUnits currency transactionId details
  | .AccountFrozen accountId reason => {
      eventId := event.eventId
      accountId := accountId
      streamVersion := event.streamVersion
      eventType := event.data.eventType
      reason := some reason
      occurredAt := event.occurredAt }
  | data => {
      eventId := event.eventId
      accountId := data.accountId
      streamVersion := event.streamVersion
      eventType := event.data.eventType
      occurredAt := event.occurredAt }

/-- What a handler asks the transfers before it stores anything. -/
def statementDetails (event : DomainEvent) : Projection (Option TransferStatementDetails) :=
  match event.data with
  | .MoneyDeposited accountId .. => getTransferStatementDetails event accountId
  | .MoneyWithdrawn accountId .. => getTransferStatementDetails event accountId
  | _ => pure none

/-- What the handlers have in common. -/
def shape (event : DomainEvent) (accountId : String) : Projection Bool := do
  let existing : Option AccountSummaryReadModel ← ReadOp.call (.getAccountSummary (some accountId))
  match advance event existing with
  | .error e => throw e
  | .ok none => return true
  | .ok (some next) =>
    let details ← statementDetails event
    ReadOp.call (.upsertAccountSummary next)
    ReadOp.call (.appendAccountStatement (statementEntry event details))
    return true

theorem projectMovement_eq {event : DomainEvent} {accountId : String} {next : Int → Int → Int} {amount : MoneyText}
    {currency transactionId : String} (hid : event.data.accountId = some accountId)
    (hcreated : event.data.isAccountCreated = false)
    (hnext : ∀ summary, nextSummary summary event = { summary with
      balanceMinorUnits := next summary.balanceMinorUnits amount.minorUnits
      balance := minorUnitsToNumber (next summary.balanceMinorUnits amount.minorUnits)
      version := event.streamVersion
      updatedAt := event.occurredAt })
    (hnone : advance event none =
      .error (.error s!"Projection missing account summary for account {orUndefined (some accountId)}"))
    (hdetails : statementDetails event = getTransferStatementDetails event (some accountId))
    (hentry : ∀ details, statementEntry event details =
      movementEntry event (some accountId) amount.minorUnits currency transactionId details) :
    (do projectMovement next event (some accountId) amount currency transactionId; return true) =
      shape event accountId := by
  unfold projectMovement getRequiredSummary shape
  rw [Async.bind_assoc, Async.bind_assoc]
  refine bind_congr fun existing => ?_
  cases existing with
  | none => rw [hnone]; rfl
  | some summary =>
    simp only [Async.pure_bind, hdetails]
    by_cases hv : event.streamVersion ≤ summary.version
    · simp only [advance, if_pos hv, Async.pure_bind]
    · by_cases hs : event.streamVersion ≠ summary.version + 1
      · simp [advance, hv, hs, ensureSequentialVersion, hid]
      · have hseq : ensureSequentialVersion (some accountId) summary.version event.streamVersion = .ok () := by
          simp only [ensureSequentialVersion, if_neg hs]
        have hadvance : advance event (some summary) = .ok (some (nextSummary summary event)) := by
          simp only [advance, if_neg hv, hcreated, Bool.false_eq_true, false_or, if_neg hs]
        simp only [if_neg hv, hseq, amount.parse, Async.ofExcept_ok_bind, hadvance, hnext, Async.bind_assoc]
        exact bind_congr fun details => by rw [hentry]

theorem project_eq {event : DomainEvent} {accountId : String} (hid : event.data.accountId = some accountId) :
    project event = shape event accountId := by
  unfold project
  cases hd : event.data with
  | AccountCreated accountId' ownerId currency =>
    rw [hd] at hid
    cases hid
    dsimp only
    unfold projectAccountCreated shape
    rw [Async.bind_assoc]
    refine bind_congr fun existing => ?_
    cases existing with
    | none =>
      by_cases hv : event.streamVersion ≠ 1
      · simp [advance, hd, hv]
      · have hentry : statementEntry event none = {
            eventId := event.eventId
            accountId := some accountId
            streamVersion := event.streamVersion
            eventType := event.data.eventType
            occurredAt := event.occurredAt } := by
          simp only [statementEntry, hd, EventData.accountId]
        simp only [advance, hd, if_neg hv, statementDetails, Async.bind_assoc, Async.pure_bind]
        rw [hentry]
        rfl
    | some summary =>
      by_cases hv : event.streamVersion ≤ summary.version
      · simp [advance, hv]
      · simp [advance, hv, hd, EventData.isAccountCreated, EventData.accountId, orUndefined]
  | MoneyDeposited accountId' amount currency transactionId =>
    have hid' := hid
    rw [hd] at hid'
    obtain rfl : accountId' = some accountId := hid'
    refine projectMovement_eq hid (by rw [hd]; rfl) ?_ ?_ ?_ ?_
    · simp [nextSummary, hd]
    · simp [advance, hd, EventData.accountId]
    · simp [statementDetails, hd]
    · simp [statementEntry, hd]
  | MoneyWithdrawn accountId' amount currency transactionId =>
    have hid' := hid
    rw [hd] at hid'
    obtain rfl : accountId' = some accountId := hid'
    refine projectMovement_eq hid (by rw [hd]; rfl) ?_ ?_ ?_ ?_
    · simp [nextSummary, hd]
    · simp [advance, hd, EventData.accountId]
    · simp [statementDetails, hd]
    · simp [statementEntry, hd]
  | AccountFrozen accountId' reason =>
    have hid' := hid
    rw [hd] at hid'
    obtain rfl : accountId' = some accountId := hid'
    dsimp only
    unfold projectAccountFrozen getRequiredSummary shape
    simp only [Async.bind_assoc]
    refine bind_congr fun existing => ?_
    cases existing with
    | none => simp [advance, hd, EventData.accountId]
    | some summary =>
      by_cases hv : event.streamVersion ≤ summary.version
      · simp [advance, hv]
      · by_cases hs : event.streamVersion ≠ summary.version + 1
        · simp [advance, hv, hs, ensureSequentialVersion, hid]
        · have hseq : ensureSequentialVersion (some accountId) summary.version event.streamVersion = .ok () := by
            simp only [ensureSequentialVersion, if_neg hs]
          have hadvance : advance event (some summary) = .ok (some (nextSummary summary event)) := by
            simp [advance, hv, hs, hd, EventData.isAccountCreated]
          have hnext : nextSummary summary event = { summary with
              status := .FROZEN
              version := event.streamVersion
              updatedAt := event.occurredAt } := by
            simp only [nextSummary, hd]
          have hentry : statementEntry event none = {
              eventId := event.eventId
              accountId := some accountId
              streamVersion := event.streamVersion
              eventType := event.data.eventType
              reason := some reason
              occurredAt := event.occurredAt } := by
            simp only [statementEntry, hd]
          simp only [Async.pure_bind, if_neg hv, hseq, Async.ofExcept_ok_bind, hadvance, statementDetails, hd, hnext,
            Async.bind_assoc]
          rw [hentry]
  | _ => rw [hd] at hid; cases hid

/-! ## Alone -/

omit [JsRuntime] in
theorem statementDetails_eval (event : DomainEvent) (s : ReadSide) :
    ∃ details, (statementDetails event).eval ReadSide.perform s = (.ok details, s) := by
  have hget : ∀ accountId, ∃ details,
      (getTransferStatementDetails event accountId).eval ReadSide.perform s = (.ok details, s) := by
    intro accountId
    unfold getTransferStatementDetails
    by_cases hid : event.metadata.correlationId = ""
    · exact ⟨none, by simp only [if_pos hid]; rfl⟩
    · simp only [if_neg hid, Async.eval_bind]
      cases hfound : s.transfers.get (some event.metadata.correlationId) with
      | none =>
        simp only [Async.eval, Async.call, ReadSide.perform, hfound]
        exact ⟨none, rfl⟩
      | some transfer =>
        simp only [Async.eval, Async.call, ReadSide.perform, hfound]
        exact ⟨_, rfl⟩
  unfold statementDetails
  split
  · exact hget _
  · exact hget _
  · exact ⟨none, rfl⟩

/-- The event is handled by the summary that was read. -/
theorem project_eval {event : DomainEvent} {accountId : String} (hid : event.data.accountId = some accountId)
    (s : ReadSide) : ∃ details, (project event).eval ReadSide.perform s =
      match advance event (s.summaries.get (some accountId)) with
      | .error e => (.error e, s)
      | .ok none => (.ok true, s)
      | .ok (some next) =>
        (.ok true, (s.upsertAccountSummary next).appendAccountStatement (statementEntry event details)) := by
  obtain ⟨details, hdetails⟩ := statementDetails_eval event s
  refine ⟨details, ?_⟩
  rw [project_eq hid, shape, Async.eval_bind]
  show (match advance event (s.summaries.get (some accountId)) with
    | .error e => _
    | .ok none => _
    | .ok (some next) => _ : Projection Bool).eval ReadSide.perform s = _
  cases advance event (s.summaries.get (some accountId)) with
  | error e => rfl
  | ok next =>
    cases next with
    | none => rfl
    | some next =>
      dsimp only
      rw [Async.eval_bind, hdetails]
      rfl

theorem project_transfer {event : DomainEvent} {transferId : String} (hid : event.data.transferId = some transferId) :
    project event = pure false := by
  unfold project
  cases hd : event.data <;> first | rfl | (rw [hd] at hid; cases hid)

end AccountProjector

namespace TransferProjector

def firstSummary (event : DomainEvent) (transferId sourceAccountId destinationAccountId : String) (amount : MoneyText)
    (currency : String) : TransferSummaryReadModel where
  transferId := some transferId
  sourceAccountId := sourceAccountId
  destinationAccountId := destinationAccountId
  amountMinorUnits := amount.minorUnits
  amount := minorUnitsToNumber amount.minorUnits
  currency := currency
  status := .INITIATED
  debitAttempts := 0
  creditAttempts := 0
  compensationAttempts := 0
  createdAt := event.occurredAt
  updatedAt := event.occurredAt

omit [JsRuntime] in
@[simp] theorem nextSummary_transferId (summary : TransferSummaryReadModel) (event : DomainEvent) :
    (nextSummary summary event).transferId = summary.transferId := by
  unfold nextSummary
  split <;> rfl

def advance (event : DomainEvent) (existing : Option TransferSummaryReadModel) :
    Except Failure TransferSummaryReadModel :=
  match event.data, existing with
  | .TransferInitiated transferId sourceAccountId destinationAccountId amount currency, _ =>
    .ok (firstSummary event transferId sourceAccountId destinationAccountId amount currency)
  | data, none => .error (.error s!"Projection missing transfer summary for transfer {orUndefined data.transferId}")
  | _, some existing => .ok (nextSummary existing event)

theorem project_eq {event : DomainEvent} {transferId : String} (hid : event.data.transferId = some transferId) :
    project event = (do
      let existing : Option TransferSummaryReadModel ← ReadOp.call (.getTransferSummary (some transferId))
      match advance event existing with
      | .error e => throw e
      | .ok next =>
        ReadOp.call (.upsertTransferSummary next)
        return true) := by
  unfold project projectTransferEvent
  cases hd : event.data with
  | AccountCreated | MoneyDeposited | MoneyWithdrawn | AccountFrozen => rw [hd] at hid; cases hid
  | TransferInitiated t src dst amount currency =>
    obtain rfl : t = transferId := by rw [hd] at hid; exact Option.some.inj hid
    dsimp only
    rw [Async.bind_assoc]
    refine bind_congr fun existing => ?_
    simp only [advance, hd, amount.parse, Async.ofExcept_ok_bind]
    rfl
  | _ =>
    rw [hd] at hid
    dsimp only
    rw [Async.bind_assoc, hid]
    refine bind_congr fun existing => ?_
    cases existing with
    | none => simp [advance, hd, hid]
    | some existing => simp [advance, hd]

theorem project_eval {event : DomainEvent} {transferId : String} (hid : event.data.transferId = some transferId)
    (s : ReadSide) : (project event).eval ReadSide.perform s =
      match advance event (s.transfers.get (some transferId)) with
      | .error e => (.error e, s)
      | .ok next => (.ok true, s.upsertTransferSummary next) := by
  rw [project_eq hid, Async.eval_bind]
  show (match advance event (s.transfers.get (some transferId)) with
    | .error e => _
    | .ok next => _ : Projection Bool).eval ReadSide.perform s = _
  cases advance event (s.transfers.get (some transferId)) <;> rfl

theorem project_account {event : DomainEvent} {accountId : String} (hid : event.data.accountId = some accountId) :
    project event = pure false := by
  unfold project
  cases hd : event.data <;> first | rfl | (rw [hd] at hid; cases hid)

end TransferProjector

namespace ProjectionRunnerService

theorem projectBoth_account {event : DomainEvent} {accountId : String} (hid : event.data.accountId = some accountId) :
    projectBoth event = AccountProjector.project event >>= fun _ => pure () := by
  rw [projectBoth, TransferProjector.project_account hid]
  rfl

theorem projectBoth_transfer {event : DomainEvent} {transferId : String}
    (hid : event.data.transferId = some transferId) :
    projectBoth event = TransferProjector.project event >>= fun _ => pure () := by
  rw [projectBoth, AccountProjector.project_transfer hid]
  rfl

end ProjectionRunnerService

end CoreBanking
