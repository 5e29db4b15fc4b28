import CoreBanking.Events

/-!
# The account aggregate

An account is replayed from the events of its stream. A command checks its
guards on the replayed account and applies one new event; each command has one
inversion lemma, which says all that follows from its being accepted.
-/

namespace CoreBanking

inductive AccountStatus where
  | ACTIVE
  | FROZEN
  deriving DecidableEq, Repr

structure AccountAggregate where
  accountId : Option String := none
  ownerId : Option String := none
  currency : Option String := none
  status : AccountStatus := .ACTIVE
  balanceMinorUnits : Int := 0
  version : Nat := 0
  uncommittedEvents : List DomainEvent := []
  deriving DecidableEq

structure AccountSnapshotState where
  accountId : Option String
  ownerId : Option String
  currency : Option String
  status : AccountStatus
  balanceMinorUnits : Int
  deriving DecidableEq

def accountStream (accountId : String) : String := "account-" ++ accountId

namespace AccountAggregate

def when (account : AccountAggregate) (event : DomainEvent) : AccountAggregate :=
  let account := { account with version := event.streamVersion }
  match event.data with
  | .AccountCreated accountId ownerId currency =>
    { account with accountId := some accountId, ownerId := some ownerId, currency := some currency, status := .ACTIVE }
  | .MoneyDeposited _ amount _ _ =>
    { account with balanceMinorUnits := account.balanceMinorUnits + amount.minorUnits }
  | .MoneyWithdrawn _ amount _ _ =>
    { account with balanceMinorUnits := account.balanceMinorUnits - amount.minorUnits }
  | .AccountFrozen _ _ => { account with status := .FROZEN }
  | _ => account

def apply (account : AccountAggregate) (event : DomainEvent) : AccountAggregate :=
  { account.when event with uncommittedEvents := account.uncommittedEvents ++ [event] }

def loadFromHistory (account : AccountAggregate) (events : List DomainEvent) : AccountAggregate :=
  events.foldl when account

def pullUncommittedEvents (account : AccountAggregate) : List DomainEvent × AccountAggregate :=
  (account.uncommittedEvents, { account with uncommittedEvents := [] })

def makeEvent (account : AccountAggregate) (data : EventData) (context : CommandContext) (streamId : String)
    (stamp : Stamp) : DomainEvent where
  eventId := stamp.eventId
  streamId := streamId
  streamVersion := account.version + 1
  occurredAt := stamp.occurredAt
  data := data
  metadata := context

/-! ## Commands -/

def create (account : AccountAggregate) (accountId ownerId currency : String) (context : CommandContext)
    (stamp : Stamp) : Except Failure AccountAggregate :=
  if truthy account.accountId then .error (.badRequest "Account already exists")
  else .ok (account.apply
    (account.makeEvent (.AccountCreated accountId ownerId currency) context (accountStream accountId) stamp))

def ensureActive (account : AccountAggregate) : Except Failure Unit :=
  if account.status ≠ .ACTIVE then .error (.badRequest "Account is not active") else .ok ()

def ensureCurrency (account : AccountAggregate) (currency : String) : Except Failure Unit :=
  if account.currency ≠ some currency then
    .error (.badRequest
      s!"Currency mismatch. Account currency={orUndefined account.currency}, request={currency}")
  else .ok ()

def deposit (account : AccountAggregate) (amount : Amount) (currency transactionId : String)
    (context : CommandContext) (stamp : Stamp) : Except Failure AccountAggregate := do
  account.ensureActive
  account.ensureCurrency currency
  let amountMinorUnits ← parseMoneyToMinorUnits amount
  if amountMinorUnits ≤ 0 then .error (.badRequest "Deposit amount must be positive")
  else .ok (account.apply
    (account.makeEvent (.MoneyDeposited account.accountId (.format amountMinorUnits) currency transactionId)
      context (accountStream (orUndefined account.accountId)) stamp))

def withdraw (account : AccountAggregate) (amount : Amount) (currency transactionId : String)
    (context : CommandContext) (stamp : Stamp) : Except Failure AccountAggregate := do
  account.ensureActive
  account.ensureCurrency currency
  let amountMinorUnits ← parseMoneyToMinorUnits amount
  if amountMinorUnits ≤ 0 then .error (.badRequest "Withdraw amount must be positive")
  else if account.balanceMinorUnits < amountMinorUnits then .error (.badRequest "Insufficient funds")
  else .ok (account.apply
    (account.makeEvent (.MoneyWithdrawn account.accountId (.format amountMinorUnits) currency transactionId)
      context (accountStream (orUndefined account.accountId)) stamp))

def freeze (account : AccountAggregate) (reason : String) (context : CommandContext) (stamp : Stamp) :
    Except Failure AccountAggregate :=
  if reason = "" then .error (.badRequest "Freeze reason is required")
  else if account.status = .FROZEN then .error (.badRequest "Account already frozen")
  else .ok (account.apply
    (account.makeEvent (.AccountFrozen account.accountId reason) context
      (accountStream (orUndefined account.accountId)) stamp))

/-! ## Snapshots -/

def getSnapshotState (account : AccountAggregate) : AccountSnapshotState where
  accountId := account.accountId
  ownerId := account.ownerId
  currency := account.currency
  status := account.status
  balanceMinorUnits := account.balanceMinorUnits

def restoreSnapshot (account : AccountAggregate) (state : AccountSnapshotState) (version : Nat) :
    AccountAggregate :=
  { account with
    accountId := state.accountId
    ownerId := state.ownerId
    currency := state.currency
    status := state.status
    balanceMinorUnits := state.balanceMinorUnits
    version := version }

def replay (events : List DomainEvent) : AccountAggregate := loadFromHistory {} events

end AccountAggregate

/-- The calls of the aggregate, with any amounts. -/
inductive AccountMethod where
  | create (accountId ownerId currency : String)
  | deposit (amount : Amount) (currency transactionId : String)
  | withdraw (amount : Amount) (currency transactionId : String)
  | freeze (reason : String)

namespace AccountMethod

def call (context : CommandContext) (stamp : Stamp) (account : AccountAggregate) :
    AccountMethod → Except Failure AccountAggregate
  | .create accountId ownerId currency => account.create accountId ownerId currency context stamp
  | .deposit amount currency transactionId => account.deposit amount currency transactionId context stamp
  | .withdraw amount currency transactionId => account.withdraw amount currency transactionId context stamp
  | .freeze reason => account.freeze reason context stamp

/-- The event a call makes of an account that accepts it: its data and the stream
it names, with all the guards that were passed. -/
inductive Emits (account : AccountAggregate) : AccountMethod → EventData → String → Prop
  | create {accountId ownerId currency} : truthy account.accountId = false →
      Emits account (.create accountId ownerId currency) (.AccountCreated accountId ownerId currency)
        (accountStream accountId)
  | deposit {amount currency transactionId} {n : Int} : account.status = .ACTIVE →
      account.currency = some currency → parseMoneyToMinorUnits amount = .ok n → 0 < n →
      Emits account (.deposit amount currency transactionId)
        (.MoneyDeposited account.accountId (.format n) currency transactionId)
        (accountStream (orUndefined account.accountId))
  | withdraw {amount currency transactionId} {n : Int} : account.status = .ACTIVE →
      account.currency = some currency → parseMoneyToMinorUnits amount = .ok n → 0 < n →
      n ≤ account.balanceMinorUnits →
      Emits account (.withdraw amount currency transactionId)
        (.MoneyWithdrawn account.accountId (.format n) currency transactionId)
        (accountStream (orUndefined account.accountId))
  | freeze {reason} : reason ≠ "" → account.status = .ACTIVE →
      Emits account (.freeze reason) (.AccountFrozen account.accountId reason)
        (accountStream (orUndefined account.accountId))

end AccountMethod

inductive AccountCommand where
  | CreateAccount (accountId ownerId currency : String) (context : CommandContext)
  | DepositMoney (accountId : String) (amount : JsNumber) (currency : String) (context : CommandContext)
      (transactionId : String)
  | WithdrawMoney (accountId : String) (amount : JsNumber) (currency : String) (context : CommandContext)
      (transactionId : String)
  | FreezeAccount (accountId reason : String) (context : CommandContext)
  deriving DecidableEq

namespace AccountCommand

def accountId : AccountCommand → String
  | .CreateAccount accountId .. => accountId
  | .DepositMoney accountId .. => accountId
  | .WithdrawMoney accountId .. => accountId
  | .FreezeAccount accountId .. => accountId

def context : AccountCommand → CommandContext
  | .CreateAccount _ _ _ context => context
  | .DepositMoney _ _ _ context _ => context
  | .WithdrawMoney _ _ _ context _ => context
  | .FreezeAccount _ _ context => context

def operation (stamp : Stamp) (account : AccountAggregate) : AccountCommand → Except Failure AccountAggregate
  | .CreateAccount accountId ownerId currency context => account.create accountId ownerId currency context stamp
  | .DepositMoney _ amount currency context transactionId =>
    account.deposit (.number amount) currency transactionId context stamp
  | .WithdrawMoney _ amount currency context transactionId =>
    account.withdraw (.number amount) currency transactionId context stamp
  | .FreezeAccount _ reason context => account.freeze reason context stamp

def method : AccountCommand → AccountMethod
  | .CreateAccount accountId ownerId currency _ => .create accountId ownerId currency
  | .DepositMoney _ amount currency _ transactionId => .deposit (.number amount) currency transactionId
  | .WithdrawMoney _ amount currency _ transactionId => .withdraw (.number amount) currency transactionId
  | .FreezeAccount _ reason _ => .freeze reason

def Emits (account : AccountAggregate) (cmd : AccountCommand) : EventData → String → Prop :=
  cmd.method.Emits account

end AccountCommand

/-! ## What an accepted command has passed -/

namespace AccountAggregate

variable {account account' : AccountAggregate} {stamp : Stamp}

/-- What the two money commands check before they look at the amount. -/
theorem guarded_eq {amount : Amount} {currency : String} {k : Int → Except Failure AccountAggregate} :
    (do
      account.ensureActive
      account.ensureCurrency currency
      let n ← parseMoneyToMinorUnits amount
      k n) =
    if account.status ≠ .ACTIVE then .error (.badRequest "Account is not active")
    else if account.currency ≠ some currency then .error (.badRequest
      s!"Currency mismatch. Account currency={orUndefined account.currency}, request={currency}")
    else match parseMoneyToMinorUnits amount with
      | .error e => .error e
      | .ok n => k n := by
  unfold ensureActive ensureCurrency
  by_cases hs : account.status ≠ .ACTIVE
  · simp only [if_pos hs]; rfl
  · by_cases hc : account.currency ≠ some currency
    · simp only [if_neg hs, if_pos hc]; rfl
    · simp only [if_neg hs, if_neg hc]
      cases parseMoneyToMinorUnits amount <;> rfl

theorem guarded_ok {amount : Amount} {currency : String} {k : Int → Except Failure AccountAggregate}
    (h : (do
      account.ensureActive
      account.ensureCurrency currency
      let n ← parseMoneyToMinorUnits amount
      k n) = .ok account') :
    account.status = .ACTIVE ∧ account.currency = some currency ∧
      ∃ n, parseMoneyToMinorUnits amount = .ok n ∧ k n = .ok account' := by
  rw [guarded_eq] at h
  split at h
  · cases h
  · split at h
    · cases h
    case isFalse hs hc =>
      cases hn : parseMoneyToMinorUnits amount with
      | error e => rw [hn] at h; cases h
      | ok n => rw [hn] at h; exact ⟨Classical.not_not.mp hs, Classical.not_not.mp hc, n, rfl, h⟩

end AccountAggregate

/-- **Inversion.** An accepted call applied one event. -/
theorem AccountMethod.call_ok {context : CommandContext} {stamp : Stamp} {account account' : AccountAggregate}
    {method : AccountMethod} (h : method.call context stamp account = .ok account') :
    ∃ data streamId, method.Emits account data streamId ∧
      account' = account.apply (account.makeEvent data context streamId stamp) := by
  cases method with
  | create accountId ownerId currency =>
    simp only [call, AccountAggregate.create] at h
    split at h
    · cases h
    case isFalse hid =>
      exact ⟨_, _, .create (by simpa using hid), (Except.ok.inj h).symm⟩
  | deposit amount currency transactionId =>
    obtain ⟨hs, hc, n, hn, hk⟩ := AccountAggregate.guarded_ok h
    split at hk
    · cases hk
    · exact ⟨_, _, .deposit hs hc hn (by omega), (Except.ok.inj hk).symm⟩
  | withdraw amount currency transactionId =>
    obtain ⟨hs, hc, n, hn, hk⟩ := AccountAggregate.guarded_ok h
    split at hk
    · cases hk
    · split at hk
      · cases hk
      · exact ⟨_, _, .withdraw hs hc hn (by omega) (by omega), (Except.ok.inj hk).symm⟩
  | freeze reason =>
    simp only [call, AccountAggregate.freeze] at h
    split at h
    · cases h
    · split at h
      · cases h
      case isFalse hr hs =>
        refine ⟨_, _, .freeze hr ?_, (Except.ok.inj h).symm⟩
        cases hst : account.status with
        | ACTIVE => rfl
        | FROZEN => exact absurd hst hs

theorem AccountCommand.operation_eq (stamp : Stamp) (account : AccountAggregate) (cmd : AccountCommand) :
    cmd.operation stamp account = cmd.method.call cmd.context stamp account := by
  cases cmd <;> rfl

theorem AccountCommand.operation_ok {stamp : Stamp} {account account' : AccountAggregate} {cmd : AccountCommand}
    (h : cmd.operation stamp account = .ok account') :
    ∃ data streamId, cmd.Emits account data streamId ∧
      account' = account.apply (account.makeEvent data cmd.context streamId stamp) := by
  rw [operation_eq] at h
  exact AccountMethod.call_ok h

/-- Errors of the domain: a guard that failed, or an amount that cannot be read. -/
inductive Failure.Domain : Failure → Prop
  | badRequest (message) : Domain (.badRequest message)
  | error (message) : Domain (.error message)

theorem AccountCommand.operation_error {stamp : Stamp} {account : AccountAggregate} {cmd : AccountCommand}
    {e : Failure} (h : cmd.operation stamp account = .error e) : e.Domain := by
  have hguarded : ∀ {amount currency} {k : Int → Except Failure AccountAggregate},
      (∀ n e, k n = .error e → e.Domain) →
      (do
        account.ensureActive
        account.ensureCurrency currency
        let n ← parseMoneyToMinorUnits amount
        k n) = .error e → e.Domain := by
    intro amount currency k hk h
    rw [AccountAggregate.guarded_eq] at h
    split at h
    · cases h; exact .badRequest _
    · split at h
      · cases h; exact .badRequest _
      · cases hn : parseMoneyToMinorUnits amount with
        | error e' => rw [hn] at h; cases h; exact parse_error hn ▸ .error _
        | ok n => rw [hn] at h; exact hk n e h
  cases cmd with
  | CreateAccount accountId ownerId currency context =>
    simp only [operation, AccountAggregate.create] at h
    split at h <;> cases h
    exact .badRequest _
  | DepositMoney accountId amount currency context transactionId =>
    refine hguarded (fun n e hk => ?_) h
    split at hk <;> cases hk
    exact .badRequest _
  | WithdrawMoney accountId amount currency context transactionId =>
    refine hguarded (fun n e hk => ?_) h
    split at hk
    · cases hk; exact .badRequest _
    · split at hk <;> cases hk
      exact .badRequest _
  | FreezeAccount accountId reason context =>
    simp only [operation, AccountAggregate.freeze] at h
    split at h
    · cases h; exact .badRequest _
    · split at h <;> cases h
      exact .badRequest _

end CoreBanking
