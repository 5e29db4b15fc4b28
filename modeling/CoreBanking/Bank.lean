import CoreBanking.AccountWrites

/-!
# The bank

API requests and coordinator passes, as many as there may be, over one set of
stores. Each program of the bank may hold something that is its own for a time:
a transaction id or an idempotency key whose handler it runs and has committed
nothing for. `BankInv` ties the records to the events and to these holdings.
-/

namespace CoreBanking

inductive BankRequest where
  | createAccount (idempotencyKey : Option String) (dto : CreateAccountDto)
  | deposit (idempotencyKey : Option String) (accountId : String) (dto : MoneyDto)
  | withdraw (idempotencyKey : Option String) (accountId : String) (dto : MoneyDto)
  | freeze (idempotencyKey : Option String) (accountId : String) (dto : FreezeAccountDto)
  | initiateTransfer (idempotencyKey : Option String) (dto : InitiateTransferDto)
  | processTransfer (transferId : String)

namespace BankRequest

def IsApi : BankRequest → Prop
  | .processTransfer _ => False
  | _ => True

section
variable [JsRuntime]

/-- What the validation of a request's body and route leaves. -/
def WellFormed : BankRequest → Prop
  | .createAccount _ dto => dto.accountId ≠ ""
  | .deposit _ accountId _ => accountId ≠ ""
  | .withdraw _ accountId _ => accountId ≠ ""
  | .freeze _ accountId _ => accountId ≠ ""
  | .initiateTransfer _ dto => dto.transferId ≠ "" ∧ dto.amount.IsNumber
  | .processTransfer _ => True

def body [RequestDigest] : BankRequest → Task (Option Response)
  | .createAccount key dto => do
    let response ← AccountsController.createAccount key dto
    return some response
  | .deposit key accountId dto => do
    let response ← AccountsController.deposit key accountId dto
    return some response
  | .withdraw key accountId dto => do
    let response ← AccountsController.withdraw key accountId dto
    return some response
  | .freeze key accountId dto => do
    let response ← AccountsController.freeze key accountId dto
    return some response
  | .initiateTransfer key dto => do
    let response ← TransfersController.initiateTransfer key dto
    return some response
  | .processTransfer transferId => do
    TransferCoordinatorService.processTransfer transferId
    return none

end

end BankRequest

/-- `admits` and `allows` restrict the runs. -/
def bank [JsRuntime] [RequestDigest] (F : FaultModel) (admits : BankRequest → Prop)
    (allows : BankRequest → StoreOp → Store → Prop) : Service BankRequest (Option Response) where
  faults := F
  admits q := q.WellFormed ∧ admits q
  allows := allows
  body := BankRequest.body
  crashes := True

abbrev BankConfig := Config StoreOp StoreOp.Result Failure (World BankRequest) BankRequest (Option Response)

/-! ## Movements and legs -/

def EventData.movement : EventData → Option String
  | .MoneyDeposited _ _ _ transactionId => some transactionId
  | .MoneyWithdrawn _ _ _ transactionId => some transactionId
  | _ => none

theorem EventData.movement_of_first {data : EventData}
    (h : data.isAccountCreated = true ∨ data.isAccountFrozen = true) : data.movement = none := by
  cases data <;> simp_all [isAccountCreated, isAccountFrozen, movement]

namespace AccountStream

variable {accountId : String} {es : List DomainEvent}

/-- Money is moved on accounts that have been created. -/
theorem created (h : AccountStream accountId es) (hcurrency : (AccountAggregate.replay es).currency ≠ none) :
    (AccountAggregate.replay es).accountId = some accountId := by
  induction h with
  | nil => exact absurd rfl hcurrency
  | @commit es method context event h hid hc ih =>
    obtain ⟨stamp, he⟩ := hc
    rw [AccountAggregate.replay_snoc] at hcurrency ⊢
    cases he with
    | create hnew =>
      obtain rfl := hid _ rfl
      rfl
    | deposit => exact ih hcurrency
    | withdraw => exact ih hcurrency
    | freeze => exact ih hcurrency

theorem movement_accountId (h : AccountStream accountId es) :
    ∀ event ∈ es, event.data.movement ≠ none → event.data.accountId = some accountId := by
  induction h with
  | nil => simp
  | @commit es method context event h hid hc ih =>
    intro e he hmovement
    rcases List.mem_append.mp he with he | he
    · exact ih e he hmovement
    · obtain rfl := List.mem_singleton.mp he
      obtain ⟨stamp, hemits⟩ := hc
      cases hemits with
      | create | freeze => exact absurd rfl hmovement
      | deposit hs hcur => exact h.created (by rw [hcur]; simp)
      | withdraw hs hcur => exact h.created (by rw [hcur]; simp)

theorem transferId_none (h : AccountStream accountId es) : ∀ event ∈ es, event.data.transferId = none := by
  induction h with
  | nil => simp
  | @commit es method context event h hid hc ih =>
    intro e he
    rcases List.mem_append.mp he with he | he
    · exact ih e he
    · obtain rfl := List.mem_singleton.mp he
      obtain ⟨stamp, hemits⟩ := hc
      cases hemits <;> rfl

end AccountStream

namespace Leg

def accountOf : Leg → TransferTerms → String
  | .credit, terms => terms.destinationAccountId
  | _, terms => terms.sourceAccountId

def data (leg : Leg) (terms : TransferTerms) (accountId : Option String) (transactionId : String) : EventData :=
  match leg with
  | .debit => .MoneyWithdrawn accountId (.format terms.amountMinorUnits) terms.currency transactionId
  | _ => .MoneyDeposited accountId (.format terms.amountMinorUnits) terms.currency transactionId

def Earned (es : List DomainEvent) : Leg → Prop
  | .debit => (termsOf es).isSome = true
  | .credit => ∃ e ∈ es, e.data.finished = some .debit
  | .compensation => ∃ e ∈ es, e.data.failed = some .CREDIT

end Leg

theorem legId_toList (t : String) (leg : Leg) : (legId t leg).toList = t.toList ++ leg.suffix.toList :=
  String.toList_append

/-- The id of a leg tells the transfer and the leg. -/
theorem legId_inj {t t' : String} {leg leg' : Leg} (h : legId t leg = legId t' leg') : t = t' ∧ leg = leg' := by
  have hl := congrArg String.toList h
  rw [legId_toList, legId_toList] at hl
  have hsuf : leg = leg' := by
    have hr := congrArg (fun l => l.reverse.take 3) hl
    cases leg <;> cases leg' <;> first | rfl | (simp [Leg.suffix] at hr)
  subst hsuf
  exact ⟨String.toList_inj.mp (List.append_cancel_right hl), rfl⟩

theorem Leg.Earned.mono {es fs : List DomainEvent} {leg : Leg} (h : leg.Earned es) (hp : es <+: fs) :
    leg.Earned fs := by
  cases leg with
  | debit =>
    obtain ⟨terms, ht⟩ := Option.isSome_iff_exists.mp h
    exact Option.isSome_iff_exists.mpr ⟨terms, termsOf_mono hp ht⟩
  | credit => obtain ⟨e, he, hf⟩ := h; exact ⟨e, hp.subset he, hf⟩
  | compensation => obtain ⟨e, he, hf⟩ := h; exact ⟨e, hp.subset he, hf⟩

/-- The event `e` moves what the leg has to move, and was written by the
coordinator. -/
structure LegMovement (t : String) (leg : Leg) (terms : TransferTerms) (streamId : String) (e : DomainEvent) :
    Prop where
  stream : streamId = accountStream (leg.accountOf terms)
  data : ∃ accountId, e.data = leg.data terms accountId (legId t leg)
  context : e.metadata.correlationId = t

namespace Store

def Recorded (s : Store) (transactionId : String) : Prop := ∃ record, s.transactions.get transactionId = some record

def Moved (s : Store) (transactionId : String) : Prop :=
  ∃ streamId, ∃ e ∈ s.stream streamId, e.data.movement = some transactionId

def Produced (s : Store) (idempotencyKey : String) : Prop :=
  ∃ streamId, ∃ e ∈ s.stream streamId, e.metadata.commandId = idempotencyKey

theorem Le.moved {s s' : Store} (h : s.Le s') {x : String} (hm : s.Moved x) : s'.Moved x := by
  obtain ⟨streamId, e, he, hx⟩ := hm
  exact ⟨streamId, e, h.mem_stream he, hx⟩

end Store

/-! ## Runs one can look at -/

@[reducible] def plainDigest : RequestDigest where
  hashRequest operation payload :=
    match payload with
    | .create dto => s!"{operation}:{dto.accountId}:{dto.ownerId}:{dto.currency}"
    | .money accountId dto => s!"{operation}:{accountId}:{dto.amount.text}:{dto.currency}:{dto.transactionId}"
    | .freeze accountId dto => s!"{operation}:{accountId}:{dto.reason}"
    | .initiate dto =>
      s!"{operation}:{dto.transferId}:{dto.sourceAccountId}:{dto.destinationAccountId}:{dto.amount.text}:{dto.currency}"

def openings : List BankRequest :=
  [.createAccount (some "key-1") ⟨"acc-1", "owner-1", "EUR", none⟩,
    .createAccount (some "key-2") ⟨"acc-2", "owner-2", "EUR", none⟩,
    .deposit (some "key-3") "acc-1" ⟨⟨"1000.25"⟩, "EUR", "tx-1", none⟩,
    .initiateTransfer (some "key-4") ⟨"t-1", "acc-1", "acc-2", ⟨"5.25"⟩, "EUR"⟩]

def transferRequests : List BankRequest := openings ++ [.processTransfer "t-1", .processTransfer "t-1"]

theorem openings_wellFormed : ∀ q ∈ openings, @BankRequest.WellFormed decimalRuntime q := by
  simp only [openings, List.mem_cons, List.not_mem_nil, or_false]
  rintro q (rfl | rfl | rfl | rfl)
  · exact show "acc-1" ≠ "" by decide
  · exact show "acc-2" ≠ "" by decide
  · exact show "acc-1" ≠ "" by decide
  · exact ⟨show "t-1" ≠ "" by decide, "5.25", rfl⟩

theorem transferRequests_wellFormed : ∀ q ∈ transferRequests, @BankRequest.WellFormed decimalRuntime q := by
  intro q hq
  rcases List.mem_append.mp hq with hq | hq
  · exact openings_wellFormed q hq
  · simp only [List.mem_cons, List.not_mem_nil, or_false, or_self] at hq
    subst hq
    trivial

section
variable (F : FaultModel) (admits : BankRequest → Prop) (allows : BankRequest → StoreOp → Store → Prop)

abbrev plainBank : Service BankRequest (Option Response) := @bank decimalRuntime plainDigest F admits allows

def plainRun (plan : BankRequest → StoreOp → Service.Plan) (qs : List BankRequest) : BankConfig :=
  (plainBank F admits allows).serveAll 60 plan qs

variable {F admits allows}

theorem plainRun_reachable {plan : BankRequest → StoreOp → Service.Plan} {qs : List BankRequest}
    (hwell : ∀ q ∈ qs, @BankRequest.WellFormed decimalRuntime q) (hadmits : ∀ q ∈ qs, admits q)
    (hplan : ∀ q ∈ qs, (plainBank F admits allows).Permits q (plan q)) :
    (plainBank F admits allows).system.Reachable (plainRun F admits allows plan qs) :=
  Service.reachable_serveAll 60 (fun q hq => ⟨hwell q hq, hadmits q hq⟩) hplan

theorem plainBank_permits {q : BankRequest} :
    (plainBank F admits fun _ _ _ => True).Permits q fun _ => .answer :=
  Service.permits_answer fun _ _ => trivial

end

end CoreBanking
