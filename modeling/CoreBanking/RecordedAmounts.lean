import CoreBanking.Registry
import CoreBanking.CoordinatorRules

/-!
# What the registry records of a movement

The amount of a movement reaches the registry and the account on two paths. A
request of the API takes the same number on both; a leg of a transfer gives the
account the major units as a number, and the registry the minor units as a text,
which is read as major units.
-/

namespace CoreBanking

/-! ## Movements -/

structure Movement where
  accountId : Option String
  operationType : TransactionOperationType
  amountMinorUnits : Int
  currency : String
  deriving DecidableEq

def EventData.moves : EventData → Option Movement
  | .MoneyDeposited accountId amount currency _ => some ⟨accountId, .DEPOSIT, amount.minorUnits, currency⟩
  | .MoneyWithdrawn accountId amount currency _ => some ⟨accountId, .WITHDRAW, amount.minorUnits, currency⟩
  | _ => none

def TransactionRecord.movement (record : TransactionRecord) : Movement where
  accountId := some record.accountId
  operationType := record.operationType
  amountMinorUnits := record.amountMinorUnits
  currency := record.currency

/-- The event was written by a leg: the coordinator alone gives a causation. -/
def DomainEvent.OfLeg (event : DomainEvent) : Prop := event.metadata.causationId ≠ none

instance (event : DomainEvent) : Decidable event.OfLeg := inferInstanceAs (Decidable (_ ≠ _))

/-- Every record says of a movement what its event says. -/
def AmountsRecorded (s : Store) : Prop :=
  ∀ streamId, ∀ event ∈ s.stream streamId, ∀ x record, event.data.movement = some x →
    s.transactions.get x = some record → event.data.moves = some record.movement

/-- A leg's record has a hundred times its amount, and agrees in the rest. -/
structure Overstates (record : TransactionRecord) (event : DomainEvent) (n : Int) : Prop where
  positive : 0 < n
  amount : record.amountMinorUnits = 100 * n
  moves : event.data.moves = some { record.movement with amountMinorUnits := n }

/-- How the record of a movement was made from its event's command. -/
structure Entered [JsRuntime] (s : Store) (record : TransactionRecord) (event : DomainEvent) : Prop where
  own : ¬ event.OfLeg → event.data.moves = some record.movement
  leg : event.OfLeg → ∃ t terms n, termsOf (s.stream (transferStream t)) = some terms ∧
    record.amountMinorUnits = 100 * terms.amountMinorUnits ∧
    parseMoneyToMinorUnits (.number (minorUnitsToNumber terms.amountMinorUnits)) = .ok n ∧
    event.data.moves = some { record.movement with amountMinorUnits := n }

structure RecordBooks [JsRuntime] (api : Prop) (s : Store) : Prop where
  ledger : Ledger s
  own : api → ∀ {streamId}, ∀ event ∈ s.stream streamId, ¬ event.OfLeg
  named : ∀ {t}, s.stream (transferStream t) ≠ [] → t ≠ ""
  entered : ∀ {streamId}, ∀ event ∈ s.stream streamId, ∀ x, event.data.movement = some x →
    ∃ record, s.transactions.get x = some record ∧ Entered s record event

theorem TransactionRecord.SameMovement.movement {record record' : TransactionRecord} (h : record.SameMovement record') :
    record'.movement = record.movement := by
  rw [show record' = { record with status := record'.status, errorMessage := record'.errorMessage } from h]
  rfl

section
variable [JsRuntime] {api : Prop} {s s' : Store} {record : TransactionRecord} {event : DomainEvent}

theorem Entered.mono (h : Entered s record event) (hle : s.Le s') {record' : TransactionRecord}
    (hsame : record.SameMovement record') : Entered s' record' event := by
  have hmovement := hsame.movement
  have hamount : record'.amountMinorUnits = record.amountMinorUnits := congrArg Movement.amountMinorUnits hmovement
  constructor
  · rw [hmovement]
    exact h.own
  · intro hleg
    obtain ⟨t, terms, n, hterms, hrecorded, hn, hmoves⟩ := h.leg hleg
    exact ⟨t, terms, n, termsOf_mono (hle.stream _) hterms, hamount.trans hrecorded, hn, hmovement ▸ hmoves⟩

namespace RecordBooks

theorem empty : RecordBooks api .empty where
  ledger := .empty
  own _ {_} event h := by cases h
  named h := absurd rfl h
  entered event h := by cases h

/-- Whatever happens to the records, as long as no event is appended. -/
theorem of_le (h : RecordBooks api s) (hle : s.Le s') (hevents : s'.events = s.events) (hledger : Ledger s') :
    RecordBooks api s' := by
  have hstream : ∀ streamId, s'.stream streamId = s.stream streamId := fun streamId => by
    rw [Store.stream, hevents]
    rfl
  refine ⟨hledger, fun hapi {streamId} event hevent => h.own hapi event (hstream streamId ▸ hevent),
    fun {t} hne => h.named (hstream _ ▸ hne), fun {streamId} event hevent x hx => ?_⟩
  obtain ⟨record, hget, hentered⟩ := h.entered event (hstream streamId ▸ hevent) x hx
  obtain ⟨record', hget', hsame⟩ := hle.transaction hget
  exact ⟨record', hget', hentered.mono hle hsame⟩

theorem write (h : RecordBooks api s) {streamId : String} (hext : Extends streamId (s.stream streamId) event)
    (hnamed : ∀ t, streamId = transferStream t → t ≠ "") (hown : api → ¬ event.OfLeg)
    (hentered : ∀ x, event.data.movement = some x → ∃ record, s.transactions.get x = some record ∧
      Entered s record event) : RecordBooks api (s.write streamId [event]) := by
  have hle : s.Le (s.write streamId [event]) := ⟨Store.prefix_write h.ledger hext, fun hget => ⟨_, hget, rfl⟩⟩
  have hkept : ∀ {record : TransactionRecord} {event'}, Entered s record event' →
      Entered (s.write streamId [event]) record event' := fun h => h.mono hle rfl
  have hcases : ∀ {streamId'} {event' : DomainEvent}, event' ∈ (s.write streamId [event]).stream streamId' →
      event' ∈ s.stream streamId' ∨ event' = event := fun hevent' =>
    ((Store.mem_write h.ledger hext).mp hevent').imp_right And.right
  refine ⟨h.ledger.write hext, fun hapi {streamId'} event' hevent' => ?_, fun {t} hne => ?_,
    fun {streamId'} event' hevent' x hx => ?_⟩
  · rcases hcases hevent' with hold | rfl
    · exact h.own hapi event' hold
    · exact hown hapi
  · rw [h.ledger.stream_write hext] at hne
    split at hne
    case isTrue heq =>
      exact hnamed t heq
    · exact h.named hne
  · rcases hcases hevent' with hold | rfl
    · obtain ⟨record, hget, hentered'⟩ := h.entered event' hold x hx
      exact ⟨record, hget, hkept hentered'⟩
    · obtain ⟨record, hget, hentered'⟩ := hentered x hx
      exact ⟨record, hget, hkept hentered'⟩

end RecordBooks

end

structure MovesAs [JsRuntime] (operationType : TransactionOperationType) (amount : JsNumber) (currency x : String)
    (context : CommandContext) (event : DomainEvent) : Prop where
  movement : event.data.movement = some x
  moves : ∃ n, parseMoneyToMinorUnits (.number amount) = .ok n ∧
    event.data.moves = some ⟨event.data.accountId, operationType, n, currency⟩
  context : event.metadata.causationId = context.causationId

section
variable [JsRuntime] {accountId currency x : String} {amount : JsNumber} {context : CommandContext}
  {account : AccountAggregate} {event : DomainEvent}

theorem deposit_moves (h : (AccountCommand.DepositMoney accountId amount currency context x).Commits account event) :
    MovesAs .DEPOSIT amount currency x context event := by
  have hmetadata := h.metadata
  obtain ⟨stamp, hemits⟩ := h
  cases hemits with
  | deposit _ _ hn => exact ⟨rfl, ⟨_, hn, by simp [EventData.moves, EventData.accountId]⟩, by rw [hmetadata]; rfl⟩

theorem withdraw_moves (h : (AccountCommand.WithdrawMoney accountId amount currency context x).Commits account event) :
    MovesAs .WITHDRAW amount currency x context event := by
  have hmetadata := h.metadata
  obtain ⟨stamp, hemits⟩ := h
  cases hemits with
  | withdraw _ _ hn => exact ⟨rfl, ⟨_, hn, by simp [EventData.moves, EventData.accountId]⟩, by rw [hmetadata]; rfl⟩

theorem legCommand_movesAs {leg : Leg} {transfer : TransferAggregate}
    (h : (TransferCoordinatorService.legCommand leg transfer context x).Commits account event) :
    MovesAs leg.operationType (minorUnitsToNumber transfer.amountMinorUnits) (orUndefined transfer.currency) x context
      event := by
  cases leg with
  | debit => exact withdraw_moves h
  | credit => exact deposit_moves h
  | compensation => exact deposit_moves h

end

/-! ## The programs -/

abbrev recordInv [JsRuntime] (api : Prop) (w : World BankRequest) (_ : Nat → Unit) : Prop := RecordBooks api w.store

def OnlyApi (admits : BankRequest → Prop) : Prop := ∀ q, admits q → q.IsApi

def StoreOp.OnRecords (op : StoreOp) : Prop :=
  ∀ s, (perform op s).2.events = s.events ∧ (perform op s).2.snapshots = s.snapshots

def Reserved (s : Store) (input : ReserveTransactionInput) : Prop :=
  ∃ record, s.transactions.get input.transactionId = some record ∧ input.Matches record

theorem Reserved.mono {s s' : Store} {input : ReserveTransactionInput} (h : Reserved s input) (hle : s.Le s') :
    Reserved s' input := by
  obtain ⟨record, hget, hmatches⟩ := h
  obtain ⟨record', hget', hsame⟩ := hle.transaction hget
  exact ⟨record', hget', hsame.matches_iff.mpr hmatches⟩

section
variable [JsRuntime] [RequestDigest] {F : FaultModel} {admits : BankRequest → Prop}
  {allows : BankRequest → StoreOp → Store → Prop}

theorem recordInv_hosts {api : Prop} : Hosts (bank F admits allows) (recordInv api) where
  ledger h := h.ledger
  quiet h hstep _ hsame hledger := RecordBooks.of_le h hstep.exec.le hsame.events hledger

variable (F admits allows) in
def Keeps {α : Type} (q : BankRequest) (p : Task α) (w : World BankRequest) : Prop :=
  ((bank F admits allows).outline () (recordInv (OnlyApi admits))).wp q p w () fun _ _ _ => True

namespace Keeps

variable {q : BankRequest} {w : World BankRequest} {α β : Type}

theorem pure (a : α) : Keeps F admits allows q (Pure.pure a) w := Outline.wp_pure trivial

theorem throws (e : Failure) : Keeps F admits allows q (MonadExcept.throw e : Task α) w := Outline.wp_throw trivial

theorem bind {p : Task α} {f : α → Task β} (hp : Keeps F admits allows q p w)
    (hf : ∀ w' a, w.Le w' → Keeps F admits allows q (f a) w') : Keeps F admits allows q (p >>= f) w := by
  refine Outline.wp_bind (Outline.wp_mono (fun w' _ r hle _ => ?_) hp)
  cases r with
  | error e => trivial
  | ok a => exact hf w' a hle

theorem catches {p : Task α} {f : Failure → Task α} (hp : Keeps F admits allows q p w)
    (hf : ∀ w' e, w.Le w' → Keeps F admits allows q (f e) w') :
    Keeps F admits allows q (MonadExcept.tryCatch p f) w := by
  refine Outline.wp_tryCatch (Outline.wp_mono (fun w' _ r hle _ => ?_) hp)
  cases r with
  | error e => exact hf w' e hle
  | ok a => trivial

theorem wp_record {op : StoreOp} (hop : op.OnRecords) :
    ((bank F admits allows).outline () (recordInv (OnlyApi admits))).wp q (StoreOp.call op) w () fun w' _ r =>
      ∃ w₁ : World BankRequest, w₁.Le w' ∧ Exec F op w₁.store r w'.store := by
  refine Outline.wp_call fun i w₁ gs _ hinv _ r w₂ hstep => ⟨(), ?_⟩
  have hinv : RecordBooks (OnlyApi admits) w₁.store := hinv
  have hexec : Exec F op w₁.store r w₂.store := Service.CallStep.exec hstep
  have hsame : w₂.store.events = w₁.store.events ∧ w₂.store.snapshots = w₁.store.snapshots := by
    rcases hexec.effect with hs | hs
    · rw [hs]
      exact ⟨rfl, rfl⟩
    · rw [hs]
      exact hop _
  exact ⟨hinv.of_le hexec.le hsame.1 (hinv.ledger.congr hsame.1 hsame.2), w₁,
    ((bank F admits allows).outline () (recordInv (OnlyApi admits))).le_step hstep, hexec⟩

theorem record {op : StoreOp} (hop : op.OnRecords) : Keeps F admits allows q (StoreOp.call op) w :=
  Outline.wp_mono (fun _ _ _ _ _ => trivial) (wp_record hop)

theorem randomUUID : Keeps F admits allows q (StoreOp.call .randomUUID) w := record fun _ => ⟨rfl, rfl⟩

/-! ### The registry and the idempotency service -/

theorem runHandler {x : String} {handler : Task Response} {options : TransactionRegistryService.Options}
    (hhandler : Keeps F admits allows q handler w) :
    Keeps F admits allows q (TransactionRegistryService.runHandler x handler options) w := by
  refine catches (bind hhandler fun w' response _ => bind (record fun _ => ⟨rfl, rfl⟩) fun _ _ _ => pure response) ?_
  exact fun w' e _ => bind (record fun _ => ⟨rfl, rfl⟩) fun _ _ _ => throws e

/-- A handler runs for a record of its input only. -/
theorem registry {input : ReserveTransactionInput} {handler : Task Response}
    {options : TransactionRegistryService.Options}
    (hhandler : ∀ w' : World BankRequest, w.store.Le w'.store → Reserved w'.store input →
      Keeps F admits allows q handler w') :
    Keeps F admits allows q (TransactionRegistryService.execute input handler options) w := by
  have hop : (StoreOp.reserveTransaction input).OnRecords := fun _ => ⟨rfl, rfl⟩
  refine Outline.wp_bind (Outline.wp_mono (fun w₂ _ r hle hr => ?_) (wp_record hop))
  obtain ⟨w₁, hle₁, hexec⟩ := hr
  have hle : w.store.Le w₂.store := hle.store
  generalize hs : w₂.store = s₂ at hexec
  cases hexec with
  | rejected | ambiguous => trivial
  | performed =>
    rcases TransactionRecords.reserve_cases w₁.store.transactions input with
      ⟨record', hget, hreserve⟩ | ⟨-, e, hreserve⟩ | ⟨-, record', hmatches, -, hreserve⟩
    all_goals simp only [perform, hreserve] at hs ⊢
    · obtain ⟨record'', hget', hsame⟩ := hle₁.store.transaction hget
      refine Outline.wp_bind (Outline.wp_ofExcept ?_)
      cases hintent : TransactionRegistryService.ensureSameTransactionIntent input record' with
      | error e => trivial
      | ok _ =>
        have hreserved : Reserved w₂.store input := ⟨record'', hget', hsame.matches_iff.mpr
          (TransactionRegistryService.ensureSameTransactionIntent_ok hintent)⟩
        dsimp only
        split
        · exact pure _
        · exact throws _
        · split
          · exact bind (record fun _ => ⟨rfl, rfl⟩) fun w₃ _ hle₃ =>
              runHandler (hhandler w₃ (hle.trans hle₃.store) (hreserved.mono hle₃.store))
          · exact throws _
        · exact throws _
    · have hget : w₂.store.transactions.get input.transactionId = some record' := by
        rw [hs]
        exact OrderedMap.get_set_self ..
      exact runHandler (hhandler w₂ hle ⟨record', hget, hmatches⟩)

theorem idempotency {key : Option String} {operation : String} {payload : Payload} {handler : String → Task Response}
    (hhandler : ∀ k (w' : World BankRequest), w.store.Le w'.store → Keeps F admits allows q (handler k) w') :
    Keeps F admits allows q (IdempotencyService.execute key operation payload handler) w := by
  have hrun : ∀ {k} {w' : World BankRequest}, w.store.Le w'.store →
      Keeps F admits allows q (IdempotencyService.runHandler k (handler k)) w' := by
    intro k w' hle
    refine catches (bind (hhandler k w' hle) fun _ response _ =>
      bind (record fun _ => ⟨rfl, rfl⟩) fun _ _ _ => pure response) ?_
    exact fun w' e _ => bind (record fun _ => ⟨rfl, rfl⟩) fun _ _ _ => throws e
  unfold IdempotencyService.execute IdempotencyService.executeWith
  cases key with
  | none => exact throws _
  | some k =>
    dsimp only
    split
    · exact throws _
    · refine bind (record fun _ => ⟨rfl, rfl⟩) fun w' reservation hle => ?_
      split
      · split
        · exact throws _
        · exact Outline.wp_ofExcept trivial
      · exact hrun hle.store

/-! ### Commands -/

theorem account {cmd : AccountCommand} (hown : OnlyApi admits → cmd.context.causationId = none)
    (hentered : ∀ {s : Store} {account event x}, w.store.Le s → cmd.Commits account event →
      event.data.movement = some x → event.data.accountId = some cmd.accountId →
      ∃ record, s.transactions.get x = some record ∧ Entered s record event) :
    Keeps F admits allows q cmd.execute w := by
  have hsettled : ((bank F admits allows).outline () (recordInv (OnlyApi admits))).wp q cmd.execute w ()
      (Settled F () (fun _ _ => True) cmd.Rejects) := by
    refine recordInv_hosts.wp_account_execute (fun _ _ => trivial)
      fun {i w₁ gs event r w₂} hle hinv _ haccepts hstep => ⟨(), ?_, trivial⟩
    have hinv : RecordBooks (OnlyApi admits) w₁.store := hinv
    have hbooks : RecordBooks (OnlyApi admits) (w₁.store.write (accountStream cmd.accountId) [event]) := by
      refine hinv.write hstep.extension (fun t hs => absurd hs (accountStream_ne_transferStream _ _))
        (fun hapi hleg => hleg (haccepts.1.metadata ▸ hown hapi)) fun x hx => ?_
      refine hentered hle.store haccepts.1 hx ?_
      have hstream := ((hinv.ledger.write hstep.extension).account cmd.accountId).stream
      rw [hinv.ledger.stream_write hstep.extension, if_pos rfl] at hstream
      exact hstream.movement_accountId event (by simp) (by simp [hx])
    rw [← hstep.store] at hbooks
    exact hbooks
  exact Outline.wp_mono (fun _ _ _ _ _ => trivial) hsettled

theorem transfer {cmd : TransferCommand} (hnamed : cmd.transferId ≠ "")
    (hown : OnlyApi admits → cmd.context.causationId = none) : Keeps F admits allows q cmd.execute w := by
  have hsettled : ((bank F admits allows).outline () (recordInv (OnlyApi admits))).wp q cmd.execute w ()
      (Settled F () (fun _ _ => True) cmd.Rejects) := by
    refine recordInv_hosts.wp_transfer_execute fun {i w₁ gs event r w₂} _ hinv _ hc hstep => ⟨(), ?_, trivial⟩
    have hinv : RecordBooks (OnlyApi admits) w₁.store := hinv
    have hbooks : RecordBooks (OnlyApi admits) (w₁.store.write (transferStream cmd.transferId) [event]) := by
      refine hinv.write hstep.extension (fun t hs => transferStream_inj.mp hs ▸ hnamed)
        (fun hapi hleg => hleg (hc.metadata ▸ hown hapi)) fun x hx => ?_
      cases (TransferMethod.Commits.movement hc).symm.trans hx
    rw [← hstep.store] at hbooks
    exact hbooks
  exact Outline.wp_mono (fun _ _ _ _ _ => trivial) hsettled

/-! ### The endpoints -/

theorem respond {p : Task Unit} {α : Type} {a : α} (hp : Keeps F admits allows q p w) :
    Keeps F admits allows q (do p; return a) w := bind hp fun _ _ _ => pure a

theorem createAccount {key : Option String} {dto : CreateAccountDto} :
    Keeps F admits allows q (AccountsController.createAccount key dto) w := by
  refine idempotency fun k w' _ => bind randomUUID fun w₂ uuid _ => respond (account (fun _ => rfl) fun _ hc hx => ?_)
  obtain ⟨stamp, hemits⟩ := hc
  cases hemits
  cases hx

theorem freeze {key : Option String} {accountId : String} {dto : FreezeAccountDto} :
    Keeps F admits allows q (AccountsController.freeze key accountId dto) w := by
  refine idempotency fun k w' _ => bind randomUUID fun w₂ uuid _ => respond (account (fun _ => rfl) fun _ hc hx => ?_)
  obtain ⟨stamp, hemits⟩ := hc
  cases hemits
  cases hx

/-- The number that the command is given is the one that was reserved. -/
theorem moveMoney {operation : String} {operationType : TransactionOperationType}
    {command : String → JsNumber → String → CommandContext → String → AccountCommand} {key : Option String}
    {accountId : String} {dto : MoneyDto}
    (hcommand : ∀ {context account e}, (command accountId dto.amount dto.currency context dto.transactionId).Commits
      account e → MovesAs operationType dto.amount dto.currency dto.transactionId context e)
    (haccount : ∀ {context}, (command accountId dto.amount dto.currency context dto.transactionId).accountId =
      accountId)
    (hcontext : ∀ {context}, (command accountId dto.amount dto.currency context dto.transactionId).context = context) :
    Keeps F admits allows q (AccountsController.moveMoney operation operationType command key accountId dto) w := by
  refine idempotency fun k w' _ => registry fun w₁ _ hreserved => bind randomUUID fun w₂ uuid hle₂ =>
    respond (account (fun _ => by rw [hcontext]) fun {s _ event x} hle hc hx hid => ?_)
  obtain ⟨record, hget, hmatches⟩ := (hreserved.mono hle₂.store).mono hle
  obtain ⟨hmovement, ⟨n, hn, hmoves⟩, hcausation⟩ := hcommand hc
  obtain rfl := Option.some.inj (hmovement.symm.trans hx)
  refine ⟨record, hget, fun _ => ?_, fun hleg => absurd hcausation hleg⟩
  rw [hmoves, hid, haccount, TransactionRecord.movement, ← hmatches.accountId, ← hmatches.operationType,
    ← hmatches.currency, Except.ok.inj (hn.symm.trans hmatches.amount)]

theorem initiateTransfer {key : Option String} {dto : InitiateTransferDto} (ht : dto.transferId ≠ "") :
    Keeps F admits allows q (TransfersController.initiateTransfer key dto) w := by
  refine idempotency fun k w' _ => respond ?_
  refine Outline.wp_bind (recordInv_hosts.loads.wp_account_getById _ (fun _ _ _ => ?_) fun _ _ _ _ => trivial)
  refine Outline.wp_bind (recordInv_hosts.loads.wp_account_getById _ (fun _ _ _ => ?_) fun _ _ _ _ => trivial)
  dsimp only
  split
  · exact throws _
  · split
    · exact throws _
    · split
      · exact throws _
      · exact transfer ht fun _ => rfl

/-! ### The passes of the coordinator -/

open TransferCoordinatorService

section
variable {t : String} {leg : Leg} {terms : TransferTerms} {aggregate : TransferAggregate} {context : CommandContext}
  {x : String} (ht : t ≠ "") (hterms : termsOf (w.store.stream (transferStream t)) = some terms)
  (hhas : aggregate.HasTerms t terms) (hpos : 0 < terms.amountMinorUnits) (hcausation : context.causationId ≠ none)
  (hpass : ¬ OnlyApi admits)
include hterms hhas hpos hcausation hpass

/-- The command is given the major units, and the registry the text of the minor units. -/
theorem leg_registry : Keeps F admits allows q (TransactionRegistryService.execute (legInput leg aggregate x)
    (legHandler leg aggregate context x) legOptions) w := by
  refine registry fun w₁ hle₁ hreserved => respond
    (account (fun hapi => absurd hapi hpass) fun {s _ event x'} hle hc hx hid => ?_)
  obtain ⟨record, hget, hmatches⟩ := hreserved.mono hle
  have hmoves := legCommand_movesAs hc
  obtain ⟨hmovement, ⟨n, hn, hmoves⟩, hcontext⟩ := hmoves
  obtain rfl := Option.some.inj (hmovement.symm.trans hx)
  refine ⟨record, hget, fun hown => absurd (fun h => hcausation (hcontext.symm.trans h)) hown, fun _ => ?_⟩
  have hrecorded := hmatches.amount
  rw [parse_legInput hhas hpos] at hrecorded
  refine ⟨t, terms, n, termsOf_mono ((hle₁.trans hle).stream _) hterms, (Except.ok.inj hrecorded).symm, ?_, ?_⟩
  · rw [← hhas.2.2.2.1]
    exact hn
  · rw [hmoves, hid, legCommand_accountId, TransactionRecord.movement, ← hmatches.accountId,
      ← hmatches.operationType, ← hmatches.currency]
    rfl

include ht in
theorem processLeg_run : Keeps F admits allows q
    (tryCatch (do
        let _ ← TransactionRegistryService.execute (legInput leg aggregate x)
          (legHandler leg aggregate context x) legOptions
        (leg.finishCommand t context).execute)
      fun error =>
        match leg.failureStage with
        | some stage =>
          if isTerminalDomainError error then
            (TransferCommand.FailTransfer t error.message stage context).execute
          else throw (.retryable error.message)
        | none => throw (.retryable error.message)) w := by
  refine catches (bind (leg_registry hterms hhas hpos hcausation hpass) fun _ _ _ =>
    transfer (by simpa using ht) fun hapi => absurd hapi hpass) ?_
  intro w' e _
  split
  · split
    · exact transfer ht fun hapi => absurd hapi hpass
    · exact throws _
  · exact throws _

end

theorem processLeg {t : String} {leg : Leg} {terms : TransferTerms} {context : CommandContext} {x : String}
    (ht : t ≠ "") (hterms : termsOf (w.store.stream (transferStream t)) = some terms)
    (hcausation : context.causationId ≠ none)
    (hpass : ¬ OnlyApi admits) : Keeps F admits allows q (processLeg leg t context x) w := by
  refine Outline.wp_bind (recordInv_hosts.wp_transfer_getById t (fun w₁ hle ⟨gs, hinv⟩ => ?_) fun _ _ _ _ => trivial)
  have hinv : RecordBooks (OnlyApi admits) w₁.store := hinv
  have hterms := termsOf_mono (hle.store.stream _) hterms
  have hne : w₁.store.stream (transferStream t) ≠ [] := by
    intro hnil
    rw [hnil] at hterms
    cases hterms
  obtain ⟨terms', hterms', hpos, -, hhas⟩ := (hinv.ledger.transfer t).stream.terms ht hne
  obtain rfl := Option.some.inj (hterms'.symm.trans hterms)
  dsimp only
  split
  · refine bind (transfer (by simpa using ht) fun hapi => absurd hapi hpass) fun w₂ _ hle₂ => ?_
    exact processLeg_run ht (termsOf_mono (hle₂.store.stream _) hterms) hhas hpos hcausation hpass
  · exact processLeg_run ht hterms hhas hpos hcausation hpass

theorem processTransfer {t : String} (hpass : ¬ OnlyApi admits) : Keeps F admits allows q (processTransfer t) w := by
  refine Outline.wp_bind (recordInv_hosts.wp_transfer_getById t (fun w₁ hle ⟨gs, hinv⟩ => ?_) fun _ _ _ _ => trivial)
  have hinv : RecordBooks (OnlyApi admits) w₁.store := hinv
  refine bind randomUUID fun w₂ commandId hle₂ => ?_
  cases hdue : dueLeg (TransferAggregate.replay (w₁.store.stream (transferStream t))) with
  | none => exact pure _
  | some leg =>
    have hne : w₁.store.stream (transferStream t) ≠ [] := by
      intro hnil
      rw [hnil] at hdue
      cases hdue
    have ht := hinv.named hne
    obtain ⟨terms, hterms, -, -, hhas⟩ := (hinv.ledger.transfer t).stream.terms ht hne
    simp only [hhas.1, orUndefined, Option.getD_some]
    refine catches (processLeg ht (termsOf_mono (hle₂.store.stream _) hterms) ?_ hpass) fun _ _ _ => pure _
    simp [makeContext]

end Keeps

theorem keeps_body {q : BankRequest} {w : World BankRequest} (hq : (bank F admits allows).admits q) :
    Keeps F admits allows q q.body w := by
  obtain ⟨hwell, hadmits⟩ := hq
  have respond : ∀ {p : Task Response}, Keeps F admits allows q p w →
      Keeps F admits allows q (do let response ← p; return some response : Task (Option Response)) w :=
    fun hp => hp.bind fun _ _ _ => .pure _
  cases q with
  | createAccount key dto => exact respond .createAccount
  | deposit key accountId dto => exact respond (.moveMoney deposit_moves rfl rfl)
  | withdraw key accountId dto => exact respond (.moveMoney withdraw_moves rfl rfl)
  | freeze key accountId dto => exact respond .freeze
  | initiateTransfer key dto => exact respond (.initiateTransfer hwell.1)
  | processTransfer t => exact (Keeps.processTransfer fun hapi => hapi _ hadmits).bind fun _ _ _ => .pure _

theorem bank_recordBooks {c : BankConfig} (hc : (bank F admits allows).system.Reachable c) :
    RecordBooks (OnlyApi admits) c.state.store := by
  have hinit : recordInv (OnlyApi admits) (⟨.empty, []⟩ : World BankRequest) fun _ => () := .empty
  obtain ⟨gs, ht⟩ := Outline.sound hinit (fun q w hq => keeps_body hq) hc
  exact ht.inv

/-! ## The amounts -/

/-- **The recorded amount.** A record agrees with the event of its movement exactly where no leg
wrote the event, and so in every run without passes of the coordinator. -/
theorem recorded_iff {c : BankConfig} (hc : (bank F admits allows).system.Reachable c) :
    (∀ {streamId}, ∀ event ∈ c.state.store.stream streamId, ∀ x record, event.data.movement = some x →
      c.state.store.transactions.get x = some record →
      (event.data.moves = some record.movement ↔ ¬ event.OfLeg) ∧ (event.OfLeg → ∃ n, Overstates record event n)) ∧
    (OnlyApi admits → AmountsRecorded c.state.store) := by
  have hbooks := bank_recordBooks hc
  obtain ⟨gs, hinv⟩ := bank_books hc
  have hpoint : ∀ {streamId}, ∀ event ∈ c.state.store.stream streamId, ∀ x record, event.data.movement = some x →
      c.state.store.transactions.get x = some record →
      (¬ event.OfLeg → event.data.moves = some record.movement) ∧ (event.OfLeg → ∃ n, Overstates record event n) := by
    intro streamId event hevent x record hx hget
    obtain ⟨record', hget', hentered⟩ := hbooks.entered event hevent x hx
    obtain rfl := Option.some.inj (hget.symm.trans hget')
    refine ⟨hentered.own, fun hleg => ?_⟩
    obtain ⟨t, terms, n, hterms, hrecorded, hn, hmoves⟩ := hentered.leg hleg
    have hne : c.state.store.stream (transferStream t) ≠ [] := by
      intro hnil
      rw [hnil] at hterms
      cases hterms
    obtain ⟨terms', hterms', hpos, -⟩ := (hbooks.ledger.transfer t).stream.terms (hbooks.named hne) hne
    obtain rfl := Option.some.inj (hterms'.symm.trans hterms)
    obtain rfl := Except.ok.inj ((hinv.books.amount hterms).symm.trans hn)
    exact ⟨_, hpos, hrecorded, hmoves⟩
  refine ⟨fun event hevent x record hx hget => ?_, fun hapi streamId event hevent x record hx hget => ?_⟩
  · obtain ⟨hown, hleg⟩ := hpoint event hevent x record hx hget
    refine ⟨⟨fun hmoves hof => ?_, hown⟩, hleg⟩
    obtain ⟨n, hpos, hamount, hmoves'⟩ := hleg hof
    have heq := congrArg Movement.amountMinorUnits (Option.some.inj (hmoves.symm.trans hmoves'))
    have hrecorded : record.amountMinorUnits = n := heq
    omega
  · exact (hpoint event hevent x record hx hget).1 (hbooks.own hapi event hevent)

end

def debitRun : BankConfig :=
  plainRun .none (fun _ => True) (fun _ _ _ => True) (fun _ _ => .answer) (openings ++ [.processTransfer "t-1"])

theorem debitRun_reachable :
    (plainBank .none (fun _ => True) fun _ _ _ => True).system.Reachable debitRun := by
  refine plainRun_reachable (fun q hq => ?_) (fun _ _ => trivial) fun _ _ => plainBank_permits
  rcases List.mem_append.mp hq with hq | hq
  · exact openings_wellFormed q hq
  · rw [List.mem_singleton.mp hq]
    trivial

theorem debitRun_debit : ∃ event ∈ debitRun.state.store.stream "account-acc-1", ∃ record,
    debitRun.state.store.transactions.get "t-1:debit" = some record ∧ event.data.movement = some "t-1:debit" ∧
      event.data.moves = some ⟨some "acc-1", .WITHDRAW, 525, "EUR"⟩ ∧
      record.movement = ⟨some "acc-1", .WITHDRAW, 52500, "EUR"⟩ := by
  have hevents : (debitRun.state.store.stream "account-acc-1")[2]?.map
      (fun event => (event.data.movement, event.data.moves)) =
      some (some "t-1:debit", some ⟨some "acc-1", .WITHDRAW, 525, "EUR"⟩) := by decide +kernel
  have hrecords : (debitRun.state.store.transactions.get "t-1:debit").map TransactionRecord.movement =
      some ⟨some "acc-1", .WITHDRAW, 52500, "EUR"⟩ := by decide +kernel
  obtain ⟨event, hevent, hmoves⟩ := Option.map_eq_some_iff.mp hevents
  obtain ⟨record, hget, hmovement⟩ := Option.map_eq_some_iff.mp hrecords
  obtain ⟨hx, hmoves⟩ := Prod.mk.inj hmoves
  exact ⟨event, List.mem_of_getElem? hevent, record, hget, hx, hmoves, hmovement⟩

theorem recorded_iff_debited : ∃ event ∈ debitRun.state.store.stream "account-acc-1", ∃ record,
    debitRun.state.store.transactions.get "t-1:debit" = some record ∧
      (event.data.moves = some record.movement ↔ ¬ event.OfLeg) ∧ (event.OfLeg → ∃ n, Overstates record event n) := by
  obtain ⟨event, hevent, record, hget, hx, -⟩ := debitRun_debit
  exact ⟨event, hevent, record, hget,
    (@recorded_iff decimalRuntime plainDigest _ _ _ _ debitRun_reachable).1 event hevent "t-1:debit" record hx hget⟩

/-- The leg has reserved 525 minor units as if they were 525.00. -/
theorem amounts_not_recorded :
    ¬ ∀ c, (plainBank .none (fun _ => True) fun _ _ _ => True).system.Reachable c → AmountsRecorded c.state.store := by
  intro h
  obtain ⟨event, hevent, record, hget, hx, hmoves, hmovement⟩ := debitRun_debit
  have hrecorded := h debitRun debitRun_reachable "account-acc-1" event hevent "t-1:debit" record hx hget
  rw [hmoves, hmovement] at hrecorded
  revert hrecorded
  decide

end CoreBanking
