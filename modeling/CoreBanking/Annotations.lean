import CoreBanking.RebuildRules

/-!
# What a transfer adds to the entries of its legs

The entry of a leg is labelled by the summary of the transfer, as it is when the
event of the leg is projected. Accounts and transfers are projected from
separate topics, and a rebuild of an account comes long after the transfer, so
the summary may be one of any time.
-/

namespace CoreBanking

open ProjectionRunnerService (projectBoth projectEach replayFrom projectStream runLoop)

/-! ## The system -/

abbrev EventStore.log (events : EventStore) : List DomainEvent := events.allEvents.map PositionedEvent.event

structure CoordinatedLog (transferId : String) (events : EventStore) : Prop where
  ids : (events.allEvents.map fun p => p.event.eventId).Nodup
  streams : ∀ streamId, ∀ event ∈ events.stream streamId, event ∈ events.log
  own : ∀ event ∈ events.log, event.data.transferId = some transferId →
    event ∈ events.stream (transferStream transferId)
  account : ∀ accountId, AccountHistory accountId (events.stream (accountStream accountId))
  transfer : TransferHistory transferId (events.stream (transferStream transferId))
  named : events.stream (transferStream transferId) ≠ [] → transferId ≠ ""
  started : ∀ event ∈ events.stream (transferStream transferId), ∀ leg x, event.data.started = some (leg, x) →
    x = legId transferId leg

def TransferEventsConsumerService.eachMessage [JsRuntime] (event : DomainEvent) : Rebuild Unit := do
  RebuildOp.call (.receive event)
  let _ ← Projecting (TransferProjector.project event)

inductive AnnotationRequest where
  | accounts (q : RebuildRequest)
  | transferMessage (event : DomainEvent)

def AnnotationRequest.body [JsRuntime] : AnnotationRequest → Rebuild (Option Nat)
  | .accounts q => q.body
  | .transferMessage event => do
    TransferEventsConsumerService.eachMessage event
    return none

/-- What each program has last seen of a transfer, and what was seen for each entry. -/
structure AnnotationState where
  side : ReadSide
  seen : Nat → Option TransferSummaryReadModel
  basis : String → Option TransferSummaryReadModel

def ReadSide.hasEntry (s : ReadSide) (entry : AccountStatementEntryReadModel) : Bool :=
  (s.statement entry.accountId).any fun item => item.eventId == entry.eventId

def AnnotationState.after (s : AnnotationState) (i : Nat) (op : RebuildOp) : AnnotationState where
  side := (op.perform s.side).2
  seen :=
    match op with
    | .read (.getTransferSummary transferId) => Function.update s.seen i (s.side.transfers.get transferId)
    | _ => s.seen
  basis :=
    match op with
    | .read (.appendAccountStatement entry) =>
      if s.side.hasEntry entry then s.basis else Function.update s.basis entry.eventId (s.seen i)
    | _ => s.basis

/-- A message has been appended before it is received, and an append keeps the log. -/
def RebuildOp.Coordinated (transferId : String) (side : ReadSide) : RebuildOp → Prop
  | .receive event => event ∈ side.events.log
  | .append streamId events => CoordinatedLog transferId (side.events.write streamId events)
  | _ => True

def annotating [JsRuntime] (transferId : String) (events : EventStore) :
    System RebuildOp RebuildOp.Result Failure AnnotationState AnnotationRequest (Option Nat) where
  init := ⟨.empty events, fun _ => none, fun _ => none⟩
  admits _ := True
  body := AnnotationRequest.body
  step i _ op s r s' := op.Coordinated transferId s.side ∧ r = (op.perform s.side).1 ∧ s' = s.after i op
  crashes := True

/-! ## The labels -/

def Leg.direction : Leg → TransferDirection
  | .debit => .OUTGOING
  | .credit => .INCOMING
  | .compensation => .REVERSAL

/-- The entry says that it is of a transfer, and which way the money went. -/
structure Leg.Labels (leg : Leg) (entry : AccountStatementEntryReadModel) : Prop where
  entryKind : entry.entryKind = some .TRANSFER
  transferDirection : entry.transferDirection = some leg.direction

def Leg.details (leg : Leg) (transferId : String) (terms : TransferTerms) :
    AccountProjector.TransferStatementDetails where
  transferId := some transferId
  transferDirection := leg.direction
  sourceAccountId := terms.sourceAccountId
  destinationAccountId := terms.destinationAccountId
  counterpartyAccountId :=
    match leg with
    | .credit => terms.sourceAccountId
    | _ => terms.destinationAccountId
  description :=
    match leg with
    | .debit => s!"Transfer sent to account {terms.destinationAccountId}"
    | .credit => s!"Transfer received from account {terms.sourceAccountId}"
    | .compensation => s!"Transfer reversal back from failed transfer to account {terms.destinationAccountId}"

/-- The summary that was seen fits the leg: the transfer is known, and its
compensation has been started when the leg is the compensation, and not when it
is the debit. -/
def Leg.Timely : Leg → Option TransferSummaryReadModel → Prop
  | _, none => False
  | .debit, some summary => summary.compensationTransactionId = none
  | .credit, some _ => True
  | .compensation, some summary => summary.compensationTransactionId ≠ none

/-- What holds of the summary of the transfer at any time. -/
structure TransferSummaryReadModel.Fits (summary : TransferSummaryReadModel) (id : String) (terms : TransferTerms) :
    Prop where
  transferId : summary.transferId = some id
  source : summary.sourceAccountId = terms.sourceAccountId
  destination : summary.destinationAccountId = terms.destinationAccountId
  debit : ∀ x, summary.sourceDebitTransactionId = some x → x = legId id .debit
  compensation : ∀ x, summary.compensationTransactionId = some x → x = legId id .compensation

def Leg.taken (summary : TransferSummaryReadModel) : Leg → Leg
  | .credit => .credit
  | _ => if summary.compensationTransactionId.isSome then .compensation else .debit

section
variable {transferId : String} {terms : TransferTerms} {summary : TransferSummaryReadModel} {leg : Leg}
  {seen : Option TransferSummaryReadModel}

theorem Leg.taken_eq_iff : leg.taken summary = leg ↔ leg.Timely (some summary) := by
  cases leg <;> cases hc : summary.compensationTransactionId <;> simp [Leg.taken, Leg.Timely, hc]

theorem Leg.direction_inj {leg' : Leg} : leg.direction = leg'.direction ↔ leg = leg' := by
  cases leg <;> cases leg' <;> simp [Leg.direction]

/-- The two ids of the source's legs tell a compensation from a debit. -/
theorem TransferSummaryReadModel.Fits.isCompensation (h : summary.Fits transferId terms) :
    (summary.compensationTransactionId.isSome &&
      summary.sourceDebitTransactionId != summary.compensationTransactionId) =
      summary.compensationTransactionId.isSome := by
  cases hc : summary.compensationTransactionId with
  | none => rfl
  | some x =>
    obtain rfl := h.compensation x hc
    have hne : summary.sourceDebitTransactionId ≠ some (legId transferId .compensation) := by
      intro hd
      cases (legId_inj (h.debit _ hd)).2
    simpa using hne

theorem AccountProjector.mapTransferStatementDetails_fits (hfits : summary.Fits transferId terms)
    (hne : terms.sourceAccountId ≠ terms.destinationAccountId) (leg : Leg) :
    mapTransferStatementDetails summary (some (leg.accountOf terms)) =
      some ((leg.taken summary).details transferId terms) := by
  unfold mapTransferStatementDetails Leg.taken
  dsimp only
  rw [hfits.isCompensation, hfits.transferId, hfits.source, hfits.destination]
  cases leg with
  | credit =>
    have hcredit : some terms.sourceAccountId ≠ some (Leg.credit.accountOf terms) := by
      simpa [Leg.accountOf] using hne
    rw [if_neg hcredit, if_pos (by rfl)]
    rfl
  | debit | compensation =>
    rw [if_pos (by rfl)]
    cases summary.compensationTransactionId.isSome <;> rfl

theorem Leg.labels_statementEntry [JsRuntime] {event : DomainEvent} (hmovement : event.data.movement ≠ none)
    (details : Option AccountProjector.TransferStatementDetails) :
    leg.Labels (AccountProjector.statementEntry event details) ↔
      details.elim .ACCOUNT_OPERATION (·.entryKind) = EntryKind.TRANSFER ∧
        details.map (·.transferDirection) = some leg.direction := by
  cases hd : event.data with
  | MoneyDeposited | MoneyWithdrawn =>
    simp only [AccountProjector.statementEntry, hd]
    exact ⟨fun h => ⟨Option.some.inj h.1, h.2⟩, fun h => ⟨congrArg some h.1, h.2⟩⟩
  | _ =>
    rw [hd] at hmovement
    exact absurd rfl hmovement

/-- An entry is labelled right exactly if what was seen of its transfer fits. -/
theorem Leg.labels_iff [JsRuntime] (hfits : ∀ summary, seen = some summary → summary.Fits transferId terms)
    (hne : terms.sourceAccountId ≠ terms.destinationAccountId) {event : DomainEvent}
    (hmovement : event.data.movement ≠ none) {details : Option AccountProjector.TransferStatementDetails}
    (hdetails : details = seen.bind fun summary =>
      AccountProjector.mapTransferStatementDetails summary (some (leg.accountOf terms))) :
    (leg.Labels (AccountProjector.statementEntry event details) ↔ leg.Timely seen) ∧
      (leg.Timely seen → details = some (leg.details transferId terms)) := by
  rw [Leg.labels_statementEntry hmovement, hdetails]
  cases seen with
  | none =>
    refine ⟨iff_of_false (fun h => ?_) id, False.elim⟩
    cases h.1
  | some summary =>
    rw [Option.bind_some, AccountProjector.mapTransferStatementDetails_fits (hfits summary rfl) hne leg,
      ← Leg.taken_eq_iff]
    constructor
    · rw [Option.map_some, Option.some_inj, ← Leg.direction_inj]
      exact and_iff_right rfl
    · intro h
      rw [h]

end

/-! ## The log -/

namespace CoordinatedLog

variable {transferId : String} {events : EventStore} (h : CoordinatedLog transferId events)
include h

theorem eq_of_eventId {event event' : DomainEvent} (hevent : event ∈ events.log)
    (hevent' : event' ∈ events.log) (hid : event.eventId = event'.eventId) :
    event = event' := by
  refine List.inj_on_of_nodup_map ?_ hevent hevent' hid
  rw [List.map_map]
  exact h.ids

theorem initiated {event : DomainEvent} (hevent : event ∈ events.log)
    (hid : event.data.transferId = some transferId) {terms : TransferTerms} (hterms : event.data.terms = some terms) :
    termsOf (events.stream (transferStream transferId)) = some terms := by
  have hmem := h.own event hevent hid
  have hne := List.ne_nil_of_mem hmem
  obtain ⟨first, rest, hstream, -, hrest⟩ := h.transfer.stream.opening (h.named hne) hne
  rw [hstream] at hmem ⊢
  rcases List.mem_cons.mp hmem with rfl | hmem
  · exact hterms
  · rw [hrest event hmem] at hterms
    cases hterms

theorem fits [JsRuntime] {event : DomainEvent} (hevent : event ∈ events.log)
    (hid : event.data.transferId = some transferId) {terms : TransferTerms}
    (hterms : termsOf (events.stream (transferStream transferId)) = some terms)
    {existing : Option TransferSummaryReadModel} (hfits : ∀ summary ∈ existing, summary.Fits transferId terms)
    {next : TransferSummaryReadModel} (hnext : TransferProjector.advance event existing = .ok next) :
    next.Fits transferId terms := by
  have hstarted := h.started event (h.own event hevent hid)
  unfold TransferProjector.advance at hnext
  split at hnext
  case h_1 hd =>
    obtain rfl := Except.ok.inj hnext
    have heq := (h.initiated hevent hid (by rw [hd]; rfl)).symm.trans hterms
    rw [hd] at hid
    obtain rfl := Option.some.inj heq
    exact ⟨hid, rfl, rfl, nofun, nofun⟩
  · cases hnext
  case h_3 summary _ =>
    obtain rfl := Except.ok.inj hnext
    have hfits := hfits summary rfl
    unfold TransferProjector.nextSummary
    cases hd : event.data with
    | TransferDebitStarted _ x =>
      refine ⟨hfits.transferId, hfits.source, hfits.destination, fun y hy => ?_, hfits.compensation⟩
      exact hstarted .debit y (by rw [hd]; exact congrArg (fun y => some (Leg.debit, y)) (Option.some.inj hy))
    | TransferCompensationStarted _ x =>
      refine ⟨hfits.transferId, hfits.source, hfits.destination, hfits.debit, fun y hy => ?_⟩
      exact hstarted .compensation y
        (by rw [hd]; exact congrArg (fun y => some (Leg.compensation, y)) (Option.some.inj hy))
    | _ => exact ⟨hfits.transferId, hfits.source, hfits.destination, hfits.debit, hfits.compensation⟩

end CoordinatedLog

/-! ## Transfers that are projected -/

namespace TransferProjector

variable [JsRuntime] {event : DomainEvent}

theorem advance_transferId {transferId : String} (hid : event.data.transferId = some transferId)
    {existing : Option TransferSummaryReadModel}
    (hexisting : ∀ summary ∈ existing, summary.transferId = some transferId)
    {next : TransferSummaryReadModel} (h : advance event existing = .ok next) : next.transferId = some transferId := by
  unfold advance at h
  split at h
  case h_1 hd =>
    obtain rfl := Except.ok.inj h
    rw [hd] at hid
    exact hid
  · cases h
  · obtain rfl := Except.ok.inj h
    rw [nextSummary_transferId]
    exact hexisting _ rfl

/-- An event that names no transfer stops at the summary that is not there. -/
theorem project_undefined (hid : event.data.transferId = none) : project event = pure false ∨
    ∃ f, project event = ReadOp.call (.getTransferSummary none) >>= f ∧ ∃ e, f none = throw e := by
  unfold project projectTransferEvent
  cases hd : event.data with
  | AccountCreated | MoneyDeposited | MoneyWithdrawn | AccountFrozen => exact .inl rfl
  | TransferInitiated => rw [hd] at hid; cases hid
  | _ =>
    rw [hd] at hid
    dsimp only
    rw [Async.bind_assoc, hid]
    exact .inr ⟨_, rfl, _, rfl⟩

end TransferProjector

/-! ## The invariant -/

def RebuildOp.Quiet : RebuildOp → Prop
  | .read (.readAll ..) => True
  | .read (.getAccountSummary _) => True
  | .read _ => False
  | _ => True

section
variable [JsRuntime] {transferId : String}

def Known (transferId : String) (events : EventStore) (seen : Option TransferSummaryReadModel) : Prop :=
  ∀ summary ∈ seen, ∃ terms, termsOf (events.stream (transferStream transferId)) = some terms ∧
    summary.Fits transferId terms

def Based (transferId : String) (events : EventStore) (event : DomainEvent)
    (details : Option AccountProjector.TransferStatementDetails) (seen : Option TransferSummaryReadModel) : Prop :=
  event.data.movement ≠ none → event.metadata.correlationId = transferId → transferId ≠ "" →
    Known transferId events seen ∧ details = seen.bind fun summary =>
      AccountProjector.mapTransferStatementDetails summary event.data.accountId

structure AnnotationInv (transferId : String) (s : AnnotationState)
    (seen : Nat → Option TransferSummaryReadModel) : Prop where
  log : CoordinatedLog transferId s.side.events
  seen : s.seen = seen
  keyed : s.side.Keyed
  unnamed : s.side.summaries.get none = none
  unnamedTransfer : s.side.transfers.get none = none
  transfer : Known transferId s.side.events (s.side.transfers.get (some transferId))
  entries : ∀ key, ∀ entry ∈ s.side.statement key, entry.accountId = key ∧
    ∃ event ∈ s.side.events.log, ∃ details,
      entry = AccountProjector.statementEntry event details ∧
      Based transferId s.side.events event details (s.basis event.eventId)

def annotationOutline (transferId : String) (events : EventStore) :
    Outline (annotating transferId events) (Option TransferSummaryReadModel) where
  idle := none
  le s s' := Grown s.side.events s'.side.events
  inv := AnnotationInv transferId
  le_refl _ := .refl _
  le_trans := .trans
  le_step := by
    rintro _ _ op s _ _ ⟨-, -, rfl⟩
    exact op.perform_grown s.side

omit [JsRuntime] in
theorem Known.none (transferId : String) (events : EventStore) : Known transferId events .none := by
  intro summary hsummary
  cases hsummary

omit [JsRuntime] in
theorem Known.mono {events events' : EventStore} {seen : Option TransferSummaryReadModel}
    (h : Known transferId events seen) (hgrown : Grown events events') : Known transferId events' seen := by
  intro summary hsummary
  obtain ⟨terms, hterms, hfits⟩ := h summary hsummary
  exact ⟨terms, termsOf_mono (hgrown.2 _) hterms, hfits⟩

omit [JsRuntime] in
theorem Based.mono {events events' : EventStore} {event : DomainEvent}
    {details : Option AccountProjector.TransferStatementDetails} {seen : Option TransferSummaryReadModel}
    (h : Based transferId events event details seen) (hgrown : Grown events events') :
    Based transferId events' event details seen := fun hmovement hcontext hne =>
  (h hmovement hcontext hne).imp_left fun hknown => hknown.mono hgrown

namespace AnnotationInv

variable {s : AnnotationState} {gs : Nat → Option TransferSummaryReadModel} {side : ReadSide} {i : Nat}

variable (side) in
theorem frame (h : AnnotationInv transferId s gs) (hgrown : Grown s.side.events side.events)
    (hlog : CoordinatedLog transferId side.events) (hkeyed : side.Keyed) (hunnamed : side.summaries.get none = none)
    (hunnamedTransfer : side.transfers.get none = none)
    (htransfer : Known transferId side.events (side.transfers.get (some transferId)))
    (hentries : ∀ key, ∀ entry ∈ side.statement key, entry ∈ s.side.statement key)
    (seen : Nat → Option TransferSummaryReadModel) : AnnotationInv transferId ⟨side, seen, s.basis⟩ seen where
  log := hlog
  seen := rfl
  keyed := hkeyed
  unnamed := hunnamed
  unnamedTransfer := hunnamedTransfer
  transfer := htransfer
  entries key entry hentry := by
    obtain ⟨hkey, event, hevent, details, heq, hbased⟩ := h.entries key entry (hentries key entry hentry)
    exact ⟨hkey, event, (hgrown.1.map _).subset hevent, details, heq, hbased.mono hgrown⟩

/-- A change of the side that neither the log nor the transfers take part in. -/
theorem frame_accounts (h : AnnotationInv transferId s gs) (hevents : side.events = s.side.events)
    (htransfers : side.transfers = s.side.transfers) (hkeyed : side.Keyed) (hunnamed : side.summaries.get none = none)
    (hentries : ∀ key, ∀ entry ∈ side.statement key, entry ∈ s.side.statement key) :
    AnnotationInv transferId ⟨side, s.seen, s.basis⟩ gs := by
  rw [h.seen]
  refine h.frame side (hevents ▸ .refl _) (hevents ▸ h.log) hkeyed hunnamed
    (htransfers ▸ h.unnamedTransfer) ?_ hentries gs
  rw [hevents, htransfers]
  exact h.transfer

theorem read (h : AnnotationInv transferId s gs) (transferId' : Option String) :
    AnnotationInv transferId (s.after i (.read (.getTransferSummary transferId')))
      (Function.update gs i (s.side.transfers.get transferId')) := by
  have hseen : s.after i (.read (.getTransferSummary transferId')) =
      ⟨s.side, Function.update gs i (s.side.transfers.get transferId'), s.basis⟩ := by
    rw [← h.seen]
    rfl
  rw [hseen]
  exact h.frame _ (.refl _) h.log h.keyed h.unnamed h.unnamedTransfer h.transfer (fun _ _ hentry => hentry) _

theorem upsert (h : AnnotationInv transferId s gs) {next : AccountSummaryReadModel} (hnamed : next.accountId ≠ none) :
    AnnotationInv transferId (s.after i (.read (.upsertAccountSummary next))) gs := by
  refine h.frame_accounts (s.side.perform_events (.upsertAccountSummary next))
    (by simp [RebuildOp.perform, ReadSide.perform])
    (h.keyed.perform (.upsertAccountSummary next)) ?_ fun key entry hentry => ?_
  · exact (ReadSide.upsertAccountSummary_get_of_ne hnamed).trans h.unnamed
  · exact (ReadSide.upsertAccountSummary_statement next key) ▸ hentry

theorem upsertTransfer (h : AnnotationInv transferId s gs) {next : TransferSummaryReadModel}
    (hnamed : next.transferId ≠ none)
    (hnext : next.transferId = some transferId → Known transferId s.side.events (some next)) :
    AnnotationInv transferId (s.after i (.read (.upsertTransferSummary next))) gs := by
  have hevents : (s.side.upsertTransferSummary next).events = s.side.events :=
    s.side.perform_events (.upsertTransferSummary next)
  have hget : ∀ key, (s.side.upsertTransferSummary next).transfers.get key = s.side.transfers.get key ∨
      (next.transferId = key ∧ (s.side.upsertTransferSummary next).transfers.get key = some next) := by
    intro key
    unfold ReadSide.upsertTransferSummary
    split
    · exact .inl rfl
    · dsimp only
      rw [OrderedMap.get_set]
      split
      case isTrue hkey =>
        exact .inr ⟨hkey, rfl⟩
      · exact .inl rfl
  have hframe := h.frame (s.side.upsertTransferSummary next) (hevents ▸ .refl _) (hevents ▸ h.log)
    (h.keyed.perform (.upsertTransferSummary next)) (by simpa using h.unnamed)
    (((hget none).resolve_right fun hnone => hnamed hnone.1).trans h.unnamedTransfer) ?_
    (fun key entry hentry => by simpa [ReadSide.statement] using hentry) gs
  · rw [← h.seen] at hframe ⊢
    exact hframe
  · rw [hevents]
    rcases hget (some transferId) with hsame | ⟨hkey, hstored⟩
    · exact hsame ▸ h.transfer
    · exact hstored ▸ hnext hkey

theorem append (h : AnnotationInv transferId s gs) {event : DomainEvent}
    (hevent : event ∈ s.side.events.log)
    {details : Option AccountProjector.TransferStatementDetails}
    (hbased : Based transferId s.side.events event details (gs i)) :
    AnnotationInv transferId
      (s.after i (.read (.appendAccountStatement (AccountProjector.statementEntry event details))))
      gs := by
  generalize hnew : AccountProjector.statementEntry event details = new
  have hid : new.eventId = event.eventId := hnew ▸ AccountProjector.statementEntry_eventId
  have haccount : new.accountId = event.data.accountId := hnew ▸ AccountProjector.statementEntry_accountId
  have hevents : (s.side.appendAccountStatement new).events = s.side.events :=
    s.side.perform_events (.appendAccountStatement new)
  by_cases hold : s.side.hasEntry new = true
  · have hsame : s.after i (.read (.appendAccountStatement new)) = s := by
      unfold AnnotationState.after RebuildOp.perform ReadSide.perform ReadSide.appendAccountStatement
      unfold ReadSide.hasEntry at hold
      simp only [ReadSide.hasEntry, hold, if_true]
    rwa [hsame]
  · have hfresh : ∀ item ∈ s.side.statement event.data.accountId, item.eventId ≠ event.eventId := by
      intro item hitem heq
      exact hold (List.any_eq_true.mpr ⟨item, haccount ▸ hitem, by simp [heq, hid]⟩)
    have hafter : s.after i (.read (.appendAccountStatement new)) =
        ⟨s.side.appendAccountStatement new, s.seen, Function.update s.basis event.eventId (gs i)⟩ := by
      rw [← h.seen, ← hid]
      exact congrArg (AnnotationState.mk _ s.seen) (if_neg hold)
    rw [hafter]
    refine ⟨hevents ▸ h.log, h.seen, h.keyed.perform (.appendAccountStatement new), by simpa using h.unnamed,
      by simpa using h.unnamedTransfer, by simpa [hevents] using h.transfer, fun key entry hentry => ?_⟩
    rw [hevents]
    dsimp only at hentry
    have hcases : entry ∈ s.side.statement key ∨ (entry = new ∧ new.accountId = key) := by
      rw [ReadSide.statement_append] at hentry
      split at hentry
      case isTrue hhere =>
        rw [List.mem_insertionSort, List.mem_append, List.mem_singleton] at hentry
        exact hentry.imp_right fun heq => ⟨heq, hhere.1⟩
      · exact .inl hentry
    rcases hcases with hold | ⟨rfl, hkey⟩
    · obtain ⟨hkey, event', hevent', details', heq, hbased'⟩ := h.entries key entry hold
      refine ⟨hkey, event', hevent', details', heq, ?_⟩
      dsimp only
      rw [Function.update_of_ne]
      · exact hbased'
      · -- the entry of the event itself would be under its account
        intro hsame
        obtain rfl := h.log.eq_of_eventId hevent' hevent hsame
        rw [heq, AccountProjector.statementEntry_accountId] at hkey
        exact hfresh entry (hkey ▸ hold) (by rw [heq, AccountProjector.statementEntry_eventId])
    · refine ⟨hkey, event, hevent, details, hnew.symm, ?_⟩
      dsimp only
      rw [Function.update_self]
      exact hbased

theorem quiet (h : AnnotationInv transferId s gs) {op : RebuildOp} (hop : op.Coordinated transferId s.side)
    (hquiet : op.Quiet) : AnnotationInv transferId (s.after i op) gs := by
  have hkept : ∀ {key key'} {entry : AccountStatementEntryReadModel},
      entry ∈ (if some key = key' then [] else s.side.statement key') → entry ∈ s.side.statement key' := by
    intro key key' entry hentry
    split at hentry
    · cases hentry
    · exact hentry
  cases op with
  | read op =>
    cases op with
    | readAll | getAccountSummary => exact h
    | _ => cases hquiet
  | readStream | receive => exact h
  | resetAccount accountId =>
    refine h.frame_accounts rfl rfl (h.keyed.resetAccount accountId) ?_ fun key entry hentry => ?_
    · exact (ReadSide.resetAccount_get accountId none).trans h.unnamed
    · exact hkept (ReadSide.resetAccount_statement accountId key ▸ hentry)
  | resetAll => exact h.frame_accounts rfl rfl h.keyed.resetAll rfl fun key entry hentry => by cases hentry
  | resetAllTransfers =>
    have hkeyed : s.side.resetAllTransfers.Keyed := ⟨h.keyed.account, fun hget => by cases hget⟩
    have hframe := h.frame s.side.resetAllTransfers (.refl _) h.log hkeyed h.unnamed rfl (.none _ _)
      (fun _ _ hentry => hentry) gs
    rw [← h.seen] at hframe ⊢
    exact hframe
  | append streamId events =>
    have hgrown := Grown.write s.side.events streamId events
    have hframe := h.frame { s.side with events := s.side.events.write streamId events } hgrown hop
      ⟨h.keyed.account, h.keyed.transfer⟩ h.unnamed h.unnamedTransfer (h.transfer.mono hgrown)
      (fun _ _ hentry => hentry) gs
    rw [← h.seen] at hframe ⊢
    exact hframe

end AnnotationInv

/-! ## The programs -/

namespace Annotating

variable {events : EventStore} {q : AnnotationRequest} {s : AnnotationState} {g : Option TransferSummaryReadModel}
  {event : DomainEvent}

omit [JsRuntime] in
theorem Grown.log {events events' : EventStore} (h : Grown events events') (hevent : event ∈ events.log) :
    event ∈ events'.log := (h.1.map _).subset hevent

/-- A call that is answered without a look at the transfers. -/
theorem wp_quiet {op : RebuildOp} (hquiet : op.Quiet) :
    (annotationOutline transferId events).wp q (RebuildOp.call op) s g fun s' g' r => g' = g ∧
      ∃ s₁ gs, AnnotationInv transferId s₁ gs ∧ op.Coordinated transferId s₁.side ∧
        r = (op.perform s₁.side).1 ∧ Grown s₁.side.events s'.side.events := by
  refine Outline.wp_call fun i s₁ gs _ hinv hg r s₂ hstep => ⟨g, ?_⟩
  obtain ⟨hop, rfl, rfl⟩ := hstep
  rw [Outline.update_ghost hg]
  have hinv : AnnotationInv transferId s₁ gs := hinv
  exact ⟨hinv.quiet hop hquiet, rfl, s₁, gs, hinv, hop, rfl, op.perform_grown s₁.side⟩

theorem wp_getTransferSummary (transferId' : Option String) :
    (annotationOutline transferId events).wp q (RebuildOp.call (.read (.getTransferSummary transferId'))) s g
      fun s' g' r => r = .ok g' ∧ (transferId' = some transferId → Known transferId s'.side.events g') ∧
        (∀ summary ∈ g', summary.transferId = transferId') ∧ (transferId' = none → g' = none) := by
  refine Outline.wp_call fun i s₁ gs _ hinv hg r s₂ hstep => ⟨s₁.side.transfers.get transferId', ?_⟩
  obtain ⟨-, rfl, rfl⟩ := hstep
  have hinv : AnnotationInv transferId s₁ gs := hinv
  refine ⟨hinv.read transferId', rfl, ?_, fun summary hget => hinv.keyed.transfer hget, ?_⟩
  · rintro rfl
    exact hinv.transfer
  · rintro rfl
    exact hinv.unnamedTransfer

theorem wp_statementDetails :
    (annotationOutline transferId events).wp q (Projecting (AccountProjector.statementDetails event)) s g
      fun s' g' r => ∀ details, r = .ok details → Based transferId s'.side.events event details g' := by
  have hget : (annotationOutline transferId events).wp q
      (Projecting (AccountProjector.getTransferStatementDetails event event.data.accountId)) s g
      fun s' g' r => ∀ details, r = .ok details → Based transferId s'.side.events event details g' := by
    unfold AccountProjector.getTransferStatementDetails
    dsimp only
    by_cases hcontext : event.metadata.correlationId = ""
    · rw [if_pos hcontext]
      exact Outline.wp_pure fun details _ _ hid hne => absurd (hid.symm.trans hcontext) hne
    · rw [if_neg hcontext, projecting_bind, projecting_call]
      refine Outline.wp_bind (Outline.wp_mono (fun s₁ g₁ r _ hr => ?_) (wp_getTransferSummary _))
      obtain ⟨rfl, hknown, -, -⟩ := hr
      dsimp only
      cases g₁ with
      | none =>
        refine Outline.wp_pure fun details hdetails _ hid _ => ⟨hknown (congrArg some hid), ?_⟩
        exact (Except.ok.inj hdetails).symm
      | some summary =>
        refine Outline.wp_pure fun details hdetails _ hid _ => ⟨hknown (congrArg some hid), ?_⟩
        exact (Except.ok.inj hdetails).symm
  unfold AccountProjector.statementDetails
  cases hd : event.data with
  | MoneyDeposited | MoneyWithdrawn =>
    rw [hd] at hget
    exact hget
  | _ => exact Outline.wp_pure fun details _ hmovement => absurd (by rw [hd]; rfl) hmovement

/-- **Step.** An event of the log is projected by the accounts. -/
theorem wp_project (hevent : event ∈ s.side.events.log) :
    (annotationOutline transferId events).wp q (Projecting (AccountProjector.project event)) s g
      fun _ _ _ => True := by
  cases hid : event.data.accountId with
  | none =>
    rcases project_undefined hid with hproject | ⟨k, hproject, e, hk⟩
    · rw [hproject]
      exact Outline.wp_pure trivial
    · rw [hproject]
      intro i s₁ gs _ hinv hg r s₂ hstep
      obtain ⟨hop, rfl, rfl⟩ := hstep
      have hinv : AnnotationInv transferId s₁ gs := hinv
      refine ⟨g, ?_⟩
      rw [Outline.update_ghost hg]
      refine ⟨hinv.quiet hop trivial, ?_⟩
      show (annotationOutline transferId events).wp q (Projecting (k (.ok (s₁.side.summaries.get none)))) _ g _
      rw [hinv.unnamed, hk]
      exact Outline.wp_done trivial
  | some accountId =>
    rw [AccountProjector.project_eq hid, AccountProjector.shape, projecting_bind, projecting_call]
    refine Outline.wp_bind (Outline.wp_mono (fun s₁ g₁ r hle₁ hr => ?_)
      (wp_quiet trivial))
    obtain ⟨rfl, s₀, gs, hinv, -, rfl, -⟩ := hr
    dsimp only [RebuildOp.perform, ReadSide.perform]
    split
    · exact Outline.wp_throw trivial
    · exact Outline.wp_pure trivial
    case h_3 next hadvance =>
      have hnamed : next.accountId ≠ none := by
        rw [advance_accountId hid (fun summary hget => hinv.keyed.account hget) hadvance]
        exact Option.some_ne_none _
      rw [projecting_bind]
      refine Outline.wp_bind (Outline.wp_mono (fun s₂ g₂ r hle₂ hr => ?_) wp_statementDetails)
      cases r with
      | error e => trivial
      | ok details =>
        have hbased := hr details rfl
        dsimp only
        rw [projecting_bind]
        refine Outline.wp_bind (Outline.wp_call fun i s₃ gs₃ hle₃ hinv₃ hg₃ r s₄ hstep => ⟨g₂, ?_⟩)
        obtain ⟨-, rfl, rfl⟩ := hstep
        rw [Outline.update_ghost hg₃]
        refine ⟨AnnotationInv.upsert hinv₃ hnamed, ?_⟩
        rw [projecting_bind]
        refine Outline.wp_bind (Outline.wp_call fun i s₅ gs₅ hle₅ hinv₅ hg₅ r s₆ hstep => ⟨g₂, ?_⟩)
        obtain ⟨-, rfl, rfl⟩ := hstep
        rw [Outline.update_ghost hg₅]
        have hle₂₅ : Grown s₂.side.events s₅.side.events :=
          (hle₃.trans (RebuildOp.perform_grown (.read (.upsertAccountSummary next)) s₃.side)).trans hle₅
        have hbased₅ := hbased.mono hle₂₅
        rw [← hg₅] at hbased₅
        exact ⟨AnnotationInv.append hinv₅ (Grown.log (.trans (.trans hle₁ hle₂) hle₂₅) hevent) hbased₅,
          Outline.wp_pure trivial⟩

/-- **Step.** An event of the log is projected by the transfers. -/
theorem wp_projectTransfer (hevent : event ∈ s.side.events.log) :
    (annotationOutline transferId events).wp q (Projecting (TransferProjector.project event)) s g
      fun _ _ _ => True := by
  cases hid : event.data.transferId with
  | none =>
    rcases TransferProjector.project_undefined hid with hproject | ⟨f, hproject, e, hf⟩
    · rw [hproject]
      exact Outline.wp_pure trivial
    · rw [hproject, projecting_bind, projecting_call]
      refine Outline.wp_bind (Outline.wp_mono (fun s₁ g₁ r _ hr => ?_) (wp_getTransferSummary _))
      obtain ⟨rfl, -, -, hnone⟩ := hr
      dsimp only
      rw [hnone rfl, hf]
      exact Outline.wp_throw trivial
  | some transferId' =>
    rw [TransferProjector.project_eq hid, projecting_bind, projecting_call]
    refine Outline.wp_bind (Outline.wp_mono (fun s₁ g₁ r hle₁ hr => ?_) (wp_getTransferSummary _))
    obtain ⟨rfl, hknown, hkey, -⟩ := hr
    dsimp only
    split
    · exact Outline.wp_throw trivial
    case h_2 next hnext =>
      have hnamed := TransferProjector.advance_transferId hid hkey hnext
      rw [projecting_bind]
      refine Outline.wp_bind (Outline.wp_call fun i s₂ gs hle₂ hinv hg r s₃ hstep => ⟨g₁, ?_⟩)
      obtain ⟨-, rfl, rfl⟩ := hstep
      have hinv : AnnotationInv transferId s₂ gs := hinv
      rw [Outline.update_ghost hg]
      refine ⟨hinv.upsertTransfer (by simp [hnamed]) fun hmine => ?_, Outline.wp_pure trivial⟩
      obtain rfl : transferId' = transferId := Option.some.inj (hnamed.symm.trans hmine)
      have hlog₂ := Grown.log (.trans hle₁ hle₂) hevent
      have hne := List.ne_nil_of_mem (hinv.log.own event hlog₂ hid)
      obtain ⟨terms, hterms, -⟩ := hinv.log.transfer.stream.terms (hinv.log.named hne) hne
      intro summary hsummary
      obtain rfl := Option.some.inj hsummary
      refine ⟨terms, hterms, hinv.log.fits hlog₂ hid hterms (fun summary hsummary => ?_) hnext⟩
      obtain ⟨terms', hterms', hfits⟩ := (hknown rfl).mono hle₂ summary hsummary
      obtain rfl := Option.some.inj (hterms'.symm.trans hterms)
      exact hfits

theorem wp_projectBoth (hevent : event ∈ s.side.events.log) :
    (annotationOutline transferId events).wp q (Projecting (projectBoth event)) s g fun _ _ _ => True := by
  rw [projectBoth, projecting_bind]
  refine Outline.wp_bind (Outline.wp_mono (fun s₁ g₁ r hle₁ _ => ?_) (wp_project hevent))
  cases r with
  | error e => trivial
  | ok _ =>
    dsimp only
    rw [projecting_bind]
    refine Outline.wp_bind (Outline.wp_mono (fun s₂ g₂ r _ _ => ?_) (wp_projectTransfer (Grown.log hle₁ hevent)))
    cases r with
    | error e => trivial
    | ok _ => exact Outline.wp_pure trivial

theorem wp_projectEach (page : List PositionedEvent) (checkpoint : Nat)
    (hpage : ∀ x ∈ page, x.event ∈ s.side.events.log) :
    (annotationOutline transferId events).wp q (Projecting (projectEach page checkpoint)) s g fun _ _ _ => True := by
  induction page generalizing checkpoint s g with
  | nil => exact Outline.wp_pure trivial
  | cons x page ih =>
    have hx := hpage x List.mem_cons_self
    rw [projectEach, projecting_bind]
    refine Outline.wp_bind (Outline.wp_mono (fun s₁ g₁ r hle₁ _ => ?_) (wp_projectBoth hx))
    cases r with
    | error e => trivial
    | ok _ => exact ih _ fun y hy => Grown.log hle₁ (hpage y (List.mem_cons_of_mem _ hy))

theorem wp_readAll (position count : Nat) :
    (annotationOutline transferId events).wp q (RebuildOp.call (.read (.readAll position count))) s g
      fun s' _ r => ∃ page : List PositionedEvent, r = .ok page ∧ ∀ x ∈ page, x.event ∈ s'.side.events.log := by
  refine Outline.wp_mono (fun s' _ r _ hr => ?_) (wp_quiet trivial)
  obtain ⟨-, s₁, gs, -, -, rfl, hgrown⟩ := hr
  refine ⟨_, rfl, fun x hx => Grown.log hgrown (List.mem_map_of_mem ?_)⟩
  exact List.mem_of_mem_filter (List.mem_of_mem_take hx)

theorem wp_replayFrom (pages checkpoint : Nat) :
    (annotationOutline transferId events).wp q (Projecting (replayFrom pages checkpoint)) s g fun _ _ _ => True := by
  induction pages generalizing checkpoint s g with
  | zero => exact Outline.wp_pure trivial
  | succ pages ih =>
    rw [replayFrom, projecting_bind, projecting_call]
    refine Outline.wp_bind (Outline.wp_mono (fun s₁ g₁ r _ hr => ?_) (wp_readAll checkpoint 1000))
    obtain ⟨page, rfl, hpage⟩ := hr
    dsimp only
    split
    · exact Outline.wp_pure trivial
    · rw [projecting_bind]
      refine Outline.wp_bind (Outline.wp_mono (fun s₂ g₂ r _ _ => ?_) (wp_projectEach page checkpoint hpage))
      cases r with
      | error e => trivial
      | ok checkpoint => exact ih checkpoint

theorem wp_runLoop (rounds checkpoint : Nat) :
    (annotationOutline transferId events).wp q (Projecting (runLoop rounds checkpoint)) s g fun _ _ _ => True := by
  induction rounds generalizing checkpoint s g with
  | zero => exact Outline.wp_pure trivial
  | succ rounds ih =>
    rw [runLoop, projecting_bind, projecting_call]
    refine Outline.wp_bind (Outline.wp_mono (fun s₁ g₁ r _ hr => ?_) (wp_readAll checkpoint 1000))
    obtain ⟨page, rfl, hpage⟩ := hr
    dsimp only
    rw [projecting_bind]
    refine Outline.wp_bind (Outline.wp_mono (fun s₂ g₂ r _ _ => ?_) (wp_projectEach page checkpoint hpage))
    cases r with
    | error e => trivial
    | ok checkpoint => exact ih checkpoint

theorem wp_projectStream (es : List DomainEvent) (hes : ∀ event ∈ es, event ∈ s.side.events.log) :
    (annotationOutline transferId events).wp q (projectStream es) s g fun _ _ _ => True := by
  induction es generalizing s g with
  | nil => exact Outline.wp_pure trivial
  | cons event es ih =>
    refine Outline.wp_bind (Outline.wp_mono (fun s₁ g₁ r hle _ => ?_) (wp_project (hes event List.mem_cons_self)))
    cases r with
    | error e => trivial
    | ok _ => exact ih fun e he => Grown.log hle (hes e (List.mem_cons_of_mem _ he))

theorem wp_rebuildAccount (accountId : String) :
    (annotationOutline transferId events).wp q (ProjectionRunnerService.rebuildAccount accountId) s g
      fun _ _ _ => True := by
  refine Outline.wp_bind (Outline.wp_mono (fun s₁ g₁ r _ _ => ?_) (wp_quiet trivial))
  cases r with
  | error e => trivial
  | ok _ =>
    refine Outline.wp_bind (Outline.wp_mono (fun s₂ g₂ r _ hr => ?_) (wp_quiet trivial))
    obtain ⟨-, s₃, gs, hinv, -, rfl, hgrown⟩ := hr
    exact wp_projectStream _ fun event hevent =>
      Grown.log hgrown (hinv.log.streams _ event (List.mem_of_mem_filter hevent))

theorem wp_rebuildAll (pages : Nat) :
    (annotationOutline transferId events).wp q (ProjectionRunnerService.rebuildAll pages) s g fun _ _ _ => True := by
  refine Outline.wp_bind (Outline.wp_mono (fun s₁ g₁ r _ _ => ?_) (wp_quiet trivial))
  cases r with
  | error e => trivial
  | ok _ =>
    refine Outline.wp_bind (Outline.wp_mono (fun s₂ g₂ r _ _ => ?_) (wp_quiet trivial))
    cases r with
    | error e => trivial
    | ok _ => exact wp_replayFrom pages 0

theorem wp_receive (event : DomainEvent) :
    (annotationOutline transferId events).wp q (RebuildOp.call (.receive event)) s g
      fun s' _ _ => event ∈ s'.side.events.log := by
  refine Outline.wp_mono (fun s' _ r _ hr => ?_) (wp_quiet trivial)
  obtain ⟨-, s₁, gs, -, hevent, -, hgrown⟩ := hr
  exact Grown.log hgrown hevent

/-- The handler of a consumer that projects by `project`. -/
theorem wp_eachMessage {project : DomainEvent → Projection Bool} (hproject : ∀ {s g}, event ∈ s.side.events.log →
      (annotationOutline transferId events).wp q (Projecting (project event)) s g fun _ _ _ => True) :
    (annotationOutline transferId events).wp q (do
      RebuildOp.call (.receive event)
      let _ ← Projecting (project event) : Rebuild Unit) s g fun _ _ _ => True := by
  refine Outline.wp_bind (Outline.wp_mono (fun s₁ g₁ r _ hevent => ?_) (wp_receive event))
  cases r with
  | error e => trivial
  | ok _ =>
    refine Outline.wp_bind (Outline.wp_mono (fun s₂ g₂ r _ _ => ?_) (hproject hevent))
    cases r with
    | error e => trivial
    | ok _ => exact Outline.wp_pure trivial

theorem wp_body (q : AnnotationRequest) :
    (annotationOutline transferId events).wp q q.body s g fun _ _ _ => True := by
  have hend : ∀ {α : Type} {p : Rebuild α} {f : α → Option Nat},
      (annotationOutline transferId events).wp q p s g (fun _ _ _ => True) →
      (annotationOutline transferId events).wp q (p >>= fun a => pure (f a)) s g fun _ _ _ => True := by
    intro α p f hp
    refine Outline.wp_bind (Outline.wp_mono (fun s₁ g₁ r _ _ => ?_) hp)
    cases r with
    | error e => trivial
    | ok a => exact Outline.wp_pure trivial
  cases q with
  | transferMessage event => exact hend (wp_eachMessage wp_projectTransfer)
  | accounts q =>
    cases q with
    | message event => exact hend (wp_eachMessage wp_project)
    | loop rounds => exact hend (wp_runLoop rounds 0)
    | rebuildAccount accountId => exact hend (wp_rebuildAccount accountId)
    | rebuildAll pages => exact hend (wp_rebuildAll pages)
    | append streamId events' => exact hend (Outline.wp_mono (fun _ _ _ _ _ => trivial) (wp_quiet trivial))

end Annotating

variable {events : EventStore}
  {c : Config RebuildOp RebuildOp.Result Failure AnnotationState AnnotationRequest (Option Nat)}

theorem annotating_invariant (hlog : CoordinatedLog transferId events)
    (hc : (annotating transferId events).Reachable c) : ∃ gs, AnnotationInv transferId c.state gs := by
  have hinit : AnnotationInv transferId ⟨.empty events, fun _ => none, fun _ => none⟩ fun _ => none := by
    exact ⟨hlog, rfl, .empty events, rfl, rfl, .none _ _, fun key entry hentry => by cases hentry⟩
  have hbody : ∀ q s, (annotating transferId events).admits q → (annotationOutline transferId events).wp q
      ((annotating transferId events).body q) s none fun _ _ _ => True := fun q _ _ => Annotating.wp_body q
  obtain ⟨gs, ht⟩ := Outline.sound hinit hbody hc
  exact ⟨gs, ht.inv⟩

/-- **Annotations.** The entry of a leg is labelled as the leg is, exactly if the
summary that its projection saw of the transfer fits the leg; and then all that
the transfer adds to the entry is the same, whenever the leg is projected. -/
theorem annotations_iff (hlog : CoordinatedLog transferId events) (hc : (annotating transferId events).Reachable c)
    {terms : TransferTerms} (hterms : termsOf (c.state.side.events.stream (transferStream transferId)) = some terms)
    {leg : Leg} {streamId : String} {event : DomainEvent} (hevent : event ∈ c.state.side.events.stream streamId)
    (hleg : LegMovement transferId leg terms streamId event) {key : Option String}
    {entry : AccountStatementEntryReadModel} (hentry : entry ∈ c.state.side.statement key)
    (hid : entry.eventId = event.eventId) :
    (leg.Labels entry ↔ leg.Timely (c.state.basis event.eventId)) ∧
      (leg.Timely (c.state.basis event.eventId) →
        entry = AccountProjector.statementEntry event (some (leg.details transferId terms))) := by
  obtain ⟨gs, hinv⟩ := annotating_invariant hlog hc
  obtain ⟨-, event', hevent', details, rfl, hbased⟩ := hinv.entries key entry hentry
  rw [AccountProjector.statementEntry_eventId] at hid
  obtain rfl := hinv.log.eq_of_eventId hevent' (hinv.log.streams _ _ hevent) hid
  have hne : c.state.side.events.stream (transferStream transferId) ≠ [] := by
    intro hnil
    rw [hnil] at hterms
    cases hterms
  have hnamed := hinv.log.named hne
  obtain ⟨terms', hterms', -, hdistinct, -⟩ := hinv.log.transfer.stream.terms hnamed hne
  obtain rfl := Option.some.inj (hterms.symm.trans hterms')
  have hmovement : event'.data.movement ≠ none := by
    obtain ⟨accountId, hdata⟩ := hleg.data
    rw [hdata]
    cases leg <;> exact Option.some_ne_none _
  have haccount := (hinv.log.account _).stream.movement_accountId event' (hleg.stream ▸ hevent) hmovement
  obtain ⟨hknown, hdetails⟩ := hbased hmovement hleg.context hnamed
  rw [haccount] at hdetails
  have hfits : ∀ summary, c.state.basis event'.eventId = some summary → summary.Fits transferId terms := by
    intro summary hsummary
    obtain ⟨terms', hterms', hfits⟩ := hknown summary hsummary
    obtain rfl := Option.some.inj (hterms'.symm.trans hterms)
    exact hfits
  obtain ⟨hlabels, hfull⟩ := Leg.labels_iff hfits hdistinct hmovement hdetails
  exact ⟨hlabels, fun htimely => by rw [hfull htimely]⟩

/-- The logs that the bank makes, whatever fails and whatever its clients do. -/
theorem coordinated_log [RequestDigest] {F : FaultModel} {admits : BankRequest → Prop}
    {allows : BankRequest → StoreOp → Store → Prop} {c : BankConfig} (hc : (bank F admits allows).system.Reachable c)
    (hids : (c.state.store.events.allEvents.map fun p => p.event.eventId).Nodup) (transferId : String) :
    CoordinatedLog transferId c.state.store.events := by
  obtain ⟨gs, hinv⟩ := bank_books hc
  have hB := hinv.books.toBooks
  obtain ⟨journal, hj⟩ := hB.ledger.journal
  have hstream : ∀ {streamId event}, event ∈ c.state.store.events.stream streamId ↔ (streamId, event) ∈ journal := by
    intro streamId event
    rw [show c.state.store.events.stream streamId = _ from (hj.streams streamId).symm]
    simp
  refine ⟨hids, fun streamId event hevent => ?_, fun event hevent hid => ?_, hB.ledger.account, hB.ledger.transfer _,
    fun hne => (hB.named hne).1, fun event hevent leg x hx => hB.started hevent hx⟩
  · rw [EventStore.log, ← hj.log]
    exact List.mem_map_of_mem (hstream.mp hevent)
  · rw [EventStore.log, ← hj.log, List.mem_map] at hevent
    obtain ⟨⟨streamId, event⟩, hevent, rfl⟩ := hevent
    have hmem := hstream.mpr hevent
    have hne := List.ne_nil_of_mem hmem
    rcases hB.ledger.named streamId hne with ⟨accountId, rfl⟩ | ⟨transferId', rfl⟩
    · rw [(hB.ledger.account accountId).stream.transferId_none event hmem] at hid
      cases hid
    · have hstamped := ((hB.ledger.transfer transferId').stream.stamped (hB.named hne).1 event hmem).2
      obtain rfl := Option.some.inj (hid.symm.trans hstamped)
      exact hmem

end

/-! ## A transfer that is compensated -/

/-- The destination is frozen before the transfer is processed. -/
def refundedRequests : List BankRequest := openings ++
  [.freeze (some "key-5") "acc-2" ⟨"fraud", none⟩,
    .processTransfer "t-1", .processTransfer "t-1", .processTransfer "t-1"]

def refundedRun : BankConfig :=
  plainRun .none (fun _ => True) (fun _ _ _ => True) (fun _ _ => .answer) refundedRequests

def refundedLog : EventStore := refundedRun.state.store.events

theorem refundedRun_reachable : (plainBank .none (fun _ => True) fun _ _ _ => True).system.Reachable refundedRun := by
  refine plainRun_reachable (fun q hq => ?_) (fun _ _ => trivial) fun _ _ => plainBank_permits
  rcases List.mem_append.mp hq with hq | hq
  · exact openings_wellFormed q hq
  · simp only [List.mem_cons, List.not_mem_nil, or_false, or_self] at hq
    rcases hq with rfl | rfl
    · exact show "acc-2" ≠ "" by decide
    · trivial

theorem refundedLog_coordinated : CoordinatedLog "t-1" refundedLog :=
  @coordinated_log decimalRuntime plainDigest _ _ _ _ refundedRun_reachable (by decide +kernel) "t-1"

def AnnotationState.respond (i : Nat) (op : RebuildOp) (s : AnnotationState) :
    Option (Except Failure op.Result × AnnotationState) :=
  match op with
  | .append .. => none
  | .receive event => if event ∈ s.side.events.log then some (.ok (), s) else none
  | op => some ((op.perform s.side).1, s.after i op)

def annotate (qs : List AnnotationRequest) :
    Config RebuildOp RebuildOp.Result Failure AnnotationState AnnotationRequest (Option Nat) :=
  (@annotating decimalRuntime "t-1" refundedLog).schedule (fun i _ op s => s.respond i op) (qs.map (.serve · 200))

theorem annotate_reachable (qs : List AnnotationRequest) :
    (@annotating decimalRuntime "t-1" refundedLog).Reachable (annotate qs) := by
  refine System.reachable_schedule _ (fun _ _ _ => trivial) fun {i q op s r s'} hr => ?_
  cases op with
  | append => cases hr
  | receive event =>
    simp only [AnnotationState.respond] at hr
    split at hr
    case isTrue hevent =>
      cases hr
      exact ⟨hevent, rfl, rfl⟩
    case isFalse => cases hr
  | _ =>
    cases hr
    exact ⟨trivial, rfl, rfl⟩

def refundedTerms : TransferTerms := ⟨"acc-1", "acc-2", 525, "EUR"⟩

theorem refunded_debit {c : Config RebuildOp RebuildOp.Result Failure AnnotationState AnnotationRequest (Option Nat)}
    (direction : TransferDirection) (hevents : c.state.side.events = refundedLog)
    (hentry : ((c.state.side.statement (some "acc-1")).find? fun entry => entry.eventId == "54").map
      (·.transferDirection) = some (some direction)) :
    termsOf (c.state.side.events.stream (transferStream "t-1")) = some refundedTerms ∧
      ∃ event ∈ c.state.side.events.stream (accountStream "acc-1"),
        LegMovement "t-1" .debit refundedTerms (accountStream "acc-1") event ∧
        ∃ entry ∈ c.state.side.statement (some "acc-1"), entry.eventId = event.eventId ∧
          entry.transferDirection = some direction := by
  have hdebit : ((refundedLog.stream (accountStream "acc-1")).find? fun event => event.eventId == "54").map
      (fun event => (event.data, event.metadata.correlationId)) =
      some (.MoneyWithdrawn (some "acc-1") (.format 525) "EUR" "t-1:debit", "t-1") := by decide +kernel
  obtain ⟨event, hfind, hevent⟩ := Option.map_eq_some_iff.mp hdebit
  obtain ⟨entry, hfind', hdirection⟩ := Option.map_eq_some_iff.mp hentry
  obtain ⟨hdata, hcontext⟩ := Prod.mk.inj hevent
  have hid : event.eventId = "54" := by simpa using List.find?_some hfind
  have hid' : entry.eventId = "54" := by simpa using List.find?_some hfind'
  rw [hevents]
  refine ⟨by decide +kernel, event, List.mem_of_find?_eq_some hfind, ⟨rfl, ⟨_, hdata⟩, hcontext⟩, entry,
    List.mem_of_find?_eq_some hfind', hid'.trans hid.symm, hdirection⟩

theorem annotations_iff_live :
    let c := annotate [.accounts (.loop 1)]
    ∃ event entry, entry ∈ c.state.side.statement (some "acc-1") ∧ entry.transferDirection = some .OUTGOING ∧
      (Leg.debit.Labels entry ↔ Leg.debit.Timely (c.state.basis event.eventId)) ∧
      (Leg.debit.Timely (c.state.basis event.eventId) →
        entry = @AccountProjector.statementEntry decimalRuntime event
          (some (Leg.debit.details "t-1" refundedTerms))) := by
  intro c
  obtain ⟨hterms, event, hevent, hleg, entry, hentry, hid, hdirection⟩ :=
    refunded_debit (c := c) .OUTGOING rfl (by decide +kernel)
  exact ⟨event, entry, hentry, hdirection, @annotations_iff decimalRuntime _ _ _ refundedLog_coordinated
    (annotate_reachable _) _ hterms _ _ _ hevent hleg _ _ hentry hid⟩

/-- A rebuild of the source, when all is over, takes the debit for the compensation. -/
theorem annotations_differ :
    ¬ ∀ events c, CoordinatedLog "t-1" events → (@annotating decimalRuntime "t-1" events).Reachable c →
      ∀ terms, termsOf (c.state.side.events.stream (transferStream "t-1")) = some terms →
      ∀ leg streamId, ∀ event ∈ c.state.side.events.stream streamId, LegMovement "t-1" leg terms streamId event →
      ∀ key, ∀ entry ∈ c.state.side.statement key, entry.eventId = event.eventId → leg.Labels entry := by
  intro h
  obtain ⟨hterms, event, hevent, hleg, entry, hentry, hid, hdirection⟩ := refunded_debit
    (c := annotate [.accounts (.loop 1), .accounts (.rebuildAccount "acc-1")]) .REVERSAL rfl (by decide +kernel)
  have hlabels := h _ _ refundedLog_coordinated (annotate_reachable _) _ hterms _ _ event hevent hleg _ entry hentry hid
  rw [hlabels.transferDirection] at hdirection
  cases hdirection

end CoreBanking
