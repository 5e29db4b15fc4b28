import CoreBanking.Rebuild
import CoreBanking.TransferSummaries

/-!
# Rebuilding from any read models

A rebuild deletes what the read models hold of an account or a transfer, and
projects its stream. With nothing else going on it ends in the projection of
that stream, whatever was there before, and touches nothing else. A rebuild of
all does the same for every account and every transfer, page by page.
-/

namespace CoreBanking

open ProjectionRunnerService (projectBoth projectEach replayFrom)

/-! ## Account streams and their projection -/

/-- A stream that the aggregate emits, and that starts with the creation of its account. -/
structure AccountOpened (accountId : String) (es : List DomainEvent) : Prop where
  stream : AccountStream accountId es
  named : accountId ≠ ""
  first : ∀ event ∈ es.head?, event.data.isAccountCreated = true

/-- The entry without what a transfer adds to it. -/
def AccountStatementEntryReadModel.plain (entry : AccountStatementEntryReadModel) : AccountStatementEntryReadModel :=
  { entry with
    entryKind := none
    transferId := none
    transferDirection := none
    sourceAccountId := none
    destinationAccountId := none
    counterpartyAccountId := none
    description := none }

namespace AccountOpened

variable {accountId : String} {es : List DomainEvent} {event : DomainEvent}

theorem shape (h : AccountOpened accountId es) : AccountShape accountId es := (h.stream.shape h.named h.first).1

theorem anti {fs : List DomainEvent} (h : AccountOpened accountId fs) (hp : es <+: fs) :
    AccountOpened accountId es where
  stream := h.stream.anti hp
  named := h.named
  first := by
    intro event hhead
    obtain ⟨r, rfl⟩ := hp
    cases es with
    | nil => cases hhead
    | cons e es => exact h.first event hhead

end AccountOpened

namespace AccountProjector

variable [JsRuntime] {accountId : String} {es : List DomainEvent} {event : DomainEvent}

/-- What an event makes of the summary there is. -/
def accept (current : Option AccountSummaryReadModel) (event : DomainEvent) : Option AccountSummaryReadModel :=
  match advance event current with
  | .ok (some next) => some next
  | _ => current

def projection (es : List DomainEvent) : Option AccountSummaryReadModel := es.foldl accept none

theorem projection_snoc (es : List DomainEvent) (event : DomainEvent) :
    projection (es ++ [event]) = accept (projection es) event := List.foldl_concat ..

/-- **Step.** The next event of a stream is projected. -/
theorem advance_next (h : AccountOpened accountId (es ++ [event]))
    (hbefore : es ≠ [] → ∃ summary, projection es = some summary ∧ summary.accountId = some accountId ∧
      summary.version = es.length ∧ summary.Shows (AccountAggregate.replay es)) :
    ∃ next, advance event (projection es) = .ok (some next) ∧ next.accountId = some accountId ∧
      next.version = es.length + 1 ∧ next.Shows (AccountAggregate.replay (es ++ [event])) := by
  have hk : (es ++ [event])[es.length]? = some event := by simp
  have hversion : event.streamVersion = es.length + 1 := h.stream.streamVersion hk
  have hid := h.shape.accountId event (by simp)
  have hshown : ∀ summary, projection es = some summary → summary.accountId = some accountId ∧
      summary.version = es.length ∧ summary.Shows (AccountAggregate.replay es) := by
    intro summary hsummary
    have hnil : es ≠ [] := by
      rintro rfl
      cases hsummary
    obtain ⟨summary', hsummary', hrest⟩ := hbefore hnil
    obtain rfl := Option.some.inj (hsummary'.symm.trans hsummary)
    exact hrest
  obtain ⟨next, hnext⟩ : ∃ next, advance event (projection es) = .ok (some next) := by
    by_cases hnil : es = []
    · subst hnil
      have hcreated := h.first event rfl
      cases hd : event.data with
      | AccountCreated accountId ownerId currency =>
        refine ⟨firstSummary event accountId ownerId currency, ?_⟩
        simp only [projection, List.foldl_nil, advance, hd]
        rw [if_neg (by simp [hversion])]
      | _ => simp [hd, EventData.isAccountCreated] at hcreated
    · obtain ⟨summary, hsummary, -, hold, -⟩ := hbefore hnil
      have hcreated : event.data.isAccountCreated = false := by
        rw [Bool.eq_false_iff]
        exact fun hc => hnil (List.length_eq_zero_iff.mp (h.shape.once _ event hk hc))
      refine ⟨nextSummary summary event, ?_⟩
      rw [hsummary]
      simp only [advance]
      rw [if_neg (by omega), if_neg (by simp [hcreated]; omega)]
  obtain ⟨hkey, hv, -, hshows⟩ := advance_shows hk hversion hid (fun summary hsummary => by
    obtain ⟨hkey, hold, hshows⟩ := hshown summary hsummary
    exact ⟨hkey, by rwa [hold, List.take_left]⟩) hnext
  refine ⟨next, hnext, hkey, hv, ?_⟩
  rwa [show es.length + 1 = (es ++ [event]).length by simp, List.take_length] at hshows

/-- A stream projects to the summary of what it replays to. -/
theorem projection_shows (h : AccountOpened accountId es) (hes : es ≠ []) :
    ∃ summary, projection es = some summary ∧ summary.accountId = some accountId ∧
      summary.version = es.length ∧ summary.Shows (AccountAggregate.replay es) := by
  induction es using List.reverseRecOn with
  | nil => exact absurd rfl hes
  | append_singleton es event ih =>
    obtain ⟨next, hnext, hkey, hversion, hshows⟩ := advance_next h (ih (h.anti (List.prefix_append _ _)))
    refine ⟨next, ?_, hkey, by simpa using hversion, hshows⟩
    rw [projection_snoc, accept, hnext]

end AccountProjector

/-! ## One account -/

@[simp] theorem AccountStatementEntryReadModel.plain_streamVersion (entry : AccountStatementEntryReadModel) :
    entry.plain.streamVersion = entry.streamVersion := rfl

@[simp] theorem AccountStatementEntryReadModel.plain_eventId (entry : AccountStatementEntryReadModel) :
    entry.plain.eventId = entry.eventId := rfl

/-- What the two differ in is of this account. -/
structure ReadSide.OnlyAccount (accountId : String) (s s' : ReadSide) : Prop where
  events : s'.events = s.events
  transfers : s'.transfers = s.transfers
  summaries : ∀ key, key ≠ some accountId → s'.summaries.get key = s.summaries.get key
  statements : ∀ key, key ≠ some accountId → s'.statements.get key = s.statements.get key

theorem ReadSide.OnlyAccount.trans {accountId : String} {s s' s'' : ReadSide} (h : s.OnlyAccount accountId s')
    (h' : s'.OnlyAccount accountId s'') : s.OnlyAccount accountId s'' where
  events := h'.events.trans h.events
  transfers := h'.transfers.trans h.transfers
  summaries key hkey := (h'.summaries key hkey).trans (h.summaries key hkey)
  statements key hkey := (h'.statements key hkey).trans (h.statements key hkey)

section
variable [JsRuntime] {accountId : String} {es : List DomainEvent} {event : DomainEvent} {s s' : ReadSide}

structure AccountRebuilt (accountId : String) (es : List DomainEvent) (s : ReadSide) : Prop where
  summary : s.summaries.get (some accountId) = AccountProjector.projection es
  statement : (s.statement (some accountId)).map (·.plain) =
    es.map fun event => (AccountProjector.statementEntry event none).plain
  unused : es = [] → s.statements.get (some accountId) = none

theorem AccountProjector.statementEntry_plain (event : DomainEvent) (details : Option TransferStatementDetails) :
    (statementEntry event details).plain = (statementEntry event none).plain := by
  unfold statementEntry
  cases event.data <;> rfl

theorem AccountRebuilt.versions (h : AccountRebuilt accountId es s) :
    (s.statement (some accountId)).map (·.streamVersion) = es.map (·.streamVersion) := by
  have hversions := congrArg (List.map (·.streamVersion)) h.statement
  simpa [Function.comp_def] using hversions

theorem AccountRebuilt.eventIds (h : AccountRebuilt accountId es s) :
    (s.statement (some accountId)).map (·.eventId) = es.map (·.eventId) := by
  have hids := congrArg (List.map (·.eventId)) h.statement
  simpa [Function.comp_def] using hids

theorem AccountRebuilt.congr {accountId' : String} (h : AccountRebuilt accountId es s)
    (hs : s.OnlyAccount accountId' s')
    (hne : accountId ≠ accountId') : AccountRebuilt accountId es s' := by
  have hkey : some accountId ≠ some accountId' := by simpa using hne
  have hstatements := hs.statements (some accountId) hkey
  refine ⟨(hs.summaries _ hkey).trans h.summary, ?_, fun hnil => hstatements.trans (h.unused hnil)⟩
  rw [ReadSide.statement, hstatements]
  exact h.statement

theorem AccountProjector.upsert_next (hopened : AccountOpened accountId (es ++ [event]))
    (hsummary : s.summaries.get (some accountId) = projection es) {next : AccountSummaryReadModel}
    (hnext : advance event (projection es) = .ok (some next)) :
    (s.upsertAccountSummary next).summaries = s.summaries.set (some accountId) next ∧
      projection (es ++ [event]) = some next := by
  have hbefore := projection_shows (hopened.anti (List.prefix_append es [event]))
  obtain ⟨next', hnext', hkey, hversion, -⟩ := advance_next hopened hbefore
  obtain rfl : next' = next := by
    rw [hnext, Except.ok.injEq, Option.some.injEq] at hnext'
    exact hnext'.symm
  refine ⟨?_, by rw [projection_snoc, accept, hnext]⟩
  rw [← hkey]
  refine ReadSide.upsertAccountSummary_newer fun current hget => ?_
  rw [hkey, hsummary] at hget
  have hnil : es ≠ [] := by
    rintro rfl
    cases hget
  obtain ⟨summary, hsummary', -, hold, -⟩ := hbefore hnil
  obtain rfl := Option.some.inj (hsummary'.symm.trans hget)
  omega

theorem ReadSide.statement_append_last (hid : event.data.accountId = some accountId)
    (details : Option AccountProjector.TransferStatementDetails)
    (hfresh : ∀ item ∈ s.statement (some accountId), item.eventId ≠ event.eventId)
    (hsorted : ((s.statement (some accountId)).map (·.streamVersion) ++ [event.streamVersion]).Pairwise (· ≤ ·)) :
    (s.appendAccountStatement (AccountProjector.statementEntry event details)).statement (some accountId) =
      s.statement (some accountId) ++ [AccountProjector.statementEntry event details] := by
  have hsorted' : (s.statement (some accountId) ++ [AccountProjector.statementEntry event details]).Pairwise
      fun left right => left.streamVersion ≤ right.streamVersion := by
    have hmap : ((s.statement (some accountId) ++ [AccountProjector.statementEntry event details]).map
        (·.streamVersion)).Pairwise (· ≤ ·) := by simpa using hsorted
    exact List.pairwise_map.mp hmap
  rw [statement_append, AccountProjector.statementEntry_accountId, hid, AccountProjector.statementEntry_eventId,
    if_pos ⟨rfl, hfresh⟩, List.Pairwise.insertionSort_eq hsorted']

/-- **Step.** The next event of the stream is projected, and nothing else is touched. -/
theorem AccountRebuilt.next (h : AccountRebuilt accountId es s) (hopened : AccountOpened accountId (es ++ [event]))
    (hids : ((es ++ [event]).map DomainEvent.eventId).Nodup) :
    ∃ s', (AccountProjector.project event).eval ReadSide.perform s = (.ok true, s') ∧
      AccountRebuilt accountId (es ++ [event]) s' ∧ s.OnlyAccount accountId s' := by
  have hid := hopened.shape.accountId event (by simp)
  obtain ⟨next, hnext, -⟩ := AccountProjector.advance_next hopened
    (AccountProjector.projection_shows (hopened.anti (List.prefix_append es [event])))
  obtain ⟨hset, hlast⟩ := AccountProjector.upsert_next hopened h.summary hnext
  obtain ⟨details, heval⟩ := AccountProjector.project_eval hid s
  rw [h.summary, hnext] at heval
  have hstatement : (s.upsertAccountSummary next).statement (some accountId) = s.statement (some accountId) := by
    rw [ReadSide.statement, ReadSide.upsertAccountSummary_statements]
    rfl
  have hfresh : ∀ item ∈ s.statement (some accountId), item.eventId ≠ event.eventId := by
    intro item hitem heq
    have hmem : item.eventId ∈ es.map DomainEvent.eventId := h.eventIds ▸ List.mem_map_of_mem hitem
    rw [List.map_append, List.nodup_append] at hids
    exact hids.2.2 _ hmem event.eventId (by simp) heq
  have hsorted : ((s.statement (some accountId)).map (·.streamVersion) ++ [event.streamVersion]).Pairwise (· ≤ ·) := by
    rw [h.versions, ← List.map_singleton (f := DomainEvent.streamVersion), ← List.map_append,
      Numbered.iff_map_eq.mp hopened.stream.numbered]
    exact List.pairwise_le_range'
  have happended := ReadSide.statement_append_last hid details (hstatement ▸ hfresh) (hstatement ▸ hsorted)
  refine ⟨_, heval, ⟨?_, ?_, by simp⟩, ⟨?_, by simp, ?_, ?_⟩⟩
  · rw [ReadSide.appendAccountStatement_summaries, hset, OrderedMap.get_set_self, hlast]
  · rw [happended, hstatement, List.map_append, h.statement, List.map_singleton, AccountProjector.statementEntry_plain,
      List.map_append, List.map_singleton]
  · exact ((s.upsertAccountSummary next).perform_events (.appendAccountStatement _)).trans
      (s.perform_events (.upsertAccountSummary next))
  · intro key hne
    rw [ReadSide.appendAccountStatement_summaries, hset, OrderedMap.get_set_of_ne _ _ (Ne.symm hne)]
  · intro key hne
    rw [← ReadSide.upsertAccountSummary_statements s next]
    unfold ReadSide.appendAccountStatement
    dsimp only
    split
    · rfl
    · rw [AccountProjector.statementEntry_accountId, hid, OrderedMap.get_set_of_ne _ _ (Ne.symm hne)]

end

/-! ## One transfer -/

structure TransferOpened (transferId : String) (es : List DomainEvent) : Prop where
  stream : TransferStream transferId es
  named : transferId ≠ ""
  ordered : es.Pairwise fun e e' => e.occurredAt ≤ e'.occurredAt

theorem TransferOpened.anti {transferId : String} {es fs : List DomainEvent} (h : TransferOpened transferId fs)
    (hp : es <+: fs) : TransferOpened transferId es :=
  ⟨h.stream.anti hp, h.named, h.ordered.sublist hp.sublist⟩

structure ReadSide.OnlyTransfer (transferId : String) (s s' : ReadSide) : Prop where
  events : s'.events = s.events
  summaries : s'.summaries = s.summaries
  statements : s'.statements = s.statements
  transfers : ∀ key, key ≠ some transferId → s'.transfers.get key = s.transfers.get key

theorem ReadSide.OnlyTransfer.trans {transferId : String} {s s' s'' : ReadSide} (h : s.OnlyTransfer transferId s')
    (h' : s'.OnlyTransfer transferId s'') : s.OnlyTransfer transferId s'' where
  events := h'.events.trans h.events
  summaries := h'.summaries.trans h.summaries
  statements := h'.statements.trans h.statements
  transfers key hkey := (h'.transfers key hkey).trans (h.transfers key hkey)

section
variable [JsRuntime] {transferId : String} {es : List DomainEvent} {event : DomainEvent} {s s' : ReadSide}

def TransferRebuilt (transferId : String) (es : List DomainEvent) (s : ReadSide) : Prop :=
  s.transfers.get (some transferId) = TransferProjector.projection es

theorem TransferProjector.projection_transferId (h : TransferOpened transferId es)
    {summary : TransferSummaryReadModel} (hsummary : projection es = some summary) :
    summary.transferId = some transferId := by
  have hnil : es ≠ [] := by
    rintro rfl
    cases hsummary
  obtain ⟨summary', hsummary', hagrees⟩ := projection_agrees h.named h.stream hnil
  obtain rfl := Option.some.inj (hsummary'.symm.trans hsummary)
  obtain ⟨terms, -, -, -, hterms⟩ := h.stream.terms h.named hnil
  rw [hagrees.transferId, hterms.1]

/-- **Step.** The next event of the stream is projected, and nothing else is touched. -/
theorem TransferRebuilt.next (h : TransferRebuilt transferId es s)
    (hopened : TransferOpened transferId (es ++ [event])) :
    ∃ s', (TransferProjector.project event).eval ReadSide.perform s = (.ok true, s') ∧
      TransferRebuilt transferId (es ++ [event]) s' ∧ s.OnlyTransfer transferId s' := by
  have hid := (hopened.stream.stamped hopened.named event (by simp)).2
  have hbefore := hopened.anti (List.prefix_append es [event])
  obtain ⟨next, hnext⟩ := TransferProjector.advance_projection hopened.named hopened.stream
  have heval := TransferProjector.project_eval hid s
  rw [show s.transfers.get (some transferId) = _ from h, hnext] at heval
  have hkept := Async.eval_preserves (P := fun s' : ReadSide => s'.events = s.events)
    (fun op s' hs => (s'.perform_events op).trans hs) (TransferProjector.project event) (s := s) rfl
  obtain ⟨hsummaries, hstatements, hstored⟩ := TransferProjector.project_stored hid
    (fun summary hget => TransferProjector.projection_transferId hbefore (h.symm.trans hget)) heval
  have hlast : TransferProjector.stored (TransferProjector.projection es) event =
      TransferProjector.projection (es ++ [event]) := by
    rw [← TransferProjector.foldl_stored_none hbefore.named hbefore.stream hbefore.ordered,
      ← TransferProjector.foldl_stored_none hopened.named hopened.stream hopened.ordered, List.foldl_concat]
  refine ⟨_, heval, ?_, ⟨by rwa [heval] at hkept, hsummaries, hstatements, fun key hkey => ?_⟩⟩
  · unfold TransferRebuilt
    rw [hstored, if_pos rfl, show s.transfers.get (some transferId) = _ from h, hlast]
  · rw [hstored, if_neg hkey]

end

/-! ## The rebuild of one -/

inductive TransferRebuildOp where
  | read (op : ReadOp)
  | readStream (streamId : String)
  | resetTransfer (transferId : String)

abbrev TransferRebuildOp.Result : TransferRebuildOp → Type
  | .read op => op.Result
  | .readStream _ => List DomainEvent
  | .resetTransfer _ => Unit

abbrev TransferRebuild (α : Type) := Async TransferRebuildOp TransferRebuildOp.Result Failure α

abbrev TransferRebuildOp.call (op : TransferRebuildOp) : TransferRebuild op.Result := Async.call op

def ReadSide.resetTransfer (s : ReadSide) (transferId : String) : ReadSide :=
  { s with transfers := s.transfers.delete (some transferId) }

def TransferRebuildOp.perform : (op : TransferRebuildOp) → ReadSide → Except Failure op.Result × ReadSide
  | .read op, s => ReadSide.perform op s
  | .readStream streamId, s => (.ok (s.events.readStream streamId 0), s)
  | .resetTransfer transferId, s => (.ok (), s.resetTransfer transferId)

namespace ProjectionRunnerService

variable [JsRuntime]

def projectTransferStream : List DomainEvent → TransferRebuild Unit
  | [] => return
  | event :: events => do
    let _ ← (TransferProjector.project event).along (R := TransferRebuildOp.Result) TransferRebuildOp.read
    projectTransferStream events

def rebuildTransfer (transferId : String) : TransferRebuild Unit := do
  let streamId := transferStream transferId
  TransferRebuildOp.call (.resetTransfer transferId)
  let events : List DomainEvent ← TransferRebuildOp.call (.readStream streamId)
  projectTransferStream events

omit [JsRuntime] in
theorem eval_projecting {α : Type} (p : Projection α) (s : ReadSide) :
    (Projecting p).eval RebuildOp.perform s = p.eval ReadSide.perform s :=
  Async.eval_along RebuildOp.read RebuildOp.perform p s

omit [JsRuntime] in
theorem eval_projectingTransfer {α : Type} (p : Projection α) (s : ReadSide) :
    (p.along (R := TransferRebuildOp.Result) TransferRebuildOp.read).eval TransferRebuildOp.perform s =
      p.eval ReadSide.perform s := Async.eval_along TransferRebuildOp.read TransferRebuildOp.perform p s

theorem projectStream_rebuilt {accountId : String} (rest : List DomainEvent) {es : List DomainEvent} {s : ReadSide}
    (h : AccountRebuilt accountId es s) (hopened : rest ≠ [] → AccountOpened accountId (es ++ rest))
    (hids : ((es ++ rest).map DomainEvent.eventId).Nodup) :
    ∃ s', (projectStream rest).eval RebuildOp.perform s = (.ok (), s') ∧
      AccountRebuilt accountId (es ++ rest) s' ∧ s.OnlyAccount accountId s' := by
  induction rest generalizing es s with
  | nil => exact ⟨s, rfl, by rwa [List.append_nil], rfl, rfl, fun _ _ => rfl, fun _ _ => rfl⟩
  | cons event rest ih =>
    have hpre : es ++ [event] <+: es ++ event :: rest := ⟨rest, by simp⟩
    have hopened := hopened (by simp)
    obtain ⟨s₁, heval, hrebuilt, honly⟩ := h.next (hopened.anti hpre) (hids.sublist (hpre.map _).sublist)
    obtain ⟨s', hrest, hrebuilt', honly'⟩ := ih hrebuilt (fun _ => by simpa using hopened) (by simpa using hids)
    refine ⟨s', ?_, by simpa using hrebuilt', honly.trans honly'⟩
    rw [projectStream, Async.eval_bind, eval_projecting, heval]
    exact hrest

theorem projectTransferStream_rebuilt {transferId : String} (rest : List DomainEvent) {es : List DomainEvent}
    {s : ReadSide} (h : TransferRebuilt transferId es s)
    (hopened : rest ≠ [] → TransferOpened transferId (es ++ rest)) :
    ∃ s', (projectTransferStream rest).eval TransferRebuildOp.perform s = (.ok (), s') ∧
      TransferRebuilt transferId (es ++ rest) s' ∧ s.OnlyTransfer transferId s' := by
  induction rest generalizing es s with
  | nil => exact ⟨s, rfl, by rwa [List.append_nil], rfl, rfl, rfl, fun _ _ => rfl⟩
  | cons event rest ih =>
    have hpre : es ++ [event] <+: es ++ event :: rest := ⟨rest, by simp⟩
    have hopened := hopened (by simp)
    obtain ⟨s₁, heval, hrebuilt, honly⟩ := h.next (hopened.anti hpre)
    obtain ⟨s', hrest, hrebuilt', honly'⟩ := ih hrebuilt fun _ => by simpa using hopened
    refine ⟨s', ?_, by simpa using hrebuilt', honly.trans honly'⟩
    rw [projectTransferStream, Async.eval_bind, eval_projectingTransfer, heval]
    exact hrest

end ProjectionRunnerService

/-! ## The log -/

structure EmittedLog (events : EventStore) : Prop where
  position : Numbered PositionedEvent.position events.allEvents
  journal : ∃ journal : List (String × DomainEvent),
    journal.map Prod.snd = events.allEvents.map PositionedEvent.event ∧
    ∀ streamId, streamIn streamId journal = events.stream streamId
  named : ∀ streamId, events.stream streamId ≠ [] →
    (∃ accountId, streamId = accountStream accountId) ∨ ∃ transferId, streamId = transferStream transferId
  ids : (events.allEvents.map fun p => p.event.eventId).Nodup
  account : ∀ accountId, events.stream (accountStream accountId) ≠ [] →
    AccountOpened accountId (events.stream (accountStream accountId))
  transfer : ∀ transferId, events.stream (transferStream transferId) ≠ [] →
    TransferOpened transferId (events.stream (transferStream transferId))

theorem streamIn_ids {journal : List (String × DomainEvent)}
    (h : (journal.map fun p => p.2.eventId).Nodup) (streamId : String) :
    ((streamIn streamId journal).map DomainEvent.eventId).Nodup := by
  rw [streamIn, List.map_map]
  exact h.sublist (List.filter_sublist.map _)

theorem streamIn_snoc (streamId : String) (journal : List (String × DomainEvent)) (p : String × DomainEvent) :
    streamIn streamId (journal ++ [p]) =
      if p.1 = streamId then streamIn streamId journal ++ [p.2] else streamIn streamId journal := by
  unfold streamIn
  by_cases h : p.1 = streamId <;> simp [h]

namespace EmittedLog

variable {events : EventStore} (h : EmittedLog events)
include h

theorem numbered (streamId : String) : Numbered DomainEvent.streamVersion (events.stream streamId) := by
  by_cases hnil : events.stream streamId = []
  · exact hnil ▸ .nil
  · rcases h.named streamId hnil with ⟨accountId, rfl⟩ | ⟨transferId, rfl⟩
    · exact (h.account accountId hnil).stream.numbered
    · exact (h.transfer transferId hnil).stream.numbered

theorem stream_ids (streamId : String) : ((events.stream streamId).map DomainEvent.eventId).Nodup := by
  obtain ⟨journal, hlog, hj⟩ := h.journal
  rw [← hj]
  refine streamIn_ids ?_ streamId
  have hids := congrArg (List.map DomainEvent.eventId) hlog
  rw [List.map_map, List.map_map] at hids
  exact hids ▸ h.ids

end EmittedLog

section
variable [JsRuntime] {events : EventStore} {journal : List (String × DomainEvent)} {r r' : ReadSide}

/-- The read models hold what the events of `journal` project to, and nothing else. -/
structure RebuiltFrom (journal : List (String × DomainEvent)) (r : ReadSide) : Prop where
  account : ∀ accountId, AccountRebuilt accountId (streamIn (accountStream accountId) journal) r
  transfer : ∀ transferId, TransferRebuilt transferId (streamIn (transferStream transferId) journal) r
  unnamed : r.summaries.get none = none ∧ r.statements.get none = none ∧ r.transfers.get none = none

theorem AccountRebuilt.congr_transfer {accountId transferId : String} {es : List DomainEvent}
    (h : AccountRebuilt accountId es r) (hr : r.OnlyTransfer transferId r') : AccountRebuilt accountId es r' := by
  obtain ⟨hsummary, hstatement, hunused⟩ := h
  refine ⟨hr.summaries ▸ hsummary, ?_, hr.statements ▸ hunused⟩
  rw [ReadSide.statement, hr.statements]
  exact hstatement

theorem RebuiltFrom.account_event (h : RebuiltFrom journal r) {accountId : String} {event : DomainEvent}
    (hopened : AccountOpened accountId (streamIn (accountStream accountId) journal ++ [event]))
    (hids : ((streamIn (accountStream accountId) journal ++ [event]).map DomainEvent.eventId).Nodup) :
    ∃ r', (projectBoth event).eval ReadSide.perform r = (.ok (), r') ∧
      RebuiltFrom (journal ++ [(accountStream accountId, event)]) r' := by
  obtain ⟨r', heval, hrebuilt, honly⟩ := (h.account accountId).next hopened hids
  refine ⟨r', ?_, fun accountId' => ?_, fun transferId => ?_, ?_⟩
  · have hid := hopened.shape.accountId event (by simp)
    rw [ProjectionRunnerService.projectBoth_account hid, Async.eval_bind, heval]
    rfl
  · rw [streamIn_snoc]
    by_cases heq : accountId = accountId'
    · subst heq
      rwa [if_pos rfl]
    · rw [if_neg fun hstream => heq (accountStream_inj.mp hstream)]
      exact (h.account accountId').congr honly (Ne.symm heq)
  · rw [streamIn_snoc, if_neg (accountStream_ne_transferStream _ _), TransferRebuilt, honly.transfers]
    exact h.transfer transferId
  · rw [honly.summaries none (by simp), honly.statements none (by simp), honly.transfers]
    exact h.unnamed

theorem RebuiltFrom.transfer_event (h : RebuiltFrom journal r) {transferId : String} {event : DomainEvent}
    (hopened : TransferOpened transferId (streamIn (transferStream transferId) journal ++ [event])) :
    ∃ r', (projectBoth event).eval ReadSide.perform r = (.ok (), r') ∧
      RebuiltFrom (journal ++ [(transferStream transferId, event)]) r' := by
  obtain ⟨r', heval, hrebuilt, honly⟩ := (h.transfer transferId).next hopened
  have hid := (hopened.stream.stamped hopened.named event (by simp)).2
  refine ⟨r', ?_, fun accountId => ?_, fun transferId' => ?_, ?_⟩
  · rw [ProjectionRunnerService.projectBoth_transfer hid, Async.eval_bind, heval]
    rfl
  · rw [streamIn_snoc, if_neg fun hstream => accountStream_ne_transferStream _ _ hstream.symm]
    exact (h.account accountId).congr_transfer honly
  · rw [streamIn_snoc]
    by_cases heq : transferId = transferId'
    · subst heq
      rwa [if_pos rfl]
    · rw [if_neg fun hstream => heq (transferStream_inj.mp hstream), TransferRebuilt,
        honly.transfers _ (by simpa using Ne.symm heq)]
      exact h.transfer transferId'
  · rw [honly.summaries, honly.statements, honly.transfers none (by simp)]
    exact h.unnamed

/-- **Step.** The next event of the log is projected. -/
theorem RebuiltFrom.next (hl : EmittedLog events) (hj : ∀ streamId, streamIn streamId journal = events.stream streamId)
    {n : Nat} {p : String × DomainEvent} (hp : journal[n]? = some p) (h : RebuiltFrom (journal.take n) r) :
    ∃ r', (projectBoth p.2).eval ReadSide.perform r = (.ok (), r') ∧
      RebuiltFrom (journal.take (n + 1)) r' := by
  obtain ⟨streamId, event⟩ := p
  have htake : journal.take (n + 1) = journal.take n ++ [(streamId, event)] := by
    rw [List.take_add_one, hp]
    rfl
  have hpre : streamIn streamId (journal.take n) ++ [event] <+: events.stream streamId := by
    have hsnoc := streamIn_snoc streamId (journal.take n) (streamId, event)
    rw [if_pos rfl, ← htake] at hsnoc
    rw [← hsnoc, ← hj]
    exact ⟨_, by rw [← EventStore.streamIn_append, List.take_append_drop]⟩
  have hne : events.stream streamId ≠ [] := by
    intro hnil
    rw [hnil, List.prefix_nil] at hpre
    simp at hpre
  rw [htake]
  rcases hl.named streamId hne with ⟨accountId, rfl⟩ | ⟨transferId, rfl⟩
  · exact h.account_event ((hl.account accountId hne).anti hpre)
      ((hl.stream_ids _).sublist (hpre.map _).sublist)
  · exact h.transfer_event ((hl.transfer transferId hne).anti hpre)

/-! ## Rebuilds from anything -/

/-- **Repair.** Every rebuild ends, in what the log projects to, and that is what the log replays to. -/
structure Repairs (events : EventStore) (s : ReadSide) : Prop where
  account : ∀ accountId, ∃ s',
    (ProjectionRunnerService.rebuildAccount accountId).eval RebuildOp.perform s = (.ok (), s') ∧
    AccountRebuilt accountId (events.stream (accountStream accountId)) s' ∧ s.OnlyAccount accountId s'
  transfer : ∀ transferId, ∃ s',
    (ProjectionRunnerService.rebuildTransfer transferId).eval TransferRebuildOp.perform s = (.ok (), s') ∧
    TransferRebuilt transferId (events.stream (transferStream transferId)) s' ∧ s.OnlyTransfer transferId s'
  all : ∀ pages, events.allEvents.length < pages → ∃ s',
    (ProjectionRunnerService.rebuildAll pages).eval RebuildOp.perform s = (.ok events.allEvents.length, s') ∧
    s'.events = events ∧
    (∀ accountId, AccountRebuilt accountId (events.stream (accountStream accountId)) s') ∧
    (∀ transferId, TransferRebuilt transferId (events.stream (transferStream transferId)) s') ∧
    s'.summaries.get none = none ∧ s'.statements.get none = none ∧ s'.transfers.get none = none
  accountReplay : ∀ accountId, let es := events.stream (accountStream accountId)
    es ≠ [] → ∃ summary, AccountProjector.projection es = some summary ∧ summary.accountId = some accountId ∧
      summary.version = es.length ∧ summary.Shows (AccountAggregate.replay es)
  transferReplay : ∀ transferId, let es := events.stream (transferStream transferId)
    es ≠ [] → ∃ summary, TransferProjector.projection es = some summary ∧ summary.Agrees (TransferAggregate.replay es)

theorem rebuildAll_rebuilt (hl : EmittedLog events) {s : ReadSide} (hs : s.events = events) {pages : Nat}
    (hpages : events.allEvents.length < pages) : ∃ s',
    (ProjectionRunnerService.rebuildAll pages).eval RebuildOp.perform s = (.ok events.allEvents.length, s') ∧
    s'.events = events ∧ (∀ accountId, AccountRebuilt accountId (events.stream (accountStream accountId)) s') ∧
    (∀ transferId, TransferRebuilt transferId (events.stream (transferStream transferId)) s') ∧
    s'.summaries.get none = none ∧ s'.statements.get none = none ∧ s'.transfers.get none = none := by
  obtain ⟨journal, hlog, hj⟩ := hl.journal
  let r₀ : ReadSide := s.resetAll.resetAllTransfers
  have hstart : RebuiltFrom (journal.take 0) r₀ :=
    ⟨fun _ => ⟨rfl, rfl, fun _ => rfl⟩, fun _ => rfl, rfl, rfl, rfl⟩
  have hfed : ∀ n, n ≤ events.allEvents.length → ∃ r, Fed events r₀ n r ∧ RebuiltFrom (journal.take n) r := fun n hn =>
    fed_of_steps hl.position hlog (P := fun k => RebuiltFrom (journal.take k)) hn hstart
      fun k p r hp _ h => h.next hl hj hp
  have hzero : Fed events r₀ 0 r₀ := rfl
  obtain ⟨checkpoint, s', heval, hfinal, henough⟩ := replayFrom_fed hl.position (show r₀.events = events from hs)
    (fun n hn => (hfed n hn).imp fun _ h => h.1) pages hzero (Nat.zero_le _)
  obtain rfl := henough (by omega)
  obtain ⟨r, hr, hrebuilt⟩ := hfed _ (Nat.le_refl _)
  obtain rfl : s' = r := (Prod.ext_iff.mp (hfinal.symm.trans hr)).2
  have hlen : journal.take events.allEvents.length = journal := by
    have hlength := congrArg List.length hlog
    rw [List.length_map, List.length_map] at hlength
    rw [← hlength, List.take_length]
  rw [hlen] at hrebuilt
  refine ⟨s', ?_, hfinal.same_events.trans hs, fun accountId => hj _ ▸ hrebuilt.account accountId,
    fun transferId => hj _ ▸ hrebuilt.transfer transferId, hrebuilt.unnamed⟩
  show (Projecting (replayFrom pages 0)).eval RebuildOp.perform r₀ = _
  rw [ProjectionRunnerService.eval_projecting, heval]

/-- With nothing else going on, rebuilds repair any read models. -/
theorem rebuild_repairs (hl : EmittedLog events) (s : ReadSide) (hs : s.events = events) : Repairs events s := by
  refine ⟨fun accountId => ?_, fun transferId => ?_, fun pages hpages => rebuildAll_rebuilt hl hs hpages,
    fun accountId hne => AccountProjector.projection_shows (hl.account accountId hne) hne, fun transferId hne => ?_⟩
  · have hread : s.events.readStream (accountStream accountId) 0 = events.stream (accountStream accountId) := by
      rw [hs, EventStore.readStream_eq (hl.numbered _), List.drop_zero]
    have hreset : AccountRebuilt accountId [] (s.resetAccount accountId) := by
      refine ⟨?_, ?_, fun _ => ?_⟩ <;>
        simp [ReadSide.resetAccount, ReadSide.statement, OrderedMap.get_delete, AccountProjector.projection]
    have honly : s.OnlyAccount accountId (s.resetAccount accountId) := by
      refine ⟨rfl, rfl, fun key hkey => ?_, fun key hkey => ?_⟩ <;>
        simp [ReadSide.resetAccount, OrderedMap.get_delete, Ne.symm hkey]
    obtain ⟨s', heval, hrebuilt, honly'⟩ := ProjectionRunnerService.projectStream_rebuilt
      (events.stream (accountStream accountId)) hreset (hl.account accountId) (hl.stream_ids _)
    refine ⟨s', ?_, hrebuilt, honly.trans honly'⟩
    show (ProjectionRunnerService.projectStream (s.events.readStream (accountStream accountId) 0)).eval
      RebuildOp.perform (s.resetAccount accountId) = _
    rw [hread, heval]
  · have hread : s.events.readStream (transferStream transferId) 0 = events.stream (transferStream transferId) := by
      rw [hs, EventStore.readStream_eq (hl.numbered _), List.drop_zero]
    have hreset : TransferRebuilt transferId [] (s.resetTransfer transferId) := by
      simp [TransferRebuilt, ReadSide.resetTransfer, OrderedMap.get_delete, TransferProjector.projection]
    have honly : s.OnlyTransfer transferId (s.resetTransfer transferId) := by
      refine ⟨rfl, rfl, rfl, fun key hkey => ?_⟩
      simp [ReadSide.resetTransfer, OrderedMap.get_delete, Ne.symm hkey]
    obtain ⟨s', heval, hrebuilt, honly'⟩ := ProjectionRunnerService.projectTransferStream_rebuilt
      (events.stream (transferStream transferId)) hreset (hl.transfer transferId)
    refine ⟨s', ?_, hrebuilt, honly.trans honly'⟩
    show (ProjectionRunnerService.projectTransferStream (s.events.readStream (transferStream transferId) 0)).eval
      TransferRebuildOp.perform (s.resetTransfer transferId) = _
    rw [hread, heval]
  · obtain ⟨hstream, hnamed, -⟩ := hl.transfer transferId hne
    exact TransferProjector.projection_agrees hnamed hstream hne

end

/-- What commands commit is such a log. -/
theorem WellFormedLog.emitted {events : EventStore} (hl : WellFormedLog events)
    (hids : (events.allEvents.map fun p => p.event.eventId).Nodup)
    (hordered : (events.allEvents.map PositionedEvent.event).Pairwise fun e e' => e.occurredAt ≤ e'.occurredAt)
    (hunnamed : events.stream (accountStream "") = []) : EmittedLog events where
  position := hl.position
  journal := hl.journal
  named := hl.named
  ids := hids
  account := by
    intro accountId hne
    obtain ⟨hhistory, hshape⟩ := hl.account accountId
    refine ⟨hhistory.stream, ?_, hshape.first⟩
    rintro rfl
    exact hne hunnamed
  transfer := by
    intro transferId hne
    obtain ⟨hhistory, hnamed⟩ := hl.transfer transferId
    exact ⟨hhistory.stream, hnamed hne, hl.ordered hordered _⟩

def corrupted (events : EventStore) : ReadSide where
  events := events
  summaries := OrderedMap.empty.set (some "acc-1")
    ⟨some "acc-9", "owner-9", "EUR", .FROZEN, -7, ⟨"-0.07"⟩, 99, 0, 0⟩
  statements := OrderedMap.empty.set (some "acc-1")
    [{ eventId := "event-9", accountId := none, streamVersion := 9, eventType := "AccountFrozen", occurredAt := 0 }]
  transfers := OrderedMap.empty.set none ⟨none, "acc-9", "acc-9", -7, ⟨"-0.07"⟩, "EUR", .FAILED, none, none, none, none,
    none, 0, 0, 0, 0, 99⟩

theorem rebuild_repairs_corrupted :
    let events := (plainRun .none (fun _ => True) BankRequest.freezesKnown (fun _ _ => .answer)
      transferRequests).state.store.events
    events.allEvents.length = 10 ∧ @Repairs decimalRuntime events (corrupted events) := by
  intro events
  have hl : WellFormedLog events := @reachable_wellFormedLog decimalRuntime plainDigest _ _ _ transferRun_reachable
  exact ⟨by decide +kernel, @rebuild_repairs decimalRuntime events
    (hl.emitted (by decide +kernel) (by decide +kernel) (by decide +kernel)) (corrupted events) rfl⟩

end CoreBanking
