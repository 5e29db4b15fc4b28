import CoreBanking.Rebuild

/-!
# Rebuilding while events flow

A reset takes from the account what has been reached, and leaves the rebuild
with the duty to go over it again. Every event below `reached` is therefore
below the stored version or due in some rebuild; and as long as no summary
jumps ahead, each event that the stored version is past has its entry.
-/

namespace CoreBanking

open ProjectionRunnerService (projectEach replayFrom projectStream runLoop)

/-! ## The account in the read side -/

namespace ReadSide

variable {s : ReadSide} {accountId : String}

theorem version_of_none (h : s.summaries.get (some accountId) = none) : s.version accountId = 0 := by
  simp [version, h]

theorem upsertAccountSummary_get_of_ne {summary : AccountSummaryReadModel} {key : Option String}
    (h : summary.accountId ≠ key) : (s.upsertAccountSummary summary).summaries.get key = s.summaries.get key := by
  unfold upsertAccountSummary
  split
  · rfl
  · exact OrderedMap.get_set_of_ne _ _ h

theorem upsertAccountSummary_statement (summary : AccountSummaryReadModel) (key : Option String) :
    (s.upsertAccountSummary summary).statement key = s.statement key := by
  unfold statement
  rw [upsertAccountSummary_statements]

theorem resetAccount_get (accountId : String) (key : Option String) :
    (s.resetAccount accountId).summaries.get key = if some accountId = key then none else s.summaries.get key :=
  OrderedMap.get_delete _ _ _

theorem resetAccount_statement (accountId : String) (key : Option String) :
    (s.resetAccount accountId).statement key = if some accountId = key then [] else s.statement key := by
  unfold statement resetAccount
  dsimp only
  rw [OrderedMap.get_delete]
  split <;> rfl

theorem Keyed.resetAccount (h : s.Keyed) (accountId : String) : (s.resetAccount accountId).Keyed := by
  refine ⟨fun {key summary} hget => ?_, h.transfer⟩
  rw [resetAccount_get] at hget
  split at hget
  · cases hget
  · exact h.account hget

theorem Keyed.resetAll (h : s.Keyed) : s.resetAll.Keyed where
  account hget := by cases hget
  transfer := h.transfer

end ReadSide

section
variable [JsRuntime] {accountId : String} {es es' : List DomainEvent} {s side : ReadSide} {owed : Nat → Prop}

namespace AccountView

theorem frame (h : AccountView accountId es s owed) (hkeyed : side.Keyed)
    (hget : side.summaries.get (some accountId) = s.summaries.get (some accountId))
    (hstatement : side.statement (some accountId) = s.statement (some accountId)) :
    AccountView accountId es side owed where
  keyed := hkeyed
  summary hsummary := h.summary (hget ▸ hsummary)
  sorted := hstatement ▸ h.sorted
  entries := hstatement ▸ h.entries
  covered he hlt := by
    rw [hstatement]
    refine h.covered he ?_
    unfold ReadSide.version at hlt ⊢
    rwa [hget] at hlt

theorem reset (hkeyed : side.Keyed) (hget : side.summaries.get (some accountId) = none)
    (hstatement : side.statement (some accountId) = []) : AccountView accountId es side owed where
  keyed := hkeyed
  summary hsummary := by
    rw [hget] at hsummary
    cases hsummary
  sorted := hstatement ▸ List.Pairwise.nil
  entries entry hentry := by
    rw [hstatement] at hentry
    cases hentry
  covered _ hlt := by
    rw [ReadSide.version_of_none hget] at hlt
    exact absurd hlt (Nat.not_lt_zero _)

theorem grow (h : AccountView accountId es s owed) (hp : es <+: es') : AccountView accountId es' s owed := by
  obtain ⟨later, rfl⟩ := hp
  have hsame : ∀ {k}, k < es.length → (es ++ later)[k]? = es[k]? := fun hk => List.getElem?_append_left hk
  refine ⟨h.keyed, fun hget => ?_, h.sorted, fun entry hentry => ?_, fun {k event} he hlt => ?_⟩
  · obtain ⟨hpos, hle, hshows⟩ := h.summary hget
    rw [List.take_append_of_le_length hle]
    exact ⟨hpos, by rw [List.length_append]; omega, hshows⟩
  · obtain ⟨k, event, details, hk, rfl⟩ := h.entries entry hentry
    exact ⟨k, event, details, by rw [hsame (List.getElem?_eq_some_iff.mp hk).1, hk], rfl⟩
  · have hle := h.version_le
    rw [hsame (by omega)] at he
    exact h.covered he hlt

end AccountView

end

/-! ## The log -/

namespace LogOf

variable {accountId : String} {events : EventStore} {event : DomainEvent}

theorem mem_stream (h : LogOf accountId events) (hlog : event ∈ events.allEvents.map PositionedEvent.event)
    (hid : event.data.accountId = some accountId) : event ∈ events.stream (accountStream accountId) := by
  rw [← h.own, List.mem_filter]
  exact ⟨hlog, by simpa using hid⟩

theorem own_accountId (h : LogOf accountId events) (hevent : event ∈ events.stream (accountStream accountId)) :
    event.data.accountId = some accountId := by
  rw [← h.own, List.mem_filter] at hevent
  simpa using hevent.2

theorem stream_ids (h : LogOf accountId events) :
    ((events.stream (accountStream accountId)).map DomainEvent.eventId).Nodup := by
  rw [← h.own]
  refine List.Nodup.sublist (List.filter_sublist.map _) ?_
  rw [List.map_map]
  exact h.ids

theorem empty (accountId : String) : LogOf accountId .empty where
  positions := .nil
  ids := .nil
  own := rfl
  others _ _ _ hevent := by cases hevent
  history := .nil

end LogOf

def countOf (accountId : String) (log : List PositionedEvent) : Nat :=
  ((log.map PositionedEvent.event).filter fun event => event.data.accountId = some accountId).length

theorem countOf_snoc (accountId : String) (log : List PositionedEvent) (x : PositionedEvent) :
    countOf accountId (log ++ [x]) = countOf accountId log +
      if x.event.data.accountId = some accountId then 1 else 0 := by
  unfold countOf
  by_cases h : x.event.data.accountId = some accountId <;> simp [h]

theorem countOf_mono (accountId : String) {log log' : List PositionedEvent} (h : log <+: log') :
    countOf accountId log ≤ countOf accountId log' :=
  ((h.map _).filter _).length_le

/-- The next event of the log that names the account is the next of its stream. -/
theorem LogOf.getElem? {accountId : String} {events : EventStore} (h : LogOf accountId events)
    {past : List PositionedEvent} {x : PositionedEvent} (hlog : past ++ [x] <+: events.allEvents)
    (hid : x.event.data.accountId = some accountId) :
    (events.stream (accountStream accountId))[countOf accountId past]? = some x.event := by
  obtain ⟨later, hlater⟩ := hlog
  rw [← h.own, ← hlater]
  have hx : ((past ++ [x] ++ later).map PositionedEvent.event)[past.length]? = some x.event := by
    simp
  have hnext := getElem?_filter_take (p := fun event => decide (event.data.accountId = some accountId)) hx
    (by simpa using hid)
  have htake : ((past ++ [x] ++ later).map PositionedEvent.event).take past.length =
      past.map PositionedEvent.event := by
    simp
  rwa [htake] at hnext

/-- What the write side accepts is such a log, if freezes are of known accounts. -/
theorem WellFormedLog.logOf {events : EventStore} (h : WellFormedLog events)
    (hids : (events.allEvents.map fun p => p.event.eventId).Nodup) (accountId : String) : LogOf accountId events := by
  have hown : ∀ streamId, ∀ event ∈ events.stream streamId,
      event.data.accountId = some accountId ↔ streamId = accountStream accountId := by
    intro streamId event hevent
    rcases h.named streamId (List.ne_nil_of_mem hevent) with ⟨accountId', rfl⟩ | ⟨transferId, rfl⟩
    · rw [(h.account accountId').2.accountId event hevent, accountStream_inj]
      exact ⟨fun hid => Option.some.inj hid, fun hid => congrArg some hid⟩
    · refine ⟨fun hid => ?_, fun hid => absurd hid.symm (accountStream_ne_transferStream _ _)⟩
      obtain ⟨hhistory, hne⟩ := h.transfer transferId
      have htransfer := (hhistory.stream.stamped (hne (List.ne_nil_of_mem hevent)) event hevent).2
      cases hd : event.data <;> simp [hd, EventData.accountId, EventData.transferId] at hid htransfer
  obtain ⟨journal, hlog, hj⟩ := h.journal
  have hmem : ∀ p ∈ journal, p.2 ∈ events.stream p.1 := by
    intro p hp
    rw [← hj, streamIn, List.mem_map]
    exact ⟨p, List.mem_filter.mpr ⟨hp, by simp⟩, rfl⟩
  refine ⟨h.position, hids, ?_, fun streamId hne event hevent hid => hne ((hown streamId event hevent).mp hid),
    (h.account accountId).1⟩
  rw [← hlog, ← hj, streamIn, List.filter_map]
  refine congrArg _ (List.filter_congr fun p hp => ?_)
  rw [Function.comp_apply, Bool.eq_iff_iff, decide_eq_true_iff, beq_iff_eq]
  exact hown p.1 p.2 (hmem p hp)

/-! ## What is due -/

/-- What a program has to do: the entry it owes, how many events of the stream
its replay is past, and how many it was asked to go over. -/
structure RebuildGhost where
  entry : Option Nat := none
  done : Nat := 0
  due : Nat := 0

def RebuildGhost.past (g : RebuildGhost) (k : Nat) : RebuildGhost :=
  if g.done = k then { g with done := k + 1 } else g

@[simp] theorem RebuildGhost.past_entry (g : RebuildGhost) (k : Nat) : (g.past k).entry = g.entry := by
  unfold past
  split <;> rfl

@[simp] theorem RebuildGhost.past_due (g : RebuildGhost) (k : Nat) : (g.past k).due = g.due := by
  unfold past
  split <;> rfl

theorem RebuildGhost.past_paid {g : RebuildGhost} (hg : g.entry = none) (k : Nat) :
    { RebuildGhost.past { g with entry := some k } k with entry := none } = g.past k := by
  obtain ⟨entry, done, due⟩ := g
  obtain rfl : entry = none := hg
  unfold past
  dsimp only
  split <;> rfl

def Grown (events events' : EventStore) : Prop :=
  events.allEvents <+: events'.allEvents ∧ ∀ streamId, events.stream streamId <+: events'.stream streamId

theorem Grown.refl (events : EventStore) : Grown events events := ⟨List.prefix_rfl, fun _ => List.prefix_rfl⟩

theorem Grown.trans {events events' events'' : EventStore} (h : Grown events events') (h' : Grown events' events'') :
    Grown events events'' := ⟨h.1.trans h'.1, fun streamId => (h.2 streamId).trans (h'.2 streamId)⟩

theorem Grown.write (events : EventStore) (streamId : String) (newEvents : List DomainEvent) :
    Grown events (events.write streamId newEvents) := by
  refine ⟨List.prefix_append _ _, fun streamId' => ?_⟩
  rw [EventStore.stream_write]
  exact List.prefix_append _ _

theorem Grown.getElem? {events events' : EventStore} (h : Grown events events') {streamId : String} {k : Nat}
    {event : DomainEvent} (hk : (events.stream streamId)[k]? = some event) :
    (events'.stream streamId)[k]? = some event := by
  obtain ⟨later, hlater⟩ := h.2 streamId
  rw [← hlater, List.getElem?_append_left (List.getElem?_eq_some_iff.mp hk).1, hk]

theorem Grown.take {events events' : EventStore} (h : Grown events events') {streamId : String} {k : Nat}
    (hk : k ≤ (events.stream streamId).length) :
    (events'.stream streamId).take k = (events.stream streamId).take k := by
  obtain ⟨later, hlater⟩ := h.2 streamId
  rw [← hlater, List.take_append_of_le_length hk]

theorem RebuildOp.perform_grown (op : RebuildOp) (side : ReadSide) : Grown side.events (op.perform side).2.events := by
  cases op with
  | read op =>
    rw [show (RebuildOp.perform (.read op) side).2.events = side.events from side.perform_events op]
    exact .refl _
  | append streamId events => exact .write _ _ _
  | _ => exact .refl _

section
variable [JsRuntime] {accountId : String} {allows : ReadSide → RebuildOp → Prop}

structure RebuildInv (accountId : String) (s : RebuildState) (gs : Nat → RebuildGhost) : Prop where
  log : LogOf accountId s.side.events
  defined : s.side.summaries.get none = none
  view : AccountView accountId (s.stream accountId) s.side fun k => ∃ i, (gs i).entry = some k
  version_le : s.side.version accountId ≤ s.reached
  reached_le : s.reached ≤ (s.stream accountId).length
  due_le : ∀ i, (gs i).due ≤ s.reached
  kept : ∀ k, k < s.reached → k < s.side.version accountId ∨ ∃ i, (gs i).done ≤ k ∧ k < (gs i).due

def rebuildOutline (accountId : String) (allows : ReadSide → RebuildOp → Prop) :
    Outline (rebuilds accountId allows) RebuildGhost where
  idle := {}
  le s s' := s.reached ≤ s'.reached ∧ Grown s.side.events s'.side.events
  inv := RebuildInv accountId
  le_refl _ := ⟨Nat.le_refl _, .refl _⟩
  le_trans h h' := ⟨Nat.le_trans h.1 h'.1, h.2.trans h'.2⟩
  le_step h := by
    cases h with
    | performed => exact ⟨Nat.le_max_left _ _, RebuildOp.perform_grown _ _⟩
    | transfer => exact ⟨Nat.le_refl _, .refl _⟩

namespace RebuildInv

variable {s : RebuildState} {gs : Nat → RebuildGhost} {side : ReadSide} {i k : Nat} {g : RebuildGhost}

theorem empty : RebuildInv accountId ⟨.empty .empty, 0⟩ fun _ => {} where
  log := .empty accountId
  defined := rfl
  view := .reset (.empty _) rfl rfl
  version_le := Nat.le_refl _
  reached_le := Nat.le_refl _
  due_le _ := Nat.le_refl _
  kept _ h := absurd h (Nat.not_lt_zero _)

theorem resetAccount_defined (h : RebuildInv accountId s gs) (accountId' : String) :
    (s.side.resetAccount accountId').summaries.get none = none := by
  rw [ReadSide.resetAccount_get, if_neg (by simp)]
  exact h.defined

theorem of_view (h : RebuildInv accountId s gs) (hevents : side.events = s.side.events)
    (hdefined : side.summaries.get none = none) (hversion : s.side.version accountId ≤ side.version accountId)
    {entry : Option Nat} (hview : AccountView accountId (s.stream accountId) side fun k =>
      ∃ j, (Function.update gs i { gs i with entry := entry } j).entry = some k) :
    RebuildInv accountId (s.next accountId side) (Function.update gs i { gs i with entry := entry }) := by
  have hstream : (s.next accountId side).stream accountId = s.stream accountId := by
    unfold RebuildState.stream RebuildState.next
    rw [hevents]
  have hdone : ∀ j, (Function.update gs i { gs i with entry := entry } j).done = (gs j).done :=
    Outline.ghost_kept RebuildGhost.done (by rfl)
  have hdue : ∀ j, (Function.update gs i { gs i with entry := entry } j).due = (gs j).due :=
    Outline.ghost_kept RebuildGhost.due (by rfl)
  refine ⟨hevents ▸ h.log, hdefined, hstream ▸ hview, Nat.le_max_right _ _, ?_, fun j => ?_, fun k hk => ?_⟩
  · rw [hstream]
    exact Nat.max_le.mpr ⟨h.reached_le, hview.version_le⟩
  · rw [hdue]
    exact Nat.le_trans (h.due_le j) (Nat.le_max_left _ _)
  · by_cases hlt : k < side.version accountId
    · exact .inl hlt
    · have hk : k < max s.reached (side.version accountId) := hk
      have hreached : k < s.reached := by omega
      obtain ⟨j, hj⟩ := (h.kept k hreached).resolve_left fun hold => hlt (Nat.lt_of_lt_of_le hold hversion)
      exact .inr ⟨j, by rwa [hdone, hdue]⟩

theorem frame (h : RebuildInv accountId s gs) (hkeyed : side.Keyed) (hevents : side.events = s.side.events)
    (hdefined : side.summaries.get none = none)
    (hget : side.summaries.get (some accountId) = s.side.summaries.get (some accountId))
    (hstatement : side.statement (some accountId) = s.side.statement (some accountId)) :
    RebuildInv accountId (s.next accountId side) gs := by
  have hversion : side.version accountId = s.side.version accountId := by
    unfold ReadSide.version
    rw [hget]
  have hsame : Function.update gs 0 { gs 0 with entry := (gs 0).entry } = gs := Outline.update_ghost rfl
  have hview := h.view.frame hkeyed hget hstatement
  rw [← hsame] at hview ⊢
  exact h.of_view hevents hdefined hversion.ge hview

theorem upsert (h : RebuildInv accountId s gs) {event : DomainEvent} (hk : (s.stream accountId)[k]? = some event)
    (hg : (gs i).entry = none) {next : AccountSummaryReadModel} (hkey : next.accountId = some accountId)
    (hversion : next.version = k + 1)
    (hshows : next.Shows (AccountAggregate.replay ((s.stream accountId).take (k + 1))))
    (hread : k ≤ s.side.version accountId) :
    RebuildInv accountId (s.next accountId (s.side.upsertAccountSummary next))
        (Function.update gs i { gs i with entry := some k }) ∧
      k < (s.side.upsertAccountSummary next).version accountId := by
  have howed : ∀ k', (∃ j, (gs j).entry = some k') →
      ∃ j, (Function.update gs i { gs i with entry := some k } j).entry = some k' := by
    intro k' howed
    obtain ⟨j, hj⟩ := howed
    refine ⟨j, ?_⟩
    rw [Function.update_of_ne, hj]
    intro heq
    rw [heq, hg] at hj
    cases hj
  obtain ⟨hview, hstored⟩ := (h.view.mono howed).upsert hk hkey hversion hshows hread ⟨i, by rw [Function.update_self]⟩
  have hdefined : (s.side.upsertAccountSummary next).summaries.get none = none := by
    rw [ReadSide.upsertAccountSummary_get_of_ne (by simp [hkey])]
    exact h.defined
  exact ⟨h.of_view (s.side.perform_events (.upsertAccountSummary next)) hdefined
    (ReadSide.version_perform (.upsertAccountSummary next) s.side) hview, hstored⟩

theorem append (h : RebuildInv accountId s gs) {event : DomainEvent} (hk : (s.stream accountId)[k]? = some event)
    (hid : event.data.accountId = some accountId) (hg : (gs i).entry = some k)
    (details : Option AccountProjector.TransferStatementDetails) :
    RebuildInv accountId
      (s.next accountId (s.side.appendAccountStatement (AccountProjector.statementEntry event details)))
      (Function.update gs i { gs i with entry := none }) := by
  have howed : ∀ k', (∃ j, (gs j).entry = some k') ∧ k' ≠ k →
      ∃ j, (Function.update gs i { gs i with entry := none } j).entry = some k' := by
    intro k' howed
    obtain ⟨⟨j, hj⟩, hne⟩ := howed
    refine ⟨j, ?_⟩
    rw [Function.update_of_ne, hj]
    intro heq
    rw [heq, hg] at hj
    exact hne (Option.some.inj hj).symm
  have hdefined : (s.side.appendAccountStatement (AccountProjector.statementEntry event details)).summaries.get none =
      none := by
    rw [ReadSide.appendAccountStatement_summaries]
    exact h.defined
  exact h.of_view (s.side.perform_events (.appendAccountStatement _)) hdefined
    (ReadSide.version_perform (.appendAccountStatement _) s.side)
    ((h.view.append h.log.history.stream hid hk details).mono howed)

/-- A reset leaves all that was reached to the program that made it. -/
theorem reset (h : RebuildInv accountId s gs) (hkeyed : side.Keyed) (hevents : side.events = s.side.events)
    (hdefined : side.summaries.get none = none) (hget : side.summaries.get (some accountId) = none)
    (hstatement : side.statement (some accountId) = []) :
    RebuildInv accountId (s.next accountId side) (Function.update gs i { gs i with done := 0, due := s.reached }) := by
  have hversion := ReadSide.version_of_none hget
  have hreached : s.next accountId side = ⟨side, s.reached⟩ := by
    unfold RebuildState.next
    rw [hversion, Nat.max_zero]
  have hstream : (⟨side, s.reached⟩ : RebuildState).stream accountId = s.stream accountId := by
    unfold RebuildState.stream
    rw [hevents]
  rw [hreached]
  refine ⟨hevents ▸ h.log, hdefined, .reset hkeyed hget hstatement, ?_, ?_, fun j => ?_, fun k hk => .inr ⟨i, ?_⟩⟩
  · dsimp only
    rw [hversion]
    exact Nat.zero_le _
  · rw [hstream]
    exact h.reached_le
  · by_cases hj : j = i
    · subst hj
      rw [Function.update_self]
    · rw [Function.update_of_ne hj]
      exact h.due_le j
  · rw [Function.update_self]
    exact ⟨Nat.zero_le _, hk⟩

theorem grow (h : RebuildInv accountId s gs) {events : EventStore} (hlog : LogOf accountId events)
    (hgrown : Grown s.side.events events) :
    RebuildInv accountId (s.next accountId { s.side with events := events }) gs := by
  have hreached : s.next accountId { s.side with events := events } =
      ⟨{ s.side with events := events }, s.reached⟩ := by
    unfold RebuildState.next
    rw [Nat.max_eq_left]
    exact h.version_le
  rw [hreached]
  have hpre := hgrown.2 (accountStream accountId)
  have hkeyed : ReadSide.Keyed { s.side with events := events } := ⟨h.view.keyed.account, h.view.keyed.transfer⟩
  exact ⟨hlog, h.defined, (h.view.grow hpre).frame hkeyed rfl rfl, h.version_le,
    Nat.le_trans h.reached_le hpre.length_le, h.due_le, h.kept⟩

/-- The ghost of a program that is past an event the stored version is past. -/
theorem past (h : RebuildInv accountId s gs) (hk : k < s.side.version accountId) :
    RebuildInv accountId s (Function.update gs i ((gs i).past k)) := by
  have hentry : ∀ j, (Function.update gs i ((gs i).past k) j).entry = (gs j).entry :=
    Outline.ghost_kept RebuildGhost.entry (RebuildGhost.past_entry _ _)
  have hdue : ∀ j, (Function.update gs i ((gs i).past k) j).due = (gs j).due :=
    Outline.ghost_kept RebuildGhost.due (RebuildGhost.past_due _ _)
  refine ⟨h.log, h.defined, ?_, h.version_le, h.reached_le, fun j => ?_, fun k' hk' => ?_⟩
  · refine h.view.mono fun k' howed => ?_
    obtain ⟨j, hj⟩ := howed
    exact ⟨j, by rw [hentry, hj]⟩
  · rw [hdue]
    exact h.due_le j
  · rcases h.kept k' hk' with hlt | ⟨j, hdone, hlt⟩
    · exact .inl hlt
    · by_cases hkk : k' < s.side.version accountId
      · exact .inl hkk
      · refine .inr ⟨j, ?_, by rwa [hdue]⟩
        by_cases hj : j = i
        · subst hj
          rw [Function.update_self]
          unfold RebuildGhost.past
          split
          · show k + 1 ≤ k'
            omega
          · exact hdone
        · rwa [Function.update_of_ne hj]

end RebuildInv

/-! ## Calls that do not touch the account -/

def Foreign (accountId : String) : RebuildOp → Prop
  | .read (.upsertAccountSummary summary) => summary.accountId ≠ none ∧ summary.accountId ≠ some accountId
  | .read (.appendAccountStatement entry) => entry.accountId ≠ some accountId
  | .read _ => True
  | .readStream _ | .resetAllTransfers | .receive _ => True
  | _ => False

omit [JsRuntime] in
theorem Foreign.perform {op : ReadOp} (hop : Foreign accountId (.read op)) (side : ReadSide) :
    (∀ key, key = none ∨ key = some accountId →
      (ReadSide.perform op side).2.summaries.get key = side.summaries.get key) ∧
    (ReadSide.perform op side).2.statement (some accountId) = side.statement (some accountId) := by
  cases op with
  | upsertAccountSummary summary =>
    obtain ⟨hnone, hsome⟩ := hop
    refine ⟨fun key hkey => ReadSide.upsertAccountSummary_get_of_ne ?_, ReadSide.upsertAccountSummary_statement _ _⟩
    rcases hkey with rfl | rfl
    · exact hnone
    · exact hsome
  | appendAccountStatement entry =>
    refine ⟨fun key _ => ?_, ?_⟩
    · show (side.appendAccountStatement entry).summaries.get key = _
      rw [ReadSide.appendAccountStatement_summaries]
    · show (side.appendAccountStatement entry).statement (some accountId) = _
      rw [ReadSide.statement_append, if_neg fun h => hop h.1]
  | upsertTransferSummary summary =>
    refine ⟨fun key _ => ?_, ?_⟩
    · show (side.upsertTransferSummary summary).summaries.get key = _
      rw [ReadSide.upsertTransferSummary_summaries]
    · unfold ReadSide.statement
      show ((side.upsertTransferSummary summary).statements.get _).getD [] = _
      rw [ReadSide.upsertTransferSummary_statements]
  | _ => exact ⟨fun _ _ => rfl, rfl⟩

theorem RebuildInv.foreign {s s' : RebuildState} {gs : Nat → RebuildGhost} {op : RebuildOp}
    {r : Except Failure op.Result} (h : RebuildInv accountId s gs)
    (hs : RebuildStep accountId allows op s r s') (hop : Foreign accountId op) : RebuildInv accountId s' gs := by
  cases hs with
  | transfer => exact h
  | performed =>
    cases op with
    | read op =>
      obtain ⟨hget, hstatement⟩ := hop.perform s.side
      exact h.frame (h.view.keyed.perform op) (s.side.perform_events op) ((hget none (.inl rfl)).trans h.defined)
        (hget _ (.inr rfl)) hstatement
    | readStream | receive => exact h.frame h.view.keyed rfl h.defined rfl rfl
    | resetAllTransfers => exact h.frame ⟨h.view.keyed.account, fun hget => by cases hget⟩ rfl h.defined rfl rfl
    | _ => cases hop

/-! ## Projections among the calls of rebuilds -/

omit [JsRuntime] in
theorem projecting_bind {α β : Type} (p : Projection α) (f : α → Projection β) :
    Projecting (p >>= f) = Projecting p >>= fun a => Projecting (f a) := Async.along_bind _ _ _

omit [JsRuntime] in
theorem projecting_call (op : ReadOp) : Projecting (ReadOp.call op) = RebuildOp.call (.read op) := rfl

omit [JsRuntime] in
theorem only_projecting {α : Type} {p : Projection α} (hp : p.Only fun op => Foreign accountId (.read op)) :
    (Projecting p).Only (Foreign accountId) := Async.only_along hp

omit [JsRuntime] in
theorem only_statementDetails (event : DomainEvent) :
    (AccountProjector.statementDetails event).Only fun op => Foreign accountId (.read op) := by
  have hget : ∀ accountId', (AccountProjector.getTransferStatementDetails event accountId').Only
      fun op => Foreign accountId (.read op) := by
    intro accountId'
    unfold AccountProjector.getTransferStatementDetails
    dsimp only
    split
    · trivial
    · refine Async.only_bind (Async.only_call trivial) fun transfer => ?_
      split <;> trivial
  unfold AccountProjector.statementDetails
  split
  · exact hget _
  · exact hget _
  · trivial

theorem only_projectTransfer (event : DomainEvent) :
    (TransferProjector.project event).Only fun op => Foreign accountId (.read op) := by
  have hevent : (do TransferProjector.projectTransferEvent event; return true : Projection Bool).Only
      fun op => Foreign accountId (.read op) := by
    refine Async.only_bind ?_ fun _ => trivial
    unfold TransferProjector.projectTransferEvent
    refine Async.only_bind (Async.only_call trivial) fun existing => ?_
    split
    · refine Async.only_bind trivial fun amountMinorUnits => Async.only_call trivial
    · trivial
    · exact Async.only_call trivial
  unfold TransferProjector.project
  split
  all_goals first | exact hevent | trivial

/-- An event that names no account stops at the summary that is not there. -/
theorem project_undefined {event : DomainEvent} (hid : event.data.accountId = none) :
    AccountProjector.project event = pure false ∨ ∃ k, AccountProjector.project event =
      .await (.getAccountSummary none) k ∧ ∃ e, k (.ok none) = .done (.error e) := by
  unfold AccountProjector.project
  cases hd : event.data with
  | AccountCreated => rw [hd] at hid; cases hid
  | MoneyDeposited accountId' | MoneyWithdrawn accountId' | AccountFrozen accountId' =>
    rw [hd] at hid
    obtain rfl : accountId' = none := hid
    exact .inr ⟨_, rfl, _, rfl⟩
  | _ => exact .inl rfl

theorem advance_passed {event : DomainEvent} {existing : Option AccountSummaryReadModel}
    (h : AccountProjector.advance event existing = .ok none) : event.streamVersion ≤ existing.elim 0 (·.version) := by
  unfold AccountProjector.advance at h
  split at h
  · split at h
    · split at h <;> cases h
    · cases h
  · split at h
    · assumption
    · split at h <;> cases h

theorem advance_accountId {event : DomainEvent} {accountId' : String} (hid : event.data.accountId = some accountId')
    {existing : Option AccountSummaryReadModel}
    (hexisting : ∀ summary, existing = some summary → summary.accountId = some accountId')
    {next : AccountSummaryReadModel} (h : AccountProjector.advance event existing = .ok (some next)) :
    next.accountId = some accountId' := by
  unfold AccountProjector.advance at h
  split at h
  · split at h
    case h_1 hd =>
      split at h
      · cases h
      · cases h
        rw [hd] at hid
        exact hid
    · cases h
  case h_2 summary =>
    split at h
    · cases h
    · split at h
      · cases h
      · cases h
        rw [AccountProjector.nextSummary_accountId]
        exact hexisting summary rfl

/-! ## One event -/

section
variable {q : RebuildRequest} {s : RebuildState} {g : RebuildGhost} {event : DomainEvent} {k : Nat}

theorem wp_other (hid : event.data.accountId ≠ some accountId) :
    (rebuildOutline accountId allows).wp q (Projecting (AccountProjector.project event)) s g
      fun _ g' _ => g' = g := by
  cases hother : event.data.accountId with
  | none =>
    rcases project_undefined hother with hproject | ⟨k, hproject, e, hk⟩
    · rw [hproject]
      exact Outline.wp_pure rfl
    · rw [hproject]
      intro i s₁ gs _ hinv hg r s₂ hstep
      refine ⟨g, ?_⟩
      rw [Outline.update_ghost hg]
      refine ⟨hinv.foreign hstep trivial, ?_⟩
      cases hstep
      show (rebuildOutline accountId allows).wp q (Projecting (k (.ok (s₁.side.summaries.get none)))) _ g _
      rw [RebuildInv.defined hinv, hk]
      exact Outline.wp_done rfl
  | some accountId' =>
    have hne : accountId' ≠ accountId := fun heq => hid (heq ▸ hother)
    rw [AccountProjector.project_eq hother, AccountProjector.shape, projecting_bind, projecting_call]
    refine Outline.wp_bind (Outline.wp_call fun i s₁ gs _ hinv hg r s₂ hstep => ⟨g, ?_⟩)
    rw [Outline.update_ghost hg]
    refine ⟨hinv.foreign hstep trivial, ?_⟩
    cases hstep
    have hinv : RebuildInv accountId s₁ gs := hinv
    dsimp only [RebuildOp.perform, ReadSide.perform]
    refine Outline.wp_only (P := Foreign accountId) (only_projecting ?_) fun hop hinv hstep => hinv.foreign hstep hop
    split
    · trivial
    · trivial
    case h_3 next hadvance =>
      have hkey : next.accountId = some accountId' :=
        advance_accountId hother (fun summary hget => hinv.view.keyed.account hget) hadvance
      refine Async.only_bind (only_statementDetails event) fun details => ?_
      refine Async.only_bind (Async.only_call ?_) fun _ => Async.only_bind (Async.only_call ?_) fun _ => trivial
      · exact ⟨by simp [hkey], by simpa [hkey] using hne⟩
      · show (AccountProjector.statementEntry event details).accountId ≠ some accountId
        rw [AccountProjector.statementEntry_accountId]
        exact hid

/-- The entry that a program owes. -/
theorem wp_entry (hk : (s.stream accountId)[k]? = some event) (hid : event.data.accountId = some accountId)
    (hg : g.entry = some k) (details : Option AccountProjector.TransferStatementDetails) :
    (rebuildOutline accountId allows).wp q
      (Projecting (ReadOp.call (.appendAccountStatement (AccountProjector.statementEntry event details)))) s g
      fun s' g' _ => s.reached ≤ s'.reached ∧ g' = { g with entry := none } := by
  refine Outline.wp_call fun i s₁ gs hle hinv hgi r s₂ hstep => ?_
  have hinv : RebuildInv accountId s₁ gs := hinv
  cases hstep with
  | performed =>
    have hinv₂ := hinv.append (hle.2.getElem? hk) hid (i := i) (by rw [hgi, hg]) details
    rw [hgi] at hinv₂
    exact ⟨_, hinv₂, Nat.le_trans hle.1 (Nat.le_max_left _ _), rfl⟩

/-- The summary that shows an event, and its entry. -/
theorem wp_store (hallows : ∀ side op, allows side op → KeepsUp accountId side op)
    (hk : (s.stream accountId)[k]? = some event) (hid : event.data.accountId = some accountId) (hg : g.entry = none)
    {next : AccountSummaryReadModel} (hkey : next.accountId = some accountId) (hnext : next.version = k + 1)
    (hshows : next.Shows (AccountAggregate.replay ((s.stream accountId).take (k + 1))))
    (details : Option AccountProjector.TransferStatementDetails) :
    (rebuildOutline accountId allows).wp q (Projecting do
      ReadOp.call (.upsertAccountSummary next)
      ReadOp.call (.appendAccountStatement (AccountProjector.statementEntry event details))
      return true) s g
      fun s' g' r => g'.entry = none ∧ g'.due = g.due ∧ ∀ b, r = .ok b → g' = g.past k ∧ k < s'.reached := by
  rw [projecting_bind]
  refine Outline.wp_bind (Outline.wp_call fun i s₁ gs hle hinv hgi r s₂ hstep => ?_)
  have hinv : RebuildInv accountId s₁ gs := hinv
  have hk₁ : (s₁.stream accountId)[k]? = some event := hle.2.getElem? hk
  have hshows₁ : next.Shows (AccountAggregate.replay ((s₁.stream accountId).take (k + 1))) := by
    rwa [show (s₁.stream accountId).take (k + 1) = (s.stream accountId).take (k + 1) from
      hle.2.take (List.getElem?_eq_some_iff.mp hk).1]
  have hle₂ := Outline.le_trans _ hle (Outline.le_step _ hstep)
  cases hstep with
  | performed _ hallowed =>
    have hread : k ≤ s₁.side.version accountId := by
      have hkeeps := hallows _ _ hallowed hkey
      omega
    obtain ⟨hinv₂, hstored⟩ := hinv.upsert hk₁ (hgi.symm ▸ hg) hkey hnext hshows₁ hread
    have hpast : RebuildInv accountId (s₁.next accountId (s₁.side.upsertAccountSummary next))
        (Function.update gs i (RebuildGhost.past { g with entry := some k } k)) := by
      simpa [hgi] using hinv₂.past (i := i) hstored
    dsimp only [RebuildOp.perform, ReadSide.perform]
    refine ⟨RebuildGhost.past { g with entry := some k } k, hpast, ?_⟩
    rw [projecting_bind]
    refine Outline.wp_bind (Outline.wp_mono (fun s₃ g' r _ hr => ?_)
      (wp_entry (hle₂.2.getElem? hk) hid (by simp) details))
    obtain ⟨hreached, rfl⟩ := hr
    rw [RebuildGhost.past_paid hg k]
    cases r with
    | error e => exact ⟨by simpa using hg, by simp, fun b hb => by cases hb⟩
    | ok u =>
      refine Outline.wp_pure ⟨by simpa using hg, by simp, fun b _ => ⟨rfl, ?_⟩⟩
      exact Nat.lt_of_lt_of_le (Nat.lt_of_lt_of_le hstored (Nat.le_max_right _ _)) hreached

theorem wp_own (hallows : ∀ side op, allows side op → KeepsUp accountId side op)
    (hk : (s.stream accountId)[k]? = some event) (hid : event.data.accountId = some accountId) (hg : g.entry = none) :
    (rebuildOutline accountId allows).wp q (Projecting (AccountProjector.project event)) s g fun s' g' r =>
      g'.entry = none ∧ g'.due = g.due ∧ ∀ b, r = .ok b → g' = g.past k ∧ k < s'.reached := by
  rw [AccountProjector.project_eq hid, AccountProjector.shape, projecting_bind, projecting_call]
  refine Outline.wp_bind (Outline.wp_call fun i s₁ gs hle hinv hgi r s₂ hstep => ?_)
  have hinv : RebuildInv accountId s₁ gs := hinv
  have hk₁ : (s₁.stream accountId)[k]? = some event := hle.2.getElem? hk
  have hversion := hinv.log.history.stream.streamVersion hk₁
  have hinv₂ := hinv.foreign hstep trivial
  have hsame : Function.update gs i g = gs := Outline.update_ghost hgi
  have hle₂ := (rebuildOutline accountId allows).le_step hstep
  cases hstep
  dsimp only [RebuildOp.perform, ReadSide.perform]
  cases hadvance : AccountProjector.advance event (s₁.side.summaries.get (some accountId)) with
  | error e => exact ⟨g, hsame.symm ▸ hinv₂, Outline.wp_throw ⟨hg, rfl, fun b hb => by cases hb⟩⟩
  | ok next =>
    cases next with
    | none =>
      -- the stored version is past the event
      have hpast : k < s₁.side.version accountId := by
        have hle := advance_passed hadvance
        rw [hversion] at hle
        exact hle
      refine ⟨g.past k, hgi ▸ hinv₂.past hpast, Outline.wp_pure ⟨by simpa using hg, by simp, fun b _ => ⟨rfl, ?_⟩⟩⟩
      exact Nat.lt_of_lt_of_le hpast (Nat.le_max_right _ _)
    | some next =>
      obtain ⟨hkey, hnext, -, hshows⟩ := AccountProjector.advance_shows hk₁ hversion hid
        (fun summary hget => ⟨hinv.view.keyed.account hget, (hinv.view.summary hget).2.2⟩) hadvance
      refine ⟨g, hsame.symm ▸ hinv₂, ?_⟩
      rw [projecting_bind]
      refine Outline.wp_bind (Outline.wp_mono (fun s₃ g' r hle₃ hr => ?_) (Outline.wp_only
        (only_projecting (only_statementDetails event)) fun hop hinv hstep => hinv.foreign hstep hop))
      rw [hr]
      cases r with
      | error e => exact ⟨hg, rfl, fun b hb => by cases hb⟩
      | ok details =>
        have hgrown : Grown s₁.side.events s₃.side.events := (Outline.le_trans _ hle₂ hle₃).2
        have hshows₃ : next.Shows (AccountAggregate.replay ((s₃.stream accountId).take (k + 1))) := by
          rwa [show (s₃.stream accountId).take (k + 1) = (s₁.stream accountId).take (k + 1) from
            hgrown.take (List.getElem?_eq_some_iff.mp hk₁).1]
        exact wp_store hallows (hgrown.getElem? hk₁) hid hg hkey hnext hshows₃ details

end

end

end CoreBanking
