import CoreBanking.AccountHistory
import CoreBanking.EventLog
import CoreBanking.TransferHistory

/-!
# The ledger

What the event store and the snapshots keep at all times: the streams are
histories, the log is an interleaving of the streams, and every snapshot is the
replay of a prefix. Only a commit changes a stream, and it extends one.
-/

namespace CoreBanking

theorem accountStream_inj {a b : String} : accountStream a = accountStream b ↔ a = b :=
  ⟨fun h => by
    have := congrArg String.toList h
    simp only [accountStream, String.toList_append, List.append_cancel_left_eq] at this
    exact String.toList_inj.mp this, congrArg _⟩

theorem transferStream_inj {a b : String} : transferStream a = transferStream b ↔ a = b :=
  ⟨fun h => by
    have := congrArg String.toList h
    simp only [transferStream, String.toList_append, List.append_cancel_left_eq] at this
    exact String.toList_inj.mp this, congrArg _⟩

theorem accountStream_ne_transferStream (a t : String) : accountStream a ≠ transferStream t := by
  intro h
  have := congrArg (fun s => s.toList.head?) h
  simp [accountStream, transferStream, String.toList_append] at this

def Store.stream (s : Store) (streamId : String) : List DomainEvent := s.events.stream streamId

/-- The store after an append of `events` that found the version it expected. -/
def Store.write (s : Store) (streamId : String) (events : List DomainEvent) : Store :=
  { s with events := s.events.write streamId events }

theorem Store.stream_write (s : Store) (streamId streamId' : String) (events : List DomainEvent) :
    (s.write streamId events).stream streamId' =
      if streamId = streamId' then s.stream streamId ++ EventStore.renumber (s.stream streamId).length events
      else s.stream streamId' := by
  simp only [Store.stream, Store.write, EventStore.stream, EventStore.write, OrderedMap.get_set]
  split <;> rfl

/-- An event that extends the stream `es` as an accepted command would. -/
inductive Extends (streamId : String) (es : List DomainEvent) (event : DomainEvent) : Prop
  | account (cmd : AccountCommand) : streamId = accountStream cmd.accountId →
      cmd.Commits (AccountAggregate.replay es) event → Extends streamId es event
  | transfer (cmd : TransferCommand) : streamId = transferStream cmd.transferId →
      cmd.Commits (TransferAggregate.replay es) event → Extends streamId es event

def Snapshot.Faithful (snapshot : Snapshot) (es : List DomainEvent) : Prop :=
  snapshot.version ≤ es.length ∧
  snapshot.state = (AccountAggregate.replay (es.take snapshot.version)).getSnapshotState

theorem Snapshot.Faithful.mono {snapshot : Snapshot} {es fs : List DomainEvent} (h : snapshot.Faithful es)
    (hp : es <+: fs) : snapshot.Faithful fs := by
  obtain ⟨r, rfl⟩ := hp
  refine ⟨by rw [List.length_append]; exact Nat.le_trans h.1 (Nat.le_add_right _ _), ?_⟩
  rw [h.2, List.take_append_of_le_length h.1]

theorem Snapshot.Faithful.of_isPrefix {snapshot : Snapshot} {es fs : List DomainEvent} (hp : es <+: fs)
    (hversion : snapshot.version = es.length)
    (hstate : snapshot.state = (AccountAggregate.replay es).getSnapshotState) : snapshot.Faithful fs := by
  refine ⟨hversion ▸ hp.length_le, ?_⟩
  rw [hstate, hversion, ← List.prefix_iff_eq_take.mp hp]

theorem AccountAggregate.replay_version {es : List DomainEvent} (h : Numbered DomainEvent.streamVersion es) :
    (replay es).version = es.length := by
  rcases List.eq_nil_or_concat es with rfl | ⟨es, event, rfl⟩
  · rfl
  · rw [List.concat_eq_append] at h ⊢
    rw [replay_snoc, when_version, h es.length event List.getElem?_concat_length, List.length_append,
      List.length_singleton]

structure Store.Loadable (s : Store) : Prop where
  numbered : ∀ streamId, Numbered DomainEvent.streamVersion (s.stream streamId)
  snapshot : ∀ streamId snapshot, s.snapshots.get streamId = some snapshot → snapshot.Faithful (s.stream streamId)

namespace Store.Loadable

variable {s s' : Store}

theorem empty : Store.empty.Loadable where
  numbered _ k _ hk := by cases hk
  snapshot _ _ h := by cases h

theorem putSnapshot (h : s.Loadable) {snapshot : Snapshot} (hf : snapshot.Faithful (s.stream snapshot.streamId)) :
    { s with snapshots := s.snapshots.set snapshot.streamId snapshot : Store }.Loadable where
  numbered := h.numbered
  snapshot streamId snapshot' hget := by
    simp only [OrderedMap.get_set] at hget
    split at hget
    case isTrue heq =>
      obtain rfl := Option.some.inj hget
      exact heq ▸ hf
    · exact h.snapshot streamId snapshot' hget

theorem write (h : s.Loadable) (streamId : String) (events : List DomainEvent) :
    (s.write streamId events).Loadable := by
  constructor
  · intro streamId' k event hk
    rw [Store.stream_write] at hk
    split at hk
    · rcases Nat.lt_or_ge k (s.stream streamId).length with hlt | hge
      · exact h.numbered streamId k event (by rwa [List.getElem?_append_left hlt] at hk)
      · rw [List.getElem?_append_right hge, EventStore.getElem?_renumber] at hk
        obtain ⟨e, -, rfl⟩ := Option.map_eq_some_iff.mp hk
        dsimp only
        omega
    · exact h.numbered streamId' k event hk
  · intro streamId' snapshot hget
    refine (h.snapshot streamId' snapshot hget).mono ?_
    rw [Store.stream_write]
    split
    case isTrue heq =>
      rw [heq]
      exact List.prefix_append _ _
    · exact List.prefix_rfl

/-! ## Loading -/

theorem restore_snapshot (h : s.Loadable) {streamId : String} {snapshot : Snapshot}
    (hf : snapshot.Faithful (s.stream streamId)) :
    ({} : AccountAggregate).restoreSnapshot snapshot.state snapshot.version =
      AccountAggregate.replay ((s.stream streamId).take snapshot.version) := by
  have hversion : (AccountAggregate.replay ((s.stream streamId).take snapshot.version)).version = snapshot.version := by
    rw [AccountAggregate.replay_version ((h.numbered streamId).of_isPrefix (List.take_prefix ..)), List.length_take,
      Nat.min_eq_left hf.1]
  rw [hf.2]
  have hu := AccountAggregate.replay_uncommittedEvents ((s.stream streamId).take snapshot.version)
  revert hversion hu
  generalize AccountAggregate.replay ((s.stream streamId).take snapshot.version) = account
  intro hversion hu
  cases account
  simp_all [AccountAggregate.restoreSnapshot, AccountAggregate.getSnapshotState]

/-- A snapshot and the events after it replay to the whole stream, also when
the stream has grown since the snapshot was read. -/
theorem load_snapshot (h : s.Loadable) {streamId : String} {es : List DomainEvent} {snapshot : Snapshot}
    (hf : snapshot.Faithful es) (hp : es <+: s.stream streamId) :
    (({} : AccountAggregate).restoreSnapshot snapshot.state snapshot.version).loadFromHistory
        (s.events.readStream streamId snapshot.version) =
      AccountAggregate.replay (s.stream streamId) := by
  have hf := hf.mono hp
  have hread : s.events.readStream streamId snapshot.version = (s.stream streamId).drop snapshot.version :=
    Numbered.filter_eq_drop (h.numbered streamId) snapshot.version
  rw [h.restore_snapshot hf, hread, AccountAggregate.replay, ← AccountAggregate.loadFromHistory_append,
    List.take_append_drop, AccountAggregate.replay]

theorem load_stream (h : s.Loadable) (streamId : String) :
    ({} : AccountAggregate).loadFromHistory (s.events.readStream streamId 0) =
      AccountAggregate.replay (s.stream streamId) := by
  rw [AccountAggregate.replay, show s.events.readStream streamId 0 = (s.stream streamId).drop 0 from
    Numbered.filter_eq_drop (h.numbered streamId) 0, List.drop_zero]

end Store.Loadable

/-- The log as events under the streams they were appended to. -/
structure Journal (s : Store) (journal : List (String × DomainEvent)) : Prop where
  log : journal.map Prod.snd = s.events.allEvents.map PositionedEvent.event
  streams : ∀ streamId, (journal.filter (fun p => p.1 == streamId)).map Prod.snd = s.stream streamId

structure Ledger (s : Store) : Prop where
  account : ∀ accountId, AccountHistory accountId (s.stream (accountStream accountId))
  transfer : ∀ transferId, TransferHistory transferId (s.stream (transferStream transferId))
  named : ∀ streamId, s.stream streamId ≠ [] →
    (∃ accountId, streamId = accountStream accountId) ∨ ∃ transferId, streamId = transferStream transferId
  snapshot : ∀ streamId snapshot, s.snapshots.get streamId = some snapshot → snapshot.Faithful (s.stream streamId)
  journal : ∃ journal, Journal s journal
  position : ∀ k p, s.events.allEvents[k]? = some p → p.position = k + 1

theorem Ledger.empty : Ledger .empty where
  account _ := .nil
  transfer _ := .nil
  named _ h := absurd rfl h
  snapshot _ _ h := by cases h
  journal := ⟨[], rfl, fun _ => rfl⟩
  position _ _ h := by simp [Store.empty, EventStore.empty] at h

namespace Ledger

variable {s s' : Store}

theorem congr (h : Ledger s) (he : s'.events = s.events) (hs : s'.snapshots = s.snapshots) : Ledger s' := by
  cases s; cases s'
  obtain rfl := he
  obtain rfl := hs
  exact ⟨h.account, h.transfer, h.named, h.snapshot, h.journal.imp fun _ hj => ⟨hj.log, hj.streams⟩, h.position⟩

/-! ## Commits -/

theorem extends_version (h : Ledger s) {streamId : String} {event : DomainEvent}
    (he : Extends streamId (s.stream streamId) event) : event.streamVersion = (s.stream streamId).length + 1 := by
  cases he with
  | account cmd hs hc => subst hs; rw [hc.streamVersion, (h.account _).stream.version]
  | transfer cmd hs hc => subst hs; rw [hc.streamVersion, (h.transfer _).stream.version]

theorem renumber_eq (h : Ledger s) {streamId : String} {event : DomainEvent}
    (he : Extends streamId (s.stream streamId) event) :
    EventStore.renumber (s.stream streamId).length [event] = [event] := by
  have hv := h.extends_version he
  simp only [EventStore.renumber, List.mapIdx_cons, List.mapIdx_nil, Nat.add_zero, ← hv]

theorem stream_write (h : Ledger s) {streamId : String} {event : DomainEvent}
    (he : Extends streamId (s.stream streamId) event) (streamId' : String) :
    (s.write streamId [event]).stream streamId' =
      if streamId = streamId' then s.stream streamId ++ [event] else s.stream streamId' := by
  rw [Store.stream_write, h.renumber_eq he]

theorem allEvents_write (h : Ledger s) {streamId : String} {event : DomainEvent}
    (he : Extends streamId (s.stream streamId) event) :
    (s.write streamId [event]).events.allEvents =
      s.events.allEvents ++ [⟨event, s.events.allEvents.length + 1⟩] := by
  simp only [Store.write, EventStore.write]
  rw [show s.events.stream streamId = s.stream streamId from rfl, h.renumber_eq he]
  simp

theorem write (h : Ledger s) {streamId : String} {event : DomainEvent}
    (he : Extends streamId (s.stream streamId) event) : Ledger (s.write streamId [event]) := by
  have hstream := h.stream_write he
  refine ⟨fun accountId => ?_, fun transferId => ?_, fun streamId' hne => ?_, fun streamId' snapshot hget => ?_,
    ?_, fun k p hk => ?_⟩
  · rw [hstream]
    split
    case isTrue hid =>
      cases he with
      | account cmd hs hc =>
        obtain rfl : cmd.accountId = accountId := accountStream_inj.mp (hs.symm.trans hid)
        exact .commit (hid ▸ h.account _) rfl hc
      | transfer cmd hs hc => exact absurd (hid.symm.trans hs) (accountStream_ne_transferStream _ _)
    · exact h.account accountId
  · rw [hstream]
    split
    case isTrue hid =>
      cases he with
      | account cmd hs hc => exact absurd (hs.symm.trans hid) (accountStream_ne_transferStream _ _)
      | transfer cmd hs hc =>
        obtain rfl : cmd.transferId = transferId := transferStream_inj.mp (hs.symm.trans hid)
        exact .commit (hid ▸ h.transfer _) rfl hc
    · exact h.transfer transferId
  · rw [hstream] at hne
    split at hne
    case isTrue hid =>
      subst hid
      cases he with
      | account cmd hs hc => exact .inl ⟨_, hs⟩
      | transfer cmd hs hc => exact .inr ⟨_, hs⟩
    · exact h.named streamId' hne
  · refine (h.snapshot streamId' snapshot hget).mono ?_
    rw [hstream]
    split
    case isTrue hid => rw [hid]; exact List.prefix_append _ _
    · exact List.prefix_rfl
  · obtain ⟨journal, hj⟩ := h.journal
    refine ⟨journal ++ [(streamId, event)], ?_, fun streamId' => ?_⟩
    · simp [h.allEvents_write he, hj.log]
    · rw [hstream, List.filter_append, List.map_append, hj.streams]
      by_cases hid : streamId = streamId'
      · subst hid; simp
      · simp [hid]
  · rw [h.allEvents_write he] at hk
    rcases Nat.lt_trichotomy k s.events.allEvents.length with hlt | rfl | hgt
    · exact h.position k p (by rwa [List.getElem?_append_left hlt] at hk)
    · simp only [List.getElem?_concat_length, Option.some.injEq] at hk
      rw [← hk]
    · rw [List.getElem?_eq_none (by simp; omega)] at hk
      cases hk

/-! ## Loading -/

theorem loadable (h : Ledger s) : s.Loadable where
  numbered streamId k event hk := by
    have hne : s.stream streamId ≠ [] := by
      intro hnil
      simp [hnil] at hk
    rcases h.named streamId hne with ⟨accountId, rfl⟩ | ⟨transferId, rfl⟩
    · exact (h.account accountId).stream.numbered k event hk
    · exact (h.transfer transferId).stream.numbered k event hk
  snapshot := h.snapshot

/-- The snapshots may change as long as they can be loaded. -/
theorem of_loadable (h : Ledger s) (he : s'.events = s.events) (hl : s'.Loadable) : Ledger s' := by
  cases s; cases s'
  obtain rfl := he
  exact ⟨h.account, h.transfer, h.named, hl.snapshot, h.journal.imp fun _ hj => ⟨hj.log, hj.streams⟩, h.position⟩

theorem load_transfer (h : Ledger s) (transferId : String) :
    ({} : TransferAggregate).loadFromHistory (s.events.readStream (transferStream transferId) 0) =
      TransferAggregate.replay (s.stream (transferStream transferId)) := by
  rw [TransferAggregate.replay, show s.events.readStream (transferStream transferId) 0 =
    (s.stream (transferStream transferId)).drop 0 from
      Numbered.filter_eq_drop (h.transfer transferId).stream.numbered 0, List.drop_zero]

end Ledger

end CoreBanking
