import CoreBanking.Lib.Numbered
import CoreBanking.Stores
import Mathlib.Data.List.Induction

/-!
# The event store as one log

The streams, the log of all events and the outbox are updated one after the
other in an append. `Recorded` ties the three to one journal, the events in the
order they were appended, each under its stream.
-/

namespace CoreBanking

def streamIn (streamId : String) (journal : List (String × DomainEvent)) : List DomainEvent :=
  (journal.filter fun p => p.1 == streamId).map Prod.snd

structure AppendCall where
  streamId : String
  events : List DomainEvent
  expectedVersion : Nat
  deriving DecidableEq

namespace EventStore

def run (calls : List AppendCall) : EventStore :=
  calls.foldl (fun store call => (store.append call.streamId call.events call.expectedVersion).2) empty

structure Recorded (store : EventStore) (journal : List (String × DomainEvent)) : Prop where
  log : store.allEvents = journal.mapIdx fun index p => ⟨p.2, index + 1⟩
  streams : ∀ streamId, store.stream streamId = streamIn streamId journal
  versions : ∀ streamId, (store.stream streamId).map DomainEvent.streamVersion =
    List.range' 1 (store.stream streamId).length
  outbox : store.outbox.entries = journal.map fun p => (p.2.eventId, toMessage p.1 p.2)
  ids : (journal.map fun p => p.2.eventId).Nodup

theorem Recorded.empty : Recorded empty [] := ⟨rfl, fun _ => rfl, fun _ => rfl, rfl, .nil⟩

/-! ## Appends -/

theorem stage_fresh {outbox : OrderedMap String OutboxMessage} {messages : List OutboxMessage}
    (h : (outbox.entries.map Prod.fst ++ messages.map OutboxMessage.id).Nodup) :
    (stage outbox messages).entries = outbox.entries ++ messages.map fun message => (message.id, message) := by
  induction messages generalizing outbox with
  | nil => simp [stage]
  | cons message messages ih =>
    have hfresh : message.id ∉ outbox.entries.map Prod.fst := by
      intro hmem
      exact (List.nodup_append.mp h).2.2 _ hmem _ List.mem_cons_self rfl
    have hset := OrderedMap.set_of_fresh hfresh message
    have hget : outbox.get message.id = none := OrderedMap.get_of_fresh hfresh
    have hstage : stage outbox (message :: messages) = stage (outbox.set message.id message) messages := by
      simp only [stage, List.foldl_cons, hget]
    rw [hstage, ih (by simpa [hset] using h), hset]
    simp

theorem getElem?_renumber (n k : Nat) (events : List DomainEvent) :
    (renumber n events)[k]? = events[k]?.map fun event => { event with streamVersion := n + k + 1 } := by
  rw [renumber, List.getElem?_mapIdx]

theorem renumber_eventId (n : Nat) (events : List DomainEvent) :
    (renumber n events).map DomainEvent.eventId = events.map DomainEvent.eventId := by
  refine List.ext_getElem? fun k => ?_
  rw [List.getElem?_map, List.getElem?_map, getElem?_renumber, Option.map_map]
  rfl

@[simp] theorem length_renumber (n : Nat) (events : List DomainEvent) :
    (renumber n events).length = events.length := by
  simp [renumber]

theorem renumber_versions (n : Nat) (events : List DomainEvent) :
    (renumber n events).map DomainEvent.streamVersion = List.range' (n + 1) events.length := by
  refine List.ext_getElem? fun k => ?_
  rw [List.getElem?_map, getElem?_renumber]
  by_cases hk : k < events.length
  · rw [List.getElem?_range' hk, List.getElem?_eq_getElem hk]
    simp only [Option.map_some, Option.some.injEq]
    omega
  · rw [List.getElem?_eq_none (by omega), List.getElem?_eq_none (by simp; omega)]
    rfl

def appendedTo (store : EventStore) (streamId : String) (events : List DomainEvent) : List (String × DomainEvent) :=
  (renumber (store.stream streamId).length events).map fun event => (streamId, event)

theorem streamIn_append (streamId : String) (journal journal' : List (String × DomainEvent)) :
    streamIn streamId (journal ++ journal') = streamIn streamId journal ++ streamIn streamId journal' := by
  simp [streamIn]

theorem streamIn_appendedTo (store : EventStore) (streamId streamId' : String) (events : List DomainEvent) :
    streamIn streamId' (store.appendedTo streamId events) =
      if streamId = streamId' then renumber (store.stream streamId).length events else [] := by
  unfold streamIn appendedTo
  by_cases h : streamId = streamId'
  · rw [if_pos h, List.filter_eq_self.mpr (by simp [h]), List.map_map]
    exact List.map_id _
  · rw [if_neg h, List.filter_eq_nil_iff.mpr (by simp [h])]
    rfl

theorem stream_write (store : EventStore) (streamId streamId' : String) (events : List DomainEvent) :
    (store.write streamId events).stream streamId' =
      store.stream streamId' ++ streamIn streamId' (store.appendedTo streamId events) := by
  rw [streamIn_appendedTo]
  simp only [stream, write, OrderedMap.get_set]
  split
  case isTrue h =>
    subst h
    rfl
  · rw [List.append_nil]

/-- **Step.** An accepted append extends the journal. -/
theorem Recorded.write {store : EventStore} {journal : List (String × DomainEvent)} (h : store.Recorded journal)
    (streamId : String) {events : List DomainEvent}
    (hids : ((journal.map fun p => p.2.eventId) ++ events.map DomainEvent.eventId).Nodup) :
    (store.write streamId events).Recorded (journal ++ store.appendedTo streamId events) := by
  have hlen : store.allEvents.length = journal.length := by rw [h.log, List.length_mapIdx]
  have hnew : (store.appendedTo streamId events).map (fun p => p.2.eventId) = events.map DomainEvent.eventId := by
    rw [appendedTo, List.map_map]
    exact renumber_eventId _ _
  constructor
  · rw [List.mapIdx_append, ← h.log]
    show store.allEvents ++ _ = store.allEvents ++ _
    congr 1
    refine List.ext_getElem? fun k => ?_
    simp only [List.getElem?_mapIdx, appendedTo, List.getElem?_map, Option.map_map, hlen]
    refine congrArg (fun f => Option.map f _) (funext fun event => ?_)
    simp only [Function.comp_apply, PositionedEvent.mk.injEq, true_and]
    omega
  · intro streamId'
    rw [stream_write, h.streams, ← streamIn_append]
  · intro streamId'
    rw [stream_write, List.map_append, h.versions, streamIn_appendedTo]
    split
    case isTrue heq =>
      subst heq
      rw [renumber_versions, List.length_append, length_renumber, Nat.add_comm (store.stream streamId).length 1,
        List.range'_append_1]
    · simp
  · simp only [EventStore.write]
    rw [stage_fresh, h.outbox]
    · simp [appendedTo, toMessage]
    · rw [h.outbox, List.map_map, List.map_map]
      show ((journal.map fun p => p.2.eventId) ++
        (renumber (store.stream streamId).length events).map DomainEvent.eventId).Nodup
      rwa [renumber_eventId]
  · rwa [List.map_append, hnew]

theorem append_rejected {store : EventStore} {streamId : String} {events : List DomainEvent} {expectedVersion : Nat}
    (h : expectedVersion ≠ (store.stream streamId).length) :
    store.append streamId events expectedVersion =
      (.error (.wrongExpectedVersion streamId expectedVersion (store.stream streamId).length), store) := by
  simp only [append, if_pos h]

theorem append_accepted (store : EventStore) (streamId : String) (events : List DomainEvent) :
    store.append streamId events (store.stream streamId).length = (.ok (), store.write streamId events) := by
  simp [append]

/-- **Run.** After any calls the store has a journal, of events that were given to it. -/
theorem run_recorded {calls : List AppendCall}
    (hids : ((calls.flatMap AppendCall.events).map DomainEvent.eventId).Nodup) :
    ∃ journal, (run calls).Recorded journal ∧
      ∀ p ∈ journal, p.2.eventId ∈ (calls.flatMap AppendCall.events).map DomainEvent.eventId := by
  induction calls using List.reverseRecOn with
  | nil => exact ⟨[], .empty, by simp⟩
  | append_singleton calls call ih =>
    rw [List.flatMap_append, List.map_append] at hids ⊢
    simp only [List.flatMap_cons, List.flatMap_nil, List.append_nil] at hids ⊢
    obtain ⟨journal, hj, hfrom⟩ := ih (List.nodup_append.mp hids).1
    have hrun : run (calls ++ [call]) = ((run calls).append call.streamId call.events call.expectedVersion).2 := by
      simp only [run, List.foldl_append, List.foldl_cons, List.foldl_nil]
    rw [hrun]
    by_cases hv : call.expectedVersion = ((run calls).stream call.streamId).length
    · rw [hv, append_accepted]
      refine ⟨_, hj.write call.streamId ?_, fun p hp => ?_⟩
      · refine List.nodup_append.mpr ⟨hj.ids, (List.nodup_append.mp hids).2.1, fun a ha b hb => ?_⟩
        obtain ⟨p, hp, rfl⟩ := List.mem_map.mp ha
        exact (List.nodup_append.mp hids).2.2 _ (hfrom p hp) b hb
      · rcases List.mem_append.mp hp with hp | hp
        · exact List.mem_append_left _ (hfrom p hp)
        · refine List.mem_append_right _ ?_
          rw [← renumber_eventId ((run calls).stream call.streamId).length]
          obtain ⟨event, hevent, rfl⟩ := List.mem_map.mp hp
          exact List.mem_map_of_mem hevent
    · rw [append_rejected hv]
      exact ⟨journal, hj, fun p hp => List.mem_append_left _ (hfrom p hp)⟩

/-! ## Reading -/

theorem readAll_eq {store : EventStore} (h : Numbered PositionedEvent.position store.allEvents)
    (fromPosition maxCount : Nat) :
    store.readAll fromPosition maxCount = (store.allEvents.drop fromPosition).take maxCount := by
  rw [readAll, h.filter_eq_drop]

theorem readStream_eq {store : EventStore} {streamId : String}
    (h : Numbered DomainEvent.streamVersion (store.stream streamId)) (fromVersion : Nat) :
    store.readStream streamId fromVersion = (store.stream streamId).drop fromVersion :=
  h.filter_eq_drop fromVersion

def ofStream (store : EventStore) (streamId : String) (page : List PositionedEvent) : List DomainEvent :=
  (page.map PositionedEvent.event).filter fun event => decide (event ∈ store.stream streamId)

/-- The three structures of the store hold the same events. -/
structure Represents (store : EventStore) : Prop where
  versions : ∀ streamId, (store.stream streamId).map DomainEvent.streamVersion =
    List.range' 1 (store.stream streamId).length
  positions : store.allEvents.map PositionedEvent.position = List.range' 1 store.allEvents.length
  readAll : ∀ fromPosition maxCount,
    store.readAll fromPosition maxCount = (store.allEvents.drop fromPosition).take maxCount
  readStream : ∀ streamId fromVersion,
    store.readStream streamId fromVersion = (store.stream streamId).drop fromVersion
  page : ∀ streamId fromPosition maxCount,
    store.ofStream streamId (store.readAll fromPosition maxCount) =
      (store.readStream streamId (store.ofStream streamId (store.readAll 0 fromPosition)).length).take
        (store.ofStream streamId (store.readAll fromPosition maxCount)).length
  whole : ∀ streamId, store.ofStream streamId (store.readAll 0 store.allEvents.length) = store.readStream streamId 0
  outbox : ∀ streamId, ∀ event ∈ store.stream streamId,
    store.outbox.values.filter (fun message => decide (message.payload = event)) = [toMessage streamId event]

section
variable {store : EventStore} {journal : List (String × DomainEvent)} (h : store.Recorded journal)
include h

theorem Recorded.numbered : Numbered PositionedEvent.position store.allEvents := by
  intro k p hk
  rw [h.log, List.getElem?_mapIdx] at hk
  obtain ⟨q, -, rfl⟩ := Option.map_eq_some_iff.mp hk
  rfl

theorem Recorded.map_event : store.allEvents.map PositionedEvent.event = journal.map Prod.snd := by
  refine List.ext_getElem? fun k => ?_
  rw [h.log, List.getElem?_map, List.getElem?_mapIdx, List.getElem?_map, Option.map_map]
  rfl

theorem Recorded.mem_stream {p : String × DomainEvent} (hp : p ∈ journal) {streamId : String} :
    p.2 ∈ store.stream streamId ↔ p.1 = streamId := by
  rw [h.streams, streamIn, List.mem_map]
  constructor
  · rintro ⟨q, hq, heq⟩
    obtain ⟨hq, hid⟩ := List.mem_filter.mp hq
    have hsame : q = p := List.inj_on_of_nodup_map h.ids hq hp (by rw [heq])
    exact hsame ▸ by simpa using hid
  · intro hid
    exact ⟨p, List.mem_filter.mpr ⟨hp, by simpa using hid⟩, rfl⟩

/-- A segment of the log holds the segment of the stream that the journal has there. -/
theorem Recorded.ofStream_segment (streamId : String) (fromPosition maxCount : Nat) :
    store.ofStream streamId ((store.allEvents.drop fromPosition).take maxCount) =
      streamIn streamId ((journal.drop fromPosition).take maxCount) := by
  rw [ofStream, List.map_take, List.map_drop, h.map_event, ← List.map_drop, ← List.map_take, List.filter_map, streamIn]
  congr 1
  refine List.filter_congr fun p hp => ?_
  have hmem := @Recorded.mem_stream _ _ h _ (List.mem_of_mem_drop (List.mem_of_mem_take hp)) streamId
  rw [Function.comp_apply, Bool.eq_iff_iff, decide_eq_true_iff, hmem, beq_iff_eq]

theorem Recorded.represents : store.Represents := by
  have hnumbered := h.numbered
  have hversions : ∀ streamId, Numbered DomainEvent.streamVersion (store.stream streamId) :=
    fun streamId => Numbered.iff_map_eq.mpr (h.versions streamId)
  refine ⟨h.versions, Numbered.iff_map_eq.mp hnumbered, readAll_eq hnumbered,
    fun streamId => readStream_eq (hversions streamId),
    fun streamId fromPosition maxCount => ?_, fun streamId => ?_, fun streamId event hevent => ?_⟩
  · rw [readAll_eq hnumbered, readAll_eq hnumbered, readStream_eq (hversions streamId), h.ofStream_segment,
      h.ofStream_segment, h.streams, List.drop_zero]
    have hsplit : streamIn streamId journal = streamIn streamId (journal.take fromPosition) ++
        (streamIn streamId ((journal.drop fromPosition).take maxCount) ++
          streamIn streamId ((journal.drop fromPosition).drop maxCount)) := by
      rw [← streamIn_append, ← streamIn_append, List.take_append_drop, List.take_append_drop]
    rw [hsplit, List.drop_left, List.take_left]
  · rw [readAll_eq hnumbered, readStream_eq (hversions streamId), h.ofStream_segment, h.streams, List.drop_zero,
      List.drop_zero]
    have hlen : store.allEvents.length = journal.length := by rw [h.log, List.length_mapIdx]
    rw [hlen, List.take_length]
  · rw [h.streams, streamIn] at hevent
    obtain ⟨p, hp, rfl⟩ := List.mem_map.mp hevent
    obtain ⟨hp', hid⟩ := List.mem_filter.mp hp
    obtain rfl : p.1 = streamId := by simpa using hid
    have hvalues : store.outbox.values = journal.map fun q => toMessage q.1 q.2 := by
      rw [OrderedMap.values, h.outbox, List.map_map]
      rfl
    have hsame : ∀ q ∈ journal, decide ((toMessage q.1 q.2).payload = p.2) = decide (q = p) := by
      intro q hq
      rw [decide_eq_decide]
      exact ⟨fun heq => List.inj_on_of_nodup_map h.ids hq hp' (congrArg DomainEvent.eventId heq), fun heq => heq ▸ rfl⟩
    rw [hvalues, List.filter_map]
    show (journal.filter fun q => decide ((toMessage q.1 q.2).payload = p.2)).map _ = _
    rw [List.filter_congr hsame, List.filter_eq, List.count_eq_one_of_mem (List.Nodup.of_map _ h.ids) hp']
    rfl

end

/-- **The event store represents its streams.** -/
theorem append_represents {calls : List AppendCall}
    (hids : ((calls.flatMap AppendCall.events).map DomainEvent.eventId).Nodup) :
    (run calls).Represents ∧ ∀ streamId events,
      (∀ expectedVersion, expectedVersion ≠ ((run calls).stream streamId).length →
        ((run calls).append streamId events expectedVersion).2 = run calls) ∧
      ((run calls).append streamId events ((run calls).stream streamId).length).2.stream streamId =
        (run calls).stream streamId ++ renumber ((run calls).stream streamId).length events := by
  obtain ⟨journal, hj, -⟩ := run_recorded hids
  refine ⟨hj.represents, fun streamId events => ⟨fun expectedVersion hv => ?_, ?_⟩⟩
  · rw [append_rejected hv]
  · rw [append_accepted]
    show (_ : EventStore).stream streamId = _
    rw [stream_write, streamIn_appendedTo, if_pos rfl]

/-- Two streams, a batch of two events, and a call that expects a version too low. -/
theorem append_represents_streams :
    let context : CommandContext := { commandId := "key-1", correlationId := "corr-1" }
    let event (eventId : String) : DomainEvent := ⟨eventId, "account-acc-1", 0, 0, .AccountFrozen none "fraud", context⟩
    let store := run [⟨"account-acc-1", [event "event-1", event "event-2"], 0⟩, ⟨"account-acc-2", [event "event-3"], 0⟩,
      ⟨"account-acc-1", [event "event-4"], 1⟩, ⟨"account-acc-1", [event "event-5"], 2⟩]
    store.allEvents.map (·.event.eventId) = ["event-1", "event-2", "event-3", "event-5"] ∧ store.Represents :=
  ⟨by decide, (append_represents (by decide)).1⟩

end EventStore

end CoreBanking
