import CoreBanking.OutboxRules
import CoreBanking.Lib.StableSort

/-!
# The order in which the in-memory outbox hands out messages

The in-memory event store stages its messages without an event position, so
`claimPending` goes by the time stamps, and by the order of the appends only
among equal ones. A batch is what was appended first as long as the clock agrees
with the log on it.
-/

namespace CoreBanking

structure MemoryStores where
  eventStore : EventStore
  claimed : List String

namespace MemoryStores

inductive Call
  | append (streamId : String) (events : List DomainEvent) (expectedVersion : Nat)
  | claimPending (limit : Nat)
  | markPublished (id : String) (publishedAt : Time)
  | markFailed (id error : String)

def Call.eventIds : Call → List String
  | .append _ events _ => events.map DomainEvent.eventId
  | _ => []

def outbox (m : MemoryStores) : Outbox := ⟨m.eventStore.outbox, m.claimed⟩

def withOutbox (m : MemoryStores) (outbox : Outbox) : MemoryStores :=
  ⟨{ m.eventStore with outbox := outbox.messages }, outbox.claimed⟩

def step (m : MemoryStores) : Call → MemoryStores
  | .append streamId events expectedVersion =>
    { m with eventStore := (m.eventStore.append streamId events expectedVersion).2 }
  | .claimPending limit => m.withOutbox (m.outbox.claim (InMemoryOutboxStore.claimPending m.outbox limit))
  | .markPublished id publishedAt => m.withOutbox (m.outbox.markPublished id publishedAt)
  | .markFailed id error => m.withOutbox (m.outbox.markFailed id error)

def run (calls : List Call) : MemoryStores := calls.foldl step ⟨.empty, []⟩

/-- The message of an event that is neither claimed nor published. -/
def pendingMessage (m : MemoryStores) (eventId : String) : Option OutboxMessage :=
  (m.outbox.messages.get eventId).filter fun message => message.publishedAt.isNone && !m.claimed.contains message.id

/-- The messages to be claimed, in the order in which their events were appended. -/
def pending (m : MemoryStores) : List OutboxMessage :=
  m.eventStore.allEvents.filterMap fun logged => m.pendingMessage logged.event.eventId

/-- The first `limit` in the order of the log are stamped in that order, and no
later than any of the others. -/
def ClockAgrees (m : MemoryStores) (limit : Nat) : Prop :=
  ((m.pending.take limit).Pairwise fun left right => left.createdAt ≤ right.createdAt) ∧
    ∀ left ∈ m.pending.take limit, ∀ right ∈ m.pending.drop limit, left.createdAt ≤ right.createdAt

/-! ## The log and the outbox -/

/-- The outbox has the messages of the log, in the order of the log, with their
time stamps and without positions. -/
structure Staged (m : MemoryStores) : Prop where
  keys : m.eventStore.outbox.entries.map Prod.fst = m.eventStore.allEvents.map fun logged => logged.event.eventId
  stamps : (m.eventStore.outbox.values.map fun message => (message.createdAt, message.eventPosition)) =
    m.eventStore.allEvents.map fun logged => (logged.event.occurredAt, none)

variable {m : MemoryStores} {calls : List Call} {limit : Nat}

theorem step_append (m : MemoryStores) (streamId : String) (events : List DomainEvent) (expectedVersion : Nat) :
    m.step (.append streamId events expectedVersion) =
      if expectedVersion = (m.eventStore.stream streamId).length then
        { m with eventStore := m.eventStore.write streamId events }
      else m := by
  show { m with eventStore := (m.eventStore.append streamId events expectedVersion).2 } = _
  split
  case isTrue heq =>
    subst heq
    rw [EventStore.append_accepted]
  case isFalse hne => rw [EventStore.append_rejected hne]

theorem map_logged {α : Type} (f : DomainEvent → α) (n : Nat) (events : List DomainEvent) :
    ((events.mapIdx fun index event => PositionedEvent.mk event (n + index + 1)).map fun logged => f logged.event) =
      events.map f := by
  refine List.ext_getElem? fun k => ?_
  rw [List.getElem?_map, List.getElem?_mapIdx, List.getElem?_map, Option.map_map]
  rfl

theorem Staged.write (h : m.Staged) (streamId : String) {events : List DomainEvent}
    (hids : ((m.eventStore.allEvents.map fun logged => logged.event.eventId) ++
      events.map DomainEvent.eventId).Nodup) :
    Staged { m with eventStore := m.eventStore.write streamId events } := by
  let appended := EventStore.renumber (m.eventStore.stream streamId).length events
  have hfresh : (m.eventStore.outbox.entries.map Prod.fst ++
      (appended.map (EventStore.toMessage streamId)).map OutboxMessage.id).Nodup := by
    rw [h.keys, List.map_map]
    show (_ ++ appended.map DomainEvent.eventId).Nodup
    rwa [EventStore.renumber_eventId]
  have hentries := EventStore.stage_fresh hfresh
  constructor
  · show (EventStore.stage _ _).entries.map Prod.fst = (m.eventStore.allEvents ++ _).map _
    rw [hentries, List.map_append, List.map_append, h.keys, map_logged DomainEvent.eventId, List.map_map, List.map_map]
    rfl
  · show (EventStore.stage _ _).values.map _ = (m.eventStore.allEvents ++ _).map _
    rw [OrderedMap.values, hentries, List.map_append, List.map_append, List.map_append, ← OrderedMap.values, h.stamps,
      map_logged fun event => (event.occurredAt, none), List.map_map, List.map_map, List.map_map]
    rfl

theorem Staged.release (h : m.Staged) (id : String) {f : OutboxMessage → OutboxMessage}
    (hf : ∀ message, ((f message).createdAt, (f message).eventPosition) =
      (message.createdAt, message.eventPosition)) :
    (m.withOutbox (m.outbox.release id f)).Staged := by
  unfold Outbox.release
  cases hget : m.outbox.messages.get id with
  | none => exact ⟨h.keys, h.stamps⟩
  | some current =>
    constructor
    · exact (OrderedMap.keys_set_of_mem (OrderedMap.mem_keys_iff.mpr ⟨current, hget⟩) _).trans h.keys
    · exact (OrderedMap.map_values_set hget (hf current)).trans h.stamps

theorem Staged.step (h : m.Staged) (call : Call)
    (hids : ((m.eventStore.allEvents.map fun logged => logged.event.eventId) ++ call.eventIds).Nodup) :
    (m.step call).Staged := by
  cases call with
  | append streamId events expectedVersion =>
    rw [step_append]
    split
    · exact h.write streamId hids
    · exact h
  | claimPending limit => exact ⟨h.keys, h.stamps⟩
  | markPublished id publishedAt => exact h.release id fun _ => rfl
  | markFailed id error => exact h.release id fun _ => rfl

theorem run_snoc (calls : List Call) (call : Call) : run (calls ++ [call]) = (run calls).step call :=
  List.foldl_append

/-- The log holds events that were given to `append`, each once. -/
theorem allEvents_step (m : MemoryStores) (call : Call) :
    ((m.step call).eventStore.allEvents.map fun logged => logged.event.eventId).Sublist
      ((m.eventStore.allEvents.map fun logged => logged.event.eventId) ++ call.eventIds) := by
  cases call with
  | append streamId events expectedVersion =>
    rw [step_append]
    split
    · have hlog : (m.eventStore.write streamId events).allEvents.map (fun logged => logged.event.eventId) =
          (m.eventStore.allEvents.map fun logged => logged.event.eventId) ++ events.map DomainEvent.eventId := by
        show (m.eventStore.allEvents ++ _).map _ = _
        rw [List.map_append, map_logged DomainEvent.eventId, EventStore.renumber_eventId]
      exact hlog ▸ List.Sublist.refl _
    · exact List.sublist_append_left _ _
  | claimPending limit => exact List.sublist_append_left _ _
  | markPublished id publishedAt => exact List.sublist_append_left _ _
  | markFailed id error => exact List.sublist_append_left _ _

theorem run_staged (hids : (calls.flatMap Call.eventIds).Nodup) :
    (run calls).Staged ∧
      ((run calls).eventStore.allEvents.map fun logged => logged.event.eventId).Sublist
        (calls.flatMap Call.eventIds) := by
  induction calls using List.reverseRecOn with
  | nil => exact ⟨⟨rfl, rfl⟩, List.Sublist.refl _⟩
  | append_singleton calls call ih =>
    rw [List.flatMap_append, List.flatMap_singleton] at hids ⊢
    obtain ⟨hstaged, hsub⟩ := ih (List.nodup_append.mp hids).1
    rw [run_snoc]
    refine ⟨hstaged.step call (hids.sublist (hsub.append_right _)), ?_⟩
    exact (allEvents_step _ _).trans (hsub.append_right _)

/-! ## What is handed out -/

theorem Staged.pending_eq (h : m.Staged) : m.pending = m.outbox.claimable := by
  have hlog : m.pending = m.eventStore.outbox.entries.filterMap fun e => m.pendingMessage e.1 := by
    have hkeys := congrArg (List.filterMap m.pendingMessage) h.keys
    rw [List.filterMap_map, List.filterMap_map] at hkeys
    exact hkeys.symm
  have hentry : ∀ e ∈ m.eventStore.outbox.entries, m.pendingMessage e.1 = (some e.2).filter fun message =>
      message.publishedAt.isNone && !m.claimed.contains message.id := by
    intro e he
    have hget : m.outbox.messages.get e.1 = some e.2 := OrderedMap.mem_entries_iff.mp he
    rw [pendingMessage, hget]
  rw [hlog, List.filterMap_congr hentry, Outbox.claimable, OrderedMap.values,
    ← List.filterMap_eq_filter, List.filterMap_map]
  rfl

theorem Staged.sortsBefore_iff (h : m.Staged) {left right : OutboxMessage} (hl : left ∈ m.outbox.claimable)
    (hr : right ∈ m.outbox.claimable) :
    InMemoryOutboxStore.sortsBefore left right ↔ left.createdAt ≤ right.createdAt := by
  have hunplaced : ∀ message ∈ m.outbox.claimable, message.eventPosition = none := by
    intro message hm
    have hmem : (message.createdAt, message.eventPosition) ∈
        m.eventStore.outbox.values.map fun message => (message.createdAt, message.eventPosition) :=
      List.mem_map_of_mem (List.mem_of_mem_filter hm)
    rw [h.stamps] at hmem
    obtain ⟨_, _, heq⟩ := List.mem_map.mp hmem
    exact (Prod.mk.inj heq).2.symm
  simp [InMemoryOutboxStore.sortsBefore, hunplaced left hl, hunplaced right hr]

instance : Std.Total InMemoryOutboxStore.sortsBefore := ⟨fun left right => by
  have key : ∀ p q a b : Nat, (p < q ∨ p = q ∧ a ≤ b) ∨ (q < p ∨ q = p ∧ b ≤ a) := by omega
  exact key _ _ left.createdAt right.createdAt⟩

instance : IsTrans OutboxMessage InMemoryOutboxStore.sortsBefore := ⟨fun left middle right h h' => by
  have key : ∀ p q r a b c : Nat,
      (p < q ∨ p = q ∧ a ≤ b) → (q < r ∨ q = r ∧ b ≤ c) → p < r ∨ p = r ∧ a ≤ c := by omega
  exact key _ _ _ left.createdAt middle.createdAt right.createdAt h h'⟩

/-- Every `claimPending` of every run hands out what was appended first exactly
when the clock agrees with the log. -/
theorem claims_in_append_order_iff (hids : (calls.flatMap Call.eventIds).Nodup) (limit : Nat) :
    InMemoryOutboxStore.claimPending (run calls).outbox limit = (run calls).pending.take limit ↔
      (run calls).ClockAgrees limit := by
  have h := (run_staged hids).1
  rw [ClockAgrees, InMemoryOutboxStore.claimPending, h.pending_eq, StableSort.take_insertionSort_iff]
  refine and_congr ?_ ?_
  · refine List.Pairwise.iff_of_mem fun hl hr => ?_
    exact h.sortsBefore_iff (List.mem_of_mem_take hl) (List.mem_of_mem_take hr)
  · refine forall_congr' fun left => forall_congr' fun hl => forall_congr' fun right => forall_congr' fun hr => ?_
    exact h.sortsBefore_iff (List.mem_of_mem_take hl) (List.mem_of_mem_drop hr)

/-- In particular while the stamps of the log never decrease. -/
theorem clockAgrees_of_stamps (hids : (calls.flatMap Call.eventIds).Nodup)
    (hstamps : (run calls).eventStore.allEvents.Pairwise fun first second =>
      first.event.occurredAt ≤ second.event.occurredAt) (limit : Nat) : (run calls).ClockAgrees limit := by
  have h := (run_staged hids).1
  have hvalues : (run calls).eventStore.outbox.values.Pairwise fun left right =>
      left.createdAt ≤ right.createdAt := by
    have hcolumns : ((run calls).eventStore.outbox.values.map fun message =>
        (message.createdAt, message.eventPosition)).Pairwise fun left right => left.1 ≤ right.1 := by
      rw [h.stamps]
      exact List.pairwise_map.mpr hstamps
    rwa [List.pairwise_map] at hcolumns
  have hpending : (run calls).pending.Pairwise fun left right => left.createdAt ≤ right.createdAt := by
    rw [h.pending_eq]
    exact hvalues.sublist List.filter_sublist
  rw [← List.take_append_drop limit (run calls).pending] at hpending
  obtain ⟨hfirst, _, hbefore⟩ := List.pairwise_append.mp hpending
  exact ⟨hfirst, hbefore⟩

def clockBack : List Call :=
  let context : CommandContext := { commandId := "c-1", correlationId := "c-1" }
  [.append "account-1" [⟨"event-1", "account-1", 1, 2, .AccountFrozen (some "1") "audit", context⟩] 0,
    .append "account-2" [⟨"event-2", "account-2", 1, 1, .AccountFrozen (some "2") "audit", context⟩] 0]

/-- Appended the other way round they are handed out in that order. -/
theorem claims_in_append_order_iff_forward :
    idsOf (InMemoryOutboxStore.claimPending (run clockBack.reverse).outbox 2) = ["event-2", "event-1"] ∧
      (run clockBack.reverse).ClockAgrees 2 := by
  have hids : (clockBack.reverse.flatMap Call.eventIds).Nodup := by decide +kernel
  have hagrees : (run clockBack.reverse).ClockAgrees 2 := clockAgrees_of_stamps hids (by decide +kernel) 2
  refine ⟨?_, hagrees⟩
  rw [(claims_in_append_order_iff hids 2).mpr hagrees]
  decide +kernel

/-- The event appended last is handed out first. -/
theorem not_claims_in_append_order :
    ¬ ∀ (calls : List Call) (limit : Nat), (calls.flatMap Call.eventIds).Nodup →
      InMemoryOutboxStore.claimPending (run calls).outbox limit = (run calls).pending.take limit := by
  intro h
  have hids : idsOf (InMemoryOutboxStore.claimPending (run clockBack).outbox 1) =
      idsOf ((run clockBack).pending.take 1) := congrArg idsOf (h clockBack 1 (by decide +kernel))
  revert hids
  decide +kernel

end MemoryStores

end CoreBanking
