import CoreBanking.Lib.Grouping
import CoreBanking.OutboxRules
import CoreBanking.Sessions

/-!
# The outbox in Postgres

The messages of an append are committed with its events. Every commit is an
append as the publishers of the outbox take it to be: with ids of its own, the
next versions of its stream, and positions after all others of the stream.
-/

namespace CoreBanking

def EventRow.message (row : EventRow) : OutboxMessage :=
  { EventStore.toMessage row.event.streamId row.event with eventPosition := some row.position }

namespace Database

def sent (db : Database) : List OutboxMessage := (db.outbox.filter fun row => db.isCommitted row.1).map Prod.snd

def rows (db : Database) : List EventRow := db.events.filter fun row => db.isCommitted row.transaction

def liveRows (db : Database) : List EventRow :=
  db.events.filter fun row => db.isCommitted row.transaction || db.isOpen row.transaction

end Database

def OutboxAction.IsAppend : OutboxAction → Prop
  | .append _ _ => True
  | _ => False

structure Staged (db : Database) : Prop where
  fresh : ∀ row ∈ db.outbox, row.1 < db.sessions.length
  ids : (db.liveRows.map fun row => row.event.eventId).Nodup
  positions : db.events.Pairwise fun row row' => row.position < row'.position
  below : ∀ row ∈ db.events, row.position < db.nextId
  staged : db.sent.Perm (db.rows.map EventRow.message)
  appends : ∃ outbox, OutboxReachable .postgres (fun _ action => action.IsAppend) ⟨outbox, [], [], []⟩ ∧
    outbox.messages.values.Perm db.sent

namespace Staged

variable {db db' : Database} {client : Nat}

theorem empty : Staged .empty where
  fresh _ h := absurd h List.not_mem_nil
  ids := List.nodup_nil
  positions := .nil
  below _ h := absurd h List.not_mem_nil
  staged := .refl _
  appends := ⟨.empty, .start, .refl _⟩

/-- Fewer rows may yet be committed, and none has been. -/
theorem shrink (h : Staged db) (hlength : db.sessions.length ≤ db'.sessions.length)
    (hcommitted : ∀ other, db'.isCommitted other = db.isCommitted other)
    (hopen : ∀ row ∈ db.events, db'.isOpen row.transaction = true → db.isOpen row.transaction = true)
    (hevents : db'.events = db.events) (hnextId : db.nextId ≤ db'.nextId) (houtbox : db'.outbox = db.outbox) :
    Staged db' := by
  have hsent : db'.sent = db.sent := by
    simp only [Database.sent, houtbox, hcommitted]
  have hrows : db'.rows = db.rows := by
    simp only [Database.rows, hevents, hcommitted]
  have hlive : db'.liveRows.Sublist db.liveRows := by
    have hkept : db'.liveRows = db.liveRows.filter fun row =>
        db'.isCommitted row.transaction || db'.isOpen row.transaction := by
      rw [Database.liveRows, Database.liveRows, hevents, List.filter_filter]
      refine List.filter_congr fun row hrow => ?_
      cases ho : db'.isOpen row.transaction with
      | true => simp [hcommitted, hopen row hrow ho]
      | false =>
        rw [hcommitted, Bool.or_false]
        cases db.isCommitted row.transaction <;> simp
    rw [hkept]
    exact List.filter_sublist
  refine ⟨fun row hrow => ?_, (hlive.map _).nodup h.ids, hevents ▸ h.positions, fun row hrow => ?_, ?_, ?_⟩
  · rw [houtbox] at hrow
    exact Nat.lt_of_lt_of_le (h.fresh row hrow) hlength
  · rw [hevents] at hrow
    exact Nat.lt_of_lt_of_le (h.below row hrow) hnextId
  · rw [hsent, hrows]
    exact h.staged
  · rw [hsent]
    exact h.appends

theorem close (h : Staged db) (clients : List Nat) : Staged (db.close clients) :=
  h.shrink List.length_mapIdx.ge (fun _ => Database.isCommitted_close clients)
    (fun _ _ => Database.isOpen_of_close) rfl (Nat.le_refl _) rfl

theorem frame (h : Staged db) (hframe : Frame db db' client)
    (hopen : db'.isOpen client = true → db.isOpen client = true ∨ db.rowsOf client = [])
    (hevents : db'.events = db.events) (hnextId : db.nextId ≤ db'.nextId) (houtbox : db'.outbox = db.outbox) :
    Staged db' := by
  refine h.shrink hframe.length hframe.isCommitted (fun row hrow ho => ?_) hevents hnextId houtbox
  by_cases hown : row.transaction = client
  · rw [hown] at ho ⊢
    refine (hopen ho).resolve_right fun hnone => ?_
    exact List.filter_eq_nil_iff.mp hnone row hrow (by simpa using hown)
  · rwa [hframe.isOpen hown] at ho

theorem insertEvent (h : Staged db) (hactive : db.stageOf client = some .active) {event : DomainEvent}
    (hunique : db.isUnique event = true) :
    Staged { db with events := db.events ++ [⟨⟨event, db.nextId⟩, client⟩], nextId := db.nextId + 1 } := by
  generalize hrow : (⟨⟨event, db.nextId⟩, client⟩ : EventRow) = row
  have htransaction : row.transaction = client := by rw [← hrow]
  have hopen : db.isOpen client = true := by
    rw [Database.isOpen, hactive]
    rfl
  have hbefore : db.isCommitted client = false := by
    rw [Database.isCommitted, hactive]
    rfl
  refine ⟨h.fresh, ?_, ?_, fun row' hrow' => ?_, ?_, h.appends⟩
  · have hlive : ({ db with events := db.events ++ [row], nextId := db.nextId + 1 } : Database).liveRows =
        db.liveRows ++ [row] := by
      show (db.events ++ [row]).filter (fun row => db.isCommitted row.transaction || db.isOpen row.transaction) = _
      rw [List.filter_append]
      simp [Database.liveRows, htransaction, hopen]
    rw [hlive, List.map_append, List.map_singleton]
    refine List.nodup_append.mpr ⟨h.ids, List.nodup_singleton _, fun x hx y hy heq => ?_⟩
    obtain ⟨other, hother, rfl⟩ := List.mem_map.mp hx
    rw [List.mem_singleton.mp hy, ← hrow] at heq
    obtain ⟨hmem, hlive⟩ := List.mem_filter.mp hother
    have hthis := List.all_eq_true.mp hunique other hmem
    simp [hlive, heq] at hthis
  · refine List.pairwise_append.mpr ⟨h.positions, List.pairwise_singleton _ _, fun a ha b hb => ?_⟩
    rw [List.mem_singleton.mp hb, ← hrow]
    exact h.below a ha
  · rcases List.mem_append.mp hrow' with hrow' | hrow'
    · exact Nat.lt_succ_of_lt (h.below row' hrow')
    · rw [List.mem_singleton.mp hrow', ← hrow]
      exact Nat.lt_succ_self _
  · have hrows : ({ db with events := db.events ++ [row], nextId := db.nextId + 1 } : Database).rows = db.rows := by
      show (db.events ++ [row]).filter (fun row => db.isCommitted row.transaction) = _
      rw [List.filter_append]
      simp [Database.rows, htransaction, hbefore]
    rw [hrows]
    exact h.staged

theorem insertOutbox (h : Staged db) (hlt : client < db.sessions.length) (hbefore : db.isCommitted client = false)
    (message : OutboxMessage) : Staged { db with outbox := db.outbox ++ [(client, message)] } := by
  have hsent : ({ db with outbox := db.outbox ++ [(client, message)] } : Database).sent = db.sent := by
    show ((db.outbox ++ [(client, message)]).filter fun row => db.isCommitted row.1).map Prod.snd = _
    rw [List.filter_append]
    simp [Database.sent, hbefore]
  refine ⟨fun row hrow => ?_, h.ids, h.positions, h.below, ?_, ?_⟩
  · rcases List.mem_append.mp hrow with hrow | hrow
    · exact h.fresh row hrow
    · rw [List.mem_singleton.mp hrow]
      exact hlt
  · rw [hsent]
    exact h.staged
  · rw [hsent]
    exact h.appends

/-- A message that a session is yet to stage is there for nobody else. -/
theorem unknown (h : Staged db) (hactive : db.stageOf client = some .active) {message : OutboxMessage}
    (hmessages : (db.rowsOf client).map EventRow.message = db.outboxOf client ++ [message]) {row : Nat × OutboxMessage}
    (hrow : row ∈ db.outbox) (hseen : db.isCommitted row.1 = true ∨ row.1 = client) : row.2.id ≠ message.id := by
  have hopen : db.isOpen client = true := by
    rw [Database.isOpen, hactive]
    rfl
  have hlive : (db.rowsOf client).Sublist db.liveRows :=
    List.monotone_filter_right _ fun row hown => by
      rw [show row.transaction = client by simpa using hown, hopen, Bool.or_true]
  have hmem : message ∈ (db.rowsOf client).map EventRow.message := by
    rw [hmessages]
    exact List.mem_append_right _ List.mem_cons_self
  obtain ⟨last, hlast, rfl⟩ := List.mem_map.mp hmem
  rcases hseen with hcommitted | hown
  · have hsent : row.2 ∈ db.rows.map EventRow.message :=
      h.staged.mem_iff.mp (List.mem_map_of_mem (List.mem_filter.mpr ⟨hrow, hcommitted⟩))
    obtain ⟨other, hother, heq⟩ := List.mem_map.mp hsent
    obtain ⟨hevent, hc⟩ := List.mem_filter.mp hother
    intro hid
    rw [← heq] at hid
    have hsame : other = last :=
      List.inj_on_of_nodup_map h.ids (List.mem_filter.mpr ⟨hevent, by rw [hc, Bool.true_or]⟩) (hlive.subset hlast) hid
    rw [hsame, show last.transaction = client by simpa using (List.mem_filter.mp hlast).2, Database.isCommitted,
      hactive] at hc
    cases hc
  · have hids : ((db.outboxOf client ++ [last.message]).map OutboxMessage.id).Nodup := by
      rw [← hmessages, List.map_map]
      exact (hlive.map _).nodup h.ids
    rw [List.map_append] at hids
    have hstaged : row.2.id ∈ (db.outboxOf client).map OutboxMessage.id :=
      List.mem_map_of_mem (List.mem_map_of_mem (List.mem_filter.mpr ⟨hrow, by simpa using hown⟩))
    exact fun hid => (List.nodup_append.mp hids).2.2 _ hstaged _ List.mem_cons_self hid

theorem commit (h : Staged db) (hactive : db.stageOf client = some .active) {streamId : String}
    (hmessages : db.outboxOf client = (db.rowsOf client).map EventRow.message)
    (hstream : ∀ row ∈ db.rowsOf client, row.event.streamId = streamId)
    (hversions : (db.rowsOf client).map (fun row => row.event.streamVersion) =
      List.range' ((db.committedRows streamId).length + 1) (db.rowsOf client).length)
    (hseen : db.seenRows client streamId = db.committedRows streamId ++ db.rowsOf client) :
    Staged (db.setStage client fun _ => .committed) := by
  have hopen : db.isOpen client = true := by
    rw [Database.isOpen, hactive]
    rfl
  have hbefore : db.isCommitted client = false := by
    rw [Database.isCommitted, hactive]
    rfl
  have hown : ∀ other, db.isCommitted other = true → (other == client) = false := by
    intro other hother
    by_contra heq
    rw [show other = client by simpa using heq, hbefore] at hother
    cases hother
  generalize hdb' : db.setStage client (fun _ => .committed) = db'
  have hcommitted : ∀ other, db'.isCommitted other = (db.isCommitted other || other == client) :=
    fun other => hdb' ▸ Database.isCommitted_commit hactive other
  have hevents : db'.events = db.events := by rw [← hdb']; rfl
  have houtbox : db'.outbox = db.outbox := by rw [← hdb']; rfl
  have hlive : db'.liveRows = db.liveRows := by
    rw [Database.liveRows, Database.liveRows, hevents]
    refine List.filter_congr fun row _ => ?_
    rw [hcommitted, ← hdb', Database.isOpen_commit hactive]
    by_cases heq : row.transaction = client
    · simp [heq, hopen]
    · rw [beq_eq_false_iff_ne.mpr heq, bne_iff_ne.mpr heq, Bool.or_false, Bool.and_true]
  have hsent : db'.sent.Perm (db.sent ++ db.outboxOf client) := by
    rw [Database.sent, Database.sent, Database.outboxOf, ← List.map_append, houtbox]
    simp only [hcommitted]
    exact (List.filter_or_perm fun row _ => hown row.1).map _
  have hrows : db'.rows.Perm (db.rows ++ db.rowsOf client) := by
    rw [Database.rows, Database.rows, Database.rowsOf, hevents]
    simp only [hcommitted]
    exact List.filter_or_perm fun row _ => hown row.transaction
  refine ⟨fun row hrow => ?_, hlive ▸ h.ids, hevents ▸ h.positions, fun row hrow => ?_, ?_, ?_⟩
  · rw [← hdb', Database.setStage, List.length_modify]
    exact h.fresh row (houtbox ▸ hrow)
  · rw [← hdb']
    exact h.below row (hevents ▸ hrow)
  · refine hsent.trans ((h.staged.append_right _).trans ?_)
    rw [hmessages, ← List.map_append]
    exact (hrows.map _).symm
  · obtain ⟨outbox, hreach, hvalues⟩ := h.appends
    have hperm : outbox.messages.values.Perm (db.rows.map EventRow.message) := hvalues.trans h.staged
    have happends : Appends .postgres outbox streamId (db.outboxOf client) := by
      have hsub : (db.committedRows streamId ++ db.rowsOf client).Sublist db.events := hseen ▸ List.filter_sublist
      refine ⟨fun message hm => ?_, ?_, ?_, fun _ => ⟨(db.rowsOf client).map fun row => row.position, ?_, ?_, ?_⟩,
        fun h => by cases h⟩
      · rw [hmessages] at hm
        obtain ⟨row, hrow, rfl⟩ := List.mem_map.mp hm
        exact ⟨row.event, some row.position, by rw [EventRow.message, hstream row hrow]⟩
      · have hids : (db'.rows.map fun row => row.event.eventId).Nodup := by
          have hsublist : db'.rows.Sublist db'.liveRows := List.monotone_filter_right _ fun row hc => by simp [hc]
          exact (hsublist.map _).nodup (hlive ▸ h.ids)
        have hkeys : (outbox.messages.entries.map Prod.fst).Perm (db.rows.map fun row => row.event.eventId) := by
          rw [← hreach.inv.accounted.keys]
          refine (hperm.map _).trans (.of_eq ?_)
          rw [List.map_map]
          rfl
        have hall : (outbox.messages.entries.map Prod.fst ++ idsOf (db.outboxOf client)).Perm
            (db'.rows.map fun row => row.event.eventId) := by
          refine (hkeys.append_right _).trans ?_
          rw [hmessages, idsOf, List.map_map]
          refine .trans (.of_eq ?_) (hrows.map _).symm
          rw [List.map_append]
          rfl
        exact hall.nodup_iff.mpr hids
      · have hcount : (outbox.messages.values.filter fun row => row.messageKey = streamId).length =
            (db.committedRows streamId).length := by
          rw [(hperm.filter _).length_eq, List.filter_map, List.length_map, Database.rows, List.filter_filter,
            Database.committedRows]
          rfl
        rw [hcount, hmessages, List.map_map, List.length_map]
        exact hversions
      · rw [hmessages, List.map_map, List.map_map]
        rfl
      · rw [List.pairwise_map]
        exact (h.positions.sublist hsub).sublist (List.sublist_append_right _ _)
      · intro message hm hstreamId position hposition
        obtain ⟨row, hrow, rfl⟩ := List.mem_map.mp (hperm.mem_iff.mp hm)
        obtain ⟨row', hrow', rfl⟩ := List.mem_map.mp hposition
        have hmem : row ∈ db.committedRows streamId := by
          obtain ⟨hevent, hc⟩ := List.mem_filter.mp hrow
          have hid : row.event.streamId = streamId := hstreamId
          exact List.mem_filter.mpr ⟨hevent, by simp [hc, hid]⟩
        exact ⟨row.position, rfl, (List.pairwise_append.mp (h.positions.sublist hsub)).2.2 row hmem row' hrow'⟩
    refine ⟨outbox.stage (db.outboxOf client), .step hreach ?_ (.append happends), ?_⟩
    · exact trivial
    · have hstage : (outbox.stage (db.outboxOf client)).messages.values =
          outbox.messages.values ++ db.outboxOf client := by
        rw [Outbox.stage, OrderedMap.values, EventStore.stage_fresh happends.fresh, List.map_append, List.map_map]
        exact congrArg _ (List.map_id _)
      rw [hstage]
      exact (hvalues.append_right _).trans hsent.symm

end Staged

end CoreBanking
