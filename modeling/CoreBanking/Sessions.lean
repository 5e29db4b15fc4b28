import CoreBanking.Database

/-!
# Sessions and what their statements leave alone

Where a session stands after the server has closed it or a statement has moved
it on, and what others see of a statement that is not a commit.
-/

namespace CoreBanking

namespace Database

variable {db : Database} {client other : Nat}

theorem stageOf_setStage_self (f : SessionStage → SessionStage) :
    (db.setStage client f).stageOf client = (db.stageOf client).map f := by
  simp only [stageOf, setStage, List.getElem?_modify_eq]
  cases db.sessions[client]? <;> rfl

theorem getElem?_setStage_of_ne (f : SessionStage → SessionStage) (h : other ≠ client) :
    (db.setStage client f).sessions[other]? = db.sessions[other]? := by
  rw [setStage, List.getElem?_modify]
  cases db.sessions[other]? with
  | none => rfl
  | some session => simp [h.symm]

theorem getElem?_close (clients : List Nat) : (db.close clients).sessions[client]? =
    db.sessions[client]?.map fun session =>
      if client ∈ clients then { session with stage := session.stage.close } else session := by
  simp only [close, List.getElem?_mapIdx]

theorem isCommitted_close (clients : List Nat) : (db.close clients).isCommitted client = db.isCommitted client := by
  rw [isCommitted, isCommitted, decide_eq_decide]
  simp only [stageOf, getElem?_close]
  cases db.sessions[client]? with
  | none => rfl
  | some session =>
    simp only [Option.map_some]
    split
    · cases session.stage <;> simp [SessionStage.close]
    · rfl

theorem isOpen_of_close {clients : List Nat} (h : (db.close clients).isOpen client = true) :
    db.isOpen client = true := by
  simp only [isOpen, stageOf, getElem?_close, Option.map_map] at h ⊢
  cases hs : db.sessions[client]? with
  | none => simp [hs] at h
  | some session =>
    simp only [hs, Option.map_some, Function.comp_apply, Option.any_some] at h ⊢
    split at h
    · cases hstage : session.stage <;> simp_all [SessionStage.close, SessionStage.isOpen]
    · exact h

theorem locksOf_close (clients : List Nat) : (db.close clients).locksOf client = db.locksOf client := by
  simp only [locksOf, getElem?_close, Option.map_map]
  cases db.sessions[client]? with
  | none => rfl
  | some session =>
    simp only [Option.map_some, Function.comp_apply]
    split <;> rfl

def rowsOf (db : Database) (client : Nat) : List EventRow := db.events.filter fun row => row.transaction == client

def outboxOf (db : Database) (client : Nat) : List OutboxMessage :=
  (db.outbox.filter fun row => row.1 == client).map Prod.snd

end Database

/-! ## Sessions that end -/

namespace SessionStage

variable {stage : SessionStage}

theorem rollback_eq_committed : stage.rollback = .committed ↔ stage = .committed := by
  cases stage <;> simp [rollback]

theorem isOpen_rollback : stage.rollback.isOpen = false := by
  cases stage <;> rfl

theorem abort_eq_committed : stage.abort = .committed ↔ stage = .committed := by
  cases stage <;> simp [abort]

theorem isOpen_abort : stage.abort.isOpen = stage.isOpen := by
  cases stage <;> rfl

end SessionStage

namespace Database

variable {db : Database} {client : Nat}

theorem locksOf_setStage (f : SessionStage → SessionStage) (other : Nat) :
    (db.setStage client f).locksOf other = db.locksOf other := by
  by_cases h : other = client
  · subst h
    simp only [locksOf, setStage, List.getElem?_modify_eq]
    cases db.sessions[other]? <;> rfl
  · rw [locksOf, locksOf, getElem?_setStage_of_ne f h]

theorem isCommitted_setStage {f : SessionStage → SessionStage} (hf : ∀ stage, f stage = .committed → stage = .committed)
    (h : db.isCommitted client = false) : (db.setStage client f).isCommitted client = false := by
  rw [isCommitted, stageOf_setStage_self]
  cases hstage : db.stageOf client with
  | none => rfl
  | some stage =>
    rw [isCommitted, hstage] at h
    simp only [Option.some.injEq, decide_eq_false_iff_not, Option.map_some] at h ⊢
    exact fun heq => h (hf stage heq)

theorem isOpen_setStage {f : SessionStage → SessionStage} (hf : ∀ stage, (f stage).isOpen = true → stage.isOpen = true)
    (h : (db.setStage client f).isOpen client = true) : db.isOpen client = true := by
  rw [isOpen, stageOf_setStage_self] at h
  rw [isOpen]
  cases hstage : db.stageOf client with
  | none => simp [hstage] at h
  | some stage =>
    rw [hstage] at h
    exact hf stage h

/-- A statement on a session that has committed finds it so. -/
theorem setStage_of_committed {f : SessionStage → SessionStage} (hf : f .committed = .committed)
    (h : db.isCommitted client = true) : db.setStage client f = db := by
  have hsessions :
      (db.sessions.modify client fun session => { session with stage := f session.stage }) = db.sessions := by
    refine List.ext_getElem? fun other => ?_
    rw [List.getElem?_modify]
    cases hs : db.sessions[other]? with
    | none => rfl
    | some session =>
      by_cases heq : client = other
      · subst heq
        rw [isCommitted, stageOf, hs] at h
        have hstage : session.stage = .committed := by simpa using h
        obtain ⟨stage, locks⟩ := session
        obtain rfl : stage = .committed := hstage
        simp [hf]
      · simp [heq]
  rw [setStage, hsessions]

end Database

/-! ## The commit -/

namespace Database

variable {db : Database} {client : Nat}

theorem isCommitted_commit (hactive : db.stageOf client = some .active) (other : Nat) :
    (db.setStage client fun _ => .committed).isCommitted other = (db.isCommitted other || other == client) := by
  by_cases hother : other = client
  · subst hother
    simp [isCommitted, stageOf_setStage_self, hactive]
  · rw [isCommitted, stageOf, getElem?_setStage_of_ne _ hother, ← stageOf, ← isCommitted,
      beq_eq_false_iff_ne.mpr hother, Bool.or_false]

theorem isOpen_commit (hactive : db.stageOf client = some .active) (other : Nat) :
    (db.setStage client fun _ => .committed).isOpen other = (db.isOpen other && other != client) := by
  by_cases hother : other = client
  · subst hother
    simp [isOpen, stageOf_setStage_self, hactive, SessionStage.isOpen]
  · rw [isOpen, stageOf, getElem?_setStage_of_ne _ hother, ← stageOf, ← isOpen, bne_iff_ne.mpr hother, Bool.and_true]

end Database

/-! ## Statements of one session -/

/-- A statement of a session that has not committed and does not commit. -/
structure Frame (db db' : Database) (client : Nat) : Prop where
  others : ∀ other, other ≠ client → db'.sessions[other]? = db.sessions[other]?
  length : db.sessions.length ≤ db'.sessions.length
  rows : ∃ new, db'.events = db.events ++ new ∧ ∀ row ∈ new, row.transaction = client
  before : db.isCommitted client = false
  after : db'.isCommitted client = false
  snapshots : db'.snapshots = db.snapshots
  transactions : db'.transactions = db.transactions
  idempotency : db'.idempotency = db.idempotency
  outbox : ∃ new, db'.outbox = db.outbox ++ new ∧ ∀ row ∈ new, row.1 = client

namespace Frame

variable {db db' : Database} {client : Nat} (h : Frame db db' client)
include h

theorem isCommitted (other : Nat) : db'.isCommitted other = db.isCommitted other := by
  by_cases hother : other = client
  · rw [hother, h.before, h.after]
  · rw [Database.isCommitted, Database.isCommitted, decide_eq_decide, Database.stageOf, Database.stageOf,
      h.others other hother]

theorem isOpen {other : Nat} (hother : other ≠ client) : db'.isOpen other = db.isOpen other := by
  simp only [Database.isOpen, Database.stageOf, h.others other hother]

theorem locksOf {other : Nat} (hother : other ≠ client) : db'.locksOf other = db.locksOf other := by
  simp only [Database.locksOf, h.others other hother]

theorem filter_events {p : EventRow → Bool} (hp : ∀ row, row.transaction = client → p row = false) :
    db'.events.filter p = db.events.filter p := by
  obtain ⟨new, hnew, hown⟩ := h.rows
  have hnone : new.filter p = [] := List.filter_eq_nil_iff.mpr fun row hrow => by simp [hp row (hown row hrow)]
  rw [hnew, List.filter_append, hnone, List.append_nil]

theorem filter_outbox {p : Nat × OutboxMessage → Bool} (hp : ∀ row, row.1 = client → p row = false) :
    db'.outbox.filter p = db.outbox.filter p := by
  obtain ⟨new, hnew, hown⟩ := h.outbox
  have hnone : new.filter p = [] := List.filter_eq_nil_iff.mpr fun row hrow => by simp [hp row (hown row hrow)]
  rw [hnew, List.filter_append, hnone, List.append_nil]

theorem committedRows (streamId : String) : db'.committedRows streamId = db.committedRows streamId := by
  simp only [Database.committedRows, h.isCommitted]
  exact h.filter_events fun row hrow => by simp [hrow, h.before]

theorem log : db'.log = db.log := by
  simp only [Database.log, h.isCommitted]
  rw [h.filter_events fun row hrow => by simp [hrow, h.before]]

theorem rowsOf {other : Nat} (hother : other ≠ client) : db'.rowsOf other = db.rowsOf other :=
  h.filter_events fun row hrow => by simpa [hrow] using hother.symm

theorem seenRows {other : Nat} (hother : other ≠ client) (streamId : String) :
    db'.seenRows other streamId = db.seenRows other streamId := by
  simp only [Database.seenRows, h.isCommitted]
  exact h.filter_events fun row hrow => by simp [hrow, h.before, hother.symm]

theorem outboxOf {other : Nat} (hother : other ≠ client) : db'.outboxOf other = db.outboxOf other := by
  rw [Database.outboxOf, Database.outboxOf, h.filter_outbox fun row hrow => by simpa [hrow] using hother.symm]

end Frame

end CoreBanking
