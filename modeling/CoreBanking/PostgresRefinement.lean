import CoreBanking.Conservation
import CoreBanking.PostgresOutbox
import CoreBanking.StoreInterface

/-!
# The Postgres stores against the stores of the model

A method of the Postgres stores happens at one of its statements: an append at
its `COMMIT`, everything else where it reads or writes. The lock of its stream
keeps the version that an append has checked, up to the commit.
-/

namespace CoreBanking

/-! ## What a method holds -/

/-- Nothing; a session that has written nothing; the lock of a stream; with the
version checked, what has been written and the messages it is yet to stage; a
session that is only to be rolled back; or the id or the key of a record that is
there. -/
inductive PgGhost
  | idle
  | connected (client : Nat)
  | locked (client : Nat) (streamId : String)
  | writing (client : Nat) (streamId : String) (currentVersion : Nat) (written : List DomainEvent)
    (pending : List OutboxMessage)
  | givenUp (client : Nat)
  | reserved (transactionId : String)
  | keyed (idempotencyKey : String)

def PgGhost.client : PgGhost → Option Nat
  | .connected client | .locked client _ | .writing client _ _ _ _ | .givenUp client => some client
  | _ => none

structure Untouched (db : Database) (client : Nat) : Prop where
  lt : client < db.sessions.length
  before : db.isCommitted client = false
  rows : db.rowsOf client = []
  outbox : db.outboxOf client = []

/-- The version of the stream is the one that was checked, and what the session
has inserted is there after what is committed. -/
structure Writes (hashtext : String → Int) (db : Database) (s : Store) (client : Nat) (streamId : String)
    (currentVersion : Nat) : Prop where
  lock : hashtext streamId ∈ db.locksOf client
  version : currentVersion = (s.stream streamId).length
  seen : db.seenRows client streamId = db.committedRows streamId ++ db.rowsOf client

structure Writing (hashtext : String → Int) (db : Database) (s : Store) (client : Nat) (streamId : String)
    (currentVersion : Nat) (written : List DomainEvent) (pending : List OutboxMessage) : Prop where
  lt : client < db.sessions.length
  before : db.isCommitted client = false
  rows : (db.rowsOf client).map (·.event) =
    (EventStore.renumber currentVersion written).map (DomainEvent.under streamId)
  messages : (db.rowsOf client).map EventRow.message = db.outboxOf client ++ pending
  writes : db.isOpen client = true → Writes hashtext db s client streamId currentVersion

def Holds (hashtext : String → Int) (db : Database) (s : Store) : PgGhost → Prop
  | .idle => True
  | .connected client => Untouched db client ∧ db.locksOf client = []
  | .locked client streamId => Untouched db client ∧ (db.isOpen client = true → hashtext streamId ∈ db.locksOf client)
  | .writing client streamId currentVersion written pending =>
    Writing hashtext db s client streamId currentVersion written pending
  | .givenUp client => client < db.sessions.length
  | .reserved transactionId => s.transactions.get transactionId ≠ none
  | .keyed idempotencyKey => s.idempotency.get idempotencyKey ≠ none

structure Refines (hashtext : String → Int) (db : Database) (s : Store) (gs : Nat → PgGhost) : Prop where
  numbered : ∀ streamId, Numbered DomainEvent.streamVersion (s.stream streamId)
  streams : ∀ streamId, db.committed streamId = (s.stream streamId).map (DomainEvent.under streamId)
  log : (db.log.map (DomainEvent.under "")).Perm (s.log.map (DomainEvent.under ""))
  outbox : Staged db
  snapshots : ∀ streamId, db.latestSnapshot streamId = s.snapshots.get streamId
  transactions : db.transactions = s.transactions
  idempotency : db.idempotency = s.idempotency
  fresh : ∀ row ∈ db.events, row.transaction < db.sessions.length
  locks : ∀ {client other}, db.isOpen client = true → db.isOpen other = true →
    ∀ {key}, key ∈ db.locksOf client → key ∈ db.locksOf other → client = other
  owner : ∀ {i j client}, (gs i).client = some client → (gs j).client = some client → i = j
  holds : ∀ i, Holds hashtext db s (gs i)

variable {hashtext : String → Int} {db db' : Database} {s s' : Store} {gs : Nat → PgGhost}

theorem Holds.lt {g : PgGhost} {client : Nat} (h : Holds hashtext db s g) (hclient : g.client = some client) :
    client < db.sessions.length := by
  cases g with
  | connected other | locked other _ =>
    obtain rfl := Option.some.inj hclient
    exact h.1.lt
  | writing other streamId currentVersion written pending =>
    obtain rfl := Option.some.inj hclient
    exact Writing.lt h
  | givenUp other =>
    obtain rfl := Option.some.inj hclient
    exact h
  | idle | reserved | keyed => cases hclient

theorem Refines.empty (hashtext : String → Int) : Refines hashtext .empty .empty fun _ => .idle where
  numbered _ := .nil
  streams _ := rfl
  log := .refl _
  outbox := .empty
  snapshots _ := rfl
  transactions := rfl
  idempotency := rfl
  fresh _ h := absurd h List.not_mem_nil
  locks h := by simp [Database.isOpen, Database.stageOf, Database.empty] at h
  owner h := by cases h
  holds _ := trivial

theorem Database.committedRows_close (clients : List Nat) (streamId : String) :
    (db.close clients).committedRows streamId = db.committedRows streamId := by
  simp only [committedRows, isCommitted_close]
  rfl

theorem Untouched.close {client : Nat} (h : Untouched db client) (clients : List Nat) :
    Untouched (db.close clients) client where
  lt := Nat.lt_of_lt_of_eq h.lt List.length_mapIdx.symm
  before := (Database.isCommitted_close clients).trans h.before
  rows := h.rows
  outbox := h.outbox

theorem Holds.close {g : PgGhost} (h : Holds hashtext db s g) (clients : List Nat) :
    Holds hashtext (db.close clients) s g := by
  have hlength : (db.close clients).sessions.length = db.sessions.length := List.length_mapIdx
  have hseen : ∀ client streamId, (db.close clients).seenRows client streamId = db.seenRows client streamId := by
    intro client streamId
    simp only [Database.seenRows, Database.isCommitted_close]
    rfl
  cases g with
  | connected client => exact ⟨h.1.close clients, (Database.locksOf_close clients).trans h.2⟩
  | locked client streamId =>
    refine ⟨h.1.close clients, fun hopen => ?_⟩
    rw [Database.locksOf_close]
    exact h.2 (Database.isOpen_of_close hopen)
  | writing client streamId currentVersion written pending =>
    have h : Writing hashtext db s client streamId currentVersion written pending := h
    refine ⟨hlength.symm ▸ h.lt, (Database.isCommitted_close clients).trans h.before, h.rows, h.messages,
      fun hopen => ?_⟩
    have hwrites := h.writes (Database.isOpen_of_close hopen)
    exact ⟨(Database.locksOf_close clients).symm ▸ hwrites.lock, hwrites.version, by
      rw [hseen, Database.committedRows_close]; exact hwrites.seen⟩
  | givenUp client => exact Nat.lt_of_lt_of_eq h hlength.symm
  | idle | reserved | keyed => exact h

theorem Refines.close (h : Refines hashtext db s gs) (clients : List Nat) :
    Refines hashtext (db.close clients) s gs where
  numbered := h.numbered
  streams streamId := by
    rw [Database.committed, Database.committedRows_close]
    exact h.streams streamId
  log := by
    simp only [Database.log, Database.isCommitted_close]
    exact h.log
  outbox := h.outbox.close clients
  snapshots := h.snapshots
  transactions := h.transactions
  idempotency := h.idempotency
  fresh row hrow := by
    rw [show (db.close clients).sessions.length = db.sessions.length from List.length_mapIdx]
    exact h.fresh row hrow
  locks hopen hopen' _ hkey hkey' :=
    h.locks (Database.isOpen_of_close hopen) (Database.isOpen_of_close hopen')
      (Database.locksOf_close clients ▸ hkey) (Database.locksOf_close clients ▸ hkey')
  owner := h.owner
  holds i := (h.holds i).close clients

/-! ## Statements of one session -/

namespace Frame

variable {client : Nat} (h : Frame db db' client)
include h

theorem untouched {other : Nat} (hother : other ≠ client) (hg : Untouched db other) : Untouched db' other where
  lt := Nat.lt_of_lt_of_le hg.lt h.length
  before := (h.isCommitted other).trans hg.before
  rows := (h.rowsOf hother).trans hg.rows
  outbox := (h.outboxOf hother).trans hg.outbox

theorem holds {g : PgGhost} (hg : Holds hashtext db s g) (hclient : g.client ≠ some client) :
    Holds hashtext db' s g := by
  cases g with
  | connected other =>
    have hother : other ≠ client := fun heq => hclient (congrArg some heq)
    exact ⟨h.untouched hother hg.1, (h.locksOf hother).trans hg.2⟩
  | locked other streamId =>
    have hother : other ≠ client := fun heq => hclient (congrArg some heq)
    refine ⟨h.untouched hother hg.1, fun hopen => ?_⟩
    rw [h.locksOf hother]
    exact hg.2 (h.isOpen hother ▸ hopen)
  | writing other streamId currentVersion written pending =>
    have hother : other ≠ client := fun heq => hclient (congrArg some heq)
    have hg : Writing hashtext db s other streamId currentVersion written pending := hg
    refine ⟨Nat.lt_of_lt_of_le hg.lt h.length, (h.isCommitted other).trans hg.before, ?_, ?_, fun hopen => ?_⟩
    · rw [h.rowsOf hother]
      exact hg.rows
    · rw [h.rowsOf hother, h.outboxOf hother]
      exact hg.messages
    · obtain ⟨hlock, hversion, hseen⟩ := hg.writes (h.isOpen hother ▸ hopen)
      exact ⟨(h.locksOf hother).symm ▸ hlock, hversion, by
        rw [h.seenRows hother, h.committedRows, h.rowsOf hother, hseen]⟩
  | givenUp other => exact Nat.lt_of_lt_of_le hg h.length
  | idle | reserved | keyed => exact hg

/-- A method goes on with `g`, at a session of its own. -/
theorem refines (hrefines : Refines hashtext db s gs) {i : Nat} {g : PgGhost}
    (hclient : (gs i).client = some client ∨ client = db.sessions.length)
    (hlt : client < db'.sessions.length) (hstaged : Staged db')
    (hlocks : db'.isOpen client = true → ∀ {other}, other ≠ client → db.isOpen other = true →
      ∀ {key}, key ∈ db'.locksOf client → key ∉ db.locksOf other)
    (hholds : Holds hashtext db' s g) (hg : ∀ other, g.client = some other → other = client) :
    Refines hashtext db' s (Function.update gs i g) := by
  have hothers : ∀ j, j ≠ i → (gs j).client ≠ some client := by
    intro j hj heq
    rcases hclient with hown | hnew
    · exact hj (hrefines.owner heq hown)
    · have hlt := (hrefines.holds j).lt heq
      omega
  refine ⟨hrefines.numbered, fun streamId => ?_, ?_, hstaged, fun streamId => ?_, ?_, ?_, fun row hrow => ?_, ?_, ?_,
    fun j => ?_⟩
  · rw [Database.committed, h.committedRows]
    exact hrefines.streams streamId
  · rw [h.log]
    exact hrefines.log
  · rw [← hrefines.snapshots, Database.latestSnapshot, h.snapshots]
    rfl
  · rw [h.transactions, hrefines.transactions]
  · rw [h.idempotency, hrefines.idempotency]
  · obtain ⟨new, hnew, hown⟩ := h.rows
    rw [hnew] at hrow
    rcases List.mem_append.mp hrow with hrow | hrow
    · exact Nat.lt_of_lt_of_le (hrefines.fresh row hrow) h.length
    · rw [hown row hrow]
      exact hlt
  · intro a b ha hb key hka hkb
    by_cases hac : a = client
    · by_cases hbc : b = client
      · rw [hac, hbc]
      · rw [hac] at ha hka
        rw [h.isOpen hbc] at hb
        rw [h.locksOf hbc] at hkb
        exact absurd hkb (hlocks ha hbc hb hka)
    · by_cases hbc : b = client
      · rw [hbc] at hb hkb
        rw [h.isOpen hac] at ha
        rw [h.locksOf hac] at hka
        exact absurd hka (hlocks hb hac ha hkb)
      · rw [h.isOpen hac] at ha
        rw [h.isOpen hbc] at hb
        rw [h.locksOf hac] at hka
        rw [h.locksOf hbc] at hkb
        exact hrefines.locks ha hb hka hkb
  · intro j k other hj hk
    by_cases hji : j = i
    · by_cases hki : k = i
      · rw [hji, hki]
      · rw [hji, Function.update_self] at hj
        rw [Function.update_of_ne hki] at hk
        exact absurd (hg other hj ▸ hk) (hothers k hki)
    · by_cases hki : k = i
      · rw [hki, Function.update_self] at hk
        rw [Function.update_of_ne hji] at hj
        exact absurd (hg other hk ▸ hj) (hothers j hji)
      · rw [Function.update_of_ne hji] at hj
        rw [Function.update_of_ne hki] at hk
        exact hrefines.owner hj hk
  · by_cases hji : j = i
    · rw [hji, Function.update_self]
      exact hholds
    · rw [Function.update_of_ne hji]
      exact h.holds (hrefines.holds j) (hothers j hji)

end Frame

/-! ## The commit -/

theorem Store.log_write (s : Store) (streamId : String) (events : List DomainEvent) :
    (s.write streamId events).log = s.log ++ EventStore.renumber (s.stream streamId).length events := by
  have hmap : ∀ (l : List DomainEvent) (n : Nat), (l.mapIdx fun index event =>
      (⟨event, n + index + 1⟩ : PositionedEvent)).map PositionedEvent.event = l := fun l n => by
    refine List.ext_getElem? fun k => ?_
    rw [List.getElem?_map, List.getElem?_mapIdx, Option.map_map]
    cases l[k]? <;> rfl
  rw [Store.log, Store.write]
  dsimp only [EventStore.write]
  rw [List.map_append, hmap]
  rfl

theorem Store.numbered_write {s : Store} (h : ∀ streamId, Numbered DomainEvent.streamVersion (s.stream streamId))
    (streamId : String) (events : List DomainEvent) (streamId' : String) :
    Numbered DomainEvent.streamVersion ((s.write streamId events).stream streamId') := by
  rw [Store.stream_write]
  split
  · refine (h streamId).append ?_
    rw [EventStore.renumber_versions, EventStore.length_renumber]
  · exact h streamId'

section
variable {i client : Nat} {streamId : String} {currentVersion : Nat} {written : List DomainEvent}

theorem Writing.stream (h : Writing hashtext db s client streamId currentVersion written []) {row : EventRow}
    (hrow : row ∈ db.rowsOf client) : row.event.streamId = streamId := by
  have hmem : row.event ∈ (db.rowsOf client).map (·.event) := List.mem_map_of_mem hrow
  rw [h.rows, List.mem_map] at hmem
  obtain ⟨event, -, he⟩ := hmem
  rw [← he]
  rfl

/-- What is committed with the session, in its stream and in others. -/
theorem Writing.committedRows (h : Writing hashtext db s client streamId currentVersion written [])
    (hactive : db.stageOf client = some .active) (streamId' : String) :
    (db.setStage client fun _ => .committed).committedRows streamId' =
      if streamId = streamId' then db.committedRows streamId ++ db.rowsOf client else db.committedRows streamId' := by
  have hopen : db.isOpen client = true := by
    rw [Database.isOpen, hactive]
    rfl
  have hnow : (db.setStage client fun _ => .committed).committedRows streamId' = db.seenRows client streamId' := by
    simp only [Database.committedRows, Database.seenRows, Database.isCommitted_commit hactive]
    rfl
  rw [hnow]
  split
  case isTrue heq =>
    exact heq ▸ (h.writes hopen).seen
  case isFalse hne =>
    refine List.filter_congr fun row hrow => ?_
    by_cases heq : row.transaction = client
    · have hstream : row.event.streamId = streamId := h.stream (List.mem_filter.mpr ⟨hrow, by simpa using heq⟩)
      simp [hstream, hne]
    · rw [beq_eq_false_iff_ne.mpr heq, Bool.or_false]

theorem Writing.others (h : Writing hashtext db s client streamId currentVersion written [])
    (hactive : db.stageOf client = some .active)
    (hlocks : ∀ {other}, db.isOpen client = true → db.isOpen other = true →
      ∀ {key}, key ∈ db.locksOf client → key ∈ db.locksOf other → client = other)
    {g : PgGhost} (hg : Holds hashtext db s g) (hclient : g.client ≠ some client) :
    Holds hashtext (db.setStage client fun _ => .committed) (s.write streamId written) g := by
  have hopen : db.isOpen client = true := by
    rw [Database.isOpen, hactive]
    rfl
  have hwrites := h.writes hopen
  generalize hdb' : db.setStage client (fun _ => .committed) = db'
  have hcommitted : ∀ {other}, other ≠ client → db'.isCommitted other = db.isCommitted other := fun {other} hother => by
    rw [← hdb', Database.isCommitted_commit hactive, beq_eq_false_iff_ne.mpr hother, Bool.or_false]
  have hopened : ∀ {other}, db'.isOpen other = true → db.isOpen other = true := fun {other} ho => by
    rw [← hdb', Database.isOpen_commit hactive] at ho
    exact (Bool.and_eq_true_iff.mp ho).1
  have hlocksOf : ∀ other, db'.locksOf other = db.locksOf other := fun other => by
    rw [← hdb', Database.locksOf_setStage]
  have hlength : db'.sessions.length = db.sessions.length := by
    rw [← hdb']
    exact List.length_modify ..
  have hrowsOf : ∀ other, db'.rowsOf other = db.rowsOf other := fun other => by rw [← hdb']; rfl
  have houtboxOf : ∀ other, db'.outboxOf other = db.outboxOf other := fun other => by rw [← hdb']; rfl
  have huntouched : ∀ {other}, other ≠ client → Untouched db other → Untouched db' other := fun hother ho =>
    ⟨hlength ▸ ho.lt, (hcommitted hother).trans ho.before, (hrowsOf _).trans ho.rows, (houtboxOf _).trans ho.outbox⟩
  cases g with
  | connected other =>
    have hother : other ≠ client := fun heq => hclient (congrArg some heq)
    exact ⟨huntouched hother hg.1, (hlocksOf other).trans hg.2⟩
  | locked other streamId' =>
    have hother : other ≠ client := fun heq => hclient (congrArg some heq)
    refine ⟨huntouched hother hg.1, fun ho => ?_⟩
    rw [hlocksOf]
    exact hg.2 (hopened ho)
  | writing other streamId' currentVersion' written' pending =>
    have hother : other ≠ client := fun heq => hclient (congrArg some heq)
    have hg : Writing hashtext db s other streamId' currentVersion' written' pending := hg
    refine ⟨hlength ▸ hg.lt, (hcommitted hother).trans hg.before, ?_, ?_, fun ho => ?_⟩
    · rw [hrowsOf]
      exact hg.rows
    · rw [hrowsOf, houtboxOf]
      exact hg.messages
    · obtain ⟨hlock', hversion', hseen'⟩ := hg.writes (hopened ho)
      -- both would hold the lock of the stream
      have hne : streamId ≠ streamId' := by
        rintro rfl
        exact hother (hlocks hopen (hopened ho) hwrites.lock hlock').symm
      refine ⟨(hlocksOf other).symm ▸ hlock', by rw [Store.stream_write, if_neg hne, hversion'], ?_⟩
      rw [← hdb', h.committedRows hactive, if_neg hne, hdb', hrowsOf, ← hseen', Database.seenRows, Database.seenRows,
        show db'.events = db.events by rw [← hdb']; rfl]
      refine List.filter_congr fun row hrow => ?_
      by_cases heq : row.transaction = client
      · have hstream : row.event.streamId = streamId := h.stream (List.mem_filter.mpr ⟨hrow, by simpa using heq⟩)
        simp [hstream, hne]
      · rw [hcommitted heq]
  | givenUp other => exact Nat.lt_of_lt_of_eq hg hlength.symm
  | idle => trivial
  | reserved | keyed => exact hg

/-- A commit is an append. The method may have to give up even so, when it is not told. -/
theorem Refines.commit (h : Refines hashtext db s gs) (hg : gs i = .writing client streamId currentVersion written [])
    (hactive : db.stageOf client = some .active) {g : PgGhost} (hnext : g = .idle ∨ g = .givenUp client) :
    Refines hashtext (db.setStage client fun _ => .committed) (s.write streamId written)
      (Function.update gs i g) := by
  have hheld : Writing hashtext db s client streamId currentVersion written [] := by
    have hheld := h.holds i
    rwa [hg] at hheld
  have hopen : db.isOpen client = true := by
    rw [Database.isOpen, hactive]
    rfl
  have hwrites := hheld.writes hopen
  have hrows : (db.rowsOf client).map (·.event) =
      (EventStore.renumber (s.stream streamId).length written).map (DomainEvent.under streamId) := by
    rw [hheld.rows, hwrites.version]
  have hopened : ∀ {other}, (db.setStage client fun _ => .committed).isOpen other = true → db.isOpen other = true :=
    fun {other} ho => by
      rw [Database.isOpen_commit hactive] at ho
      exact (Bool.and_eq_true_iff.mp ho).1
  have hlength : (db.setStage client fun _ => .committed).sessions.length = db.sessions.length := List.length_modify ..
  refine ⟨Store.numbered_write h.numbered streamId written, fun streamId' => ?_, ?_, ?_, h.snapshots, h.transactions,
    h.idempotency, fun row hrow => ?_, ?_, ?_, fun j => ?_⟩
  · rw [Database.committed, hheld.committedRows hactive, Store.stream_write]
    split
    case isTrue heq =>
      subst heq
      rw [List.map_append, hrows, List.map_append]
      exact congrArg (· ++ _) (h.streams streamId)
    · exact h.streams streamId'
  · have hperm : ((db.setStage client fun _ => .committed).log).Perm (db.log ++ (db.rowsOf client).map (·.event)) := by
      rw [Database.log, Database.log, Database.rowsOf, ← List.map_append]
      simp only [Database.isCommitted_commit hactive]
      refine List.Perm.map _ (List.filter_or_perm fun row hrow hc => ?_)
      by_contra heq
      rw [show row.transaction = client by simpa using heq, hheld.before] at hc
      cases hc
    rw [Store.log_write, List.map_append]
    refine (hperm.map (DomainEvent.under "")).trans ?_
    rw [List.map_append, hrows, List.map_map]
    exact h.log.append_right _
  · refine h.outbox.commit hactive ?_ (fun row hrow => hheld.stream hrow) ?_ hwrites.seen
    · rw [hheld.messages, List.append_nil]
    · have hcount : (db.committedRows streamId).length = (s.stream streamId).length := by
        have hlen := congrArg List.length (h.streams streamId)
        rwa [Database.committed, List.length_map, List.length_map] at hlen
      have hlen : (db.rowsOf client).length = written.length := by
        have hlen := congrArg List.length hrows
        rwa [List.length_map, List.length_map, EventStore.length_renumber] at hlen
      rw [hcount, hlen, ← EventStore.renumber_versions]
      calc (db.rowsOf client).map (fun row => row.event.streamVersion)
          = ((db.rowsOf client).map (·.event)).map DomainEvent.streamVersion := by rw [List.map_map]; rfl
        _ = (EventStore.renumber (s.stream streamId).length written).map DomainEvent.streamVersion := by
            rw [hrows, List.map_map]; rfl
  · rw [hlength]
    exact h.fresh row hrow
  · intro a b ha hb key hka hkb
    rw [Database.locksOf_setStage] at hka hkb
    exact h.locks (hopened ha) (hopened hb) hka hkb
  · intro j k other hj hk
    have hgone : ∀ {j}, (Function.update gs i g j).client = some other → (gs j).client = some other := by
      intro j hj
      by_cases hji : j = i
      · rw [hji, Function.update_self] at hj
        rw [hji, hg]
        rcases hnext with rfl | rfl
        · cases hj
        · exact hj
      · rwa [Function.update_of_ne hji] at hj
    exact h.owner (hgone hj) (hgone hk)
  · by_cases hji : j = i
    · rw [hji, Function.update_self]
      rcases hnext with rfl | rfl
      · trivial
      · exact Nat.lt_of_lt_of_eq hheld.lt hlength.symm
    · rw [Function.update_of_ne hji]
      exact hheld.others hactive h.locks (h.holds j) fun heq => hji (h.owner heq (by rw [hg]; rfl))

end

end CoreBanking
