import CoreBanking.PostgresMethods
import Mathlib.Data.List.MinMax

/-!
# The append over Postgres

An append happens at its `COMMIT`. Until then its rows are its own, and the lock
of the stream keeps the version that it has checked. Whatever goes wrong on the
way, it is rejected there, and the session is rolled back.
-/

namespace CoreBanking

def PgCall.session : PgCall → Option Nat
  | .begin client | .lockStream client _ | .selectVersion client _ | .insertEvent client _ | .insertOutbox client _
  | .commit client | .rollback client => some client
  | _ => none

section
variable {hashtext : String → Int} {db db' : Database} {s : Store} {gs : Nat → PgGhost} {i client : Nat} {g : PgGhost}

/-! ## Sessions that end -/

/-- A method lets go of a session, which has not committed on the way. -/
theorem Refines.letGo (h : Refines hashtext db s gs) (hclient : (gs i).client = some client)
    (hcommitted : db.isCommitted client = false) {f : SessionStage → SessionStage}
    (hf : ∀ stage, f stage = .committed → stage = .committed)
    (hf' : ∀ stage, (f stage).isOpen = true → stage.isOpen = true) {nextId : Nat} (hnextId : db.nextId ≤ nextId)
    (hg : g = .idle ∨ g = .givenUp client) :
    Refines hashtext { db.setStage client f with nextId := nextId } s (Function.update gs i g) := by
  generalize hdb' : ({ db.setStage client f with nextId := nextId } : Database) = db'
  have hsessions : db'.sessions = (db.setStage client f).sessions := by rw [← hdb']
  have hstage : ∀ other, db'.stageOf other = (db.setStage client f).stageOf other := fun other => by
    rw [Database.stageOf, Database.stageOf, hsessions]
  have hlength : db'.sessions.length = db.sessions.length := by
    rw [hsessions, Database.setStage, List.length_modify]
  have hlt : client < db'.sessions.length := hlength ▸ (h.holds i).lt hclient
  have hopened : db'.isOpen client = true → db.isOpen client = true := fun hopen => by
    rw [Database.isOpen, hstage] at hopen
    exact Database.isOpen_setStage hf' hopen
  have hframe : Frame db db' client := by
    refine ⟨fun other hother => ?_, hlength.ge, ⟨[], ?_, by simp⟩, hcommitted, ?_, ?_, ?_, ?_, ⟨[], ?_, by simp⟩⟩
    · rw [hsessions]
      exact Database.getElem?_setStage_of_ne f hother
    · rw [← hdb', List.append_nil]
      rfl
    · rw [Database.isCommitted, hstage]
      exact Database.isCommitted_setStage hf hcommitted
    all_goals
      rw [← hdb']
      first | rfl | exact (List.append_nil _).symm
  have hstaged : Staged db' :=
    h.outbox.frame hframe (fun hopen => .inl (hopened hopen)) (by rw [← hdb']; rfl) (by rw [← hdb']; exact hnextId)
      (by rw [← hdb']; rfl)
  refine hframe.refines h (.inl hclient) hlt hstaged (fun hopen other hother hopen' key hkey hkey' => ?_) ?_
    fun other ho => ?_
  · rw [Database.locksOf, hsessions, ← Database.locksOf, Database.locksOf_setStage] at hkey
    exact hother (h.locks hopen' (hopened hopen) hkey' hkey)
  · rcases hg with rfl | rfl
    · trivial
    · exact hlt
  · rcases hg with rfl | rfl
    · cases ho
    · exact (Option.some.inj ho).symm

theorem Refines.rollback (h : Refines hashtext db s gs) (hg : gs i = .givenUp client) :
    Refines hashtext (db.setStage client SessionStage.rollback) s (Function.update gs i .idle) ∧
      Refines hashtext (db.setStage client SessionStage.abort) s (Function.update gs i .idle) := by
  have hclient : (gs i).client = some client := by rw [hg]; rfl
  cases hcommitted : db.isCommitted client with
  | true =>
    rw [Database.setStage_of_committed rfl hcommitted, Database.setStage_of_committed rfl hcommitted]
    have hidle : Refines hashtext db s (Function.update gs i .idle) := h.swap trivial fun _ h => by cases h
    exact ⟨hidle, hidle⟩
  | false =>
    refine ⟨?_, ?_⟩
    · exact h.letGo hclient hcommitted (fun _ => SessionStage.rollback_eq_committed.mp)
        (fun stage hs => by rw [SessionStage.isOpen_rollback] at hs; cases hs) (Nat.le_refl _) (.inl rfl)
    · exact h.letGo hclient hcommitted (fun _ => SessionStage.abort_eq_committed.mp)
        (fun _ hs => SessionStage.isOpen_abort ▸ hs) (Nat.le_refl _) (.inl rfl)

theorem Refines.refuse (h : Refines hashtext db s gs) {op : PgCall} (hsession : op.session = some client)
    (hclient : (gs i).client = some client) (hcommitted : db.isCommitted client = false) :
    Refines hashtext (db.refuse op) s (Function.update gs i (.givenUp client)) := by
  have hgo : ∀ {nextId}, db.nextId ≤ nextId →
      Refines hashtext { db.setStage client SessionStage.abort with nextId := nextId } s
        (Function.update gs i (.givenUp client)) := fun hnextId =>
    h.letGo hclient hcommitted (fun _ => SessionStage.abort_eq_committed.mp)
      (fun _ hs => SessionStage.isOpen_abort ▸ hs) hnextId (.inr rfl)
  cases op with
  | insertEvent =>
    obtain rfl := Option.some.inj hsession
    exact hgo (Nat.le_succ _)
  | begin | lockStream | selectVersion | insertOutbox | commit | rollback =>
    obtain rfl := Option.some.inj hsession
    exact hgo (Nat.le_refl _)
  | _ => cases hsession

end

section
variable [JsRuntime] [RequestDigest] {hashtext : String → Int} {reports : String → Prop}
  {admits : BankRequest → Prop}

variable {q : BankRequest} {op : StoreOp} {client : Nat} {streamId : String} {g : PgGhost}

/-! ## The statements of an append -/

/-- The call has been rejected, where it could have been with any error of the
database, and with this one. -/
def GivesUp (reports : String → Prop) (client : Nat) {β : Type} (st : Option (Except Failure β → Prop)) (g : PgGhost)
    (error : Failure) : Prop :=
  g = .givenUp client ∧ ∃ answers, st = some answers ∧ (∀ r, ReportedError reports r → answers r) ∧
    answers (.error error)

def Proceeds (reports : String → Prop) (client : Nat) {α β : Type}
    (Q : Option (Except Failure β → Prop) → PgGhost → α → Prop) (st : Option (Except Failure β → Prop)) (g : PgGhost) :
    Except Failure α → Prop
  | .ok a => Q st g a
  | .error error => GivesUp reports client st g error

/-- A statement before the `COMMIT`, which may settle that the call is rejected. -/
theorem wp_statement (call : PgCall) (g : PgGhost)
    {Q : (pgSimulation hashtext reports admits).Status (.call op) → PgGhost → call.Result → Prop}
    (hsession : call.session = some client) (hclient : g.client = some client)
    (hbefore : ∀ {db s}, Holds hashtext db s g → db.isCommitted client = false)
    (hperform : ∀ {i db s gs}, Refines hashtext db s gs → gs i = g → ∀ {a db'},
      db.perform hashtext call = some (a, db') →
      ∃ st' g', (pgSimulation hashtext reports admits).Advances i q (.call op) s none s st' ∧
        g'.client = some client ∧ Refines hashtext db' s (Function.update gs i g') ∧ Q st' g' a) :
    (pgSimulation hashtext reports admits).wp q (.call op) (PgCall.send call) none g
      (Proceeds reports client Q) := by
  refine wp_send fun i db s gs hinv hg r db' hexec => ?_
  have hown : (gs i).client = some client := by rw [hg, hclient]
  have hgives : ∀ {message}, reports message → GivesUp reports client
      (some (ReportedError reports : Except Failure op.Result → Prop)) (.givenUp client) (.store message) :=
    fun {message} hm => ⟨rfl, _, rfl, fun _ h => h, message, hm, rfl⟩
  cases hexec with
  | randomUUID => cases hsession
  | now => cases hsession
  | performed _ hdb =>
    obtain ⟨st', g', hadvances, -, hnext, hQ⟩ := hperform hinv hg hdb
    exact ⟨s, st', g', hadvances, hnext, hQ⟩
  | refused message hm =>
    exact ⟨s, _, _, .happens (happens_rejected hm),
      hinv.refuse hsession hown (hbefore (hg ▸ hinv.holds i)), hgives hm⟩
  | unanswered message hm hdb =>
    obtain ⟨st', g', -, hclient', hnext, -⟩ := hperform hinv hg hdb
    have hnow : (Function.update gs i g' i).client = some client := by rw [Function.update_self, hclient']
    have hgivenUp := hnext.swap (g := .givenUp client) ((hnext.holds i).lt hnow) fun other ho =>
      hnow.trans ho
    rw [Function.update_idem] at hgivenUp
    exact ⟨s, _, _, .happens (happens_rejected hm), hgivenUp, hgives hm⟩

theorem wp_proceeds {α β : Type} {p : PgTask α} {f : α → PgTask β}
    {st : (pgSimulation hashtext reports admits).Status (.call op)}
    {P : (pgSimulation hashtext reports admits).Status (.call op) → PgGhost → α → Prop}
    {Q : (pgSimulation hashtext reports admits).Status (.call op) → PgGhost → β → Prop}
    (hp : (pgSimulation hashtext reports admits).wp q (.call op) p st g (Proceeds reports client P))
    (hf : ∀ st' g' a, P st' g' a →
      (pgSimulation hashtext reports admits).wp q (.call op) (f a) st' g' (Proceeds reports client Q)) :
    (pgSimulation hashtext reports admits).wp q (.call op) (p >>= f) st g (Proceeds reports client Q) := by
  refine Simulation.wp_bind (Simulation.wp_mono (fun st' g' r hr => ?_) hp)
  cases r with
  | ok a => exact hf st' g' a hr
  | error error => exact hr

/-- Whatever has gone wrong is thrown again, unless the session cannot be rolled back. -/
theorem wp_giveUp {st : (pgSimulation hashtext reports admits).Status (.call op)} {error : Failure}
    (h : GivesUp reports client st g error) :
    (pgSimulation hashtext reports admits).wp q (.call op)
      (PgCall.send (.rollback client) >>= fun _ => (throw error : PgTask op.Result)) st g
      ((pgSimulation hashtext reports admits).Ends (.call op)) := by
  obtain ⟨rfl, answers, rfl, hreported, herror⟩ := h
  apply Simulation.wp_bind
  refine wp_send fun i db s gs hinv hg r db' hexec => ?_
  cases hexec with
  | performed _ hdb =>
    rw [Database.perform] at hdb
    split at hdb
    · cases hdb
    · obtain ⟨-, rfl⟩ := Prod.mk.inj (Option.some.inj hdb)
      exact ⟨s, _, .idle, .stays _, (hinv.rollback hg).1, rfl, answers, _, rfl, herror, rfl⟩
  | refused message hm =>
    exact ⟨s, _, .idle, .stays _, (hinv.rollback hg).2, rfl, answers, _, rfl, hreported _ ⟨message, hm, rfl⟩, rfl⟩
  | unanswered message hm hdb =>
    rw [Database.perform] at hdb
    split at hdb
    · cases hdb
    · obtain ⟨-, rfl⟩ := Prod.mk.inj (Option.some.inj hdb)
      exact ⟨s, _, .idle, .stays _, (hinv.rollback hg).1, rfl, answers, _, rfl, hreported _ ⟨message, hm, rfl⟩, rfl⟩

theorem wp_begin :
    (pgSimulation hashtext reports admits).wp q (.call op) (PgCall.send (.begin client)) none (.connected client)
      (Proceeds reports client fun st' g' _ => st' = none ∧ g' = .connected client) := by
  refine wp_statement (.begin client) (.connected client) rfl rfl (fun h => h.1.before)
    fun {i db s gs} hinv hg {a db'} hdb => ⟨none, .connected client, .stays _, rfl, ?_, rfl, rfl⟩
  have hheld : Holds hashtext db s (.connected client) := hg ▸ hinv.holds i
  obtain ⟨⟨hlt, hbefore, hrows, houtbox⟩, hlocks⟩ := hheld
  rw [Database.perform] at hdb
  split at hdb
  · obtain ⟨-, rfl⟩ := Prod.mk.inj (Option.some.inj hdb)
    have hafter : (db.setStage client fun _ => .active).isCommitted client = false :=
      Database.isCommitted_setStage (fun _ h => by cases h) hbefore
    have hlocks' : (db.setStage client fun _ => .active).locksOf client = [] := by
      rw [Database.locksOf_setStage]
      exact hlocks
    have hlt' : client < (db.setStage client fun _ => .active).sessions.length := by
      rw [Database.setStage, List.length_modify]
      exact hlt
    have hframe : Frame db (db.setStage client fun _ => .active) client :=
      ⟨fun other hother => Database.getElem?_setStage_of_ne _ hother, by rw [Database.setStage, List.length_modify],
        ⟨[], (List.append_nil _).symm, by simp⟩, hbefore, hafter, rfl, rfl, rfl,
        ⟨[], (List.append_nil _).symm, by simp⟩⟩
    have hstaged : Staged (db.setStage client fun _ => .active) :=
      hinv.outbox.frame hframe (fun _ => .inr hrows) rfl (Nat.le_refl _) rfl
    refine hframe.refines hinv (.inl (by rw [hg]; rfl)) hlt' hstaged (fun _ other _ _ key hkey => ?_)
      ⟨⟨hlt', hafter, hrows, houtbox⟩, hlocks'⟩ fun other ho => (Option.some.inj ho).symm
    rw [hlocks'] at hkey
    cases hkey
  · cases hdb

namespace Database

omit [JsRuntime] [RequestDigest]

variable {db : Database} (key : Int)

theorem stageOf_lock (other : Nat) : ({ db with
    sessions := db.sessions.modify client fun session => { session with locks := key :: session.locks } } :
    Database).stageOf other = db.stageOf other := by
  simp only [stageOf, List.getElem?_modify]
  cases db.sessions[other]? with
  | none => rfl
  | some session =>
    by_cases h : client = other
    · simp [h]
    · simp [h]

theorem locksOf_lock (hlt : client < db.sessions.length) : ({ db with
    sessions := db.sessions.modify client fun session => { session with locks := key :: session.locks } } :
    Database).locksOf client = key :: db.locksOf client := by
  simp [locksOf, hlt]

theorem isOpen_lt {other : Nat} (h : db.isOpen other = true) : other < db.sessions.length := by
  by_contra hge
  rw [isOpen, stageOf, List.getElem?_eq_none (by omega)] at h
  cases h

end Database

theorem wp_lockStream :
    (pgSimulation hashtext reports admits).wp q (.call op) (PgCall.send (.lockStream client streamId)) none
      (.connected client) (Proceeds reports client fun st' g' _ => st' = none ∧ g' = .locked client streamId) := by
  refine wp_statement (.lockStream client streamId) (.connected client) rfl rfl (fun h => h.1.before)
    fun {i db s gs} hinv hg {a db'} hdb => ⟨none, .locked client streamId, .stays _, rfl, ?_, rfl, rfl⟩
  have hheld : Holds hashtext db s (.connected client) := hg ▸ hinv.holds i
  obtain ⟨⟨hlt, hbefore, hrows, houtbox⟩, hlocks⟩ := hheld
  rw [Database.perform] at hdb
  split at hdb
  case isTrue hguard =>
    obtain ⟨-, hfree⟩ := hguard
    obtain ⟨-, hdb⟩ := Prod.mk.inj (Option.some.inj hdb)
    have hstage : ∀ other, db'.stageOf other = db.stageOf other := fun other => by
      rw [← hdb]
      exact Database.stageOf_lock _ other
    have hlocks' : db'.locksOf client = [hashtext streamId] := by
      rw [← hdb, Database.locksOf_lock _ hlt]
      exact congrArg _ hlocks
    have hlength : db'.sessions.length = db.sessions.length := by
      rw [← hdb]
      exact List.length_modify ..
    have hevents : db'.events = db.events := by
      rw [← hdb]
    have hafter : db'.isCommitted client = false := by
      rw [Database.isCommitted, hstage]
      exact hbefore
    have hframe : Frame db db' client := by
      refine ⟨fun other hother => ?_, hlength.ge, ⟨[], by rw [hevents, List.append_nil], by simp⟩, hbefore, hafter, ?_,
        ?_, ?_, ⟨[], by rw [← hdb, List.append_nil], by simp⟩⟩
      · rw [← hdb, List.getElem?_modify]
        cases db.sessions[other]? with
        | none => rfl
        | some session => simp [hother.symm]
      all_goals rw [← hdb]
    have hstaged : Staged db' :=
      hinv.outbox.frame hframe (fun _ => .inr hrows) hevents (by rw [← hdb]) (by rw [← hdb])
    refine hframe.refines hinv (.inl (by rw [hg]; rfl)) (hlength ▸ hlt) hstaged
      (fun _ other hother hopen key hkey => ?_) ⟨⟨hlength ▸ hlt, hafter, ?_, ?_⟩, fun _ => ?_⟩
      fun other ho => (Option.some.inj ho).symm
    · rw [hlocks', List.mem_singleton] at hkey
      rw [hkey]
      exact hfree other (List.mem_range.mpr (Database.isOpen_lt hopen)) hother hopen
    · rw [Database.rowsOf, hevents]
      exact hrows
    · rw [← hdb]
      exact houtbox
    · rw [hlocks']
      exact List.mem_cons_self
  · cases hdb

omit [JsRuntime] [RequestDigest] in
/-- A session that has written nothing sees what is committed. -/
theorem Database.seenRows_of_rowsOf {db : Database} (hrows : db.rowsOf client = []) (streamId : String) :
    db.seenRows client streamId = db.committedRows streamId := by
  refine List.filter_congr fun row hrow => ?_
  have hother : (row.transaction == client) = false := by
    by_contra hown
    exact List.filter_eq_nil_iff.mp hrows row hrow (by simpa using hown)
  rw [hother, Bool.or_false]

omit [JsRuntime] [RequestDigest] in
theorem Refines.currentVersion {db : Database} {s : Store} {gs : Nat → PgGhost} (h : Refines hashtext db s gs)
    (hrows : db.rowsOf client = []) : db.currentVersion client streamId = (s.stream streamId).length := by
  have hversions : (db.seenRows client streamId).map (fun row => row.event.streamVersion) =
      List.range' 1 (s.stream streamId).length := by
    rw [Database.seenRows_of_rowsOf hrows, ← Numbered.iff_map_eq.mp (h.numbered streamId)]
    calc (db.committedRows streamId).map (fun row => row.event.streamVersion)
        = (db.committed streamId).map DomainEvent.streamVersion := by rw [Database.committed, List.map_map]; rfl
      _ = (s.stream streamId).map DomainEvent.streamVersion := by rw [h.streams, List.map_map]; rfl
  rw [Database.currentVersion, hversions]
  refine Nat.le_antisymm (List.max_le_of_forall_le _ _ fun v hv => ?_) ?_
  · rw [List.mem_range'_1] at hv
    omega
  · cases hlength : (s.stream streamId).length with
    | zero => exact Nat.zero_le _
    | succ n => exact List.le_max_of_le (List.mem_range'_1.mpr ⟨by omega, by omega⟩) (Nat.le_refl (n + 1))

theorem wp_selectVersion {events : List DomainEvent} {expectedVersion : Nat} :
    (pgSimulation hashtext reports admits).wp q (.call (.append streamId events expectedVersion))
      (PgCall.send (.selectVersion client streamId)) none (.locked client streamId)
      (Proceeds reports client fun st' g' currentVersion =>
        if currentVersion = expectedVersion then st' = none ∧ g' = .writing client streamId currentVersion [] []
        else GivesUp reports client st' g' (.wrongExpectedVersion streamId expectedVersion currentVersion)) := by
  refine wp_statement (.selectVersion client streamId) (.locked client streamId) rfl rfl (fun h => h.1.before)
    fun {i db s gs} hinv hg {a db'} hdb => ?_
  have hheld : Holds hashtext db s (.locked client streamId) := hg ▸ hinv.holds i
  obtain ⟨⟨hlt, hbefore, hrows, houtbox⟩, hlock⟩ := hheld
  rw [Database.perform] at hdb
  split at hdb
  case isTrue hactive =>
    obtain ⟨rfl, rfl⟩ := Prod.mk.inj (Option.some.inj hdb)
    have hversion : db.currentVersion client streamId = (s.stream streamId).length := hinv.currentVersion hrows
    have hopen : db.isOpen client = true := by
      rw [Database.isOpen, hactive]
      rfl
    by_cases hexpected : db.currentVersion client streamId = expectedVersion
    · refine ⟨none, .writing client streamId (db.currentVersion client streamId) [] [], .stays _, rfl, ?_, ?_⟩
      · refine hinv.swap ⟨hlt, hbefore, by rw [hrows]; rfl, by rw [hrows, houtbox]; rfl,
          fun _ => ⟨hlock hopen, hversion, ?_⟩⟩ fun other ho => ?_
        · rw [hrows, List.append_nil, Database.seenRows_of_rowsOf hrows]
        · rw [hg]
          exact ho
      · rw [if_pos hexpected]
        exact ⟨rfl, rfl⟩
    · let error : Failure := .wrongExpectedVersion streamId expectedVersion (db.currentVersion client streamId)
      have hhappens : (pgSimulation hashtext reports admits).Happens i q
          (.call (.append streamId events expectedVersion)) s s fun r => ReportedError reports r ∨ r = .error error := by
        refine happens_exec ⟨_, .inr rfl⟩ fun r hr => ?_
        rcases hr with ⟨message, hm, rfl⟩ | rfl
        · exact .rejected message hm
        · have hperform : perform (.append streamId events expectedVersion) s = (.error error, s) := by
            have hne : expectedVersion ≠ (s.events.stream streamId).length := fun heq =>
              hexpected (hversion.trans heq.symm)
            rw [perform, EventStore.append]
            simp only [hne, ne_eq, not_false_eq_true, if_true, error, hversion]
            rfl
          have hexec : Exec (.reporting reports) (.append streamId events expectedVersion) s
              (perform (.append streamId events expectedVersion) s).1
              (perform (.append streamId events expectedVersion) s).2 := .performed (by simp)
          rwa [hperform] at hexec
      refine ⟨_, .givenUp client, .happens hhappens, rfl, hinv.swap hlt fun other ho => ?_, ?_⟩
      · rw [hg]
        exact ho
      · rw [if_neg hexpected]
        exact ⟨rfl, _, rfl, fun r hr => .inl hr, .inr rfl⟩
  · cases hdb

theorem wp_insertEvent {currentVersion : Nat} {written : List DomainEvent} {event persistedEvent : DomainEvent}
    (hpersisted : persistedEvent =
      { event with streamId := streamId, streamVersion := currentVersion + written.length + 1 }) :
    (pgSimulation hashtext reports admits).wp q (.call op) (PgCall.send (.insertEvent client persistedEvent)) none
      (.writing client streamId currentVersion written [])
      (Proceeds reports client fun st' g' eventPosition => st' = none ∧
        g' = .writing client streamId currentVersion (written ++ [event])
          [{ EventStore.toMessage streamId persistedEvent with eventPosition := some eventPosition }]) := by
  refine wp_statement (.insertEvent client _) (.writing client streamId currentVersion written []) rfl rfl
    (fun h => Writing.before h) fun {i db s gs} hinv hg {a db'} hdb =>
      ⟨none, .writing client streamId currentVersion (written ++ [event])
        [{ EventStore.toMessage streamId persistedEvent with eventPosition := some a }], .stays _, rfl, ?_, rfl, rfl⟩
  have hheld : Writing hashtext db s client streamId currentVersion written [] := by
    have hheld := hinv.holds i
    rwa [hg] at hheld
  rw [Database.perform] at hdb
  split at hdb
  case isTrue hguard =>
    obtain ⟨hactive, hunique⟩ := hguard
    obtain ⟨rfl, heq⟩ := Prod.mk.inj (Option.some.inj hdb)
    let row : EventRow := ⟨⟨persistedEvent, db.nextId⟩, client⟩
    have hevents : db'.events = db.events ++ [row] := by rw [← heq]
    have hsessions : db'.sessions = db.sessions := by rw [← heq]
    have hopen : db.isOpen client = true := by
      rw [Database.isOpen, hactive]
      rfl
    have hwrites := hheld.writes hopen
    have hframe : Frame db db' client := by
      refine ⟨fun _ _ => by rw [hsessions], by rw [hsessions], ⟨[row], hevents, fun row' hrow' => ?_⟩, hheld.before, ?_,
        ?_, ?_, ?_, ⟨[], by rw [← heq, List.append_nil], by simp⟩⟩
      · rw [List.mem_singleton.mp hrow']
      · rw [Database.isCommitted, Database.stageOf, hsessions]
        exact hheld.before
      all_goals rw [← heq]
    have hlocks : db'.locksOf client = db.locksOf client := by rw [Database.locksOf, Database.locksOf, hsessions]
    have hrowsOf : db'.rowsOf client = db.rowsOf client ++ [row] := by
      rw [Database.rowsOf, Database.rowsOf, hevents, List.filter_append]
      simp [row]
    have houtboxOf : db'.outboxOf client = db.outboxOf client := by rw [Database.outboxOf, Database.outboxOf, ← heq]
    have hseen : db'.seenRows client streamId = db.seenRows client streamId ++ [row] := by
      simp only [Database.seenRows, hframe.isCommitted]
      rw [hevents, List.filter_append]
      simp [row, hpersisted]
    have hlt' : client < db'.sessions.length := by
      rw [hsessions]
      exact hheld.lt
    have hstaged : Staged db' := heq ▸ hinv.outbox.insertEvent hactive hunique
    refine hframe.refines hinv (.inl (by rw [hg]; rfl)) hlt' hstaged (fun _ other hother hopen' key hkey hkey' => ?_)
      ⟨hlt', hframe.after, ?_, ?_, fun _ => ⟨?_, hwrites.version, ?_⟩⟩ fun other ho => (Option.some.inj ho).symm
    · rw [hlocks] at hkey
      exact hother (hinv.locks hopen' hopen hkey' hkey)
    · rw [hrowsOf, List.map_append, hheld.rows, EventStore.renumber, EventStore.renumber, List.mapIdx_append,
        List.map_append]
      simp [row, hpersisted, DomainEvent.under]
    · rw [hrowsOf, houtboxOf, List.map_append, hheld.messages, List.append_nil]
      simp [row, hpersisted, EventRow.message]
    · rw [hlocks]
      exact hwrites.lock
    · rw [hseen, hwrites.seen, hframe.committedRows, hrowsOf, List.append_assoc]
  · cases hdb

theorem wp_insertOutbox {currentVersion : Nat} {written : List DomainEvent} {message : OutboxMessage} :
    (pgSimulation hashtext reports admits).wp q (.call op) (PgCall.send (.insertOutbox client message)) none
      (.writing client streamId currentVersion written [message])
      (Proceeds reports client fun st' g' _ =>
        st' = none ∧ g' = .writing client streamId currentVersion written []) := by
  refine wp_statement (.insertOutbox client message) (.writing client streamId currentVersion written [message]) rfl rfl
    (fun h => Writing.before h) fun {i db s gs} hinv hg {a db'} hdb =>
      ⟨none, .writing client streamId currentVersion written [], .stays _, rfl, ?_, rfl, rfl⟩
  have hheld : Writing hashtext db s client streamId currentVersion written [message] := by
    have hheld := hinv.holds i
    rwa [hg] at hheld
  rw [Database.perform] at hdb
  split at hdb
  · cases hdb
  case isFalse hguard =>
    have hactive : db.stageOf client = some .active := by
      by_contra hne
      exact hguard (.inl hne)
    have hunknown : ¬ (db.outbox.any fun row =>
        row.2.id == message.id && (db.isCommitted row.1 || row.1 == client)) = true := by
      intro hany
      obtain ⟨row, hrow, hknown⟩ := List.any_eq_true.mp hany
      simp only [Bool.and_eq_true, beq_iff_eq, Bool.or_eq_true] at hknown
      exact hinv.outbox.unknown hactive hheld.messages hrow hknown.2 hknown.1
    rw [if_neg hunknown] at hdb
    obtain ⟨-, rfl⟩ := Prod.mk.inj (Option.some.inj hdb)
    have hframe : Frame db { db with outbox := db.outbox ++ [(client, message)] } client :=
      ⟨fun _ _ => rfl, Nat.le_refl _, ⟨[], (List.append_nil _).symm, by simp⟩, hheld.before, hheld.before,
        rfl, rfl, rfl, ⟨[(client, message)], rfl, by simp⟩⟩
    have houtboxOf : ({ db with outbox := db.outbox ++ [(client, message)] } : Database).outboxOf client =
        db.outboxOf client ++ [message] := by
      rw [Database.outboxOf, Database.outboxOf, List.filter_append]
      simp
    refine hframe.refines hinv (.inl (by rw [hg]; rfl)) hheld.lt
      (hinv.outbox.insertOutbox hheld.lt hheld.before message)
      (fun hopen' other hother ho key hkey hkey' => ?_)
      ⟨hheld.lt, hheld.before, hheld.rows, ?_,
        fun h => ⟨(hheld.writes h).lock, (hheld.writes h).version, (hheld.writes h).seen⟩⟩
      fun other ho => (Option.some.inj ho).symm
    · exact hother (hinv.locks ho hopen' hkey' hkey)
    · rw [houtboxOf, List.append_nil]
      exact hheld.messages

/-- The loop, by induction on what is left of it. -/
theorem wp_insertEvents {currentVersion index : Nat} (written : List DomainEvent) {events : List DomainEvent}
    (hindex : index = written.length) :
    (pgSimulation hashtext reports admits).wp q (.call op)
      (PostgresEventStore.insertEvents client streamId currentVersion index events)
      none (.writing client streamId currentVersion written [])
      (Proceeds reports client fun st' g' _ =>
        st' = none ∧ g' = .writing client streamId currentVersion (written ++ events) []) := by
  induction events generalizing written index with
  | nil => exact ⟨rfl, by rw [List.append_nil]⟩
  | cons event events ih =>
    subst hindex
    rw [PostgresEventStore.insertEvents]
    refine wp_proceeds (wp_insertEvent rfl) fun st' g' eventPosition hr => ?_
    obtain ⟨rfl, rfl⟩ := hr
    refine wp_proceeds wp_insertOutbox fun st' g' _ hr => ?_
    obtain ⟨rfl, rfl⟩ := hr
    have hrest := ih (written ++ [event]) (List.length_append ..).symm
    rwa [List.append_assoc] at hrest

/-! ## The append -/

omit [JsRuntime] [RequestDigest] in
theorem perform_append {s : Store} {events : List DomainEvent} {expectedVersion : Nat}
    (h : expectedVersion = (s.stream streamId).length) :
    perform (.append streamId events expectedVersion) s = (.ok (), s.write streamId events) := by
  rw [perform, EventStore.append]
  have hsame : ¬ expectedVersion ≠ (s.events.stream streamId).length := fun hne => hne h
  simp only [hsame, if_false]
  rfl

theorem wp_commit {events : List DomainEvent} {expectedVersion : Nat} :
    (pgSimulation hashtext reports admits).wp q (.call (.append streamId events expectedVersion))
      (PgCall.send (.commit client)) none (.writing client streamId expectedVersion events [])
      (Proceeds reports client fun st' g' _ => ∃ answers, st' = some answers ∧ answers (.ok ()) ∧ g' = .idle) := by
  refine wp_send fun i db s gs hinv hg r db' hexec => ?_
  have hheld : Writing hashtext db s client streamId expectedVersion events [] := by
    have hheld := hinv.holds i
    rwa [hg] at hheld
  have hcommits : ∀ {a db'}, db.perform hashtext (.commit client) = some (a, db') →
      db.stageOf client = some .active ∧ db' = db.setStage client fun _ => .committed := by
    intro a db' hdb
    rw [Database.perform] at hdb
    split at hdb
    case isTrue hactive =>
      exact ⟨hactive, (Prod.mk.inj (Option.some.inj hdb)).2.symm⟩
    · cases hdb
  -- the version that was checked is still the version of the stream
  have hperform : db.stageOf client = some .active →
      perform (.append streamId events expectedVersion) s = (.ok (), s.write streamId events) := by
    intro hactive
    refine perform_append (hheld.writes ?_).version
    rw [Database.isOpen, hactive]
    rfl
  have hgives : ∀ {message}, reports message → GivesUp reports client
      (some (ReportedError reports : Except Failure Unit → Prop)) (.givenUp client) (.store message) :=
    fun {message} hm => ⟨rfl, _, rfl, fun _ h => h, message, hm, rfl⟩
  cases hexec with
  | performed _ hdb =>
    obtain ⟨hactive, rfl⟩ := hcommits hdb
    exact ⟨_, _, .idle, .happens (happens_performed (by simp) (hperform hactive)), hinv.commit hg hactive (.inl rfl), _,
      rfl, rfl, rfl⟩
  | refused message hm =>
    have hown : (gs i).client = some client := by
      rw [hg]
      rfl
    exact ⟨s, _, _, .happens (happens_rejected hm), hinv.refuse rfl hown hheld.before, hgives hm⟩
  | unanswered message hm hdb =>
    obtain ⟨hactive, rfl⟩ := hcommits hdb
    exact ⟨_, _, _, .happens (happens_ambiguous hm (congrArg Prod.snd (hperform hactive))),
      hinv.commit hg hactive (.inr rfl), hgives hm⟩

theorem wp_connect {streamId : String} {events : List DomainEvent} {expectedVersion : Nat} :
    (pgSimulation hashtext reports admits).wp q (.call (.append streamId events expectedVersion))
      (PgCall.send .connect) none .idle fun st' g' r => match r with
        | .ok client => st' = none ∧ g' = .connected client
        | .error error => (pgSimulation hashtext reports admits).Ends (.call (.append streamId events expectedVersion))
          st' g' (.error error) := by
  refine wp_send fun i db s gs hinv hg r db' hexec => ?_
  have hidle : gs i = .idle := hg
  have hconnects : ∀ {a : Nat} {db'}, db.perform hashtext .connect = some (a, db') →
      a = db.sessions.length ∧ ∀ {g : PgGhost}, g = .idle ∨ g = .connected a →
        Refines hashtext db' s (Function.update gs i g) := by
    intro a db' hdb
    obtain ⟨rfl, heq⟩ := Prod.mk.inj (Option.some.inj hdb)
    refine ⟨rfl, fun {g} hg => ?_⟩
    have hsessions : db'.sessions = db.sessions ++ [⟨.idle, []⟩] := by rw [← heq]
    have hlt : db.sessions.length < db'.sessions.length := by rw [hsessions]; simp
    have hnew : db'.isCommitted db.sessions.length = false := by
      simp [Database.isCommitted, Database.stageOf, hsessions]
    have hframe : Frame db db' db.sessions.length := by
      refine ⟨fun other hother => ?_, Nat.le_of_lt hlt, ⟨[], ?_, by simp⟩,
        by simp [Database.isCommitted, Database.stageOf], hnew, ?_, ?_, ?_,
        ⟨[], by rw [← heq, List.append_nil], by simp⟩⟩
      · rw [hsessions]
        rcases Nat.lt_or_gt_of_ne hother with hlt | hgt
        · rw [List.getElem?_append_left hlt]
        · rw [List.getElem?_eq_none (by simp; omega), List.getElem?_eq_none (by omega)]
      · rw [← heq, List.append_nil]
      all_goals rw [← heq]
    have hlocks : db'.locksOf db.sessions.length = [] := by simp [Database.locksOf, hsessions]
    have hrows : db'.rowsOf db.sessions.length = [] := by
      rw [← heq]
      refine List.filter_eq_nil_iff.mpr fun row hrow => ?_
      have := hinv.fresh row hrow
      simp only [beq_iff_eq]
      omega
    have houtbox : db'.outboxOf db.sessions.length = [] := by
      rw [← heq]
      refine List.map_eq_nil_iff.mpr (List.filter_eq_nil_iff.mpr fun row hrow => ?_)
      have := hinv.outbox.fresh row hrow
      simp only [beq_iff_eq]
      omega
    have hstaged : Staged db' := by
      refine hinv.outbox.frame hframe (fun hopen => ?_) (by rw [← heq]) (by rw [← heq]) (by rw [← heq])
      simp [Database.isOpen, Database.stageOf, hsessions, SessionStage.isOpen] at hopen
    refine hframe.refines hinv (.inr rfl) hlt hstaged (fun _ other _ _ key hkey => ?_) ?_ fun other ho => ?_
    · rw [hlocks] at hkey
      cases hkey
    · rcases hg with rfl | rfl
      · trivial
      · exact ⟨⟨hlt, hnew, hrows, houtbox⟩, hlocks⟩
    · rcases hg with rfl | rfl
      · cases ho
      · exact (Option.some.inj ho).symm
  have hends : ∀ {message}, reports message →
      (pgSimulation hashtext reports admits).Ends (.call (.append streamId events expectedVersion))
        (some (ReportedError reports)) .idle (.error (.store message)) := fun {message} hm =>
    ⟨rfl, _, _, rfl, ⟨message, hm, rfl⟩, rfl⟩
  cases hexec with
  | performed _ hdb =>
    obtain ⟨-, hnext⟩ := hconnects hdb
    exact ⟨s, none, _, .stays _, hnext (.inr rfl), rfl, rfl⟩
  | refused message hm =>
    refine ⟨s, _, .idle, .happens (happens_rejected hm), ?_, hends hm⟩
    rw [← hidle, Function.update_eq_self]
    exact hinv
  | unanswered message hm hdb =>
    obtain ⟨-, hnext⟩ := hconnects hdb
    exact ⟨s, _, .idle, .happens (happens_rejected hm), hnext (.inl rfl), hends hm⟩

/-- The transaction, which happens at its `COMMIT` or where it gives up. -/
theorem wp_transaction {events : List DomainEvent} {expectedVersion : Nat} :
    (pgSimulation hashtext reports admits).wp q (.call (.append streamId events expectedVersion)) (do
        PgCall.send (.begin client)
        PgCall.send (.lockStream client streamId)
        let currentVersion : Nat ← PgCall.send (.selectVersion client streamId)
        if currentVersion ≠ expectedVersion then
          throw (.wrongExpectedVersion streamId expectedVersion currentVersion)
        else do
          PostgresEventStore.insertEvents client streamId currentVersion 0 events
          PgCall.send (.commit client) : PgTask Unit) none (.connected client)
      (Proceeds reports client fun st' g' _ => ∃ answers, st' = some answers ∧ answers (.ok ()) ∧ g' = .idle) := by
  refine wp_proceeds wp_begin fun st' g' _ hr => ?_
  obtain ⟨rfl, rfl⟩ := hr
  refine wp_proceeds wp_lockStream fun st' g' _ hr => ?_
  obtain ⟨rfl, rfl⟩ := hr
  refine wp_proceeds wp_selectVersion fun st' g' currentVersion hr => ?_
  by_cases hexpected : currentVersion = expectedVersion
  · rw [if_pos hexpected] at hr
    obtain ⟨rfl, rfl⟩ := hr
    subst hexpected
    rw [if_neg (fun hne => hne rfl)]
    refine wp_proceeds (wp_insertEvents [] rfl) fun st' g' _ hr => ?_
    obtain ⟨rfl, rfl⟩ := hr
    exact wp_commit
  · rw [if_neg hexpected] at hr
    rw [if_pos hexpected]
    exact hr

theorem implements_append (streamId : String) (events : List DomainEvent) (expectedVersion : Nat) :
    (pgSimulation hashtext reports admits).Implements q (.call (.append streamId events expectedVersion)) := by
  refine Simulation.wp_bind (Simulation.wp_mono (fun st' g' r hr => ?_) wp_connect)
  cases r with
  | error error => exact hr
  | ok client =>
    obtain ⟨rfl, rfl⟩ := hr
    refine Simulation.wp_tryCatch (Simulation.wp_mono (fun st' g' r hr => ?_) wp_transaction)
    cases r with
    | ok _ =>
      obtain ⟨answers, rfl, hok, rfl⟩ := hr
      exact ⟨rfl, answers, _, rfl, hok, rfl⟩
    | error error => exact wp_giveUp hr

end

end CoreBanking
