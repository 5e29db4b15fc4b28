import CoreBanking.PostgresRefinement

/-!
# The methods of the Postgres stores

Every method of the Postgres stores implements the call of the model: it keeps
what stands for the model's store, and happens at one of its statements.
-/

namespace CoreBanking

/-- Any call may be rejected, after it has taken effect or without, with one of these messages. -/
def FaultModel.reporting (reports : String → Prop) : FaultModel :=
  ⟨fun _ message => reports message, fun _ message => reports message, False⟩

section
variable [JsRuntime] [RequestDigest] (hashtext : String → Int) (reports : String → Prop)
  (admits : BankRequest → Prop)

/-- The bank of the model that the bank on Postgres is held against. -/
abbrev reportingBank : Service BankRequest (Option Response) :=
  bank (.reporting reports) admits fun _ _ _ => True

def pgSimulation : Simulation (reportingBank reports admits).system (postgresBank hashtext reports admits)
    StoreMethod.Result Store PgGhost where
  abstract := StoreMethod.inMemory
  concrete := StoreMethod.postgres
  view := World.store
  idle := .idle
  inv db s gs := Refines hashtext db s gs
  like := StoreMethod.Like
  uses _ m := m.Proper

end

section
variable [JsRuntime] [RequestDigest] {hashtext : String → Int} {reports : String → Prop}
  {admits : BankRequest → Prop}

variable {q : BankRequest} {i : Nat} {db db' : Database} {s s' : Store} {gs : Nat → PgGhost}

/-! ## When a call happens -/

def ReportedError {α : Type} (reports : String → Prop) (r : Except Failure α) : Prop :=
  ∃ message, reports message ∧ r = .error (.store message)

theorem happens_exec {op : StoreOp} {answers : Except Failure op.Result → Prop} (hsome : ∃ r, answers r)
    (h : ∀ r, answers r → Exec (.reporting reports) op s r s') :
    (pgSimulation hashtext reports admits).Happens i q (.call op) s s' answers := by
  refine ⟨hsome, fun r hr w hw => ⟨⟨s', w.trace ++ [⟨i, q, op, r⟩]⟩, rfl, r, _, ⟨trivial, ?_, rfl⟩, rfl, rfl⟩⟩
  have hw : w.store = s := hw
  rw [hw]
  exact h r hr

theorem happens_rejected {op : StoreOp} {message : String} (hm : reports message) :
    (pgSimulation hashtext reports admits).Happens i q (.call op) s s (ReportedError reports) := by
  refine happens_exec ⟨_, message, hm, rfl⟩ ?_
  rintro r ⟨message', hm', rfl⟩
  exact .rejected message' hm'

theorem happens_ambiguous {op : StoreOp} {message : String} (hm : reports message) (h : (perform op s).2 = s') :
    (pgSimulation hashtext reports admits).Happens i q (.call op) s s' (ReportedError reports) := by
  refine happens_exec ⟨_, message, hm, rfl⟩ ?_
  rintro r ⟨message', hm', rfl⟩
  exact h ▸ .ambiguous message' hm'

theorem happens_performed {op : StoreOp} {r : Except Failure op.Result} (hop : op ≠ .randomUUID ∧ op ≠ .now)
    (h : perform op s = (r, s')) : (pgSimulation hashtext reports admits).Happens i q (.call op) s s' (· = r) := by
  refine happens_exec ⟨_, rfl⟩ fun r' hr' => ?_
  have hexec : Exec (.reporting reports) op s (perform op s).1 (perform op s).2 := .performed hop
  rw [h] at hexec
  exact hr' ▸ hexec

/-! ## Statements -/

omit [JsRuntime] [RequestDigest] in
/-- A method may let go of its session, or take up a record it has seen. -/
theorem Refines.swap (h : Refines hashtext db s gs) {g : PgGhost} (hholds : Holds hashtext db s g)
    (hclient : ∀ client, g.client = some client → (gs i).client = some client) :
    Refines hashtext db s (Function.update gs i g) := by
  have hold : ∀ {j client}, (Function.update gs i g j).client = some client → (gs j).client = some client := by
    intro j client hj
    by_cases hji : j = i
    · rw [hji, Function.update_self] at hj
      exact hji ▸ hclient client hj
    · rwa [Function.update_of_ne hji] at hj
  exact
    { h with
      owner := fun hj hk => h.owner (hold hj) (hold hk)
      holds := fun j => by
        by_cases hji : j = i
        · rw [hji, Function.update_self]
          exact hholds
        · rw [Function.update_of_ne hji]
          exact h.holds j }

/-- Whatever the server closes before a statement. -/
theorem wp_send {m : StoreMethod} {op : PgCall} {st : (pgSimulation hashtext reports admits).Status m} {g : PgGhost}
    {Q : (pgSimulation hashtext reports admits).Status m → PgGhost → Except Failure op.Result → Prop}
    (h : ∀ i db s gs, Refines hashtext db s gs → gs i = g → ∀ r db', PgExec hashtext reports op db r db' →
      ∃ s' st' g', (pgSimulation hashtext reports admits).Advances i q m s st s' st' ∧
        Refines hashtext db' s' (Function.update gs i g') ∧ Q st' g' r) :
    (pgSimulation hashtext reports admits).wp q m (PgCall.send op) st g Q :=
  Simulation.wp_call fun i db s gs hinv hg r db' ⟨clients, hexec⟩ =>
    h i (db.close clients) s gs (Refines.close hinv clients) hg r db' hexec

/-- The call has happened, and could have answered what the method has been told. -/
def Told (op : StoreOp) {α : Type} (good : α → op.Result → Prop) (st : Option (Except Failure op.Result → Prop))
    (g : PgGhost) (r : Except Failure α) : Prop :=
  g = .idle ∧ ∃ answers, st = some answers ∧ match r with
    | .ok a => ∃ a', answers (.ok a') ∧ good a a'
    | .error e => answers (.error e)

theorem wp_one (op : StoreOp) (call : PgCall) (good : call.Result → op.Result → Prop)
    (hop : op ≠ .randomUUID ∧ op ≠ .now) (hrefuse : ∀ db : Database, db.refuse call = db)
    (hperform : ∀ {db s gs}, Refines hashtext db s gs → ∀ {a db'}, db.perform hashtext call = some (a, db') →
      ∃ a', (perform op s).1 = .ok a' ∧ good a a' ∧ Refines hashtext db' (perform op s).2 gs)
    (hcall : call ≠ .randomUUID ∧ call ≠ .now) :
    (pgSimulation hashtext reports admits).wp q (.call op) (PgCall.send call) none .idle (Told op good) := by
  refine wp_send fun i db s gs hinv hg r db' hexec => ?_
  have hstays : Function.update gs i .idle = gs := (show gs i = .idle from hg) ▸ Function.update_eq_self i gs
  cases hexec with
  | randomUUID => exact absurd rfl hcall.1
  | now => exact absurd rfl hcall.2
  | performed _ hdb =>
    obtain ⟨a', ha', hgood, hnext⟩ := hperform hinv hdb
    exact ⟨_, _, .idle, .happens (happens_performed hop rfl), hstays.symm ▸ hnext, rfl, _, rfl, a', ha'.symm, hgood⟩
  | refused message hm =>
    rw [hrefuse]
    exact ⟨s, _, .idle, .happens (happens_rejected hm), hstays.symm ▸ hinv, rfl, _, rfl, message, hm, rfl⟩
  | unanswered message hm hdb =>
    obtain ⟨a', -, -, hnext⟩ := hperform hinv hdb
    exact ⟨_, _, .idle, .happens (happens_ambiguous hm rfl), hstays.symm ▸ hnext, rfl, _, rfl, message, hm, rfl⟩

/-- The answer of the one statement is the answer of the call. -/
theorem implements_of_one {op : StoreOp} (good : op.Result → op.Result → Prop)
    (hgood : ∀ a a', good a a' → StoreMethod.Like (.call op) a a')
    (h : (pgSimulation hashtext reports admits).wp q (.call op) (postgresCall op) none .idle (Told op good)) :
    (pgSimulation hashtext reports admits).Implements q (.call op) := by
  refine Simulation.wp_mono (fun st g r hr => ?_) h
  obtain ⟨hg, answers, hst, hr⟩ := hr
  cases r with
  | ok a =>
    obtain ⟨a', ha', h⟩ := hr
    exact ⟨hg, answers, .ok a', hst, ha', hgood a a' h⟩
  | error e => exact ⟨hg, answers, .error e, hst, hr, rfl⟩

/-! ## Records -/

section
omit [JsRuntime] [RequestDigest]

/-- Tables that are written by one statement each, and in which no record is lost. -/
theorem Refines.withTables (h : Refines hashtext db s gs) {rows : List Snapshot}
    {snapshots : OrderedMap String Snapshot} {transactions transactions' : TransactionRecords}
    {idempotency idempotency' : IdempotencyRecords}
    (hsnapshots : ∀ streamId,
      ({ db with snapshots := rows } : Database).latestSnapshot streamId = snapshots.get streamId)
    (htransactions : transactions = transactions') (hidempotency : idempotency = idempotency')
    (hkeep : ∀ x, s.transactions.get x ≠ none → transactions'.get x ≠ none)
    (hkeep' : ∀ k, s.idempotency.get k ≠ none → idempotency'.get k ≠ none) :
    Refines hashtext { db with snapshots := rows, transactions := transactions, idempotency := idempotency }
      { s with snapshots := snapshots, transactions := transactions', idempotency := idempotency' } gs where
  numbered := h.numbered
  streams := h.streams
  log := h.log
  outbox := h.outbox.shrink (Nat.le_refl _) (fun _ => rfl) (fun _ _ ho => ho) rfl (Nat.le_refl _) rfl
  snapshots := hsnapshots
  transactions := htransactions
  idempotency := hidempotency
  fresh := h.fresh
  locks := h.locks
  owner := h.owner
  holds j := by
    have hholds := h.holds j
    cases hg : gs j with
    | reserved x =>
      rw [hg] at hholds
      exact hkeep x hholds
    | keyed k =>
      rw [hg] at hholds
      exact hkeep' k hholds
    | connected client | locked client streamId =>
      rw [hg] at hholds
      exact ⟨⟨hholds.1.lt, hholds.1.before, hholds.1.rows, hholds.1.outbox⟩, hholds.2⟩
    | writing client streamId currentVersion written pending =>
      rw [hg] at hholds
      have hwriting : Writing hashtext db s client streamId currentVersion written pending := hholds
      refine ⟨hwriting.lt, hwriting.before, hwriting.rows, hwriting.messages, fun hopen => ?_⟩
      have hwrites := hwriting.writes hopen
      exact ⟨hwrites.lock, hwrites.version, hwrites.seen⟩
    | idle => trivial
    | givenUp client =>
      rw [hg] at hholds
      exact hholds

theorem Refines.withTransactions (h : Refines hashtext db s gs) {records : TransactionRecords}
    (hkeep : ∀ x, s.transactions.get x ≠ none → records.get x ≠ none) :
    Refines hashtext { db with transactions := records } { s with transactions := records } gs :=
  h.withTables h.snapshots rfl h.idempotency hkeep fun _ hk => hk

theorem Refines.withIdempotency (h : Refines hashtext db s gs) {records : IdempotencyRecords}
    (hkeep : ∀ k, s.idempotency.get k ≠ none → records.get k ≠ none) :
    Refines hashtext { db with idempotency := records } { s with idempotency := records } gs :=
  h.withTables h.snapshots h.transactions rfl (fun _ hx => hx) hkeep

theorem Refines.modifyTransactions (h : Refines hashtext db s gs) (x : String)
    (f : TransactionRecord → TransactionRecord) :
    Refines hashtext { db with transactions := db.transactions.modify x f }
      { s with transactions := s.transactions.modify x f } gs := by
  rw [h.transactions]
  exact h.withTransactions fun y hy => s.transactions.get_modify_ne_none x f hy

theorem Refines.modifyIdempotency (h : Refines hashtext db s gs) (k : String)
    (f : IdempotencyRecord → IdempotencyRecord) :
    Refines hashtext { db with idempotency := db.idempotency.modify k f }
      { s with idempotency := s.idempotency.modify k f } gs := by
  rw [h.idempotency]
  exact h.withIdempotency fun k' hk => s.idempotency.get_modify_ne_none k f hk

end

/-- A statement that updates the database as the call updates the stores. -/
theorem wp_update (op : StoreOp) (call : PgCall) {a : call.Result} {a' : op.Result} {update : Database → Database}
    {update' : Store → Store} (hop : op ≠ .randomUUID ∧ op ≠ .now) (hcall : call ≠ .randomUUID ∧ call ≠ .now)
    (hrefuse : ∀ db : Database, db.refuse call = db)
    (hdb : ∀ db : Database, db.perform hashtext call = some (a, update db))
    (hs : ∀ s, perform op s = (.ok a', update' s))
    (hupdate : ∀ {db s gs}, Refines hashtext db s gs → Refines hashtext (update db) (update' s) gs) :
    (pgSimulation hashtext reports admits).wp q (.call op) (PgCall.send call) none .idle
      (Told op fun _ b' => b' = a') := by
  refine wp_one op call (fun _ b' => b' = a') hop hrefuse (fun {db s gs} h {b db'} hperform => ?_) hcall
  rw [hdb] at hperform
  obtain ⟨-, rfl⟩ := Prod.mk.inj (Option.some.inj hperform)
  rw [hs]
  exact ⟨a', rfl, rfl, hupdate h⟩

/-! ## The runtime -/

section
omit [JsRuntime] [RequestDigest]

/-- The database has no part in what the runtime answers. -/
theorem PgExec.runtime {call : PgCall} {db db' : Database} {r : Except Failure call.Result}
    (h : PgExec hashtext reports call db r db') (hcall : call = .randomUUID ∨ call = .now) :
    db' = db ∧ ((∃ a, r = .ok a) ∨ ∃ message, reports message ∧ r = .error (.store message)) := by
  cases h with
  | randomUUID uuid => exact ⟨rfl, .inl ⟨uuid, rfl⟩⟩
  | now time => exact ⟨rfl, .inl ⟨time, rfl⟩⟩
  | performed hop => exact absurd hcall (not_or.mpr hop)
  | refused message hm => rcases hcall with rfl | rfl <;> exact ⟨rfl, .inr ⟨message, hm, rfl⟩⟩
  | unanswered message hm hdb =>
    rcases hcall with rfl | rfl
    all_goals
      obtain ⟨-, rfl⟩ := Prod.mk.inj (Option.some.inj hdb)
      exact ⟨rfl, .inr ⟨message, hm, rfl⟩⟩

end

/-- A call that changes nothing may happen with the answer the method has got. -/
theorem Refines.answered {i : Nat} {db : Database} {s : Store} {gs : Nat → PgGhost} (h : Refines hashtext db s gs)
    (hg : gs i = .idle) {op : StoreOp} (hlike : ∀ r, (pgSimulation hashtext reports admits).Alike (.call op) r r)
    {r : Except Failure op.Result} (hexec : Exec (.reporting reports) op s r s) :
    ∃ s' st' g', (pgSimulation hashtext reports admits).Advances i q (.call op) s none s' st' ∧
      Refines hashtext db s' (Function.update gs i g') ∧
      (pgSimulation hashtext reports admits).Ends (.call op) st' g' r := by
  refine ⟨s, some (· = r), .idle, .happens (happens_exec ⟨r, rfl⟩ ?_), ?_, rfl, _, r, rfl, rfl, hlike r⟩
  · rintro _ rfl
    exact hexec
  · rw [← hg, Function.update_eq_self]
    exact h

theorem implements_randomUUID : (pgSimulation hashtext reports admits).Implements q (.call .randomUUID) := by
  refine Simulation.wp_mono (fun _ _ _ h => h) (wp_send fun i db s gs hinv hg r db' hexec => ?_)
  obtain ⟨rfl, ⟨uuid, rfl⟩ | ⟨message, hm, rfl⟩⟩ := hexec.runtime (.inl rfl)
  · exact hinv.answered hg (fun r => by cases r <;> rfl) (.randomUUID uuid)
  · exact hinv.answered hg (fun r => by cases r <;> rfl) (.rejected message hm)

theorem implements_now : (pgSimulation hashtext reports admits).Implements q (.call .now) := by
  refine Simulation.wp_mono (fun _ _ _ h => h) (wp_send fun i db s gs hinv hg r db' hexec => ?_)
  obtain ⟨rfl, ⟨time, rfl⟩ | ⟨message, hm, rfl⟩⟩ := hexec.runtime (.inr rfl)
  · exact hinv.answered hg (fun r => by cases r <;> rfl) (.now time)
  · exact hinv.answered hg (fun r => by cases r <;> rfl) (.rejected message hm)

/-! ## Reading -/

theorem implements_readStream (streamId : String) (fromVersion : Nat) :
    (pgSimulation hashtext reports admits).Implements q (.call (.readStream streamId fromVersion)) := by
  refine implements_of_one (fun es es' => es.map (DomainEvent.under "") = es'.map (DomainEvent.under ""))
    (fun _ _ h => h) ?_
  refine wp_one (.readStream streamId fromVersion) (.selectEvents streamId fromVersion) _ (by simp) (fun _ => rfl)
    (fun {db s gs} h {a db'} hdb => ?_) (by simp)
  obtain ⟨rfl, rfl⟩ := Prod.mk.inj (Option.some.inj hdb)
  refine ⟨_, rfl, ?_, h⟩
  have hsorted : ((db.committed streamId).filter fun event => decide (fromVersion < event.streamVersion)).Pairwise
      fun a b => a.streamVersion ≤ b.streamVersion := by
    refine List.Pairwise.filter _ ?_
    rw [h.streams, List.pairwise_map]
    exact (h.numbered streamId).pairwise_lt.imp Nat.le_of_lt
  rw [StableSort.sort_of_pairwise hsorted, h.streams, List.filter_map, List.map_map]
  rfl

theorem implements_getLatestSnapshot (streamId : String) :
    (pgSimulation hashtext reports admits).Implements q (.call (.getLatestSnapshot streamId)) := by
  refine implements_of_one Eq (fun _ _ h => h) ?_
  refine wp_one (.getLatestSnapshot streamId) (.selectSnapshot streamId) _ (by simp) (fun _ => rfl)
    (fun {db s gs} h {a db'} hdb => ?_) (by simp)
  obtain ⟨rfl, rfl⟩ := Prod.mk.inj (Option.some.inj hdb)
  exact ⟨_, rfl, h.snapshots streamId, h⟩

/-! ## Marking -/

theorem implements_markTransactionPending (x : String) :
    (pgSimulation hashtext reports admits).Implements q (.call (.markTransactionPending x)) :=
  implements_of_one _ (fun _ _ _ => rfl)
    (wp_update (.markTransactionPending x) (.updateTransactionPending x) (by simp) (by simp)
      (fun _ => rfl) (fun _ => rfl) (fun _ => rfl) fun h => h.modifyTransactions _ _)

theorem implements_markTransactionCompleted (x : String) :
    (pgSimulation hashtext reports admits).Implements q (.call (.markTransactionCompleted x)) :=
  implements_of_one _ (fun _ _ _ => rfl)
    (wp_update (.markTransactionCompleted x) (.updateTransactionCompleted x) (by simp) (by simp)
      (fun _ => rfl) (fun _ => rfl) (fun _ => rfl) fun h => h.modifyTransactions _ _)

theorem implements_markTransactionFailed (x message : String) (status : TransactionRecordStatus) :
    (pgSimulation hashtext reports admits).Implements q (.call (.markTransactionFailed x message status)) :=
  implements_of_one _ (fun _ _ _ => rfl)
    (wp_update (.markTransactionFailed x message status) (.updateTransactionFailed x message status)
      (by simp) (by simp) (fun _ => rfl) (fun _ => rfl) (fun _ => rfl) fun h => h.modifyTransactions _ _)

theorem implements_markIdempotencyCompleted (k : String) (response : Response) :
    (pgSimulation hashtext reports admits).Implements q (.call (.markIdempotencyCompleted k response)) :=
  implements_of_one _ (fun _ _ _ => rfl)
    (wp_update (.markIdempotencyCompleted k response) (.updateIdempotencyCompleted k response) (by simp)
      (by simp) (fun _ => rfl) (fun _ => rfl) (fun _ => rfl) fun h => h.modifyIdempotency _ _)

theorem implements_markIdempotencyFailed (k message : String) :
    (pgSimulation hashtext reports admits).Implements q (.call (.markIdempotencyFailed k message)) :=
  implements_of_one _ (fun _ _ _ => rfl)
    (wp_update (.markIdempotencyFailed k message) (.updateIdempotencyFailed k message) (by simp) (by simp)
      (fun _ => rfl) (fun _ => rfl) (fun _ => rfl) fun h => h.modifyIdempotency _ _)

/-! ## Reserving -/

/-- A method that inserts a record, or else reads the one that is there. -/
theorem implements_of_insert (op : StoreOp) (insert select : PgCall) (g : PgGhost)
    {k : insert.Result → PgTask op.Result} (k' : select.Result → op.Result) (hop : op ≠ .randomUUID ∧ op ≠ .now)
    (hcall : insert ≠ .randomUUID ∧ insert ≠ .now) (hcall' : select ≠ .randomUUID ∧ select ≠ .now)
    (hrefuse : ∀ db : Database, db.refuse insert = db ∧ db.refuse select = db) (hclient : g.client = none)
    (hmethod : postgresCall op = PgCall.send insert >>= k)
    (hlike : ∀ a a', a = a' → StoreMethod.Like (.call op) a a')
    (hinsert : ∀ {db s gs}, Refines hashtext db s gs → ∀ {a db'}, db.perform hashtext insert = some (a, db') →
      (∃ a', (perform op s).1 = .ok a' ∧ k a = pure a' ∧ Refines hashtext db' (perform op s).2 gs) ∨
      (db' = db ∧ Holds hashtext db s g ∧ k a = PgCall.send select >>= fun b => pure (k' b)))
    (hselect : ∀ {db s gs}, Refines hashtext db s gs → Holds hashtext db s g → ∀ {b db'},
      db.perform hashtext select = some (b, db') → db' = db ∧ perform op s = (.ok (k' b), s)) :
    (pgSimulation hashtext reports admits).Implements q (.call op) := by
  have hrejected : ∀ {message}, reports message → (pgSimulation hashtext reports admits).Ends (.call op)
      (some (ReportedError reports)) .idle (.error (.store message)) := fun {message} hm =>
    ⟨rfl, _, _, rfl, ⟨message, hm, rfl⟩, rfl⟩
  have hread : (pgSimulation hashtext reports admits).wp q (.call op)
      (PgCall.send select >>= fun b => pure (k' b)) none g
      ((pgSimulation hashtext reports admits).Ends (.call op)) := by
    apply Simulation.wp_bind
    refine wp_send fun i db s gs hinv hg r db' hexec => ?_
    have hidle : Refines hashtext db s (Function.update gs i .idle) := hinv.swap trivial fun _ h => by cases h
    have hholds : Holds hashtext db s g := hg ▸ hinv.holds i
    cases hexec with
    | randomUUID => exact absurd rfl hcall'.1
    | now => exact absurd rfl hcall'.2
    | performed _ hdb =>
      obtain ⟨rfl, hs⟩ := hselect hinv hholds hdb
      exact ⟨s, _, .idle, .happens (happens_performed hop hs), hidle, rfl, _, _, rfl, rfl, hlike _ _ rfl⟩
    | refused message hm =>
      rw [(hrefuse db).2]
      exact ⟨s, _, .idle, .happens (happens_rejected hm), hidle, hrejected hm⟩
    | unanswered message hm hdb =>
      obtain ⟨rfl, -⟩ := hselect hinv hholds hdb
      exact ⟨s, _, .idle, .happens (happens_rejected hm), hidle, hrejected hm⟩
  show (pgSimulation hashtext reports admits).wp q (.call op) (postgresCall op) none .idle _
  rw [hmethod]
  apply Simulation.wp_bind
  refine wp_send fun i db s gs hinv hg r db' hexec => ?_
  have hstays : Function.update gs i .idle = gs := (show gs i = .idle from hg) ▸ Function.update_eq_self i gs
  cases hexec with
  | randomUUID => exact absurd rfl hcall.1
  | now => exact absurd rfl hcall.2
  | performed _ hdb =>
    rcases hinsert hinv hdb with ⟨a', ha', hk, hnext⟩ | ⟨rfl, hholds, hk⟩
    · refine ⟨_, _, .idle, .happens (happens_performed hop rfl), hstays.symm ▸ hnext, ?_⟩
      show (pgSimulation hashtext reports admits).wp q (.call op) (k _) _ .idle _
      rw [hk]
      exact ⟨rfl, _, _, rfl, ha'.symm, hlike _ _ rfl⟩
    · refine ⟨s, none, g, .stays _, hinv.swap hholds fun client h => ?_, ?_⟩
      · rw [hclient] at h
        cases h
      · show (pgSimulation hashtext reports admits).wp q (.call op) (k _) _ g _
        rw [hk]
        exact hread
  | refused message hm =>
    rw [(hrefuse db).1]
    exact ⟨s, _, .idle, .happens (happens_rejected hm), hstays.symm ▸ hinv, hrejected hm⟩
  | unanswered message hm hdb =>
    rcases hinsert hinv hdb with ⟨a', -, -, hnext⟩ | ⟨rfl, -, -⟩
    · exact ⟨_, _, .idle, .happens (happens_ambiguous hm rfl), hstays.symm ▸ hnext, hrejected hm⟩
    · exact ⟨s, _, .idle, .happens (happens_rejected hm), hstays.symm ▸ hinv, hrejected hm⟩

omit [JsRuntime] [RequestDigest] in
/-- With a parsable amount the reservation is one insert, and the read that follows a record already there. -/
theorem postgresCall_reserveTransaction {input : ReserveTransactionInput} {n : Int}
    (hn : parseMoneyToMinorUnits input.amount = .ok n) :
    ∃ k : Option TransactionRecord → PgTask TransactionReservation,
      postgresCall (.reserveTransaction input) = PgCall.send (.insertTransaction input n) >>= k ∧
      (∀ record, k (some record) = pure ⟨true, some record⟩) ∧
      k none = PgCall.send (.selectTransaction input.transactionId) >>= fun existing => pure ⟨false, existing⟩ := by
  show ∃ k, PostgresTransactionRecordRepository.reserve input = _ ∧ _
  rw [PostgresTransactionRecordRepository.reserve, hn]
  exact ⟨_, rfl, fun _ => rfl, rfl⟩

theorem implements_reserveTransaction {input : ReserveTransactionInput}
    (hamount : ∃ n, parseMoneyToMinorUnits input.amount = .ok n) :
    (pgSimulation hashtext reports admits).Implements q (.call (.reserveTransaction input)) := by
  obtain ⟨n, hn⟩ := hamount
  obtain ⟨k, hmethod, hfresh, hthere⟩ := postgresCall_reserveTransaction hn
  refine implements_of_insert (.reserveTransaction input) (.insertTransaction input n)
    (.selectTransaction input.transactionId) (.reserved input.transactionId) (fun existing => ⟨false, existing⟩)
    (by simp) (by simp) (by simp) (fun _ => ⟨rfl, rfl⟩) rfl hmethod (fun _ _ h => h) (fun {db s gs} h {a db'} hdb => ?_)
    (fun {db s gs} h hholds {b db'} hdb => ?_)
  · rw [Database.perform, h.transactions] at hdb
    rw [perform]
    dsimp only
    rw [TransactionRecords.reserve]
    cases hget : s.transactions.get input.transactionId with
    | some existing =>
      rw [hget] at hdb
      obtain ⟨rfl, rfl⟩ := Prod.mk.inj (Option.some.inj hdb)
      exact .inr ⟨rfl, by simp [Holds, hget], hthere⟩
    | none =>
      rw [hget] at hdb
      obtain ⟨rfl, rfl⟩ := Prod.mk.inj (Option.some.inj hdb)
      rw [hn]
      refine .inl ⟨_, rfl, hfresh _, h.withTransactions fun x hx => ?_⟩
      rw [OrderedMap.get_set]
      split
      · simp
      · exact hx
  · obtain ⟨rfl, rfl⟩ := Prod.mk.inj (Option.some.inj hdb)
    obtain ⟨existing, hget⟩ := Option.ne_none_iff_exists'.mp hholds
    refine ⟨rfl, ?_⟩
    rw [h.transactions, perform, TransactionRecords.reserve, hget]

theorem implements_reserveIdempotency (input : ReserveIdempotencyInput) :
    (pgSimulation hashtext reports admits).Implements q (.call (.reserveIdempotency input)) := by
  refine implements_of_insert (.reserveIdempotency input) (.insertIdempotency input)
    (.selectIdempotency input.idempotencyKey) (.keyed input.idempotencyKey) (fun existing => ⟨false, existing⟩)
    (by simp) (by simp) (by simp) (fun _ => ⟨rfl, rfl⟩) rfl rfl (fun _ _ h => h) (fun {db s gs} h {a db'} hdb => ?_)
    (fun {db s gs} h hholds {b db'} hdb => ?_)
  · rw [Database.perform, h.idempotency] at hdb
    rw [perform]
    dsimp only
    rw [IdempotencyRecords.reserve]
    cases hget : s.idempotency.get input.idempotencyKey with
    | some existing =>
      rw [hget] at hdb
      obtain ⟨rfl, rfl⟩ := Prod.mk.inj (Option.some.inj hdb)
      exact .inr ⟨rfl, by simp [Holds, hget], rfl⟩
    | none =>
      rw [hget] at hdb
      obtain ⟨rfl, rfl⟩ := Prod.mk.inj (Option.some.inj hdb)
      refine .inl ⟨_, rfl, rfl, h.withIdempotency fun k hk => ?_⟩
      rw [OrderedMap.get_set]
      split
      · simp
      · exact hk
  · obtain ⟨rfl, rfl⟩ := Prod.mk.inj (Option.some.inj hdb)
    obtain ⟨existing, hget⟩ := Option.ne_none_iff_exists'.mp hholds
    refine ⟨rfl, ?_⟩
    rw [h.idempotency, perform, IdempotencyRecords.reserve, hget]

/-! ## Snapshots -/

def Snapshot.after (snapshot : Snapshot) : Option Snapshot → Snapshot
  | some current => if current.version < snapshot.version then snapshot else current
  | none => snapshot

namespace Database

omit [JsRuntime] [RequestDigest]

theorem latestSnapshot_append (db : Database) (snapshot : Snapshot) (streamId : String) :
    ({ db with snapshots := db.snapshots ++ [snapshot] } : Database).latestSnapshot streamId =
      if snapshot.streamId = streamId then some (snapshot.after (db.latestSnapshot streamId))
      else db.latestSnapshot streamId := by
  rw [latestSnapshot, List.filter_append]
  by_cases h : snapshot.streamId = streamId
  · rw [if_pos h, List.filter_singleton, decide_eq_true h, cond_true, List.foldl_append, ← latestSnapshot]
    cases db.latestSnapshot streamId with
    | none => rfl
    | some current =>
      by_cases hlt : current.version < snapshot.version
      · simp [Snapshot.after, hlt]
      · simp [Snapshot.after, hlt]
  · rw [if_neg h, List.filter_singleton, decide_eq_false h, cond_false, List.append_nil, ← latestSnapshot]

theorem le_latestSnapshot {db : Database} {row : Snapshot} (hrow : row ∈ db.snapshots) :
    ∃ current, db.latestSnapshot row.streamId = some current ∧ row.version ≤ current.version := by
  obtain ⟨sessions, events, nextId, outbox, snapshots, transactions, idempotency⟩ := db
  induction snapshots using List.reverseRecOn with
  | nil => cases hrow
  | append_singleton rows snapshot ih =>
    rw [latestSnapshot_append ⟨sessions, events, nextId, outbox, rows, transactions, idempotency⟩ snapshot]
    rcases List.mem_append.mp hrow with hrow | hrow
    · obtain ⟨current, hcurrent, hle⟩ := ih hrow
      rw [hcurrent]
      split
      · refine ⟨_, rfl, ?_⟩
        rw [Snapshot.after]
        split
        case isTrue hlt =>
          exact Nat.le_trans hle (Nat.le_of_lt hlt)
        · exact hle
      · exact ⟨current, rfl, hle⟩
    · obtain rfl := List.mem_singleton.mp hrow
      rw [if_pos rfl]
      refine ⟨_, rfl, ?_⟩
      unfold Snapshot.after
      split
      · split
        · exact Nat.le_refl _
        · omega
      · exact Nat.le_refl _

theorem latestSnapshot_insert {snapshot : Snapshot} {a : Unit} {db db' : Database}
    (h : db.perform hashtext (.insertSnapshot snapshot) = some (a, db')) (streamId : String) :
    db'.latestSnapshot streamId =
      if snapshot.streamId = streamId then some (snapshot.after (db.latestSnapshot streamId))
      else db.latestSnapshot streamId := by
  rw [perform] at h
  split at h
  case isTrue hrow =>
    obtain ⟨-, rfl⟩ := Prod.mk.inj (Option.some.inj h)
    simp only [List.any_eq_true, Bool.and_eq_true, beq_iff_eq] at hrow
    obtain ⟨row, hrow, hstream, hversion⟩ := hrow
    split
    case isTrue heq =>
      obtain ⟨current, hcurrent, hle⟩ := le_latestSnapshot hrow
      rw [hstream, heq] at hcurrent
      rw [hcurrent, Snapshot.after, if_neg (by omega)]
    · rfl
  · obtain ⟨-, rfl⟩ := Prod.mk.inj (Option.some.inj h)
    exact latestSnapshot_append db snapshot streamId

end Database

def Store.saveSnapshot (s : Store) (snapshot : Snapshot) : Store :=
  match s.snapshots.get snapshot.streamId with
  | some current => if snapshot.version ≤ current.version then s
    else { s with snapshots := s.snapshots.set snapshot.streamId snapshot }
  | none => { s with snapshots := s.snapshots.set snapshot.streamId snapshot }

omit [JsRuntime] [RequestDigest] in
theorem Refines.insertSnapshot (h : Refines hashtext db s gs) {snapshot : Snapshot} {a : Unit}
    (hdb : db.perform hashtext (.insertSnapshot snapshot) = some (a, db')) :
    Refines hashtext db' (s.saveSnapshot snapshot) gs := by
  have hlatest := Database.latestSnapshot_insert hdb
  have hget : ∀ streamId, db'.latestSnapshot streamId = (s.saveSnapshot snapshot).snapshots.get streamId := by
    intro streamId
    rw [hlatest, h.snapshots, Store.saveSnapshot]
    by_cases heq : snapshot.streamId = streamId
    · subst heq
      rw [if_pos rfl]
      cases hcurrent : s.snapshots.get snapshot.streamId with
      | none => simp [Snapshot.after]
      | some current =>
        by_cases hle : snapshot.version ≤ current.version
        · simp [Snapshot.after, hle, hcurrent]
        · simp [Snapshot.after, hle, Nat.lt_of_not_le hle]
    · rw [if_neg heq]
      split
      · split
        · rfl
        · rw [OrderedMap.get_set, if_neg heq]
      · rw [OrderedMap.get_set, if_neg heq]
  have hsaved : ∃ snapshots, s.saveSnapshot snapshot = { s with snapshots := snapshots } := by
    rw [Store.saveSnapshot]
    split
    · split <;> exact ⟨_, rfl⟩
    · exact ⟨_, rfl⟩
  have hrows : ∃ snapshots, db' = { db with snapshots := snapshots } := by
    rw [Database.perform] at hdb
    split at hdb <;> exact ⟨_, (Prod.mk.inj (Option.some.inj hdb)).2.symm⟩
  obtain ⟨snapshots, hs⟩ := hsaved
  obtain ⟨snapshots', rfl⟩ := hrows
  rw [hs] at hget ⊢
  exact h.withTables hget h.transactions h.idempotency (fun _ hx => hx) fun _ hk => hk

/-- The save of the model, where its two calls follow each other. -/
theorem runs_save {w : World BankRequest} {snapshot : Snapshot} {r : Except Failure Unit}
    (hput : Exec (.reporting reports) (.putSnapshot snapshot) w.store r
      { w.store with snapshots := w.store.snapshots.set snapshot.streamId snapshot })
    (hstays : ∀ current, w.store.snapshots.get snapshot.streamId = some current →
      snapshot.version ≤ current.version → r = .ok ()) :
    ∃ w', w'.store = w.store.saveSnapshot snapshot ∧
      (SnapshotStore.save snapshot).Runs ((reportingBank reports admits).system.step i q) w r w' := by
  let found := w.store.snapshots.get snapshot.streamId
  let w₁ : World BankRequest := ⟨w.store, w.trace ++ [⟨i, q, .snapshotBeforeSave snapshot.streamId, .ok found⟩]⟩
  have hread : (reportingBank reports admits).system.step i q (.snapshotBeforeSave snapshot.streamId) w
      (.ok found) w₁ :=
    ⟨trivial, .performed (by simp), rfl⟩
  let w₂ : World BankRequest :=
    ⟨{ w.store with snapshots := w.store.snapshots.set snapshot.streamId snapshot },
      w₁.trace ++ [⟨i, q, .putSnapshot snapshot, r⟩]⟩
  have hwrite : (reportingBank reports admits).system.step i q (.putSnapshot snapshot) w₁ r w₂ :=
    ⟨trivial, hput, rfl⟩
  cases hfound : found with
  | none =>
    rw [hfound] at hread
    refine ⟨w₂, ?_, _, w₁, hread, r, _, hwrite, rfl, rfl⟩
    rw [Store.saveSnapshot, show w.store.snapshots.get snapshot.streamId = none from hfound]
  | some current =>
    rw [hfound] at hread
    by_cases hle : snapshot.version ≤ current.version
    · refine ⟨w₁, ?_, _, w₁, hread, ?_⟩
      · rw [Store.saveSnapshot, show w.store.snapshots.get snapshot.streamId = some current from hfound]
        exact (if_pos hle).symm
      · show Async.Runs _ (if snapshot.version ≤ current.version then _ else _) _ _ _
        rw [if_pos hle]
        exact ⟨hstays current hfound hle, rfl⟩
    · refine ⟨w₂, ?_, _, w₁, hread, ?_⟩
      · rw [Store.saveSnapshot, show w.store.snapshots.get snapshot.streamId = some current from hfound]
        exact (if_neg hle).symm
      · show Async.Runs _ (if snapshot.version ≤ current.version then _ else _) _ _ _
        rw [if_neg hle]
        exact ⟨r, _, hwrite, rfl, rfl⟩

theorem happens_saved {snapshot : Snapshot} :
    (pgSimulation hashtext reports admits).Happens i q (.saveSnapshot snapshot) s (s.saveSnapshot snapshot)
      (· = .ok ()) := by
  refine ⟨⟨_, rfl⟩, ?_⟩
  rintro r rfl w rfl
  exact runs_save (.performed (by simp)) fun _ _ _ => rfl

theorem happens_save_rejected {snapshot : Snapshot} {message : String} (hm : reports message) :
    (pgSimulation hashtext reports admits).Happens i q (.saveSnapshot snapshot) s s (ReportedError reports) := by
  refine ⟨⟨_, message, hm, rfl⟩, ?_⟩
  rintro r ⟨message', hm', rfl⟩ w rfl
  let answer : Except Failure (Option Snapshot) := .error (.store message')
  let w' : World BankRequest := ⟨w.store, w.trace ++ [⟨i, q, .snapshotBeforeSave snapshot.streamId, answer⟩]⟩
  exact ⟨w', rfl, answer, w', ⟨trivial, .rejected message' hm', rfl⟩, rfl, rfl⟩

theorem happens_save_ambiguous {snapshot : Snapshot} {message : String} (hm : reports message) :
    (pgSimulation hashtext reports admits).Happens i q (.saveSnapshot snapshot) s (s.saveSnapshot snapshot)
      (ReportedError reports) := by
  by_cases hstays : ∃ current, s.snapshots.get snapshot.streamId = some current ∧ snapshot.version ≤ current.version
  · obtain ⟨current, hcurrent, hle⟩ := hstays
    have hsame : s.saveSnapshot snapshot = s := by
      rw [Store.saveSnapshot, hcurrent]
      exact if_pos hle
    rw [hsame]
    exact happens_save_rejected hm
  · refine ⟨⟨_, message, hm, rfl⟩, ?_⟩
    rintro r ⟨message', hm', rfl⟩ w rfl
    exact runs_save (.ambiguous message' hm') fun current hcurrent hle => absurd ⟨current, hcurrent, hle⟩ hstays

theorem implements_saveSnapshot (snapshot : Snapshot) :
    (pgSimulation hashtext reports admits).Implements q (.saveSnapshot snapshot) := by
  have hrejected : ∀ {message}, reports message → (pgSimulation hashtext reports admits).Ends (.saveSnapshot snapshot)
      (some (ReportedError reports)) .idle (.error (.store message)) := fun {message} hm =>
    ⟨rfl, _, _, rfl, ⟨message, hm, rfl⟩, rfl⟩
  show (pgSimulation hashtext reports admits).wp q (.saveSnapshot snapshot)
    (PgCall.send (.insertSnapshot snapshot)) none .idle _
  refine wp_send fun i db s gs hinv hg r db' hexec => ?_
  have hstays : Function.update gs i .idle = gs := (show gs i = .idle from hg) ▸ Function.update_eq_self i gs
  cases hexec with
  | performed _ hdb =>
    exact ⟨_, _, .idle, .happens happens_saved, hstays.symm ▸ hinv.insertSnapshot hdb, rfl, _, _, rfl, rfl, rfl⟩
  | refused message hm =>
    exact ⟨s, _, .idle, .happens (happens_save_rejected hm), hstays.symm ▸ hinv, hrejected hm⟩
  | unanswered message hm hdb =>
    exact ⟨_, _, .idle, .happens (happens_save_ambiguous hm), hstays.symm ▸ hinv.insertSnapshot hdb, hrejected hm⟩

end

end CoreBanking
