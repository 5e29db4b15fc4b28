import CoreBanking.PostgresAppend

/-!
# The bank on Postgres

Whatever the statements of the stores do between each other, and whatever the
server closes or leaves unanswered, the bank on Postgres is in a state that the
bank of the model can be in, with the same answers given.
-/

namespace CoreBanking

section
variable [JsRuntime] [RequestDigest] {hashtext : String → Int} {reports : String → Prop}
  {admits : BankRequest → Prop}

theorem implements_proper (q : BankRequest) {m : StoreMethod} (hm : m.Proper) :
    (pgSimulation hashtext reports admits).Implements q m := by
  cases m with
  | saveSnapshot snapshot => exact implements_saveSnapshot snapshot
  | call op =>
    cases op with
    | randomUUID => exact implements_randomUUID
    | now => exact implements_now
    | readStream streamId fromVersion => exact implements_readStream streamId fromVersion
    | append streamId events expectedVersion => exact implements_append streamId events expectedVersion
    | getLatestSnapshot streamId => exact implements_getLatestSnapshot streamId
    | snapshotBeforeSave streamId => exact hm.elim
    | putSnapshot snapshot => exact hm.elim
    | reserveTransaction input => exact implements_reserveTransaction hm
    | markTransactionPending x => exact implements_markTransactionPending x
    | markTransactionCompleted x => exact implements_markTransactionCompleted x
    | markTransactionFailed x message status => exact implements_markTransactionFailed x message status
    | reserveIdempotency input => exact implements_reserveIdempotency input
    | markIdempotencyCompleted k response => exact implements_markIdempotencyCompleted k response
    | markIdempotencyFailed k message => exact implements_markIdempotencyFailed k message

end

/-- What is committed is what the store has, but for the order of the log across streams. -/
structure Database.Shows (db : Database) (s : Store) : Prop where
  streams : ∀ streamId, db.committed streamId = (s.stream streamId).map (DomainEvent.under streamId)
  log : (db.log.map (DomainEvent.under "")).Perm (s.log.map (DomainEvent.under ""))
  snapshots : ∀ streamId, db.latestSnapshot streamId = s.snapshots.get streamId
  transactions : db.transactions = s.transactions
  idempotency : db.idempotency = s.idempotency

section
variable [JsRuntime] [RequestDigest]

theorem reachable_refines {hashtext : String → Int} {reports : String → Prop} {admits : BankRequest → Prop}
    {c : PgConfig} (hc : (postgresBank hashtext reports admits).Reachable c) :
    ∃ (c' : BankConfig) (gs : Nat → PgGhost), (reportingBank reports admits).system.Reachable c' ∧
      Refines hashtext c.state c'.state.store gs ∧ List.Forall₂ Thread.Mirrors c.threads c'.threads := by
  have hbodies : ∀ q, (postgresBank hashtext reports admits).admits q →
      ∃ p : Async StoreMethod StoreMethod.Result Failure (Option Response),
        p.Fits StoreMethod.Proper StoreMethod.Like ∧ q.body = p.expand StoreMethod.inMemory ∧
        q.body.expand postgresCall = p.expand StoreMethod.postgres := by
    intro q hq
    obtain ⟨p, hfits, hbody⟩ := portable_body hq.2
    refine ⟨p, hfits, hbody, ?_⟩
    rw [hbody, Async.expand_expand, funext StoreMethod.expand_inMemory]
  exact Simulation.sound (L := pgSimulation hashtext reports admits) (fun q m => implements_proper q)
    (fun q hq => hq.1) (fun _ => trivial) hbodies (Refines.empty hashtext) rfl hc

omit [JsRuntime] [RequestDigest] in
theorem Refines.shows {hashtext : String → Int} {db : Database} {s : Store} {gs : Nat → PgGhost}
    (h : Refines hashtext db s gs) : db.Shows s :=
  ⟨h.streams, h.log, h.snapshots, h.transactions, h.idempotency⟩

/-- **The Postgres stores refine the stores of the model**, in every run of the bank. -/
theorem postgres_refines {hashtext : String → Int} {reports : String → Prop} {admits : BankRequest → Prop}
    {c : PgConfig} (hc : (postgresBank hashtext reports admits).Reachable c) :
    ∃ c' : BankConfig, (reportingBank reports admits).system.Reachable c' ∧ c.state.Shows c'.state.store ∧
      List.Forall₂ Thread.Mirrors c.threads c'.threads := by
  obtain ⟨c', gs, hreach, hrefines, hthreads⟩ := reachable_refines hc
  exact ⟨c', hreach, hrefines.shows, hthreads⟩

/-- **Every committed event has its message**, and the publishers see nothing
else: what they see has been staged by appends. -/
theorem postgres_outbox_staged {hashtext : String → Int} {reports : String → Prop} {admits : BankRequest → Prop}
    {c : PgConfig} (hc : (postgresBank hashtext reports admits).Reachable c) :
    c.state.sent.Perm (c.state.rows.map EventRow.message) ∧
      ∃ outbox, OutboxReachable .postgres (fun _ action => action.IsAppend) ⟨outbox, [], [], []⟩ ∧
        outbox.messages.values.Perm c.state.sent := by
  obtain ⟨c', gs, -, hrefines, -⟩ := reachable_refines hc
  exact ⟨hrefines.outbox.staged, hrefines.outbox.appends⟩

end

/-! ## Money in the tables -/

theorem createdAccounts_eq {log log' : List DomainEvent}
    (h : (log.map (DomainEvent.under "")).Perm (log'.map (DomainEvent.under ""))) :
    createdAccounts log = createdAccounts log' := by
  have hmap : ∀ l : List DomainEvent, createdAccounts (l.map (DomainEvent.under "")) = createdAccounts l := fun l => by
    rw [createdAccounts, createdAccounts, List.filterMap_map]
    rfl
  rw [← hmap, ← hmap log']
  exact List.toFinset_eq_of_perm _ _ (h.filterMap _)

theorem initiatedTransfers_eq {log log' : List DomainEvent}
    (h : (log.map (DomainEvent.under "")).Perm (log'.map (DomainEvent.under ""))) :
    initiatedTransfers log = initiatedTransfers log' := by
  have hmap : ∀ l : List DomainEvent, initiatedTransfers (l.map (DomainEvent.under "")) = initiatedTransfers l :=
    fun l => by
      rw [initiatedTransfers, initiatedTransfers, List.filterMap_map]
      rfl
  rw [← hmap, ← hmap log']
  exact List.toFinset_eq_of_perm _ _ (h.filterMap _)

theorem paidInto_eq {log log' : List DomainEvent}
    (h : (log.map (DomainEvent.under "")).Perm (log'.map (DomainEvent.under ""))) (currency : String) :
    paidInto currency log = paidInto currency log' := by
  have hmap : ∀ l : List DomainEvent, paidInto currency (l.map (DomainEvent.under "")) = paidInto currency l := by
    intro l
    rw [paidInto, paidInto, List.map_map]
    rfl
  rw [← hmap, ← hmap log']
  exact (h.map _).sum_eq

theorem heldBy_under (currency streamId : String) (es : List DomainEvent) :
    heldBy currency (es.map (DomainEvent.under streamId)) = heldBy currency es := by
  rw [heldBy, heldBy, AccountAggregate.replay, AccountAggregate.loadFromHistory_under]
  rfl

namespace Database

def held (db : Database) (currency : String) : Int :=
  ∑ accountId ∈ createdAccounts db.log, heldBy currency (db.committed (accountStream accountId))

structure Conserves (db : Database) (currency : String) : Prop where
  held : 0 ≤ db.held currency
  paidIn : db.held currency ≤ paidInto currency db.log
  settled : (∀ t ∈ initiatedTransfers db.log, (TransferAggregate.replay (db.committed (transferStream t))).Settled) →
    db.held currency = paidInto currency db.log

theorem Shows.held {db : Database} {s : Store} (h : db.Shows s) (currency : String) :
    db.held currency = s.held currency := by
  rw [Database.held, Store.held, createdAccounts_eq h.log]
  refine Finset.sum_congr rfl fun accountId _ => ?_
  rw [h.streams, heldBy_under]

theorem Shows.conserves {db : Database} {s : Store} (h : db.Shows s) {currency : String} (hs : Conserved s currency) :
    db.Conserves currency := by
  have hpaid := paidInto_eq h.log currency
  refine ⟨?_, ?_, fun hsettled => ?_⟩
  · rw [h.held]
    exact hs.held_nonneg
  · rw [h.held, hpaid]
    exact hs.held_le
  · rw [h.held, hpaid]
    refine hs.settled fun t ht => ?_
    have hthis := hsettled t (by rw [initiatedTransfers_eq h.log]; exact ht)
    rwa [h.streams, TransferAggregate.replay, TransferAggregate.loadFromHistory_under] at hthis

end Database

section
variable [JsRuntime] [RequestDigest]

/-- **At most one committed movement for each transaction id**, in every run of the bank on Postgres. -/
theorem postgres_money_moved_once {hashtext : String → Int} {reports : String → Prop} {admits : BankRequest → Prop}
    {c : PgConfig} (hc : (postgresBank hashtext reports admits).Reachable c) (x : String) :
    (c.state.log.filter fun e => e.data.movement = some x).length ≤ 1 := by
  obtain ⟨c', gs', hreach, hrefines, -⟩ := reachable_refines hc
  obtain ⟨gs, hinv⟩ := bank_books hreach
  have hmap : ∀ l : List DomainEvent, ((l.map (DomainEvent.under "")).filter fun e => e.data.movement = some x).length =
      (l.filter fun e => e.data.movement = some x).length := fun l => by
    rw [List.filter_map, List.length_map]
    rfl
  calc (c.state.log.filter fun e => e.data.movement = some x).length
      = ((c.state.log.map (DomainEvent.under "")).filter fun e => e.data.movement = some x).length := (hmap _).symm
    _ = ((c'.state.store.log.map (DomainEvent.under "")).filter fun e => e.data.movement = some x).length :=
        (hrefines.log.filter _).length_eq
    _ = (c'.state.store.log.filter fun e => e.data.movement = some x).length := hmap _
    _ ≤ 1 := (hinv.books.ledger.movedOnce hinv.books.once).log

omit [JsRuntime] [RequestDigest] in
theorem reported_not_terminal {reports : String → Prop} (hreports : ∀ message, reports message →
    TransferCoordinatorService.isTerminalDomainError (.store message) = false) {message : String}
    (h : (FaultModel.reporting reports).Reports message) :
    TransferCoordinatorService.isTerminalDomainError (.store message) = false := by
  obtain ⟨op, hm | hm⟩ := h
  · exact hreports message hm
  · exact hreports message hm

/-- **Money is conserved in the tables**, in every run of the bank on Postgres
in which only guards of an account read as terminal, whatever a statement reports
and whatever ids clients choose for their transfers, and in which clients leave
the ids of legs alone. -/
theorem postgres_money_conserved {hashtext : String → Int} {reports : String → Prop}
    (hreports : ∀ message, reports message →
      TransferCoordinatorService.isTerminalDomainError (.store message) = false)
    {c : PgConfig} (hc : (postgresBank hashtext reports BankRequest.LeavesLegs).Reachable c) (currency : String) :
    c.state.Conserves currency := by
  obtain ⟨c', gs, hreach, hrefines, -⟩ := reachable_refines hc
  obtain ⟨gs', hinv⟩ := quiet_books (fun _ => reported_not_terminal hreports) hreach
  exact hrefines.shows.conserves (hinv.books.conserved (creations_named hreach) trivial trivial currency)

end

/-! ## A run one can look at -/

/-- Statements are answered unless they have to wait for another transaction. -/
def answerPg (hashtext : String → Int) : (op : PgCall) → Database → Option (Except Failure op.Result × Database)
  | .randomUUID, db => some (.ok s!"{db.nextId}-{db.sessions.length}", db)
  | .now, db => some (.ok 0, db)
  | op, db => (db.perform hashtext op).map fun r => (.ok r.1, r.2)

def oneHash (_ : String) : Int := 0

theorem Database.close_nil (db : Database) : db.close [] = db := by
  have hsessions : (db.sessions.mapIdx fun client session =>
      if client ∈ ([] : List Nat) then { session with stage := session.stage.close } else session) = db.sessions := by
    refine List.ext_getElem? fun client => ?_
    rw [List.getElem?_mapIdx]
    cases db.sessions[client]? <;> simp
  rw [Database.close, hsessions]

theorem answerPg_exec {hashtext : String → Int} {reports : String → Prop} {op : PgCall} {db db' : Database}
    {r : Except Failure op.Result} (h : answerPg hashtext op db = some (r, db')) :
    PgExec hashtext reports op db r db' := by
  unfold answerPg at h
  split at h
  · obtain ⟨rfl, rfl⟩ := Prod.mk.inj (Option.some.inj h)
    exact .randomUUID _
  · obtain ⟨rfl, rfl⟩ := Prod.mk.inj (Option.some.inj h)
    exact .now 0
  case h_3 hrandomUUID hnow =>
    obtain ⟨a, hperform, heq⟩ := Option.map_eq_some_iff.mp h
    obtain ⟨rfl, rfl⟩ := Prod.mk.inj heq
    exact .performed ⟨hrandomUUID, hnow⟩ hperform

def contendingMoves : List (System.Move BankRequest) :=
  [.serve (.createAccount (some "key-1") ⟨"acc-1", "owner-1", "EUR", none⟩) 60,
    .serve (.deposit (some "key-2") "acc-1" ⟨⟨"10.25"⟩, "EUR", "tx-1", none⟩) 12,
    .serve (.deposit (some "key-3") "acc-1" ⟨⟨"2.75"⟩, "EUR", "tx-2", none⟩) 60,
    .resume 1 60, .resume 2 60]

/-- The second waits for the lock of the first, and finds that it has read too early. -/
def contendedRun : PgConfig :=
  (@postgresBank decimalRuntime plainDigest oneHash (fun _ => False) BankRequest.LeavesLegs).schedule
    (fun _ _ => answerPg oneHash) contendingMoves

theorem contendedRun_reachable :
    (@postgresBank decimalRuntime plainDigest oneHash (fun _ => False) BankRequest.LeavesLegs).Reachable
      contendedRun := by
  refine System.reachable_schedule contendingMoves (fun q n hq => ?_) fun {i q op db r db'} h => ⟨[], ?_⟩
  · simp only [contendingMoves, List.mem_cons, System.Move.serve.injEq, List.not_mem_nil, or_false, reduceCtorEq] at hq
    rcases hq with ⟨rfl, -⟩ | ⟨rfl, -⟩ | ⟨rfl, -⟩
    · exact ⟨⟨show "acc-1" ≠ "" by decide, fun t leg h => (by cases h), fun key dto h => by cases h⟩, trivial⟩
    · exact ⟨⟨show "acc-1" ≠ "" by decide, fun t leg h => ne_legId (x := "tx-1") (by decide) t leg (Option.some.inj h),
        fun key dto h => by cases h⟩, ⟨1025, by decide +kernel⟩⟩
    · exact ⟨⟨show "acc-1" ≠ "" by decide, fun t leg h => ne_legId (x := "tx-2") (by decide) t leg (Option.some.inj h),
        fun key dto h => by cases h⟩, ⟨275, by decide +kernel⟩⟩
  · rw [Database.close_nil]
    exact answerPg_exec h

theorem postgres_refines_contended :
    contendedRun.state.sessions.map Session.stage = [.committed, .committed, .rolledBack, .committed] ∧
      ∃ c' : BankConfig,
        (@reportingBank decimalRuntime plainDigest (fun _ => False) BankRequest.LeavesLegs).system.Reachable c' ∧
        contendedRun.state.Shows c'.state.store ∧ List.Forall₂ Thread.Mirrors contendedRun.threads c'.threads :=
  ⟨by decide +kernel, @postgres_refines decimalRuntime plainDigest _ _ _ _ contendedRun_reachable⟩

theorem postgres_outbox_staged_contended :
    (contendedRun.state.sent.map fun message => (message.payload.streamVersion, message.eventPosition)) =
        [(1, some 1), (2, some 2), (3, some 3)] ∧
      contendedRun.state.sent.Perm (contendedRun.state.rows.map EventRow.message) ∧
      ∃ outbox, OutboxReachable .postgres (fun _ action => action.IsAppend) ⟨outbox, [], [], []⟩ ∧
        outbox.messages.values.Perm contendedRun.state.sent :=
  ⟨by decide +kernel, @postgres_outbox_staged decimalRuntime plainDigest _ _ _ _ contendedRun_reachable⟩

theorem postgres_money_moved_once_contended :
    (contendedRun.state.log.filter fun e => e.data.movement = some "tx-2").length = 1 ∧
      (contendedRun.state.log.filter fun e => e.data.movement = some "tx-2").length ≤ 1 :=
  ⟨by decide +kernel, @postgres_money_moved_once decimalRuntime plainDigest _ _ _ _ contendedRun_reachable "tx-2"⟩

theorem postgres_money_conserved_contended :
    contendedRun.state.held "EUR" = 1300 ∧ contendedRun.state.Conserves "EUR" :=
  ⟨by decide +kernel, @postgres_money_conserved decimalRuntime plainDigest _ _ nofun _ contendedRun_reachable "EUR"⟩

end CoreBanking
