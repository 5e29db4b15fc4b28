import CoreBanking.RepositoryRules

/-!
# Account writes

Any number of account commands at once, each with a repository of its own over
one event store and one snapshot store. The trace tells which batch each call
committed; the streams are these batches in the order of the trace, and each is
what its command produces on the replay of what was committed before it.
-/

namespace CoreBanking

/-- The batch a call committed: an append that resolved. -/
def Call.commit? {Req : Type} : Call Req → Option (String × List DomainEvent)
  | ⟨_, _, .append streamId events _, .ok _⟩ => some (streamId, events)
  | _ => none

section
variable {Req : Type}

def commits (trace : List (Call Req)) : List (String × List DomainEvent) := trace.filterMap Call.commit?

def committed (trace : List (Call Req)) (streamId : String) : List DomainEvent :=
  ((commits trace).filter (·.1 = streamId)).flatMap Prod.snd

def contributions (trace : List (Call Req)) (thread : Nat) : List (String × List DomainEvent) :=
  commits (trace.filter (·.thread = thread))

theorem commits_append (t t' : List (Call Req)) : commits (t ++ t') = commits t ++ commits t' :=
  List.filterMap_append

theorem committed_snoc_none {t : List (Call Req)} {call : Call Req} (h : call.commit? = none) (streamId : String) :
    committed (t ++ [call]) streamId = committed t streamId := by
  simp [committed, commits, h]

theorem committed_snoc {t : List (Call Req)} {call : Call Req} {streamId : String} {events : List DomainEvent}
    (h : call.commit? = some (streamId, events)) (streamId' : String) :
    committed (t ++ [call]) streamId' = committed t streamId' ++ if streamId = streamId' then events else [] := by
  simp only [committed, commits_append, List.filter_append, List.flatMap_append]
  congr 1
  by_cases heq : streamId = streamId' <;> simp [commits, h, heq]

theorem contributions_snoc (t : List (Call Req)) (call : Call Req) (thread : Nat) :
    contributions (t ++ [call]) thread =
      contributions t thread ++ if call.thread = thread then call.commit?.toList else [] := by
  simp only [contributions, List.filter_append, commits_append]
  congr 1
  by_cases h : call.thread = thread <;> cases hc : call.commit? <;> simp [commits, h, hc]

theorem Quiet.commit?_eq_none {op : StoreOp} {r : Except Failure op.Result} (h : Quiet op r) (thread : Nat)
    (q : Req) : (Call.mk thread q op r).commit? = none := by
  cases h <;> rfl

end

def accountService (F : FaultModel) (admits : AccountCommand → Prop)
    (allows : AccountCommand → StoreOp → Store → Prop) : Service AccountCommand Unit where
  faults := F
  admits := admits
  allows := allows
  body := AccountCommand.execute
  crashes := True

/-- Any call may be rejected at any time, and snapshots may be lost; only an
append that is rejected has not been made. -/
def FaultModel.failStop : FaultModel where
  rejected _ _ := True
  ambiguous op _ := ∀ streamId events expectedVersion, op ≠ .append streamId events expectedVersion
  losesSnapshots := True

abbrev AccountConfig := Config StoreOp StoreOp.Result Failure (World AccountCommand) AccountCommand Unit

/-! ## Linearizability -/

def AccountCommand.Produces (cmd : AccountCommand) (es events : List DomainEvent) : Prop :=
  ∃ stamp account', cmd.operation stamp (AccountAggregate.replay es) = .ok account' ∧
    account'.uncommittedEvents = events

/-- The writes of a run, in the order of its trace, are a sequential execution. -/
structure LinearizedTrace (w : World AccountCommand) : Prop where
  stream : ∀ streamId, w.store.stream streamId = committed w.trace streamId
  batch : ∀ {pre call post streamId events}, w.trace = pre ++ call :: post →
    call.commit? = some (streamId, events) →
    streamId = accountStream call.request.accountId ∧ call.request.Produces (committed pre streamId) events

/-- Every call that resolved committed one batch, on its account; a refused one
none; and no account is ever overdrawn. -/
structure Linearized (c : AccountConfig) : Prop extends LinearizedTrace c.state where
  resolved : ∀ {i cmd}, c.threads[i]? = some ⟨cmd, some (.done (.ok ()))⟩ →
    ∃ events, contributions c.state.trace i = [(accountStream cmd.accountId, events)]
  refused : ∀ {i cmd e}, c.threads[i]? = some ⟨cmd, some (.done (.error e))⟩ →
    e.Domain ∨ e = AccountRepository.writeConflict cmd.accountId → contributions c.state.trace i = []
  balance : ∀ {accountId es}, es <+: c.state.store.stream (accountStream accountId) →
    0 ≤ (AccountAggregate.replay es).balanceMinorUnits ∧
    (AccountAggregate.replay es).balanceMinorUnits = sumOf EventData.deposited es - sumOf EventData.withdrawn es

structure WritesInv (w : World AccountCommand) (gs : Nat → Option (String × List DomainEvent)) : Prop where
  ledger : Ledger w.store
  linearized : LinearizedTrace w
  contributed : ∀ i, contributions w.trace i = (gs i).toList

theorem LinearizedTrace.snoc {w w' : World AccountCommand} (h : LinearizedTrace w) {call : Call AccountCommand}
    (htrace : w'.trace = w.trace ++ [call])
    (hstream : ∀ streamId, w'.store.stream streamId = committed (w.trace ++ [call]) streamId)
    (hbatch : ∀ {streamId events}, call.commit? = some (streamId, events) →
      streamId = accountStream call.request.accountId ∧
      call.request.Produces (committed w.trace streamId) events) : LinearizedTrace w' := by
  refine ⟨fun streamId => htrace ▸ hstream streamId, fun {pre call' post streamId events} heq hc => ?_⟩
  rw [htrace] at heq
  rcases List.eq_nil_or_concat post with rfl | ⟨post', last, rfl⟩
  · obtain ⟨rfl, hl⟩ := List.append_inj' heq rfl
    obtain rfl := List.singleton_inj.mp hl
    exact hbatch hc
  · rw [List.concat_eq_append, ← List.cons_append, ← List.append_assoc] at heq
    exact h.batch (List.append_inj' heq rfl).1 hc

theorem Quiet.ne_commit {op : StoreOp} {r : Except Failure op.Result} (h : Quiet op r) (thread : Nat)
    {q : AccountCommand} {p : String × List DomainEvent} : (Call.mk thread q op r).commit? ≠ some p := by
  rw [h.commit?_eq_none]; exact nofun

theorem WritesInv.hosts (V : Service AccountCommand Unit) : Hosts V WritesInv where
  ledger h := h.ledger
  quiet {i q op w r w' gs} h hstep hq hsame hledger := by
    have hnone := hq.commit?_eq_none i q
    refine ⟨hledger, h.linearized.snoc hstep.trace (fun streamId => ?_) fun hc => absurd hc (hq.ne_commit i),
      fun j => ?_⟩
    · rw [committed_snoc_none hnone, ← h.linearized.stream, Store.stream, hsame.events]
      rfl
    · rw [hstep.trace, contributions_snoc, hnone, h.contributed]
      simp

theorem accountService_wp {admits : AccountCommand → Prop} {allows : AccountCommand → StoreOp → Store → Prop}
    (cmd : AccountCommand) (w : World AccountCommand) :
    ((accountService .failStop admits allows).outline none WritesInv).wp cmd cmd.execute w none
      (Settled .failStop none (fun _ g => ∃ events, g = some (accountStream cmd.accountId, events)) cmd.Rejects) := by
  let V := accountService .failStop admits allows
  refine (WritesInv.hosts V).wp_account_execute (fun _ h => h) fun {i w₁ gs event r w₂} _ hinv hg haccepts hstep => ?_
  refine ⟨some (accountStream cmd.accountId, [event]), ⟨?_, ?_, fun j => ?_⟩, ⟨_, rfl⟩⟩
  all_goals
    obtain rfl : r = .ok () := by
      rcases hstep.answer with h | ⟨message, _, hf⟩
      · exact h
      · exact absurd rfl (hf _ _ _)
  · exact hstep.store ▸ hinv.ledger.write hstep.extension
  · refine hinv.linearized.snoc hstep.call.trace (fun streamId => ?_) ?_
    · rw [committed_snoc rfl, hstep.store, hinv.ledger.stream_write hstep.extension, ← hinv.linearized.stream]
      split
      case isTrue heq => rw [heq]
      · rw [List.append_nil]
    · intro streamId events hc
      obtain ⟨rfl, rfl⟩ := Prod.mk.inj (Option.some.inj hc)
      refine ⟨rfl, ?_⟩
      rw [← hinv.linearized.stream]
      exact haccepts.2
  · rw [hstep.call.trace, contributions_snoc, hinv.contributed]
    by_cases hij : i = j
    · subst hij; simp [hg, Call.commit?]
    · simp [hij, Function.update_of_ne (Ne.symm hij)]

theorem accountService_tied {admits : AccountCommand → Prop} {allows : AccountCommand → StoreOp → Store → Prop}
    {c : AccountConfig} (hc : (accountService .failStop admits allows).system.Reachable c) :
    ∃ gs, ((accountService .failStop admits allows).outline none WritesInv).Tied
      (fun cmd => Settled .failStop none (fun _ g => ∃ events, g = some (accountStream cmd.accountId, events))
        cmd.Rejects) c gs := by
  have hinit : WritesInv ⟨.empty, []⟩ fun _ => none := ⟨.empty, ⟨fun _ => rfl, fun h => by simp at h⟩, fun _ => rfl⟩
  exact Outline.sound hinit (fun cmd w _ => accountService_wp cmd w) hc

/-- **Account writes are linearizable**, and no account is ever overdrawn. -/
theorem account_writes_linearized {admits : AccountCommand → Prop}
    {allows : AccountCommand → StoreOp → Store → Prop} {c : AccountConfig}
    (hc : (accountService .failStop admits allows).system.Reachable c) : Linearized c := by
  obtain ⟨gs, ht⟩ := accountService_tied hc
  have hinv : WritesInv c.state gs := ht.inv
  refine ⟨hinv.linearized, fun {i cmd} hi => ?_, fun {i cmd e} hi he => ?_, fun {accountId es} hes => ?_⟩
  · obtain ⟨w, _, events, hg⟩ := ht.ended hi
    exact ⟨events, by rw [hinv.contributed, hg]; rfl⟩
  · obtain ⟨w, _, ⟨hg, _⟩ | ⟨message, rfl, _⟩⟩ := ht.ended hi
    · rw [hinv.contributed, hg]; rfl
    · rcases he with he | he <;> cases he
  · exact ⟨((hinv.ledger.account accountId).stream.anti hes).balance_nonneg, replay_balance es⟩

/-- Two deposits have read the account before either is appended; the first
appends last, is refused, and tries again. -/
def depositRun : AccountConfig :=
  let context : CommandContext := { commandId := "key-1", correlationId := "corr-1" }
  (accountService .failStop (fun _ => True) fun _ _ _ => True).system.schedule
    (fun i q => Service.respond (fun _ => .answer) i q)
    [.serve (.CreateAccount "acc-1" "owner-1" "EUR" context) 20,
      .serve (.DepositMoney "acc-1" ⟨"10.25"⟩ "EUR" context "tx-1") 4,
      .serve (.DepositMoney "acc-1" ⟨"2.75"⟩ "EUR" context "tx-2") 20, .resume 1 20]

theorem depositRun_linearized : Linearized depositRun ∧
    (depositRun.state.trace.filter fun call => call.thread = 1).length = 10 ∧
    (AccountAggregate.replay (depositRun.state.store.stream "account-acc-1")).balanceMinorUnits = 1300 := by
  have hc : (accountService .failStop (fun _ => True) fun _ _ _ => True).system.Reachable depositRun :=
    System.reachable_schedule _ (fun _ _ _ => trivial)
      fun h => Service.respond_step (Service.permits_answer fun _ _ => trivial) h
  exact ⟨account_writes_linearized hc, by decide, by decide⟩

/-! ## Shape -/

/-- A call made for a freeze of this account appends only to a stream that is
not empty. -/
def FreezesKnown (accountId : String) (op : StoreOp) (s : Store) : Prop :=
  ∀ events expectedVersion, op = .append (accountStream accountId) events expectedVersion →
    s.stream (accountStream accountId) ≠ []

def AccountCommand.freezesKnown : AccountCommand → StoreOp → Store → Prop
  | .FreezeAccount accountId _ _, op, s => FreezesKnown accountId op s
  | _, _, _ => True

def Store.Opened (s : Store) : Prop :=
  ∀ accountId, s.stream (accountStream accountId) ≠ [] → accountId ≠ "" ∧
    ∀ e ∈ (s.stream (accountStream accountId)).head?, e.data.isAccountCreated = true

/-- On an account without history, deposits and withdrawals are refused. -/
theorem AccountCommand.Commits.first {cmd : AccountCommand} {event : DomainEvent}
    (h : cmd.Commits (AccountAggregate.replay []) event) :
    event.data.isAccountCreated = true ∨ event.data.isAccountFrozen = true := by
  obtain ⟨stamp, he⟩ := h
  generalize cmd.method = method at he
  cases he with
  | create => exact .inl rfl
  | deposit _ hc => cases hc
  | withdraw _ hc => cases hc
  | freeze => exact .inr rfl

theorem AccountCommand.Commits.frozen {cmd : AccountCommand} {account : AccountAggregate} {event : DomainEvent}
    (h : cmd.Commits account event) (hf : event.data.isAccountFrozen = true) :
    ∃ reason context, cmd = .FreezeAccount cmd.accountId reason context := by
  obtain ⟨stamp, he⟩ := h
  cases cmd with
  | FreezeAccount => exact ⟨_, _, rfl⟩
  | _ =>
    cases he
    cases hf

theorem Store.Opened.write {s : Store} (h : s.Opened) (hl : Ledger s) {streamId : String} {event : DomainEvent}
    (he : Extends streamId (s.stream streamId) event)
    (hfirst : s.stream streamId = [] → (∀ accountId, streamId = accountStream accountId → accountId ≠ "") ∧
      event.data.isAccountFrozen = false) :
    (s.write streamId [event]).Opened := by
  intro accountId hne
  rw [hl.stream_write he] at hne ⊢
  by_cases hs : streamId = accountStream accountId
  · subst hs
    rw [if_pos rfl]
    by_cases hnil : s.stream (accountStream accountId) = []
    · refine ⟨(hfirst hnil).1 accountId rfl, fun e hmem => ?_⟩
      rw [hnil] at hmem
      obtain rfl := Option.some.inj hmem
      cases he with
      | transfer cmd hs => exact absurd hs (accountStream_ne_transferStream _ _)
      | account cmd hs hc =>
        obtain rfl := accountStream_inj.mp hs
        rw [hnil] at hc
        rcases hc.first with hcreated | hfrozen
        · exact hcreated
        · rw [(hfirst hnil).2] at hfrozen; cases hfrozen
    · rw [List.head?_append_of_ne_nil _ hnil]
      exact h accountId hnil
  · rw [if_neg hs] at hne ⊢
    exact h accountId hne

theorem Store.Opened.shape {s : Store} (h : s.Opened) (hl : Ledger s) (accountId : String) :
    AccountShape accountId (s.stream (accountStream accountId)) := by
  by_cases hnil : s.stream (accountStream accountId) = []
  · rw [hnil]; exact .nil
  · obtain ⟨hne, hhead⟩ := h accountId hnil
    exact ((hl.account accountId).stream.shape hne hhead).1

/-- The streams of the accounts have their shape in every run in which no
account is frozen that was never created. -/
theorem account_streams_shaped {F : FaultModel} {c : AccountConfig}
    (hc : (accountService F (fun cmd => cmd.accountId ≠ "") AccountCommand.freezesKnown).system.Reachable c)
    (accountId : String) : AccountShape accountId (c.state.store.stream (accountStream accountId)) := by
  let V := accountService F (fun cmd => cmd.accountId ≠ "") AccountCommand.freezesKnown
  let inv : World AccountCommand → (Nat → Unit) → Prop := fun w _ => Ledger w.store ∧ w.store.Opened
  have hosts : Hosts V inv := by
    refine ⟨And.left, fun {i q op w r w' gs} h _ _ hsame hledger => ⟨hledger, fun accountId hne => ?_⟩⟩
    have hstream : w'.store.stream (accountStream accountId) = w.store.stream (accountStream accountId) := by
      rw [Store.stream, hsame.events]; rfl
    rw [hstream] at hne ⊢
    exact h.2 accountId hne
  have hinit : inv ⟨.empty, []⟩ fun _ => () := ⟨.empty, fun _ h => absurd rfl h⟩
  have hbody : ∀ cmd w, cmd.accountId ≠ "" →
      (V.outline () inv).wp cmd cmd.execute w () (Settled F () (fun _ _ => True) cmd.Rejects) := by
    intro cmd w hcmd
    refine hosts.wp_account_execute (fun _ _ => trivial) fun {i w₁ gs event r w₂} _ hinv _ haccepts hstep =>
      ⟨(), ⟨hstep.store ▸ hinv.1.write hstep.extension, ?_⟩, trivial⟩
    rw [hstep.store]
    refine hinv.2.write hinv.1 hstep.extension fun hnil => ⟨fun accountId hs => accountStream_inj.mp hs ▸ hcmd, ?_⟩
    by_contra hfrozen
    obtain ⟨reason, context, hcmd'⟩ := haccepts.1.frozen (by simpa using hfrozen)
    have hallowed : cmd.freezesKnown _ _ := hstep.call.allowed
    rw [hcmd'] at hallowed
    exact hallowed _ _ rfl hnil
  obtain ⟨gs, ht⟩ := Outline.sound hinit hbody hc
  exact ht.inv.2.shape ht.inv.1 accountId

def freezingAnswer (i : Nat) (cmd : AccountCommand) (op : StoreOp) (w : World AccountCommand) :
    Option (Except Failure op.Result × World AccountCommand) :=
  match cmd with
  | .FreezeAccount accountId _ _ =>
    if w.store.stream (accountStream accountId) = [] then none else Service.respond (fun _ => .answer) i cmd op w
  | _ => Service.respond (fun _ => .answer) i cmd op w

def frozenRun : AccountConfig :=
  let context : CommandContext := { commandId := "key-1", correlationId := "corr-1" }
  (accountService .none (fun cmd => cmd.accountId ≠ "") AccountCommand.freezesKnown).system.schedule freezingAnswer
    [.serve (.CreateAccount "acc-1" "owner-1" "EUR" context) 20,
      .serve (.DepositMoney "acc-1" ⟨"10.25"⟩ "EUR" context "tx-1") 20,
      .serve (.FreezeAccount "acc-1" "fraud" context) 20]

theorem account_streams_shaped_frozen :
    (frozenRun.state.store.stream "account-acc-1").map (·.data.isAccountFrozen) = [false, false, true] ∧
      AccountShape "acc-1" (frozenRun.state.store.stream (accountStream "acc-1")) := by
  refine ⟨by decide, account_streams_shaped (System.reachable_schedule _ (fun cmd n hmem => ?_)
    fun {i cmd op w r w'} h => ?_) "acc-1"⟩
  · simp only [List.mem_cons, System.Move.serve.injEq, List.not_mem_nil, or_false] at hmem
    rcases hmem with ⟨rfl, -⟩ | ⟨rfl, -⟩ | ⟨rfl, -⟩ <;> exact show "acc-1" ≠ "" by decide
  · have hexec (hallowed : cmd.freezesKnown op w.store)
        (h : Service.respond (fun _ => .answer) i cmd op w = some (r, w')) :
        (accountService .none (fun cmd => cmd.accountId ≠ "") AccountCommand.freezesKnown).CallStep
          i cmd op w r w' := by
      obtain ⟨rfl, rfl⟩ := Prod.mk.inj (Option.some.inj h)
      exact ⟨hallowed, Service.exec_reply _ w op, rfl⟩
    unfold freezingAnswer at h
    split at h
    case h_1 accountId reason context =>
      split at h
      case isTrue => cases h
      case isFalse hknown => exact hexec (fun _ _ _ => hknown) h
    case h_2 hother =>
      have hallowed : cmd.freezesKnown op w.store := by
        cases cmd <;> first | trivial | exact absurd rfl (hother _ _ _)
      exact hexec hallowed h

/-- A freeze of an account that was never created is accepted. -/
theorem account_streams_not_shaped :
    ¬ ∀ c : AccountConfig,
      (accountService .none (fun cmd => cmd.accountId ≠ "") fun _ _ _ => True).system.Reachable c →
      ∀ accountId, accountId ≠ "" → AccountShape accountId (c.state.store.stream (accountStream accountId)) := by
  intro h
  let V := accountService .none (fun cmd => cmd.accountId ≠ "") fun _ _ _ => True
  let c := V.serveAll 20 (fun _ _ => .answer) [.FreezeAccount "acc-1" "fraud" ⟨"key-1", "corr-1", none, none, none⟩]
  have hc : V.system.Reachable c := Service.reachable_serveAll 20
    (fun q hq => List.mem_singleton.mp hq ▸ (show "acc-1" ≠ "" by decide))
    fun _ _ => Service.permits_answer fun _ _ => trivial
  have hshape := h c hc "acc-1" (by decide)
  have hfrozen : (c.state.store.stream (accountStream "acc-1")).map (·.data.isAccountCreated) = [false] := by decide
  cases hs : c.state.store.stream (accountStream "acc-1") with
  | nil => rw [hs] at hfrozen; cases hfrozen
  | cons e es =>
    rw [hs] at hfrozen hshape
    have hcreated := hshape.first e rfl
    simp [hcreated] at hfrozen

end CoreBanking
