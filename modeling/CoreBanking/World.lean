import CoreBanking.Lib.Outline
import CoreBanking.Ledger

/-!
# Services over the stores

A service runs a program for every request it admits, over one set of stores
and the trace of all calls made to them. The stores only grow: streams are
extended and transaction records keep what they were reserved with. An
invariant that hosts the repositories takes their reads and snapshots for
granted and is left with the commits.
-/

namespace CoreBanking

structure Call (Req : Type) where
  thread : Nat
  request : Req
  op : StoreOp
  result : Except Failure op.Result

structure World (Req : Type) where
  store : Store
  trace : List (Call Req)

/-- `allows` restricts a run by the state a call is made in. -/
structure Service (Req Out : Type) where
  faults : FaultModel
  admits : Req → Prop
  allows : Req → StoreOp → Store → Prop
  body : Req → Task Out
  crashes : Prop

namespace Service

variable {Req Out G : Type}

structure CallStep (V : Service Req Out) (i : Nat) (q : Req) (op : StoreOp) (w : World Req)
    (r : Except Failure op.Result) (w' : World Req) : Prop where
  allowed : V.allows q op w.store
  exec : Exec V.faults op w.store r w'.store
  trace : w'.trace = w.trace ++ [⟨i, q, op, r⟩]

def system (V : Service Req Out) : System StoreOp StoreOp.Result Failure (World Req) Req Out where
  init := ⟨.empty, []⟩
  admits := V.admits
  body := V.body
  step := V.CallStep
  crashes := V.crashes

end Service

/-! ## Growth -/

def TransactionRecord.SameMovement (record record' : TransactionRecord) : Prop :=
  record' = { record with status := record'.status, errorMessage := record'.errorMessage }

theorem TransactionRecord.SameMovement.trans {a b c : TransactionRecord} (h : a.SameMovement b)
    (h' : b.SameMovement c) : a.SameMovement c := by
  unfold SameMovement at *
  rw [h', h]

namespace TransactionRecords

/-- Every record is still there, as what it was made for. -/
def Le (records records' : TransactionRecords) : Prop :=
  ∀ transactionId record, records.get transactionId = some record →
    ∃ record', records'.get transactionId = some record' ∧ record.SameMovement record'

variable {records records' records'' : TransactionRecords}

theorem Le.refl (records : TransactionRecords) : Le records records := fun _ record h => ⟨record, h, rfl⟩

theorem Le.trans (h : Le records records') (h' : Le records' records'') : Le records records'' := by
  intro transactionId record hget
  obtain ⟨record', hget', hsame⟩ := h transactionId record hget
  obtain ⟨record'', hget'', hsame'⟩ := h' transactionId record' hget'
  exact ⟨record'', hget'', hsame.trans hsame'⟩

theorem get_reserve (input : ReserveTransactionInput) {transactionId : String} {record : TransactionRecord}
    (hget : records.get transactionId = some record) : (records.reserve input).2.get transactionId = some record := by
  unfold reserve
  split
  case h_1 => exact hget
  case h_2 hnone =>
    split
    case h_1 => exact hget
    case h_2 =>
      rw [OrderedMap.get_set_of_ne, hget]
      intro heq
      rw [heq, hget] at hnone
      cases hnone

theorem le_reserve (records : TransactionRecords) (input : ReserveTransactionInput) :
    Le records (records.reserve input).2 := fun _ record hget => ⟨record, get_reserve input hget, rfl⟩

theorem le_modify (records : TransactionRecords) (transactionId : String) {f : TransactionRecord → TransactionRecord}
    (hf : ∀ record : TransactionRecord, record.SameMovement (f record)) :
    Le records (records.modify transactionId f) := by
  intro transactionId' record hget
  rw [OrderedMap.get_modify]
  split
  case isTrue heq =>
    subst heq
    exact ⟨f record, by rw [hget]; rfl, hf record⟩
  case isFalse => exact ⟨record, hget, rfl⟩

end TransactionRecords

structure Store.Le (s s' : Store) : Prop where
  stream : ∀ streamId, s.stream streamId <+: s'.stream streamId
  transaction : ∀ {transactionId record}, s.transactions.get transactionId = some record →
    ∃ record', s'.transactions.get transactionId = some record' ∧ record.SameMovement record'

namespace Store.Le

variable {s s' s'' : Store}

theorem refl (s : Store) : s.Le s := ⟨fun _ => List.prefix_rfl, fun h => ⟨_, h, rfl⟩⟩

theorem trans (h : s.Le s') (h' : s'.Le s'') : s.Le s'' := by
  refine ⟨fun streamId => (h.stream streamId).trans (h'.stream streamId), fun hr => ?_⟩
  obtain ⟨_, h₁, hm₁⟩ := h.transaction hr
  obtain ⟨_, h₂, hm₂⟩ := h'.transaction h₁
  exact ⟨_, h₂, hm₁.trans hm₂⟩

theorem mem_stream (h : s.Le s') {streamId : String} {e : DomainEvent} (he : e ∈ s.stream streamId) :
    e ∈ s'.stream streamId := (h.stream streamId).subset he

end Store.Le

theorem Store.le_transactions {s : Store} {records : TransactionRecords}
    (h : TransactionRecords.Le s.transactions records) :
    s.Le { s with transactions := records } := ⟨fun _ => List.prefix_rfl, fun {_ _} hr => h _ _ hr⟩

theorem Store.le_modify (s : Store) (transactionId : String) {f : TransactionRecord → TransactionRecord}
    (hf : ∀ record : TransactionRecord, record.SameMovement (f record)) :
    s.Le { s with transactions := OrderedMap.modify s.transactions transactionId f } :=
  le_transactions (TransactionRecords.le_modify _ _ hf)

theorem Store.le_reserve (s : Store) (input : ReserveTransactionInput) :
    s.Le { s with transactions := (TransactionRecords.reserve s.transactions input).2 } :=
  le_transactions (TransactionRecords.le_reserve _ _)

theorem Store.le_append (s : Store) (streamId : String) (events : List DomainEvent) (expectedVersion : Nat) :
    s.Le { s with events := (s.events.append streamId events expectedVersion).2 } := by
  refine ⟨fun streamId' => ?_, fun hr => ⟨_, hr, rfl⟩⟩
  by_cases hv : expectedVersion ≠ (s.events.stream streamId).length
  · simp only [EventStore.append, if_pos hv]
    exact List.prefix_rfl
  · simp only [EventStore.append, if_neg hv]
    show _ <+: (s.write streamId events).stream streamId'
    rw [Store.stream_write]
    split
    case isTrue heq => rw [heq]; exact List.prefix_append _ _
    · exact List.prefix_rfl

/-- No call takes anything back. -/
theorem perform_le (op : StoreOp) (s : Store) : s.Le (perform op s).2 := by
  cases op with
  | append streamId events expectedVersion => exact s.le_append streamId events expectedVersion
  | reserveTransaction input => exact s.le_reserve input
  | markTransactionPending transactionId => exact s.le_modify transactionId fun _ => rfl
  | markTransactionCompleted transactionId => exact s.le_modify transactionId fun _ => rfl
  | markTransactionFailed transactionId errorMessage status => exact s.le_modify transactionId fun _ => rfl
  | _ => exact ⟨fun _ => List.prefix_rfl, fun hr => ⟨_, hr, rfl⟩⟩

theorem Exec.le {F : FaultModel} {op : StoreOp} {s s' : Store} {r : Except Failure op.Result}
    (h : Exec F op s r s') : s.Le s' := by
  cases h with
  | performed => exact perform_le op s
  | ambiguous => exact perform_le op s
  | _ => exact .refl s

structure World.Le {Req : Type} (w w' : World Req) : Prop where
  store : w.store.Le w'.store
  trace : w.trace <+: w'.trace

namespace Service

variable {Req Out G : Type} (V : Service Req Out)

def outline (idle : G) (inv : World Req → (Nat → G) → Prop) : Outline V.system G where
  idle := idle
  le := World.Le
  inv := inv
  le_refl w := ⟨.refl _, List.prefix_rfl⟩
  le_trans h h' := ⟨h.store.trans h'.store, h.trace.trans h'.trace⟩
  le_step h := ⟨h.exec.le, by rw [h.trace]; exact List.prefix_append _ _⟩

theorem trace_forall {P : Call Req → Prop}
    (hP : ∀ {i q op w r w'}, V.CallStep i q op w r w' → P ⟨i, q, op, r⟩)
    {c : Config StoreOp StoreOp.Result Failure (World Req) Req Out} (hc : V.system.Reachable c) :
    ∀ call ∈ c.state.trace, P call := by
  induction hc with
  | start => simp [System.start, system]
  | step _ hs ih =>
    cases hs with
    | spawn => exact ih
    | crash => exact ih
    | call hi hstep =>
      have hstep : V.CallStep _ _ _ _ _ _ := hstep
      intro call hcall
      dsimp only at hcall
      rw [hstep.trace] at hcall
      rcases List.mem_append.mp hcall with hcall | hcall
      · exact ih call hcall
      · rw [List.mem_singleton.mp hcall]
        exact hP hstep

/-! ## Answers for a chosen schedule -/

/-- What the stores answer, with the length of the trace as uuid and as time. -/
def reply (w : World Req) : (op : StoreOp) → Except Failure op.Result × Store
  | .randomUUID => (.ok (toString w.trace.length), w.store)
  | .now => (.ok w.trace.length, w.store)
  | op => perform op w.store

theorem exec_reply (F : FaultModel) (w : World Req) (op : StoreOp) :
    Exec F op w.store (reply w op).1 (reply w op).2 := by
  cases op with
  | randomUUID => exact .randomUUID _
  | now => exact .now _
  | _ => exact .performed (by simp)

inductive Plan where
  | answer
  | reject (message : String)
  | hold

def respond (plan : StoreOp → Plan) (i : Nat) (q : Req) (op : StoreOp) (w : World Req) :
    Option (Except Failure op.Result × World Req) :=
  match plan op with
  | .answer => some ((reply w op).1, ⟨(reply w op).2, w.trace ++ [⟨i, q, op, (reply w op).1⟩]⟩)
  | .reject message =>
    some (.error (.store message), ⟨w.store, w.trace ++ [⟨i, q, op, .error (.store message)⟩]⟩)
  | .hold => none

structure Permits (V : Service Req Out) (q : Req) (plan : StoreOp → Plan) : Prop where
  allowed : ∀ {op}, plan op ≠ .hold → ∀ s, V.allows q op s
  rejected : ∀ {op message}, plan op = .reject message → V.faults.rejected op message

theorem respond_step {V : Service Req Out} {plan : StoreOp → Plan} {i : Nat} {q : Req} (hplan : V.Permits q plan)
    {op : StoreOp} {w w' : World Req} {r : Except Failure op.Result} (h : respond plan i q op w = some (r, w')) :
    V.CallStep i q op w r w' := by
  unfold respond at h
  cases hp : plan op with
  | answer =>
    rw [hp] at h
    obtain ⟨rfl, rfl⟩ := Prod.mk.inj (Option.some.inj h)
    exact ⟨hplan.allowed (by rw [hp]; exact nofun) _, exec_reply V.faults w op, rfl⟩
  | reject message =>
    rw [hp] at h
    obtain ⟨rfl, rfl⟩ := Prod.mk.inj (Option.some.inj h)
    exact ⟨hplan.allowed (by rw [hp]; exact nofun) _, .rejected message (hplan.rejected hp), rfl⟩
  | hold => rw [hp] at h; cases h

/-- One more request is started and goes on alone for at most `n` calls. -/
def serve (V : Service Req Out) (plan : StoreOp → Plan) (n : Nat) (q : Req)
    (c : Config StoreOp StoreOp.Result Failure (World Req) Req Out) :
    Config StoreOp StoreOp.Result Failure (World Req) Req Out :=
  V.system.move (respond plan) c (.serve q n)

theorem reachable_serve {V : Service Req Out} {plan : StoreOp → Plan} (n : Nat) {q : Req}
    {c : Config StoreOp StoreOp.Result Failure (World Req) Req Out} (hc : V.system.Reachable c) (hq : V.admits q)
    (hplan : V.Permits q plan) : V.system.Reachable (V.serve plan n q c) :=
  hc.serve n hq (respond_step hplan)

theorem permits_answer {V : Service Req Out} {q : Req} (h : ∀ op s, V.allows q op s) :
    V.Permits q fun _ => .answer :=
  ⟨fun _ s => h _ s, nofun⟩

/-- Requests served one after the other, for at most `n` calls each. -/
def serveAll (V : Service Req Out) (n : Nat) (plan : Req → StoreOp → Plan) (qs : List Req) :
    Config StoreOp StoreOp.Result Failure (World Req) Req Out :=
  qs.foldl (fun c q => V.serve (plan q) n q c) V.system.start

theorem reachable_serveAll {V : Service Req Out} (n : Nat) {plan : Req → StoreOp → Plan} {qs : List Req}
    (hqs : ∀ q ∈ qs, V.admits q) (hplan : ∀ q ∈ qs, V.Permits q (plan q)) :
    V.system.Reachable (V.serveAll n plan qs) := by
  have key : ∀ {c}, V.system.Reachable c →
      V.system.Reachable (qs.foldl (fun c q => V.serve (plan q) n q c) c) := by
    induction qs with
    | nil => exact fun hc => hc
    | cons q qs ih =>
      refine fun hc => ih (fun q hq => hqs q (List.mem_cons_of_mem _ hq))
        (fun q hq => hplan q (List.mem_cons_of_mem _ hq)) ?_
      exact reachable_serve n hc (hqs q List.mem_cons_self) (hplan q List.mem_cons_self)
  exact key .start

end Service

end CoreBanking
