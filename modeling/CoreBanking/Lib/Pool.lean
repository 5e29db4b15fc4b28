import CoreBanking.Lib.Async
import Mathlib.Data.List.Basic
import Mathlib.Logic.Relation

/-!
# Pools of programs over one shared state

Any number of programs run over one state. A step starts a program for an
admitted request, lets one program make the call it waits for, or drops a
program for good, as the crash of its process does. Calls of different programs
interleave freely; a call itself is one atomic step.
-/

/-- Requests and their programs, and what a call of the `i`-th program, started
for request `q`, may answer and do to the shared state. -/
structure System (Op : Type) (Res : Op → Type) (ε σ Req Out : Type) where
  init : σ
  admits : Req → Prop
  body : Req → Async Op Res ε Out
  step : Nat → Req → (op : Op) → σ → Except ε (Res op) → σ → Prop
  crashes : Prop

structure Thread (Op : Type) (Res : Op → Type) (ε Req Out : Type) where
  request : Req
  program : Option (Async Op Res ε Out)

structure Config (Op : Type) (Res : Op → Type) (ε σ Req Out : Type) where
  state : σ
  threads : List (Thread Op Res ε Req Out)

namespace System

variable {Op : Type} {Res : Op → Type} {ε σ Req Out : Type}
variable (S : System Op Res ε σ Req Out)

def start : Config Op Res ε σ Req Out := ⟨S.init, []⟩

inductive Step : Config Op Res ε σ Req Out → Config Op Res ε σ Req Out → Prop
  | spawn {c} (q : Req) (hq : S.admits q) :
      Step c { c with threads := c.threads ++ [⟨q, some (S.body q)⟩] }
  | call {c} {i : Nat} {q : Req} {op : Op} {k : Except ε (Res op) → Async Op Res ε Out}
      {r : Except ε (Res op)} {s' : σ} (hi : c.threads[i]? = some ⟨q, some (.await op k)⟩)
      (hs : S.step i q op c.state r s') :
      Step c ⟨s', c.threads.set i ⟨q, some (k r)⟩⟩
  | crash {c} {i : Nat} {t : Thread Op Res ε Req Out} (hc : S.crashes) (hi : c.threads[i]? = some t) :
      Step c { c with threads := c.threads.set i ⟨t.request, none⟩ }

inductive Reachable : Config Op Res ε σ Req Out → Prop
  | start : Reachable S.start
  | step {c c'} : Reachable c → S.Step c c' → Reachable c'

def Quiescent (c : Config Op Res ε σ Req Out) : Prop :=
  ∀ t ∈ c.threads, ∀ p, t.program = some p → ∃ r, p = .done r

theorem quiescent_of_all {c : Config Op Res ε σ Req Out}
    (h : (c.threads.all fun t => t.program.all Async.isDone) = true) : Quiescent c := by
  intro t ht p hp
  have := List.all_eq_true.mp h t ht
  rw [hp] at this
  cases p with
  | done r => exact ⟨r, rfl⟩
  | await op k => cases this

variable {S}

theorem Reachable.spawn {c : Config Op Res ε σ Req Out} (h : S.Reachable c) {q : Req} (hq : S.admits q) :
    S.Reachable { c with threads := c.threads ++ [⟨q, some (S.body q)⟩] } :=
  .step h (.spawn q hq)

theorem Reachable.crash {c : Config Op Res ε σ Req Out} (h : S.Reachable c) (hc : S.crashes) (i : Nat) :
    S.Reachable { c with threads := c.threads.modify i fun t => ⟨t.request, none⟩ } := by
  cases hi : c.threads[i]? with
  | none =>
    have hlen := List.getElem?_eq_none_iff.mp hi
    rwa [show c.threads.modify i (fun t => ⟨t.request, none⟩) = c.threads from List.modify_eq_self hlen]
  | some t =>
    have hset : c.threads.modify i (fun t => ⟨t.request, none⟩) = c.threads.set i ⟨t.request, none⟩ := by
      rw [List.modify_eq_set_getElem?, hi]
      rfl
    rw [hset]
    exact .step h (.crash hc hi)

/-- A property that a started program has, and that calls and crashes leave to
a thread, holds of every thread. -/
theorem Reachable.threads {P : Thread Op Res ε Req Out → Prop} (hspawn : ∀ q, S.admits q → P ⟨q, some (S.body q)⟩)
    (hcall : ∀ q p p', P ⟨q, some p⟩ → P ⟨q, some p'⟩) (hcrash : S.crashes → ∀ q p, P ⟨q, p⟩ → P ⟨q, none⟩)
    {c : Config Op Res ε σ Req Out} (h : S.Reachable c) : ∀ t ∈ c.threads, P t := by
  induction h with
  | start => simp [System.start]
  | step _ hs ih =>
    intro t ht
    cases hs with
    | spawn q hq =>
      rcases List.mem_append.mp ht with ht | ht
      · exact ih t ht
      · exact List.mem_singleton.mp ht ▸ hspawn q hq
    | call hi =>
      rcases List.mem_or_eq_of_mem_set ht with ht | rfl
      · exact ih t ht
      · exact hcall _ _ _ (ih _ (List.mem_of_getElem? hi))
    | crash hc hi =>
      rcases List.mem_or_eq_of_mem_set ht with ht | rfl
      · exact ih t ht
      · exact hcrash hc _ _ (ih _ (List.mem_of_getElem? hi))

theorem Reachable.admitted {c : Config Op Res ε σ Req Out} (h : S.Reachable c) :
    ∀ t ∈ c.threads, S.admits t.request :=
  h.threads (fun _ hq => hq) (fun _ _ _ h => h) fun _ _ _ h => h

theorem Reachable.alive {c : Config Op Res ε σ Req Out} (h : S.Reachable c) (hc : ¬ S.crashes) :
    ∀ t ∈ c.threads, ∃ p, t.program = some p :=
  h.threads (fun _ _ => ⟨_, rfl⟩) (fun _ _ _ _ => ⟨_, rfl⟩) fun hcrash => absurd hcrash hc

/-- What holds of every call of the programs that are started holds of those that are left to make. -/
theorem Reachable.only {P : Req → Op → Prop} (hbody : ∀ q, S.admits q → (S.body q).Only (P q))
    {c : Config Op Res ε σ Req Out} (h : S.Reachable c) :
    ∀ t ∈ c.threads, ∀ p, t.program = some p → p.Only (P t.request) := by
  induction h with
  | start => simp [System.start]
  | step _ hs ih =>
    intro t ht p hp
    cases hs with
    | spawn q hq =>
      rcases List.mem_append.mp ht with ht | ht
      · exact ih t ht p hp
      · obtain rfl := List.mem_singleton.mp ht
        exact Option.some.inj hp ▸ hbody q hq
    | call hi =>
      rcases List.mem_or_eq_of_mem_set ht with ht | rfl
      · exact ih t ht p hp
      · exact Option.some.inj hp ▸ (ih _ (List.mem_of_getElem? hi) _ rfl).2 _
    | crash hc hi =>
      rcases List.mem_or_eq_of_mem_set ht with ht | rfl
      · exact ih t ht p hp
      · cases hp

/-- What a system reaches is reached by one that allows more. -/
theorem Reachable.mono {S' : System Op Res ε σ Req Out} (hinit : S'.init = S.init)
    (hadmits : ∀ q, S.admits q → S'.admits q) (hbody : S'.body = S.body)
    (hstep : ∀ {i q op s r s'}, S.step i q op s r s' → S'.step i q op s r s') (hcrashes : S.crashes → S'.crashes)
    {c : Config Op Res ε σ Req Out} (h : S.Reachable c) : S'.Reachable c := by
  induction h with
  | start =>
    have hstart : S'.start = S.start := by rw [System.start, System.start, hinit]
    exact hstart ▸ .start
  | step _ hs ih =>
    refine .step ih ?_
    cases hs with
    | spawn q hq => exact hbody ▸ .spawn q (hadmits q hq)
    | call hi hs => exact .call hi (hstep hs)
    | crash hc hi => exact .crash (hcrashes hc) hi

/-! ## Schedules that let one program go on alone -/

end System

namespace Async

variable {Op : Type} {Res : Op → Type} {ε σ Req Out α : Type}

/-- The program and the state after at most `n` calls, each answered by `f`, up
to the first that `f` leaves open. -/
def advance (f : (op : Op) → σ → Option (Except ε (Res op) × σ)) : Nat → Async Op Res ε α → σ → Async Op Res ε α × σ
  | 0, p, s => (p, s)
  | _ + 1, .done r, s => (.done r, s)
  | n + 1, .await op k, s =>
    match f op s with
    | some (r, s') => (k r).advance f n s'
    | none => (.await op k, s)

end Async

namespace System

variable {Op : Type} {Res : Op → Type} {ε σ Req Out : Type}
variable {S : System Op Res ε σ Req Out}

theorem set_of_getElem? {α : Type} {l : List α} {i : Nat} {a : α} (h : l[i]? = some a) : l.set i a = l := by
  obtain ⟨hi, rfl⟩ := List.getElem?_eq_some_iff.mp h
  exact List.set_getElem_self hi

theorem Reachable.trans {c c' : Config Op Res ε σ Req Out} (hc : S.Reachable c)
    (hs : Relation.ReflTransGen S.Step c c') : S.Reachable c' := by
  induction hs with
  | refl => exact hc
  | tail _ hs ih => exact .step ih hs

/-- A program that goes on alone to its end. -/
theorem steps_to_end {c : Config Op Res ε σ Req Out} {i : Nat} {q : Req} {p : Async Op Res ε Out}
    (hi : c.threads[i]? = some ⟨q, some p⟩) {r : Except ε Out} {s' : σ} (hrun : p.Runs (S.step i q) c.state r s') :
    Relation.ReflTransGen S.Step c ⟨s', c.threads.set i ⟨q, some (.done r)⟩⟩ := by
  induction p generalizing c with
  | done r' =>
    obtain ⟨rfl, rfl⟩ := hrun
    rw [set_of_getElem? hi]
  | await op k ih =>
    obtain ⟨r', s₁, hstep, hrun⟩ := hrun
    have hlt : i < c.threads.length := (List.getElem?_eq_some_iff.mp hi).1
    have hrest := ih r' (c := ⟨s₁, c.threads.set i ⟨q, some (k r')⟩⟩) (by simp [hlt]) hrun
    rw [List.set_set] at hrest
    exact .head (.call hi hstep) hrest

/-- A request that is started and goes on alone to its end. -/
theorem steps_served {c : Config Op Res ε σ Req Out} {q : Req} (hq : S.admits q) {r : Except ε Out} {s' : σ}
    (hrun : (S.body q).Runs (S.step c.threads.length q) c.state r s') :
    Relation.ReflTransGen S.Step c ⟨s', c.threads ++ [⟨q, some (.done r)⟩]⟩ := by
  have hrest := steps_to_end (S := S) (c := { c with threads := c.threads ++ [⟨q, some (S.body q)⟩] })
    (i := c.threads.length) (q := q) (by simp) hrun
  rw [List.set_append_right _ _ (Nat.le_refl _), Nat.sub_self] at hrest
  exact .head (.spawn q hq) hrest

theorem Reachable.resume {f : (op : Op) → σ → Option (Except ε (Res op) × σ)} (n : Nat)
    {c : Config Op Res ε σ Req Out} (hc : S.Reachable c) {i : Nat} {q : Req} {p : Async Op Res ε Out}
    (hi : c.threads[i]? = some ⟨q, some p⟩) (hf : ∀ {op s r s'}, f op s = some (r, s') → S.step i q op s r s') :
    S.Reachable ⟨(p.advance f n c.state).2, c.threads.set i ⟨q, some (p.advance f n c.state).1⟩⟩ := by
  induction n generalizing c p with
  | zero =>
    simpa only [Async.advance, set_of_getElem? hi] using hc
  | succ n ih =>
    cases p with
    | done r =>
      simpa only [Async.advance, set_of_getElem? hi] using hc
    | await op k =>
      have hlt : i < c.threads.length := (List.getElem?_eq_some_iff.mp hi).1
      cases hfop : f op c.state with
      | none => simpa only [Async.advance, hfop, set_of_getElem? hi] using hc
      | some p =>
        have := ih (Reachable.step hc (.call hi (hf hfop))) (p := k p.1) (by simp [hlt])
        simpa only [Async.advance, hfop, List.set_set] using this

/-- A request started on its own and let go on for at most `n` calls. -/
theorem Reachable.serve {f : (op : Op) → σ → Option (Except ε (Res op) × σ)} (n : Nat)
    {c : Config Op Res ε σ Req Out} (hc : S.Reachable c) {q : Req} (hq : S.admits q)
    (hf : ∀ {op s r s'}, f op s = some (r, s') → S.step c.threads.length q op s r s') :
    S.Reachable ⟨((S.body q).advance f n c.state).2,
      c.threads ++ [⟨q, some ((S.body q).advance f n c.state).1⟩]⟩ := by
  have h := (hc.spawn hq).resume n (i := c.threads.length) (q := q) (p := S.body q) (by simp) hf
  simpa using h

inductive Move (Req : Type) where
  | serve (q : Req) (n : Nat)
  | resume (i n : Nat)

/-- `f` answers the calls, for a program and its request. -/
def move (S : System Op Res ε σ Req Out) (f : Nat → Req → (op : Op) → σ → Option (Except ε (Res op) × σ))
    (c : Config Op Res ε σ Req Out) : Move Req → Config Op Res ε σ Req Out
  | .serve q n =>
    let p := (S.body q).advance (f c.threads.length q) n c.state
    ⟨p.2, c.threads ++ [⟨q, some p.1⟩]⟩
  | .resume i n =>
    match c.threads[i]? with
    | some ⟨q, some p⟩ =>
      let p := p.advance (f i q) n c.state
      ⟨p.2, c.threads.set i ⟨q, some p.1⟩⟩
    | _ => c

def schedule (S : System Op Res ε σ Req Out) (f : Nat → Req → (op : Op) → σ → Option (Except ε (Res op) × σ))
    (moves : List (Move Req)) : Config Op Res ε σ Req Out :=
  moves.foldl (S.move f) S.start

theorem Reachable.play {f : Nat → Req → (op : Op) → σ → Option (Except ε (Res op) × σ)}
    {c : Config Op Res ε σ Req Out} (hc : S.Reachable c) (moves : List (Move Req))
    (hadmits : ∀ q n, .serve q n ∈ moves → S.admits q)
    (hf : ∀ {i q op s r s'}, f i q op s = some (r, s') → S.step i q op s r s') :
    S.Reachable (moves.foldl (S.move f) c) := by
  induction moves generalizing c with
  | nil => exact hc
  | cons m moves ih =>
    refine ih ?_ fun q n hm => hadmits q n (List.mem_cons_of_mem _ hm)
    cases m with
    | serve q n => exact hc.serve n (hadmits q n List.mem_cons_self) hf
    | resume i n =>
      simp only [move]
      split
      case h_1 hi => exact hc.resume n hi hf
      case h_2 => exact hc

theorem reachable_schedule {f : Nat → Req → (op : Op) → σ → Option (Except ε (Res op) × σ)} (moves : List (Move Req))
    (hadmits : ∀ q n, .serve q n ∈ moves → S.admits q)
    (hf : ∀ {i q op s r s'}, f i q op s = some (r, s') → S.step i q op s r s') :
    S.Reachable (S.schedule f moves) :=
  Reachable.start.play moves hadmits hf

end System

def Thread.returned {Op : Type} {Res : Op → Type} {ε Req Out : Type} (t : Thread Op Res ε Req Out) : Bool :=
  match t.program with
  | some (.done (.ok _)) => true
  | _ => false

theorem Thread.exists_of_returned {Op : Type} {Res : Op → Type} {ε Req Out : Type} {t : Thread Op Res ε Req Out}
    (h : t.returned = true) : ∃ r, t.program = some (.done (.ok r)) := by
  unfold returned at h
  split at h
  case h_1 r hp =>
    exact ⟨r, hp⟩
  · cases h

def Thread.rejected {Op : Type} {Res : Op → Type} {ε Req Out : Type} (t : Thread Op Res ε Req Out) : Bool :=
  match t.program with
  | some (.done (.error _)) => true
  | _ => false

theorem Thread.exists_of_rejected {Op : Type} {Res : Op → Type} {ε Req Out : Type} {t : Thread Op Res ε Req Out}
    (h : t.rejected = true) : ∃ e, t.program = some (.done (.error e)) := by
  unfold rejected at h
  split at h
  case h_1 e hp =>
    exact ⟨e, hp⟩
  · cases h
