import Mathlib.Logic.Basic

/-!
# Asynchronous programs

A program is a tree of awaited calls: it has ended, with a result or with an
exception, or it waits for the answer to one call and goes on from there. The
answer may be a rejection, which is why a continuation takes an `Except`.
Nothing here says what a call does; that is the business of the step relation
a program is run with.
-/

inductive Async (Op : Type) (Res : Op → Type) (ε α : Type) : Type
  | done (r : Except ε α)
  | await (op : Op) (k : Except ε (Res op) → Async Op Res ε α)

namespace Async

variable {Op : Type} {Res : Op → Type} {ε α β : Type}

protected def bind : Async Op Res ε α → (α → Async Op Res ε β) → Async Op Res ε β
  | .done (.ok a), f => f a
  | .done (.error e), _ => .done (.error e)
  | .await op k, f => .await op fun r => (k r).bind f

protected def tryCatch : Async Op Res ε α → (ε → Async Op Res ε α) → Async Op Res ε α
  | .done (.ok a), _ => .done (.ok a)
  | .done (.error e), h => h e
  | .await op k, h => .await op fun r => (k r).tryCatch h

instance : Monad (Async Op Res ε) where
  pure a := .done (.ok a)
  bind := Async.bind

instance : MonadExceptOf ε (Async Op Res ε) where
  throw e := .done (.error e)
  tryCatch := Async.tryCatch

def call (op : Op) : Async Op Res ε (Res op) := .await op .done

/-- A synchronous computation that may throw. -/
def ofExcept (r : Except ε α) : Async Op Res ε α := .done r

def isDone : Async Op Res ε α → Bool
  | .done _ => true
  | .await .. => false

@[simp] theorem pure_bind (a : α) (f : α → Async Op Res ε β) : (pure a >>= f) = f a := rfl

@[simp] theorem throw_bind (e : ε) (f : α → Async Op Res ε β) :
    ((throw e : Async Op Res ε α) >>= f) = throw e := rfl

@[simp] theorem ofExcept_ok_bind (a : α) (f : α → Async Op Res ε β) :
    ((ofExcept (.ok a) : Async Op Res ε α) >>= f) = f a := rfl

@[simp] theorem ofExcept_error_bind (e : ε) (f : α → Async Op Res ε β) :
    ((ofExcept (.error e) : Async Op Res ε α) >>= f) = throw e := rfl

theorem bind_assoc {γ : Type} (p : Async Op Res ε α) (f : α → Async Op Res ε β) (g : β → Async Op Res ε γ) :
    p >>= f >>= g = p >>= fun a => f a >>= g := by
  show (p.bind f).bind g = p.bind fun a => (f a).bind g
  induction p with
  | done r => cases r <;> rfl
  | await op k ih => exact congrArg (await op) (funext ih)

/-! ## Programs with more calls -/

/-- The program whose calls are among those of a larger interface. -/
def along {Op' : Type} {R : Op' → Type} (f : Op → Op') : Async Op (fun op => R (f op)) ε α → Async Op' R ε α
  | .done r => .done r
  | .await op k => .await (f op) fun r => (k r).along f

theorem along_bind {Op' : Type} {R : Op' → Type} (f : Op → Op') (p : Async Op (fun op => R (f op)) ε α)
    (k : α → Async Op (fun op => R (f op)) ε β) :
    (p >>= k).along (R := R) f = p.along (R := R) f >>= fun a => (k a).along f := by
  show (p.bind k).along f = (p.along f).bind _
  induction p with
  | done r => cases r <;> rfl
  | await op k' ih => exact congrArg (await (f op)) (funext ih)

def Only (P : Op → Prop) : Async Op Res ε α → Prop
  | .done _ => True
  | .await op k => P op ∧ ∀ r, (k r).Only P

section
variable {P : Op → Prop}

theorem only_of_forall (hP : ∀ op, P op) (p : Async Op Res ε α) : p.Only P := by
  induction p with
  | done r => trivial
  | await op k ih => exact ⟨hP op, ih⟩

theorem only_call {op : Op} (h : P op) : (call op : Async Op Res ε _).Only P := ⟨h, fun _ => trivial⟩

theorem only_bind {p : Async Op Res ε α} {f : α → Async Op Res ε β} (hp : p.Only P) (hf : ∀ a, (f a).Only P) :
    (p >>= f).Only P := by
  show (p.bind f).Only P
  induction p with
  | done r =>
    cases r with
    | ok a => exact hf a
    | error e => trivial
  | await op k ih => exact ⟨hp.1, fun r => ih r (hp.2 r)⟩

theorem only_tryCatch {p : Async Op Res ε α} {h : ε → Async Op Res ε α} (hp : p.Only P) (hh : ∀ e, (h e).Only P) :
    (tryCatch p h).Only P := by
  show (p.tryCatch h).Only P
  induction p with
  | done r =>
    cases r with
    | ok a => trivial
    | error e => exact hh e
  | await op k ih => exact ⟨hp.1, fun r => ih r (hp.2 r)⟩

theorem only_along {Op' : Type} {R : Op' → Type} {f : Op → Op'} {Q : Op' → Prop}
    {p : Async Op (fun op => R (f op)) ε α} (hp : p.Only fun op => Q (f op)) : (p.along (R := R) f).Only Q := by
  induction p with
  | done r => trivial
  | await op k ih => exact ⟨hp.1, fun r => ih r (hp.2 r)⟩

end

/-! ## Running a program alone -/

def Runs {σ : Type} (step : (op : Op) → σ → Except ε (Res op) → σ → Prop) :
    Async Op Res ε α → σ → Except ε α → σ → Prop
  | .done r, s, out, s' => out = r ∧ s' = s
  | .await op k, s, out, s' => ∃ r s₁, step op s r s₁ ∧ (k r).Runs step s₁ out s'

/-- The end of `p` when it runs alone and `f` answers its calls. -/
def eval {σ : Type} (f : (op : Op) → σ → Except ε (Res op) × σ) : Async Op Res ε α → σ → Except ε α × σ
  | .done r, s => (r, s)
  | .await op k, s => (k (f op s).1).eval f (f op s).2

def Post {σ : Type} (step : (op : Op) → σ → Except ε (Res op) → σ → Prop) (p : Async Op Res ε α) (s : σ)
    (Q : Except ε α → σ → Prop) : Prop :=
  ∀ out s', p.Runs step s out s' → Q out s'

section
variable {σ : Type} {step : (op : Op) → σ → Except ε (Res op) → σ → Prop} {s : σ}

theorem runs_bind {p : Async Op Res ε α} {f : α → Async Op Res ε β} {a : α} {s₁ s' : σ} {out : Except ε β}
    (h : p.Runs step s (.ok a) s₁) (hf : (f a).Runs step s₁ out s') : (p >>= f).Runs step s out s' := by
  show (p.bind f).Runs step s out s'
  induction p generalizing s with
  | done r =>
    obtain ⟨rfl, rfl⟩ := h
    exact hf
  | await op k ih =>
    obtain ⟨r, s₂, hr, h⟩ := h
    exact ⟨r, s₂, hr, ih r h⟩

theorem eval_bind (f : (op : Op) → σ → Except ε (Res op) × σ) (p : Async Op Res ε α) (k : α → Async Op Res ε β) :
    (p >>= k).eval f s = match p.eval f s with
      | (.ok a, s') => (k a).eval f s'
      | (.error e, s') => (.error e, s') := by
  show (p.bind k).eval f s = _
  induction p generalizing s with
  | done r => cases r <;> rfl
  | await op k' ih => exact ih _

theorem eval_along {Op' : Type} {R : Op' → Type} (g : Op → Op') (f : (op : Op') → σ → Except ε (R op) × σ)
    (p : Async Op (fun op => R (g op)) ε α) (s : σ) :
    (p.along (R := R) g).eval f s = p.eval (fun op => f (g op)) s := by
  induction p generalizing s with
  | done r => rfl
  | await op k ih => exact ih _ _

theorem eval_preserves {f : (op : Op) → σ → Except ε (Res op) × σ} {P : σ → Prop} (hf : ∀ op s, P s → P (f op s).2)
    (p : Async Op Res ε α) (hs : P s) : P (p.eval f s).2 := by
  induction p generalizing s with
  | done r => exact hs
  | await op k ih => exact ih _ (hf op s hs)

theorem runs_eval {f : (op : Op) → σ → Except ε (Res op) × σ} (hf : ∀ op s, step op s (f op s).1 (f op s).2)
    (p : Async Op Res ε α) (s : σ) : p.Runs step s (p.eval f s).1 (p.eval f s).2 := by
  induction p generalizing s with
  | done r => exact ⟨rfl, rfl⟩
  | await op k ih => exact ⟨_, _, hf op s, ih _ _⟩

/-- A program ends if every call is answered. -/
theorem exists_run (hstep : ∀ op s, ∃ r s', step op s r s') (p : Async Op Res ε α) (s : σ) :
    ∃ out s', p.Runs step s out s' := by
  induction p generalizing s with
  | done r => exact ⟨r, s, rfl, rfl⟩
  | await op k ih =>
    obtain ⟨r, s₁, hr⟩ := hstep op s
    obtain ⟨out, s', h⟩ := ih r s₁
    exact ⟨out, s', r, s₁, hr, h⟩

theorem post_done {r : Except ε α} {Q : Except ε α → σ → Prop} (h : Q r s) :
    (Async.done r : Async Op Res ε α).Post step s Q := by
  rintro _ _ ⟨rfl, rfl⟩
  exact h

theorem post_pure {a : α} {Q : Except ε α → σ → Prop} (h : Q (.ok a) s) :
    (pure a : Async Op Res ε α).Post step s Q := post_done h

theorem post_throw {e : ε} {Q : Except ε α → σ → Prop} (h : Q (.error e) s) :
    (throw e : Async Op Res ε α).Post step s Q := post_done h

theorem post_ofExcept {r : Except ε α} {Q : Except ε α → σ → Prop} (h : Q r s) :
    (ofExcept r : Async Op Res ε α).Post step s Q := post_done h

theorem post_await {op : Op} {k : Except ε (Res op) → Async Op Res ε α} {Q : Except ε α → σ → Prop}
    (h : ∀ r s₁, step op s r s₁ → (k r).Post step s₁ Q) : (Async.await op k).Post step s Q := by
  rintro out s' ⟨r, s₁, hr, hk⟩
  exact h r s₁ hr out s' hk

theorem post_call {op : Op} {Q : Except ε (Res op) → σ → Prop} (h : ∀ r s', step op s r s' → Q r s') :
    (call op : Async Op Res ε _).Post step s Q :=
  post_await fun r s₁ hr => post_done (h r s₁ hr)

theorem post_mono {p : Async Op Res ε α} {Q Q' : Except ε α → σ → Prop} (hQ : ∀ r s', Q r s' → Q' r s')
    (h : p.Post step s Q) : p.Post step s Q' :=
  fun out s' hrun => hQ out s' (h out s' hrun)

theorem post_bind {p : Async Op Res ε α} {f : α → Async Op Res ε β} {Q : Except ε β → σ → Prop}
    (h : p.Post step s fun r s' => match r with
      | .ok a => (f a).Post step s' Q
      | .error e => Q (.error e) s') : (p >>= f).Post step s Q := by
  show (p.bind f).Post step s Q
  induction p generalizing s with
  | done r =>
    cases r with
    | ok a => exact h _ _ ⟨rfl, rfl⟩
    | error e => exact post_done (h _ _ ⟨rfl, rfl⟩)
  | await op k ih =>
    exact post_await fun r s₁ hr => ih r fun out s' hrun => h out s' ⟨r, s₁, hr, hrun⟩

theorem post_tryCatch {p : Async Op Res ε α} {f : ε → Async Op Res ε α} {Q : Except ε α → σ → Prop}
    (h : p.Post step s fun r s' => match r with
      | .ok a => Q (.ok a) s'
      | .error e => (f e).Post step s' Q) : (tryCatch p f).Post step s Q := by
  show (p.tryCatch f).Post step s Q
  induction p generalizing s with
  | done r =>
    cases r with
    | ok a => exact post_done (h _ _ ⟨rfl, rfl⟩)
    | error e => exact h _ _ ⟨rfl, rfl⟩
  | await op k ih =>
    exact post_await fun r s₁ hr => ih r fun out s' hrun => h out s' ⟨r, s₁, hr, hrun⟩

end

/-! ## What a program may end with -/

/-- `p` may end with `r`, when each call may be answered with all that `answer` allows. -/
def MayEnd (answer : (op : Op) → Except ε (Res op) → Prop) : Async Op Res ε α → Except ε α → Prop
  | .done r, r' => r' = r
  | .await op k, r' => ∃ r, answer op r ∧ (k r).MayEnd answer r'

section
variable {answer : (op : Op) → Except ε (Res op) → Prop}

@[simp] theorem mayEnd_pure {a : α} {r : Except ε α} :
    (pure a : Async Op Res ε α).MayEnd answer r ↔ r = .ok a := Iff.rfl

@[simp] theorem mayEnd_throw {e : ε} {r : Except ε α} :
    (throw e : Async Op Res ε α).MayEnd answer r ↔ r = .error e := Iff.rfl

@[simp] theorem mayEnd_ofExcept {r r' : Except ε α} :
    (ofExcept r : Async Op Res ε α).MayEnd answer r' ↔ r' = r := Iff.rfl

@[simp] theorem mayEnd_call {op : Op} {r : Except ε (Res op)} :
    (call op : Async Op Res ε _).MayEnd answer r ↔ answer op r := by
  constructor
  · rintro ⟨r', hr, rfl⟩
    exact hr
  · exact fun h => ⟨r, h, rfl⟩

theorem mayEnd_bind {p : Async Op Res ε α} {f : α → Async Op Res ε β} {r : Except ε β} :
    (p >>= f).MayEnd answer r ↔ (∃ a, p.MayEnd answer (.ok a) ∧ (f a).MayEnd answer r) ∨
      ∃ e, p.MayEnd answer (.error e) ∧ r = .error e := by
  show (p.bind f).MayEnd answer r ↔ _
  induction p with
  | done r' =>
    cases r' with
    | ok a => simp [Async.bind, MayEnd]
    | error e => simp [Async.bind, MayEnd]
  | await op k ih =>
    simp only [Async.bind, MayEnd, ih]
    constructor
    · rintro ⟨r', hr', ⟨a, ha, hf⟩ | ⟨e, he, rfl⟩⟩
      · exact .inl ⟨a, ⟨r', hr', ha⟩, hf⟩
      · exact .inr ⟨e, ⟨r', hr', he⟩, rfl⟩
    · rintro (⟨a, ⟨r', hr', ha⟩, hf⟩ | ⟨e, ⟨r', hr', he⟩, rfl⟩)
      · exact ⟨r', hr', .inl ⟨a, ha, hf⟩⟩
      · exact ⟨r', hr', .inr ⟨e, he, rfl⟩⟩

theorem mayEnd_tryCatch {p : Async Op Res ε α} {f : ε → Async Op Res ε α} {r : Except ε α} :
    (tryCatch p f).MayEnd answer r ↔ (∃ a, p.MayEnd answer (.ok a) ∧ r = .ok a) ∨
      ∃ e, p.MayEnd answer (.error e) ∧ (f e).MayEnd answer r := by
  show (p.tryCatch f).MayEnd answer r ↔ _
  induction p with
  | done r' =>
    cases r' with
    | ok a => simp [Async.tryCatch, MayEnd]
    | error e => simp [Async.tryCatch, MayEnd]
  | await op k ih =>
    simp only [Async.tryCatch, MayEnd, ih]
    constructor
    · rintro ⟨r', hr', ⟨a, ha, rfl⟩ | ⟨e, he, hf⟩⟩
      · exact .inl ⟨a, ⟨r', hr', ha⟩, rfl⟩
      · exact .inr ⟨e, ⟨r', hr', he⟩, hf⟩
    · rintro (⟨a, ⟨r', hr', ha⟩, rfl⟩ | ⟨e, ⟨r', hr', he⟩, hf⟩)
      · exact ⟨r', hr', .inl ⟨a, ha, rfl⟩⟩
      · exact ⟨r', hr', .inr ⟨e, he, hf⟩⟩

end

end Async
