import CoreBanking.Lib.Pool
import Mathlib.Data.List.Forall2
import Mathlib.Data.List.OfFn
import Mathlib.Logic.Function.Basic

/-!
# Two implementations of one interface

Programs are written against an interface whose methods are programs in turn.
A system in which a method takes many steps, with those of other programs in
between, refines a system in which the methods of another implementation are
run at one go, if each method has one point at which it happens. What a method
will answer need not be settled at that point, as long as every answer still
possible could have been given there.
-/

namespace Async

variable {Op Op' M : Type} {Res : Op → Type} {Res' : Op' → Type} {R : M → Type} {ε α β : Type}

def andThen : Async Op Res ε α → (Except ε α → Async Op Res ε β) → Async Op Res ε β
  | .done r, f => f r
  | .await op k, f => .await op fun r => (k r).andThen f

def expand (impl : (m : M) → Async Op Res ε (R m)) : Async M R ε α → Async Op Res ε α
  | .done r => .done r
  | .await m k => (impl m).andThen fun r => (k r).expand impl

theorem andThen_done (p : Async Op Res ε α) : p.andThen .done = p := by
  induction p with
  | done r => rfl
  | await op k ih => exact congrArg (await op) (funext ih)

theorem andThen_bind (p : Async Op Res ε α) (f : Except ε α → Async Op Res ε β) {γ : Type}
    (g : β → Async Op Res ε γ) : p.andThen f >>= g = p.andThen fun r => f r >>= g := by
  induction p with
  | done r => rfl
  | await op k ih => exact congrArg (await op) (funext ih)

theorem andThen_tryCatch (p : Async Op Res ε α) (f : Except ε α → Async Op Res ε β) (g : ε → Async Op Res ε β) :
    tryCatch (p.andThen f) g = p.andThen fun r => tryCatch (f r) g := by
  induction p with
  | done r => rfl
  | await op k ih => exact congrArg (await op) (funext ih)

section
variable (impl : (m : M) → Async Op Res ε (R m))

theorem expand_bind (p : Async M R ε α) (f : α → Async M R ε β) :
    (p >>= f).expand impl = p.expand impl >>= fun a => (f a).expand impl := by
  show (p.bind f).expand impl = _
  induction p with
  | done r => cases r <;> rfl
  | await m k ih =>
    show (impl m).andThen _ = (impl m).andThen _ >>= _
    rw [andThen_bind]
    exact congrArg _ (funext ih)

theorem expand_tryCatch (p : Async M R ε α) (f : ε → Async M R ε α) :
    (tryCatch p f).expand impl = tryCatch (p.expand impl) fun e => (f e).expand impl := by
  show (p.tryCatch f).expand impl = _
  induction p with
  | done r => cases r <;> rfl
  | await m k ih =>
    show (impl m).andThen _ = tryCatch ((impl m).andThen _) _
    rw [andThen_tryCatch]
    exact congrArg _ (funext ih)

theorem expand_call (m : M) : (call m : Async M R ε _).expand impl = impl m := andThen_done _

theorem expand_andThen (p : Async M R ε α) (f : Except ε α → Async M R ε β) :
    (p.andThen f).expand impl = (p.expand impl).andThen fun r => (f r).expand impl := by
  induction p with
  | done r => rfl
  | await m k ih =>
    show (impl m).andThen _ = ((impl m).andThen _).andThen _
    rw [funext ih]
    generalize impl m = q
    induction q with
    | done r => rfl
    | await op k' ih' => exact congrArg (await op) (funext ih')

theorem expand_expand (impl' : (op : Op) → Async Op' Res' ε (Res op)) (p : Async M R ε α) :
    (p.expand impl).expand impl' = p.expand fun m => (impl m).expand impl' := by
  induction p with
  | done r => rfl
  | await m k ih =>
    show ((impl m).andThen _).expand impl' = ((impl m).expand impl').andThen _
    rw [expand_andThen, funext ih]

end

/-! ## Programs written against an interface -/

/-- Every call has `P`, and answers that are alike are not told apart. -/
def Fits (P : M → Prop) (like : (m : M) → R m → R m → Prop) : Async M R ε α → Prop
  | .done _ => True
  | .await m k => P m ∧ (∀ a a', like m a a' → k (.ok a) = k (.ok a')) ∧ ∀ r, (k r).Fits P like

/-- `p` is a program against the interface, with its methods in the place of its calls. -/
def Against (impl : (m : M) → Async Op Res ε (R m)) (P : M → Prop) (like : (m : M) → R m → R m → Prop)
    (p : Async Op Res ε α) : Prop := ∃ q : Async M R ε α, q.Fits P like ∧ p = q.expand impl

section
variable {impl : (m : M) → Async Op Res ε (R m)} {P : M → Prop} {like : (m : M) → R m → R m → Prop}

theorem fits_bind {p : Async M R ε α} {f : α → Async M R ε β} (hp : p.Fits P like) (hf : ∀ a, (f a).Fits P like) :
    (p >>= f).Fits P like := by
  show (p.bind f).Fits P like
  induction p with
  | done r =>
    cases r with
    | ok a => exact hf a
    | error e => trivial
  | await m k ih =>
    exact ⟨hp.1, fun a a' h => congrArg (Async.bind · f) (hp.2.1 a a' h), fun r => ih r (hp.2.2 r)⟩

theorem fits_tryCatch {p : Async M R ε α} {f : ε → Async M R ε α} (hp : p.Fits P like)
    (hf : ∀ e, (f e).Fits P like) : (tryCatch p f).Fits P like := by
  show (p.tryCatch f).Fits P like
  induction p with
  | done r =>
    cases r with
    | ok a => trivial
    | error e => exact hf e
  | await m k ih =>
    exact ⟨hp.1, fun a a' h => congrArg (Async.tryCatch · f) (hp.2.1 a a' h), fun r => ih r (hp.2.2 r)⟩

theorem against_done (r : Except ε α) : (Async.done r : Async Op Res ε α).Against impl P like := ⟨.done r, trivial, rfl⟩

theorem against_pure (a : α) : (pure a : Async Op Res ε α).Against impl P like := against_done _

theorem against_throw (e : ε) : (throw e : Async Op Res ε α).Against impl P like := against_done _

theorem against_bind {p : Async Op Res ε α} {f : α → Async Op Res ε β} (hp : p.Against impl P like)
    (hf : ∀ a, (f a).Against impl P like) : (p >>= f).Against impl P like := by
  obtain ⟨q, hq, rfl⟩ := hp
  choose g hg hfg using hf
  refine ⟨q >>= g, fits_bind hq hg, ?_⟩
  rw [expand_bind]
  exact congrArg (_ >>= ·) (funext hfg)

theorem against_tryCatch {p : Async Op Res ε α} {f : ε → Async Op Res ε α} (hp : p.Against impl P like)
    (hf : ∀ e, (f e).Against impl P like) : (tryCatch p f).Against impl P like := by
  obtain ⟨q, hq, rfl⟩ := hp
  choose g hg hfg using hf
  refine ⟨tryCatch q g, fits_tryCatch hq hg, ?_⟩
  rw [expand_tryCatch]
  exact congrArg (tryCatch _) (funext hfg)

/-- A method whose answer is looked at no closer than `like` does. -/
theorem against_method {m : M} {f : R m → α} (hm : P m) (hf : ∀ a a', like m a a' → f a = f a') :
    (impl m >>= fun a => pure (f a) : Async Op Res ε α).Against impl P like := by
  refine ⟨call m >>= fun a => pure (f a), ⟨hm, fun a a' h => ?_, fun r => ?_⟩, ?_⟩
  · show (Async.done (.ok (f a)) : Async M R ε α) = .done (.ok (f a'))
    rw [hf a a' h]
  · cases r <;> trivial
  · rw [expand_bind, expand_call]
    rfl

theorem against_call {m : M} (hm : P m) (hlike : ∀ a a', like m a a' → a = a') :
    (impl m).Against impl P like :=
  ⟨call m, ⟨hm, fun a a' h => congrArg (done ∘ Except.ok) (hlike a a' h), fun _ => trivial⟩,
    (expand_call impl m).symm⟩

end

end Async

/-! ## Runs at one go -/

section
variable {Op : Type} {Res : Op → Type} {ε σ Req Out : Type} {S : System Op Res ε σ Req Out}

theorem System.Reachable.run {α : Type} {p : Async Op Res ε α} {s s' : σ} {r : Except ε α}
    {ts : List (Thread Op Res ε Req Out)} {i : Nat} {q : Req} {f : Except ε α → Async Op Res ε Out}
    (hc : S.Reachable ⟨s, ts⟩) (hi : ts[i]? = some ⟨q, some (p.andThen f)⟩) (hrun : p.Runs (S.step i q) s r s') :
    S.Reachable ⟨s', ts.set i ⟨q, some (f r)⟩⟩ := by
  induction p generalizing s ts with
  | done r' =>
    obtain ⟨rfl, rfl⟩ := hrun
    have hi : ts[i]? = some ⟨q, some (f r)⟩ := hi
    rwa [System.set_of_getElem? hi]
  | await op k ih =>
    obtain ⟨r', s₁, hstep, hrun⟩ := hrun
    have hlt : i < ts.length := (List.getElem?_eq_some_iff.mp hi).1
    have hnext := ih r' (.step hc (.call hi hstep)) (by simp [hlt]) hrun
    rwa [List.set_set] at hnext

end

/-- The threads have been asked the same, and if the one has ended or crashed, so
has the other. -/
structure Thread.Mirrors {Op Op' : Type} {Res : Op → Type} {Res' : Op' → Type} {ε Req Out : Type}
    (t : Thread Op' Res' ε Req Out) (t' : Thread Op Res ε Req Out) : Prop where
  request : t'.request = t.request
  ended : ∀ r, t.program = some (.done r) → t'.program = some (.done r)
  crashed : t.program = none ↔ t'.program = none

/-- A system `C` against a system `A`, with what is seen of the state of `A`,
ghosts for the programs of `C`, an invariant, and the answers that programs take
for the same. -/
structure Simulation {Op Op' M : Type} {Res : Op → Type} {Res' : Op' → Type} {ε σ σ' Req Out : Type}
    (A : System Op Res ε σ Req Out) (C : System Op' Res' ε σ' Req Out) (R : M → Type) (V G : Type) where
  abstract : (m : M) → Async Op Res ε (R m)
  concrete : (m : M) → Async Op' Res' ε (R m)
  view : σ → V
  idle : G
  inv : σ' → V → (Nat → G) → Prop
  like : (m : M) → R m → R m → Prop
  uses : Req → M → Prop

namespace Simulation

variable {Op Op' M : Type} {Res : Op → Type} {Res' : Op' → Type} {ε σ σ' Req Out : Type}
variable {A : System Op Res ε σ Req Out} {C : System Op' Res' ε σ' Req Out} {R : M → Type} {V G : Type}
variable (L : Simulation A C R V G)

/-- What a method may still answer, once it has happened. -/
abbrev Status (_ : Simulation A C R V G) (m : M) : Type := Option (Except ε (R m) → Prop)

/-- The method may have answered anything that `answers` allows, and leaves `v'`. -/
structure Happens (i : Nat) (q : Req) (m : M) (v v' : V) (answers : Except ε (R m) → Prop) : Prop where
  some : ∃ r, answers r
  run : ∀ r, answers r → ∀ s, L.view s = v → ∃ s', L.view s' = v' ∧ (L.abstract m).Runs (A.step i q) s r s'

inductive Advances (i : Nat) (q : Req) (m : M) (v : V) : L.Status m → V → L.Status m → Prop
  | stays (st) : Advances i q m v st v st
  | happens {answers v'} : L.Happens i q m v v' answers → Advances i q m v none v' (some answers)

/-- What has to hold of a part of the method `m`, with ghost `g`, for it to keep
the invariant and end in `Q`. -/
def wp {α : Type} (q : Req) (m : M) : Async Op' Res' ε α → L.Status m → G → (L.Status m → G → Except ε α → Prop) → Prop
  | .done r, st, g, Q => Q st g r
  | .await op k, st, g, Q => ∀ i s v gs, L.inv s v gs → gs i = g → ∀ r s', C.step i q op s r s' →
      ∃ v' st' g', L.Advances i q m v st v' st' ∧ L.inv s' v' (Function.update gs i g') ∧ wp q m (k r) st' g' Q

/-- The two implementations of an answer agree as far as programs look. -/
def Alike (m : M) : Except ε (R m) → Except ε (R m) → Prop
  | .ok a, .ok a' => L.like m a a'
  | r, r' => r = r'

/-- The method has happened, and answers what it may. -/
def Ends (m : M) (st : L.Status m) (g : G) (r : Except ε (R m)) : Prop :=
  g = L.idle ∧ ∃ answers r', st = some answers ∧ answers r' ∧ L.Alike m r r'

def Implements (q : Req) (m : M) : Prop := L.wp q m (L.concrete m) none L.idle (L.Ends m)

variable {L} {α β : Type} {q : Req} {m : M} {st : L.Status m} {g : G}

theorem wp_mono {p : Async Op' Res' ε α} {Q Q' : L.Status m → G → Except ε α → Prop}
    (hQ : ∀ st g r, Q st g r → Q' st g r) (h : L.wp q m p st g Q) : L.wp q m p st g Q' := by
  induction p generalizing st g with
  | done r => exact hQ st g r h
  | await op k ih =>
    intro i s v gs hinv hg r s' hstep
    obtain ⟨v', st', g', hadvances, hinv', hk⟩ := h i s v gs hinv hg r s' hstep
    exact ⟨v', st', g', hadvances, hinv', ih r hk⟩

theorem wp_bind {p : Async Op' Res' ε α} {f : α → Async Op' Res' ε β} {Q : L.Status m → G → Except ε β → Prop}
    (h : L.wp q m p st g fun st' g' r => match r with
      | .ok a => L.wp q m (f a) st' g' Q
      | .error e => Q st' g' (.error e)) : L.wp q m (p >>= f) st g Q := by
  show L.wp q m (p.bind f) st g Q
  induction p generalizing st g with
  | done r => cases r <;> exact h
  | await op k ih =>
    intro i s v gs hinv hg r s' hstep
    obtain ⟨v', st', g', hadvances, hinv', hk⟩ := h i s v gs hinv hg r s' hstep
    exact ⟨v', st', g', hadvances, hinv', ih r hk⟩

theorem wp_tryCatch {p : Async Op' Res' ε α} {f : ε → Async Op' Res' ε α} {Q : L.Status m → G → Except ε α → Prop}
    (h : L.wp q m p st g fun st' g' r => match r with
      | .ok a => Q st' g' (.ok a)
      | .error e => L.wp q m (f e) st' g' Q) : L.wp q m (tryCatch p f) st g Q := by
  show L.wp q m (p.tryCatch f) st g Q
  induction p generalizing st g with
  | done r => cases r <;> exact h
  | await op k ih =>
    intro i s v gs hinv hg r s' hstep
    obtain ⟨v', st', g', hadvances, hinv', hk⟩ := h i s v gs hinv hg r s' hstep
    exact ⟨v', st', g', hadvances, hinv', ih r hk⟩

theorem wp_call {op : Op'} {Q : L.Status m → G → Except ε (Res' op) → Prop}
    (h : ∀ i s v gs, L.inv s v gs → gs i = g → ∀ r s', C.step i q op s r s' →
      ∃ v' st' g', L.Advances i q m v st v' st' ∧ L.inv s' v' (Function.update gs i g') ∧ Q st' g' r) :
    L.wp q m (Async.call op) st g Q := h

/-! ## Putting the methods together -/

/-- What a program of `C` may stand for in `A`, with ghost `g`. -/
inductive Follows (L : Simulation A C R V G) (q : Req) :
    Async Op' Res' ε Out → G → (Async Op Res ε Out → Prop) → Prop
  | ended (r) : Follows L q (.done r) L.idle fun p => p = .done r
  | pending {m op kp g k} : L.wp q m (.await op kp) none g (L.Ends m) →
      (Async.await m k : Async M R ε Out).Fits (L.uses q) L.like →
      Follows L q (.await op fun r => (kp r).andThen fun r => (k r).expand L.concrete) g fun p =>
        p = (L.abstract m).andThen fun r => (k r).expand L.abstract
  | happened {m op kp g k answers} : L.wp q m (.await op kp) (some answers) g (L.Ends m) → (∃ r, answers r) →
      (Async.await m k : Async M R ε Out).Fits (L.uses q) L.like →
      Follows L q (.await op fun r => (kp r).andThen fun r => (k r).expand L.concrete) g fun p =>
        ∃ r, answers r ∧ p = (k r).expand L.abstract

theorem Follows.exists {p : Async Op' Res' ε Out} {ps : Async Op Res ε Out → Prop} (h : Follows L q p g ps) :
    ∃ p', ps p' := by
  cases h with
  | ended => exact ⟨_, rfl⟩
  | pending => exact ⟨_, rfl⟩
  | happened _ hsome =>
    obtain ⟨r, hr⟩ := hsome
    exact ⟨_, r, hr, rfl⟩

inductive Stands (L : Simulation A C R V G) :
    Thread Op' Res' ε Req Out → G → (Option (Async Op Res ε Out) → Prop) → Prop
  | crashed (request ghost) : Stands L ⟨request, none⟩ ghost fun p => p = none
  | follows {request p ghost ps} : Follows L request p ghost ps →
      Stands L ⟨request, some p⟩ ghost fun p' => ∃ p, p' = some p ∧ ps p

theorem Stands.exists {t : Thread Op' Res' ε Req Out} {ps : Option (Async Op Res ε Out) → Prop} (h : Stands L t g ps) :
    ∃ p, ps p := by
  cases h with
  | crashed => exact ⟨none, rfl⟩
  | follows h =>
    obtain ⟨p, hp⟩ := h.exists
    exact ⟨some p, p, rfl, hp⟩

theorem Stands.mirrored {t : Thread Op' Res' ε Req Out} {ps : Option (Async Op Res ε Out) → Prop}
    (h : Stands L t g ps) : ∃ t', t.Mirrors t' ∧ ps t'.program := by
  cases h with
  | crashed q => exact ⟨⟨q, none⟩, ⟨rfl, nofun, by simp⟩, rfl⟩
  | @follows q p _ _ h =>
    obtain ⟨p', hp'⟩ := h.exists
    refine ⟨⟨q, some p'⟩, ⟨rfl, fun r hr => ?_, by simp⟩, p', rfl, hp'⟩
    obtain rfl := Option.some.inj hr
    cases h
    rw [hp']

/-- Whichever of the possible programs its threads stand for, the configuration
of `A` can be reached. -/
structure Tied (L : Simulation A C R V G) (c : Config Op' Res' ε σ' Req Out) (v : V) (gs : Nat → G)
    (pss : Nat → Option (Async Op Res ε Out) → Prop) : Prop where
  inv : L.inv c.state v gs
  fresh : ∀ i, c.threads.length ≤ i → gs i = L.idle
  stands : ∀ i t, c.threads[i]? = some t → Stands L t (gs i) (pss i)
  reach : ∀ ts : List (Thread Op Res ε Req Out), ts.length = c.threads.length →
    (∀ (i : Nat) t t', c.threads[i]? = some t → ts[i]? = some t' → t'.request = t.request ∧ pss i t'.program) →
    ∃ x, L.view x = v ∧ A.Reachable ⟨x, ts⟩

/-- The configurations reached so far are reached with one thread put back. -/
theorem Tied.reach_set {c : Config Op' Res' ε σ' Req Out} {v : V} {gs : Nat → G}
    {pss : Nat → Option (Async Op Res ε Out) → Prop} (h : Tied L c v gs pss)
    {i : Nat} {t t' : Thread Op' Res' ε Req Out}
    (hi : c.threads[i]? = some t) {ps : Option (Async Op Res ε Out) → Prop} {ts : List (Thread Op Res ε Req Out)}
    (hlen : ts.length = (c.threads.set i t').length)
    (hts : ∀ (j : Nat) u u', (c.threads.set i t')[j]? = some u → ts[j]? = some u' → u'.request = u.request ∧
      (Function.update pss i ps) j u'.program) {p : Option (Async Op Res ε Out)} (hp : pss i p) :
    ∃ x, L.view x = v ∧ A.Reachable ⟨x, ts.set i ⟨t.request, p⟩⟩ := by
  have hlt : i < c.threads.length := (List.getElem?_eq_some_iff.mp hi).1
  rw [List.length_set] at hlen
  refine h.reach _ (by rw [List.length_set, hlen]) fun j u u' hu hu' => ?_
  by_cases hij : i = j
  · subst hij
    obtain rfl := Option.some.inj (hi.symm.trans hu)
    rw [List.getElem?_set_self (by omega)] at hu'
    obtain rfl := Option.some.inj hu'
    exact ⟨rfl, hp⟩
  · rw [List.getElem?_set_ne hij] at hu'
    have hkept := hts j u u' (by rw [List.getElem?_set_ne hij, hu]) hu'
    rwa [Function.update_of_ne (Ne.symm hij)] at hkept

section
variable (himpl : ∀ q m, L.uses q m → L.Implements q m)
include himpl

/-- A program against the interface, in both implementations. -/
theorem follows_expand {p : Async M R ε Out} (hp : p.Fits (L.uses q) L.like) :
    Follows L q (p.expand L.concrete) L.idle fun p' => p' = p.expand L.abstract := by
  cases p with
  | done r => exact .ended r
  | await m k =>
    have hm : L.Implements q m := himpl q m hp.1
    unfold Implements at hm
    show Follows L q ((L.concrete m).andThen _) _ _
    cases hc : L.concrete m with
    | done r =>
      rw [hc] at hm
      obtain ⟨_, _, _, hst, _⟩ : L.Ends m none L.idle r := hm
      cases hst
    | await op kp =>
      rw [hc] at hm
      exact .pending hm hp

/-- What remains of a method, if anything does, and the rest of the program. -/
theorem follows_andThen {p : Async Op' Res' ε (R m)} {k : Except ε (R m) → Async M R ε Out}
    (hk : (Async.await m k : Async M R ε Out).Fits (L.uses q) L.like) (hp : L.wp q m p st g (L.Ends m))
    (hst : ∀ answers, st = some answers → ∃ r, answers r) :
    ∃ ps, Follows L q (p.andThen fun r => (k r).expand L.concrete) g ps ∧ ∀ p', ps p' → match st with
      | none => p' = (L.abstract m).andThen fun r => (k r).expand L.abstract
      | some answers => ∃ r, answers r ∧ p' = (k r).expand L.abstract := by
  cases p with
  | done r =>
    obtain ⟨rfl, answers, r', rfl, hr', hlike⟩ := hp
    have hsame : k r = k r' := by
      unfold Alike at hlike
      split at hlike
      · exact hk.2.1 _ _ hlike
      · rw [hlike]
    refine ⟨_, follows_expand himpl (hk.2.2 r), fun p' hp' => ⟨r', hr', ?_⟩⟩
    rw [hp', hsame]
  | await op kp =>
    cases st with
    | none => exact ⟨_, .pending hp hk, fun _ h => h⟩
    | some answers => exact ⟨_, .happened hp (hst answers rfl) hk, fun _ h => h⟩

/-- A step of a program of `C` is some steps of what it stands for, or none. -/
theorem Follows.step {op : Op'} {kc : Except ε (Res' op) → Async Op' Res' ε Out} {ps : Async Op Res ε Out → Prop}
    (h : Follows L q (.await op kc) g ps) {i : Nat} {s : σ'} {v : V} {gs : Nat → G} (hinv : L.inv s v gs)
    (hg : gs i = g) {r : Except ε (Res' op)} {s' : σ'} (hstep : C.step i q op s r s') :
    ∃ v' g' ps', L.inv s' v' (Function.update gs i g') ∧ Follows L q (kc r) g' ps' ∧
      ∀ p', ps' p' → ∃ p, ps p ∧ ∀ {x ts}, L.view x = v → A.Reachable ⟨x, ts⟩ → ts[i]? = some ⟨q, some p⟩ →
        ∃ x', L.view x' = v' ∧ A.Reachable ⟨x', ts.set i ⟨q, some p'⟩⟩ := by
  cases h with
  | @pending m _ kp _ k hwp hfits =>
    obtain ⟨v', st', g', hadvances, hinv', hk⟩ := hwp i s v gs hinv hg r s' hstep
    refine ⟨v', g', ?_⟩
    cases hadvances with
    | stays =>
      obtain ⟨ps', hps', hall⟩ := follows_andThen himpl hfits hk (fun _ h => by cases h)
      refine ⟨ps', hinv', hps', fun p' hp' => ⟨_, rfl, fun {x ts} hx hc hi => ⟨x, hx, ?_⟩⟩⟩
      rwa [hall p' hp', System.set_of_getElem? hi]
    | @happens answers _ hhappens =>
      obtain ⟨ps', hps', hall⟩ := follows_andThen himpl hfits hk fun _ h => Option.some.inj h ▸ hhappens.some
      refine ⟨ps', hinv', hps', fun p' hp' => ⟨_, rfl, fun {x ts} hx hc hi => ?_⟩⟩
      obtain ⟨r', hr', rfl⟩ := hall p' hp'
      obtain ⟨x', hx', hrun⟩ := hhappens.run r' hr' x hx
      exact ⟨x', hx', hc.run hi hrun⟩
  | @happened m _ kp _ k answers hwp hsome hfits =>
    obtain ⟨v', st', g', hadvances, hinv', hk⟩ := hwp i s v gs hinv hg r s' hstep
    refine ⟨v', g', ?_⟩
    cases hadvances with
    | stays =>
      obtain ⟨ps', hps', hall⟩ := follows_andThen himpl hfits hk fun _ h => Option.some.inj h ▸ hsome
      refine ⟨ps', hinv', hps', fun p' hp' => ⟨p', hall p' hp', fun {x ts} hx hc hi => ⟨x, hx, ?_⟩⟩⟩
      rwa [System.set_of_getElem? hi]

variable (hadmits : ∀ q, C.admits q → A.admits q) (hcrashes : C.crashes → A.crashes)
  (hbody : ∀ q, C.admits q → ∃ p : Async M R ε Out, p.Fits (L.uses q) L.like ∧ A.body q = p.expand L.abstract ∧
    C.body q = p.expand L.concrete)
include hadmits hcrashes hbody

theorem Tied.step {c c' : Config Op' Res' ε σ' Req Out} {v : V} {gs : Nat → G}
    {pss : Nat → Option (Async Op Res ε Out) → Prop} (h : Tied L c v gs pss) (hs : C.Step c c') :
    ∃ v' gs' pss', Tied L c' v' gs' pss' := by
  cases hs with
  | spawn q hq =>
    obtain ⟨p, hfits, hA, hC⟩ := hbody q hq
    refine ⟨v, gs, Function.update pss c.threads.length fun p' => p' = some (A.body q), h.inv, fun i hi => ?_,
      fun i t hi => ?_, fun ts hlen hts => ?_⟩
    · exact h.fresh i (by simp only [List.length_append, List.length_singleton] at hi; omega)
    · rcases Nat.lt_trichotomy i c.threads.length with hlt | rfl | hgt
      · rw [Function.update_of_ne (by omega)]
        exact h.stands i t (by rwa [List.getElem?_append_left hlt] at hi)
      · simp only [List.getElem?_concat_length, Option.some.injEq] at hi
        subst hi
        rw [Function.update_self, h.fresh _ (Nat.le_refl _), hC, hA]
        have hstart := Stands.follows (follows_expand himpl hfits)
        simpa using hstart
      · rw [List.getElem?_eq_none (by simp; omega)] at hi
        cases hi
    · obtain ⟨ts, t, rfl⟩ : ∃ ts' t, ts = ts' ++ [t] := by
        rcases List.eq_nil_or_concat ts with rfl | ⟨ts', t, rfl⟩
        · simp at hlen
        · exact ⟨ts', t, List.concat_eq_append⟩
      simp only [List.length_append, List.length_singleton, Nat.add_right_cancel_iff] at hlen
      obtain ⟨x, hx, hreach⟩ := h.reach ts hlen fun i u u' hu hu' => by
        have hi : i < c.threads.length := (List.getElem?_eq_some_iff.mp hu).1
        have hkept := hts i u u' (by rw [List.getElem?_append_left hi, hu])
          (by rw [List.getElem?_append_left (by omega), hu'])
        rwa [Function.update_of_ne (by omega)] at hkept
      have hnew := hts c.threads.length ⟨q, some (C.body q)⟩ t List.getElem?_concat_length
        (by rw [← hlen]; exact List.getElem?_concat_length)
      rw [Function.update_self] at hnew
      obtain ⟨request, program⟩ := t
      obtain ⟨hrequest, hprogram⟩ : request = q ∧ program = some (A.body q) := hnew
      rw [hrequest, hprogram]
      exact ⟨x, hx, .step hreach (.spawn q (hadmits q hq))⟩
  | @call i q op k r s' hi hstep =>
    have hlt : i < c.threads.length := (List.getElem?_eq_some_iff.mp hi).1
    have hstands := h.stands i _ hi
    generalize hps : pss i = ps at hstands
    cases hstands with
    | @follows _ _ _ ps₀ hfollows =>
      obtain ⟨v', g', ps', hinv', hfollows', hall⟩ := hfollows.step himpl h.inv rfl hstep
      refine ⟨v', Function.update gs i g', Function.update pss i fun p' => ∃ p, p' = some p ∧ ps' p, hinv',
        fun j hj => ?_, fun j t hj => ?_, fun ts hlen hts => ?_⟩
      · rw [List.length_set] at hj
        rw [Function.update_of_ne (by omega)]
        exact h.fresh j hj
      · by_cases hij : i = j
        · subst hij
          rw [List.getElem?_set_self hlt] at hj
          obtain rfl := Option.some.inj hj
          rw [Function.update_self, Function.update_self]
          exact .follows hfollows'
        · rw [List.getElem?_set_ne hij] at hj
          rw [Function.update_of_ne (Ne.symm hij), Function.update_of_ne (Ne.symm hij)]
          exact h.stands j t hj
      · have hlen' : ts.length = c.threads.length := by rw [hlen, List.length_set]
        obtain ⟨t, ht⟩ : ∃ t, ts[i]? = some t := ⟨ts[i], List.getElem?_eq_getElem (by omega)⟩
        have hnew := hts i ⟨q, some (k r)⟩ t (List.getElem?_set_self hlt) ht
        rw [Function.update_self] at hnew
        obtain ⟨request, program⟩ := t
        obtain ⟨rfl, p', rfl, hp'⟩ := hnew
        obtain ⟨p, hp, hgoes⟩ := hall p' hp'
        obtain ⟨x, hx, hreach⟩ := h.reach_set hi hlen hts (p := some p) (by rw [hps]; exact ⟨p, rfl, hp⟩)
        obtain ⟨x', hx', hreach'⟩ := hgoes hx hreach (List.getElem?_set_self (by omega))
        rw [List.set_set, System.set_of_getElem? ht] at hreach'
        exact ⟨x', hx', hreach'⟩
  | @crash i t hc hi =>
    have hlt : i < c.threads.length := (List.getElem?_eq_some_iff.mp hi).1
    refine ⟨v, gs, Function.update pss i fun p' => p' = none, h.inv, fun j hj => ?_, fun j u hj => ?_,
      fun ts hlen hts => ?_⟩
    · exact h.fresh j (by simpa using hj)
    · by_cases hij : i = j
      · subst hij
        rw [List.getElem?_set_self hlt] at hj
        obtain rfl := Option.some.inj hj
        rw [Function.update_self]
        exact .crashed _ _
      · rw [List.getElem?_set_ne hij] at hj
        rw [Function.update_of_ne (Ne.symm hij)]
        exact h.stands j u hj
    · have hlen' : ts.length = c.threads.length := by rw [hlen, List.length_set]
      obtain ⟨u, hu⟩ : ∃ u, ts[i]? = some u := ⟨ts[i], List.getElem?_eq_getElem (by omega)⟩
      have hnew := hts i ⟨t.request, none⟩ u (List.getElem?_set_self hlt) hu
      rw [Function.update_self] at hnew
      obtain ⟨request, program⟩ := u
      obtain ⟨rfl, rfl⟩ := hnew
      obtain ⟨p, hp⟩ := (h.stands i t hi).exists
      obtain ⟨x, hx, hreach⟩ := h.reach_set hi hlen hts hp
      have hcrash := System.Reachable.step hreach (.crash (hcrashes hc) (List.getElem?_set_self (by omega)))
      rw [List.set_set, System.set_of_getElem? hu] at hcrash
      exact ⟨x, hx, hcrash⟩

/-- **Refinement.** What can be reached with the methods in many steps can be
reached with the methods at one go. -/
theorem sound {v₀ : V} (hinit : L.inv C.init v₀ fun _ => L.idle) (hview : L.view A.init = v₀)
    {c : Config Op' Res' ε σ' Req Out} (hc : C.Reachable c) :
    ∃ c' gs, A.Reachable c' ∧ L.inv c.state (L.view c'.state) gs ∧
      List.Forall₂ Thread.Mirrors c.threads c'.threads := by
  have htied : ∃ v gs pss, Tied L c v gs pss := by
    induction hc with
    | start =>
      refine ⟨v₀, fun _ => L.idle, fun _ _ => True, hinit, fun _ _ => rfl, fun i t hi => ?_, fun ts hlen _ => ?_⟩
      · simp [System.start] at hi
      · obtain rfl := List.length_eq_zero_iff.mp hlen
        exact ⟨A.init, hview, .start⟩
    | step _ hs ih =>
      obtain ⟨v, gs, pss, h⟩ := ih
      exact h.step himpl hadmits hcrashes hbody hs
  obtain ⟨v, gs, pss, h⟩ := htied
  have hpick : ∀ i : Fin c.threads.length, ∃ t', c.threads[i].Mirrors t' ∧ pss i t'.program := fun i =>
    (h.stands i _ (List.getElem?_eq_getElem i.isLt)).mirrored
  choose pick hmirrors hpossible using hpick
  obtain ⟨x, rfl, hreach⟩ := h.reach (List.ofFn pick) (List.length_ofFn ..) fun i t t' ht ht' => by
    have hi : i < c.threads.length := (List.getElem?_eq_some_iff.mp ht).1
    rw [List.getElem?_ofFn, dif_pos hi, Option.some.injEq] at ht'
    rw [List.getElem?_eq_getElem hi, Option.some.injEq] at ht
    subst ht ht'
    exact ⟨(hmirrors ⟨i, hi⟩).request, hpossible ⟨i, hi⟩⟩
  refine ⟨⟨x, List.ofFn pick⟩, gs, hreach, h.inv, ?_⟩
  rw [List.forall₂_iff_get]
  refine ⟨(List.length_ofFn ..).symm, fun i hi hi' => ?_⟩
  simpa using hmirrors ⟨i, hi⟩

end

end Simulation
