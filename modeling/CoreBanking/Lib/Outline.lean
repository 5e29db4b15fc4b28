import CoreBanking.Lib.Pool
import Mathlib.Logic.Function.Basic

/-!
# Proof outlines for pools

An outline gives every program a ghost value of its own and ties the shared
state to the ghosts of all programs by one invariant. A program is verified
against the invariant alone: at each call it may assume that the others have
taken any steps that keep the invariant and respect the order `le`, and it has
to say which ghost value it goes on with. Since an assertion about one program
speaks of its own ghost and of facts that `le` preserves, the others cannot
disturb it, and `Outline.sound` puts the programs together.
-/

structure Outline {Op : Type} {Res : Op → Type} {ε σ Req Out : Type}
    (S : System Op Res ε σ Req Out) (G : Type) where
  idle : G
  le : σ → σ → Prop
  inv : σ → (Nat → G) → Prop
  le_refl : ∀ s, le s s
  le_trans : ∀ {s₁ s₂ s₃}, le s₁ s₂ → le s₂ s₃ → le s₁ s₃
  le_step : ∀ {i q op s r s'}, S.step i q op s r s' → le s s'

namespace Outline

variable {Op : Type} {Res : Op → Type} {ε σ Req Out : Type}
variable {S : System Op Res ε σ Req Out} {G : Type} (L : Outline S G)

/-- What has to hold at `s`, in a program for request `q` with ghost `g`, for
`p` to keep the invariant and to end in `Q`. -/
def wp {α : Type} (q : Req) : Async Op Res ε α → σ → G → (σ → G → Except ε α → Prop) → Prop
  | .done r, s, g, Q => Q s g r
  | .await op k, s, g, Q => ∀ i s₁ gs, L.le s s₁ → L.inv s₁ gs → gs i = g →
      ∀ r s₂, S.step i q op s₁ r s₂ →
        ∃ g', L.inv s₂ (Function.update gs i g') ∧ wp q (k r) s₂ g' Q

variable {L} {α β : Type} {q : Req} {s : σ} {g : G}

/-- A program that goes on with the ghost it has. -/
theorem update_ghost {gs : Nat → G} {i : Nat} {g : G} (hg : gs i = g) : Function.update gs i g = gs :=
  hg ▸ Function.update_eq_self i gs

/-- What the program of `i` keeps of its ghost is kept of all. -/
theorem ghost_kept {gs : Nat → G} {i : Nat} {g : G} (f : G → β) (hf : f g = f (gs i)) (j : Nat) :
    f (Function.update gs i g j) = f (gs j) := by
  by_cases hj : j = i
  · rw [hj, Function.update_self, hf]
  · rw [Function.update_of_ne hj]

theorem wp_done {r : Except ε α} {Q : σ → G → Except ε α → Prop} (h : Q s g r) :
    L.wp q (.done r) s g Q := h

theorem wp_pure {a : α} {Q : σ → G → Except ε α → Prop} (h : Q s g (.ok a)) :
    L.wp q (pure a) s g Q := h

theorem wp_throw {e : ε} {Q : σ → G → Except ε α → Prop} (h : Q s g (.error e)) :
    L.wp q (throw e) s g Q := h

theorem wp_ofExcept {r : Except ε α} {Q : σ → G → Except ε α → Prop} (h : Q s g r) :
    L.wp q (Async.ofExcept r) s g Q := h

theorem wp_call {op : Op} {Q : σ → G → Except ε (Res op) → Prop}
    (h : ∀ i s₁ gs, L.le s s₁ → L.inv s₁ gs → gs i = g → ∀ r s₂, S.step i q op s₁ r s₂ →
      ∃ g', L.inv s₂ (Function.update gs i g') ∧ Q s₂ g' r) :
    L.wp q (Async.call op) s g Q := h

theorem wp_mono {p : Async Op Res ε α} {Q Q' : σ → G → Except ε α → Prop}
    (hQ : ∀ s' g' r, L.le s s' → Q s' g' r → Q' s' g' r) (h : L.wp q p s g Q) : L.wp q p s g Q' := by
  induction p generalizing s g with
  | done r => exact hQ s g r (L.le_refl s) h
  | await op k ih =>
    intro i s₁ gs hle hinv hg r s₂ hstep
    obtain ⟨g', hinv', hk⟩ := h i s₁ gs hle hinv hg r s₂ hstep
    refine ⟨g', hinv', ih r (fun s' g'' r' hle' => hQ s' g'' r' ?_) hk⟩
    exact L.le_trans hle (L.le_trans (L.le_step hstep) hle')

theorem wp_bind {p : Async Op Res ε α} {f : α → Async Op Res ε β} {Q : σ → G → Except ε β → Prop}
    (h : L.wp q p s g fun s' g' r => match r with
      | .ok a => L.wp q (f a) s' g' Q
      | .error e => Q s' g' (.error e)) :
    L.wp q (p >>= f) s g Q := by
  show L.wp q (p.bind f) s g Q
  induction p generalizing s g with
  | done r => cases r <;> exact h
  | await op k ih =>
    intro i s₁ gs hle hinv hg r s₂ hstep
    obtain ⟨g', hinv', hk⟩ := h i s₁ gs hle hinv hg r s₂ hstep
    exact ⟨g', hinv', ih r hk⟩

theorem wp_tryCatch {p : Async Op Res ε α} {f : ε → Async Op Res ε α} {Q : σ → G → Except ε α → Prop}
    (h : L.wp q p s g fun s' g' r => match r with
      | .ok a => Q s' g' (.ok a)
      | .error e => L.wp q (f e) s' g' Q) :
    L.wp q (tryCatch p f) s g Q := by
  show L.wp q (p.tryCatch f) s g Q
  induction p generalizing s g with
  | done r => cases r <;> exact h
  | await op k ih =>
    intro i s₁ gs hle hinv hg r s₂ hstep
    obtain ⟨g', hinv', hk⟩ := h i s₁ gs hle hinv hg r s₂ hstep
    exact ⟨g', hinv', ih r hk⟩

/-- Calls that leave the invariant as it is. -/
theorem wp_only {P : Op → Prop} {p : Async Op Res ε α} (hp : p.Only P)
    (hkeeps : ∀ {i op s gs r s'}, P op → L.inv s gs → S.step i q op s r s' → L.inv s' gs) :
    L.wp q p s g fun _ g' _ => g' = g := by
  induction p generalizing s with
  | done r => exact wp_done rfl
  | await op k ih =>
    intro i s₁ gs _ hinv hg r s₂ hstep
    refine ⟨g, ?_, ih r (hp.2 r)⟩
    rw [update_ghost hg]
    exact hkeeps hp.1 hinv hstep

/-- A program that goes on alone, from a state that keeps the invariant, to its end. -/
theorem runs_alone {p : Async Op Res ε α} {Q : σ → G → Except ε α → Prop} (h : L.wp q p s g Q) {s₁ : σ}
    (hle : L.le s s₁) {gs : Nat → G} (hinv : L.inv s₁ gs) {i : Nat} (hg : gs i = g) {r : Except ε α} {s' : σ}
    (hrun : p.Runs (S.step i q) s₁ r s') :
    ∃ s₂ g', L.le s₂ s' ∧ L.inv s' (Function.update gs i g') ∧ Q s₂ g' r := by
  induction p generalizing s g s₁ gs with
  | done r' =>
    obtain ⟨rfl, rfl⟩ := hrun
    refine ⟨s, g, hle, ?_, h⟩
    rw [update_ghost hg]
    exact hinv
  | await op k ih =>
    obtain ⟨r', s₂, hstep, hrun⟩ := hrun
    obtain ⟨g', hinv', hk⟩ := h i s₁ gs hle hinv hg r' s₂ hstep
    obtain ⟨s₃, g'', hle', hinv'', hQ⟩ := ih r' hk (L.le_refl _) hinv' (Function.update_self ..) hrun
    rw [Function.update_idem] at hinv''
    exact ⟨s₃, g'', hle', hinv'', hQ⟩

/-! ## Putting the programs together -/

/-- The ghosts of a configuration: those of programs not yet started are idle,
and every program left has its obligation still to meet. -/
structure Tied (L : Outline S G) (post : Req → σ → G → Except ε Out → Prop)
    (c : Config Op Res ε σ Req Out) (gs : Nat → G) : Prop where
  inv : L.inv c.state gs
  fresh : ∀ i, c.threads.length ≤ i → gs i = L.idle
  wp : ∀ i q p, c.threads[i]? = some ⟨q, some p⟩ → ∃ s, L.le s c.state ∧ L.wp q p s (gs i) (post q)

theorem Tied.step {post : Req → σ → G → Except ε Out → Prop}
    (hbody : ∀ q s, S.admits q → L.wp q (S.body q) s L.idle (post q))
    {c c' : Config Op Res ε σ Req Out} {gs : Nat → G} (ht : L.Tied post c gs) (hs : S.Step c c') :
    ∃ gs', L.Tied post c' gs' := by
  cases hs with
  | spawn q hq =>
    refine ⟨gs, ht.inv, fun i hi => ht.fresh i (by simp at hi; omega), fun i q' p hi => ?_⟩
    rcases Nat.lt_trichotomy i c.threads.length with hlt | rfl | hgt
    · exact ht.wp i q' p (by rwa [List.getElem?_append_left hlt] at hi)
    · simp only [List.getElem?_concat_length, Option.some.injEq, Thread.mk.injEq] at hi
      obtain ⟨rfl, rfl⟩ := hi
      exact ⟨c.state, L.le_refl _, ht.fresh _ (Nat.le_refl _) ▸ hbody q c.state hq⟩
    · rw [List.getElem?_eq_none (by simp; omega)] at hi
      cases hi
  | @call i q op k r s' hi hstep =>
    have hlt : i < c.threads.length := (List.getElem?_eq_some_iff.mp hi).1
    obtain ⟨s₀, hle, hwp⟩ := ht.wp i q _ hi
    obtain ⟨g', hinv', hk⟩ := hwp i c.state gs hle ht.inv rfl r s' hstep
    refine ⟨Function.update gs i g', hinv', fun j hj => ?_, fun j q' p hj => ?_⟩
    · simp only [List.length_set] at hj
      rw [Function.update_of_ne (by omega)]
      exact ht.fresh j hj
    · by_cases hij : i = j
      · subst hij
        simp only [List.getElem?_set_self hlt, Option.some.injEq, Thread.mk.injEq] at hj
        obtain ⟨rfl, rfl⟩ := hj
        exact ⟨s', L.le_refl _, by rwa [Function.update_self]⟩
      · rw [List.getElem?_set_ne hij] at hj
        obtain ⟨s₁, hle₁, hwp₁⟩ := ht.wp j q' p hj
        rw [Function.update_of_ne (Ne.symm hij)]
        exact ⟨s₁, L.le_trans hle₁ (L.le_step hstep), hwp₁⟩
  | @crash i t hc hi =>
    refine ⟨gs, ht.inv, fun j hj => ht.fresh j (by simpa using hj), fun j q' p hj => ?_⟩
    by_cases hij : i = j
    · subst hij
      rw [List.getElem?_set_self (List.getElem?_eq_some_iff.mp hi).1] at hj
      cases hj
    · exact ht.wp j q' p (by rwa [List.getElem?_set_ne hij] at hj)

/-- **Soundness.** If the invariant holds at the start and every program keeps
it, then it holds in every reachable configuration. -/
theorem sound {post : Req → σ → G → Except ε Out → Prop} (hinit : L.inv S.init fun _ => L.idle)
    (hbody : ∀ q s, S.admits q → L.wp q (S.body q) s L.idle (post q))
    {c : Config Op Res ε σ Req Out} (hc : S.Reachable c) : ∃ gs, L.Tied post c gs := by
  induction hc with
  | start => exact ⟨fun _ => L.idle, hinit, fun _ _ => rfl, fun i q p hi => by simp [System.start] at hi⟩
  | step _ hs ih =>
    obtain ⟨gs, ht⟩ := ih
    exact ht.step hbody hs

/-- A program that has ended has met its postcondition, at a state the present
one extends. -/
theorem Tied.ended {post : Req → σ → G → Except ε Out → Prop} {c : Config Op Res ε σ Req Out}
    {gs : Nat → G} (ht : L.Tied post c gs) {i : Nat} {q : Req} {r : Except ε Out}
    (hi : c.threads[i]? = some ⟨q, some (.done r)⟩) : ∃ s, L.le s c.state ∧ post q s (gs i) r :=
  ht.wp i q _ hi

/-- With no program under way, every program has ended. -/
theorem Tied.quiescent {post : Req → σ → G → Except ε Out → Prop} {c : Config Op Res ε σ Req Out}
    {gs : Nat → G} (ht : L.Tied post c gs) (hc : S.Reachable c) (hcrashes : ¬ S.crashes)
    (hquiet : System.Quiescent c) {i : Nat} {t : Thread Op Res ε Req Out} (hi : c.threads[i]? = some t) :
    ∃ r s, t.program = some (.done r) ∧ L.le s c.state ∧ post t.request s (gs i) r := by
  obtain ⟨p, hp⟩ := hc.alive hcrashes t (List.mem_of_getElem? hi)
  obtain ⟨r, rfl⟩ := hquiet t (List.mem_of_getElem? hi) p hp
  obtain ⟨q, program⟩ := t
  obtain rfl : program = some (.done r) := hp
  obtain ⟨s, hle, hpost⟩ := ht.ended hi
  exact ⟨r, s, rfl, hle, hpost⟩

end Outline
