import Mathlib.Data.List.Basic

/-!
# Machines

A machine takes one event after the other, each of which is allowed in the state
it is taken in. What holds at the start and is kept by every step holds of all
states that a machine can reach.
-/

structure Machine (σ ε : Type) where
  starts : σ → Prop
  allows : σ → ε → Prop
  /-- An event that cannot happen in a state has no next state. -/
  step : σ → ε → Option σ

namespace Machine

variable {σ ε : Type}

inductive Reached (M : Machine σ ε) : σ → Prop
  | start {s} : M.starts s → Reached M s
  | step {s e s'} : Reached M s → M.allows s e → M.step s e = some s' → Reached M s'

variable {M : Machine σ ε} {s s' : σ}

/-- The rule for invariants; the step may use what is known of reached states. -/
theorem Reached.invariant {I : σ → Prop} (h : M.Reached s) (hstart : ∀ s, M.starts s → I s)
    (hstep : ∀ {s e s'}, M.Reached s → M.allows s e → M.step s e = some s' → I s → I s') : I s := by
  induction h with
  | start hs => exact hstart _ hs
  | step hr hallowed hs ih => exact hstep hr hallowed hs ih

/-- The state after these events, where each of them passes the check. -/
def play (M : Machine σ ε) (check : σ → ε → Bool) : σ → List ε → Option σ
  | s, [] => some s
  | s, e :: es => if check s e then M.step s e >>= (M.play check · es) else none

theorem Reached.play {check : σ → ε → Bool} (hcheck : ∀ s e, check s e = true → M.allows s e) {es : List ε}
    (h : M.Reached s) (hplay : M.play check s es = some s') : M.Reached s' := by
  induction es generalizing s with
  | nil => exact Option.some.inj hplay ▸ h
  | cons e es ih =>
    rw [Machine.play] at hplay
    split at hplay
    case isTrue hpass =>
      obtain ⟨s₁, hs₁, hrest⟩ := Option.bind_eq_some_iff.mp hplay
      exact ih (h.step (hcheck s e hpass) hs₁) hrest
    case isFalse => cases hplay

end Machine
