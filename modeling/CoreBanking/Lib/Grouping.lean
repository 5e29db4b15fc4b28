import Mathlib.Algebra.BigOperators.Group.Finset.Piecewise
import Mathlib.Algebra.BigOperators.Group.List.Lemmas

/-!
# Lists by key

The sum over a list, regrouped by a key of its elements, and the elements that
two predicates keep. Elements that add nothing need no key of their own.
-/

section
variable {α κ ι M : Type} [DecidableEq κ] [AddCommMonoid M]

theorem List.sum_map_fiber {f : α → M} {key : α → κ} (keys : Finset κ) {l : List α}
    (hkeys : ∀ a ∈ l, f a ≠ 0 → key a ∈ keys) :
    (l.map f).sum = ∑ k ∈ keys, ((l.filter fun a => key a = k).map f).sum := by
  induction l with
  | nil => simp
  | cons a l ih =>
    have hfiber : ∀ k, (((a :: l).filter fun a => key a = k).map f).sum =
        (if key a = k then f a else 0) + ((l.filter fun a => key a = k).map f).sum := by
      intro k
      by_cases hk : key a = k
      · simp [hk]
      · simp [hk]
    have hfirst : (∑ k ∈ keys, if key a = k then f a else 0) = f a := by
      rw [Finset.sum_ite_eq]
      split
      · rfl
      case isFalse hk =>
        by_contra hne
        exact hk (hkeys a List.mem_cons_self (Ne.symm hne))
    rw [List.map_cons, List.sum_cons, ih fun b hb => hkeys b (List.mem_cons_of_mem _ hb),
      Finset.sum_congr rfl fun k _ => hfiber k, Finset.sum_add_distrib, hfirst]

/-- Keys that are named one by one. -/
theorem List.sum_map_fiber_image {f : α → M} {key : α → κ} {names : Finset ι} {name : ι → κ}
    (hname : Function.Injective name) {l : List α} (hkeys : ∀ a ∈ l, f a ≠ 0 → ∃ i ∈ names, key a = name i) :
    (l.map f).sum = ∑ i ∈ names, ((l.filter fun a => key a = name i).map f).sum := by
  rw [List.sum_map_fiber (names.image name) fun a ha hf => ?_, Finset.sum_image hname.injOn]
  obtain ⟨i, hi, hk⟩ := hkeys a ha hf
  exact hk ▸ Finset.mem_image_of_mem name hi

end

/-- What two predicates keep that exclude each other. -/
theorem List.filter_or_perm {α : Type} {p q : α → Bool} {l : List α} (h : ∀ a ∈ l, p a = true → q a = false) :
    (l.filter fun a => p a || q a).Perm (l.filter p ++ l.filter q) := by
  induction l with
  | nil => exact .refl _
  | cons a l ih =>
    have ih := ih fun b hb => h b (List.mem_cons_of_mem _ hb)
    cases hp : p a with
    | true =>
      have hq := h a List.mem_cons_self hp
      simpa [hp, hq] using ih
    | false =>
      cases hq : q a with
      | true => simpa [hp, hq] using (ih.cons a).trans List.perm_middle.symm
      | false => simpa [hp, hq] using ih
