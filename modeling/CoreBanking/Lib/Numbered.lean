import Mathlib.Data.List.Basic

/-!
# Numbered lists

Lists whose elements carry their place, counted from one, as a log carries its
positions. What comes after a place is then found by the numbers alone.
-/

/-- The `k`-th element, counted from zero, has the number `k + 1`. -/
def Numbered {α : Type} (f : α → Nat) (l : List α) : Prop := ∀ k a, l[k]? = some a → f a = k + 1

namespace Numbered

variable {α : Type} {f : α → Nat} {l : List α}

theorem iff_map_eq : Numbered f l ↔ l.map f = List.range' 1 l.length := by
  constructor
  · intro h
    refine List.ext_getElem? fun k => ?_
    rw [List.getElem?_map]
    by_cases hk : k < l.length
    · rw [List.getElem?_range' hk, List.getElem?_eq_getElem hk, Option.map_some,
        h k _ (List.getElem?_eq_getElem hk)]
      congr 1
      omega
    · rw [List.getElem?_eq_none (by omega), List.getElem?_eq_none (by simp; omega)]
      rfl
  · intro h k a hk
    have hlt : k < l.length := (List.getElem?_eq_some_iff.mp hk).1
    have hget := congrArg (fun m => m[k]?) h
    simp only [List.getElem?_map, hk, Option.map_some, List.getElem?_range' hlt, Option.some.injEq] at hget
    omega

theorem nil : Numbered f [] := by
  intro k a hk
  cases hk

theorem snoc (h : Numbered f l) {a : α} (ha : f a = l.length + 1) : Numbered f (l ++ [a]) := by
  intro k b hk
  rcases Nat.lt_trichotomy k l.length with hlt | rfl | hgt
  · exact h k b (by rwa [List.getElem?_append_left hlt] at hk)
  · simp only [List.getElem?_concat_length, Option.some.injEq] at hk
    rw [← hk, ha]
  · rw [List.getElem?_eq_none (by simp; omega)] at hk
    cases hk

theorem append {l' : List α} (h : Numbered f l) (h' : l'.map f = List.range' (l.length + 1) l'.length) :
    Numbered f (l ++ l') := by
  refine iff_map_eq.mpr ?_
  rw [List.map_append, iff_map_eq.mp h, h', List.length_append, ← List.range'_append_1, Nat.add_comm 1]

theorem le_length (h : Numbered f l) {a : α} (ha : a ∈ l) : f a ≤ l.length := by
  obtain ⟨k, hk⟩ := List.mem_iff_getElem?.mp ha
  rw [h k a hk]
  exact (List.getElem?_eq_some_iff.mp hk).1

theorem getElem?_of_mem (h : Numbered f l) {a : α} (ha : a ∈ l) {k : Nat} (hk : f a = k + 1) : l[k]? = some a := by
  obtain ⟨j, hj⟩ := List.mem_iff_getElem?.mp ha
  obtain rfl : j = k := by
    have := h j a hj
    omega
  exact hj

theorem pairwise_lt (h : Numbered f l) : l.Pairwise fun a b => f a < f b := by
  rw [← List.pairwise_map, iff_map_eq.mp h]
  exact List.pairwise_lt_range'

theorem of_isPrefix (h : Numbered f l) {l' : List α} (hp : l' <+: l) : Numbered f l' := by
  obtain ⟨r, rfl⟩ := hp
  intro k a hk
  exact h k a (by rw [List.getElem?_append_left (List.getElem?_eq_some_iff.mp hk).1, hk])

/-- The elements with a number above `n` are those after the first `n`. -/
theorem filter_eq_drop (h : Numbered f l) (n : Nat) : l.filter (fun a => decide (n < f a)) = l.drop n := by
  have hold : (l.take n).filter (fun a => decide (n < f a)) = [] := by
    refine List.filter_eq_nil_iff.mpr fun a ha => ?_
    obtain ⟨k, hk⟩ := List.mem_iff_getElem?.mp ha
    rw [List.getElem?_take] at hk
    split at hk
    · simp only [h k a hk, decide_eq_true_eq]
      omega
    · cases hk
  have hnew : (l.drop n).filter (fun a => decide (n < f a)) = l.drop n := by
    refine List.filter_eq_self.mpr fun a ha => ?_
    obtain ⟨k, hk⟩ := List.mem_iff_getElem?.mp ha
    rw [List.getElem?_drop] at hk
    simp only [h (n + k) a hk, decide_eq_true_eq]
    omega
  calc l.filter (fun a => decide (n < f a))
      = (l.take n ++ l.drop n).filter (fun a => decide (n < f a)) := by rw [List.take_append_drop]
    _ = l.drop n := by rw [List.filter_append, hold, hnew, List.nil_append]

/-- The numbers tell the order. -/
theorem eq_of_perm {l' : List α} (h : Numbered f l) (h' : Numbered f l') (hp : l.Perm l') : l = l' := by
  refine List.ext_getElem? fun k => ?_
  by_cases hk : k < l.length
  · have hget := List.getElem?_eq_getElem hk
    rw [hget, h'.getElem?_of_mem (hp.subset (List.getElem_mem hk)) (h k _ hget)]
  · rw [List.getElem?_eq_none (by omega), List.getElem?_eq_none (by have := hp.length_eq; omega)]

end Numbered

/-- An element of a filtered list stands after the elements kept before it. -/
theorem getElem?_filter_take {α : Type} {p : α → Bool} {l : List α} {n : Nat} {a : α} (ha : l[n]? = some a)
    (hp : p a = true) : (l.filter p)[((l.take n).filter p).length]? = some a := by
  obtain ⟨hn, rfl⟩ := List.getElem?_eq_some_iff.mp ha
  have hsplit : l.filter p = (l.take n).filter p ++ l[n] :: (l.drop (n + 1)).filter p := by
    rw [← List.filter_cons_of_pos hp, ← List.drop_eq_getElem_cons hn, ← List.filter_append, List.take_append_drop]
  rw [hsplit, List.getElem?_append_right (Nat.le_refl _), Nat.sub_self]
  rfl
