import Mathlib.Data.List.Sort

/-!
# Stable sorting by a key

Insertion sort keeps the order of elements with equal keys, so what it puts
before an element can be read off the list it sorts: the elements with smaller
keys, and those with the same key that stood before it.
-/

namespace StableSort

variable {α : Type} (key : α → Nat)

def sort (l : List α) : List α := l.insertionSort fun a b => key a ≤ key b

section
variable {r : α → α → Prop} [DecidableRel r] {a : α} {l l' : List α}

theorem orderedInsert_append_right (h : ∀ b ∈ l, ¬ r a b) :
    (l ++ l').orderedInsert r a = l ++ l'.orderedInsert r a := by
  induction l with
  | nil => rfl
  | cons b l ih =>
    rw [List.cons_append, List.orderedInsert_of_not_le r _ (h b List.mem_cons_self),
      ih fun c hc => h c (List.mem_cons_of_mem _ hc), List.cons_append]

theorem orderedInsert_append_left (h : ∀ b ∈ l'.head?, r a b) :
    (l ++ l').orderedInsert r a = l.orderedInsert r a ++ l' := by
  induction l with
  | nil =>
    cases l' with
    | nil => rfl
    | cons b l' => exact List.orderedInsert_cons_of_le r _ (h b rfl)
  | cons b l ih =>
    by_cases hab : r a b
    · rw [List.cons_append, List.orderedInsert_cons_of_le r _ hab, List.orderedInsert_cons_of_le r _ hab]
      rfl
    · rw [List.cons_append, List.orderedInsert_of_not_le r _ hab, List.orderedInsert_of_not_le r _ hab, ih]
      rfl

theorem orderedInsert_of_forall (h : ∀ b ∈ l, r a b) : l.orderedInsert r a = a :: l := by
  cases l with
  | nil => rfl
  | cons b l => exact List.orderedInsert_cons_of_le r _ (h b List.mem_cons_self)

/-- A sorted start whose elements may stand before all the others stays where it is. -/
theorem insertionSort_append (hsorted : l.Pairwise r) (h : ∀ a ∈ l, ∀ b ∈ l', r a b) :
    (l ++ l').insertionSort r = l ++ l'.insertionSort r := by
  induction l with
  | nil => rfl
  | cons a l ih =>
    obtain ⟨hfirst, hsorted⟩ := List.pairwise_cons.mp hsorted
    rw [List.cons_append, List.insertionSort_cons, ih hsorted fun c hc => h c (List.mem_cons_of_mem _ hc)]
    refine orderedInsert_of_forall fun b hb => ?_
    rcases List.mem_append.mp hb with hb | hb
    · exact hfirst b hb
    · exact h a List.mem_cons_self b ((List.perm_insertionSort r l').subset hb)

/-- The sort leaves the first `n` alone exactly if they are sorted and may stand
before all the others. -/
theorem take_insertionSort_iff [Std.Total r] [IsTrans α r] {n : Nat} :
    (l.insertionSort r).take n = l.take n ↔ (l.take n).Pairwise r ∧ ∀ a ∈ l.take n, ∀ b ∈ l.drop n, r a b := by
  constructor
  · intro heq
    have hsorted := List.pairwise_insertionSort r l
    have hperm := List.perm_insertionSort r l
    rw [← List.take_append_drop n (l.insertionSort r), heq] at hsorted hperm
    have hrest : ((l.insertionSort r).drop n).Perm (l.drop n) := by
      refine (List.perm_append_left_iff (l.take n)).mp (hperm.trans ?_)
      rw [List.take_append_drop]
    obtain ⟨hfirst, _, hbefore⟩ := List.pairwise_append.mp hsorted
    exact ⟨hfirst, fun a ha b hb => hbefore a ha b (hrest.mem_iff.mpr hb)⟩
  · rintro ⟨hfirst, hbefore⟩
    have hsplit := insertionSort_append hfirst hbefore
    rw [List.take_append_drop] at hsplit
    rw [hsplit, List.take_append, List.take_take, Nat.min_self, List.length_take]
    rcases Nat.lt_or_ge l.length n with hlt | hge
    · rw [List.drop_eq_nil_of_le (Nat.le_of_lt hlt), List.insertionSort_nil, List.take_nil, List.append_nil]
    · rw [Nat.min_eq_left hge, Nat.sub_self, List.take_zero, List.append_nil]

end

variable {key}

theorem perm (l : List α) : (sort key l).Perm l := List.perm_insertionSort _ l

theorem mem_sort {l : List α} {a : α} : a ∈ sort key l ↔ a ∈ l := (perm l).mem_iff

theorem pairwise (l : List α) : (sort key l).Pairwise fun a b => key a ≤ key b := by
  have htotal : Std.Total fun a b : α => key a ≤ key b := ⟨fun _ _ => Nat.le_total _ _⟩
  have htrans : IsTrans α fun a b => key a ≤ key b := ⟨fun _ _ _ => Nat.le_trans⟩
  exact List.pairwise_insertionSort _ l

theorem sort_of_pairwise {l : List α} (h : l.Pairwise fun a b => key a ≤ key b) : sort key l = l :=
  List.Pairwise.insertionSort_eq h

theorem sort_cons (a : α) (l : List α) :
    sort key (a :: l) = (sort key l).orderedInsert (fun a b => key a ≤ key b) a := rfl

theorem sort_partition (n : Nat) (l : List α) :
    sort key l = sort key (l.filter fun a => key a < n) ++ sort key (l.filter fun a => n ≤ key a) := by
  induction l with
  | nil => rfl
  | cons a l ih =>
    by_cases h : key a < n
    · rw [List.filter_cons_of_pos (by simpa using h), List.filter_cons_of_neg (by simpa using h), sort_cons, sort_cons,
        ih, orderedInsert_append_left]
      intro b hb
      have hmem := mem_sort.mp (List.mem_of_mem_head? hb)
      have := of_decide_eq_true (List.mem_filter.mp hmem).2
      omega
    · rw [List.filter_cons_of_neg (by simpa using h), List.filter_cons_of_pos (by simpa using h), sort_cons, sort_cons,
        ih, orderedInsert_append_right]
      intro b hb
      have := of_decide_eq_true (List.mem_filter.mp (mem_sort.mp hb)).2
      omega

theorem sort_split (before : List α) (x : α) (after : List α) :
    sort key (before ++ x :: after) =
      sort key (before.filter (fun a => key a ≤ key x) ++ after.filter (fun a => key a < key x)) ++
        x :: sort key (before.filter (fun a => key x < key a) ++ after.filter (fun a => key x ≤ key a)) := by
  induction before with
  | nil =>
    simp only [List.nil_append, List.filter_nil]
    rw [sort_cons, sort_partition (key x) after, orderedInsert_append_right]
    · cases hafter : sort key (after.filter fun a => key x ≤ key a) with
      | nil => rfl
      | cons b l =>
        have hmem : b ∈ after.filter fun a => key x ≤ key a := mem_sort.mp (hafter ▸ List.mem_cons_self)
        have hle : key x ≤ key b := of_decide_eq_true (List.mem_filter.mp hmem).2
        rw [List.orderedInsert_cons_of_le (fun a b => key a ≤ key b) _ hle]
    · intro b hb
      have := of_decide_eq_true (List.mem_filter.mp (mem_sort.mp hb)).2
      omega
  | cons a before ih =>
    by_cases h : key a ≤ key x
    · rw [List.filter_cons_of_pos (by simpa using h), List.filter_cons_of_neg (by simpa using h), List.cons_append,
        sort_cons, ih, orderedInsert_append_left, List.cons_append, sort_cons]
      intro b hb
      cases hb
      exact h
    · rw [List.filter_cons_of_neg (by simpa using h), List.filter_cons_of_pos (by simpa using h), List.cons_append,
        sort_cons, ih, orderedInsert_append_right, List.orderedInsert_of_not_le (fun a b => key a ≤ key b) _ h,
        List.cons_append, sort_cons]
      intro b hb
      have hmem := mem_sort.mp hb
      rcases List.mem_append.mp hmem with hmem | hmem
      · have := of_decide_eq_true (List.mem_filter.mp hmem).2
        omega
      · have := of_decide_eq_true (List.mem_filter.mp hmem).2
        omega

theorem take_filter {p : α → Bool} {l : List α} {n : Nat} (h : ∀ a ∈ l.take n, p a = true) :
    (l.filter p).take n = l.take n := by
  induction l generalizing n with
  | nil => rfl
  | cons a l ih =>
    cases n with
    | zero => rfl
    | succ n =>
      rw [List.filter_cons_of_pos (h a List.mem_cons_self), List.take_succ_cons, List.take_succ_cons,
        ih fun b hb => h b (List.mem_cons_of_mem _ hb)]

theorem le_length_filter {p : α → Bool} {l l' : List α} {x : α} {n : Nat} (hx : p x = false)
    (h : ∀ a ∈ (l ++ x :: l').take n, p a = true) : n ≤ (l.filter p).length := by
  have hlen : n ≤ l.length := by
    by_contra hlt
    have hmem : x ∈ (l ++ x :: l').take n := by
      rw [List.take_append, List.mem_append]
      right
      rw [show n - l.length = (n - l.length - 1) + 1 by omega, List.take_succ_cons]
      exact List.mem_cons_self
    rw [h x hmem] at hx
    cases hx
  rw [List.take_append_of_le_length hlen] at h
  have hall : (l.take n).filter p = l.take n := List.filter_eq_self.mpr h
  have hsub := ((List.take_sublist n l).filter p).length_le
  rw [hall, List.length_take] at hsub
  omega

theorem length_filter_lt {sorted : List α} (hsorted : sorted.Pairwise fun a b => key a ≤ key b) {x : α} {n : Nat}
    (hx : x ∈ sorted.take n) : (sorted.filter fun a => key a < key x).length < n := by
  obtain ⟨before, after, htake⟩ := List.append_of_mem hx
  obtain ⟨rest, hrest⟩ : ∃ rest, sorted = before ++ x :: rest :=
    ⟨after ++ sorted.drop n, by rw [← List.cons_append, ← List.append_assoc, ← htake, List.take_append_drop]⟩
  have hlen := congrArg List.length htake
  rw [List.length_take, List.length_append, List.length_cons] at hlen
  have hnone : (x :: rest).filter (fun a => decide (key a < key x)) = [] := by
    refine List.filter_eq_nil_iff.mpr fun a ha => ?_
    rw [hrest] at hsorted
    have hle : key x ≤ key a := by
      rcases List.mem_cons.mp ha with rfl | ha
      · exact Nat.le_refl _
      · exact (List.pairwise_cons.mp (List.pairwise_append.mp hsorted).2.1).1 a ha
    simpa using hle
  rw [hrest, List.filter_append, hnone, List.append_nil]
  have := List.length_filter_le (fun a => decide (key a < key x)) before
  omega

/-! ## Pairs in a sorted list -/

section
variable {r : α → α → Prop} {l : List α} {a b : α}

/-- What may not stand behind another element stands before it. -/
theorem pair_sublist (h : l.Pairwise r) (ha : a ∈ l) (hb : b ∈ l) (hne : a ≠ b) (hr : ¬ r b a) : [a, b].Sublist l := by
  obtain ⟨before, after, rfl⟩ := List.append_of_mem ha
  rcases List.mem_append.mp hb with hb | hb
  · exact absurd ((List.pairwise_append.mp h).2.2 b hb a List.mem_cons_self) hr
  · have hb := (List.mem_cons.mp hb).resolve_left hne.symm
    exact ((List.singleton_sublist.mpr hb).cons_cons a).trans (List.sublist_append_right _ _)

theorem mem_take_of_mem_take {n : Nat} (h : l.Pairwise r) (ha : a ∈ l) (hb : b ∈ l.take n) (hr : ¬ r b a) :
    a ∈ l.take n := by
  rw [← List.take_append_drop n l] at ha h
  rcases List.mem_append.mp ha with ha | ha
  · exact ha
  · exact absurd ((List.pairwise_append.mp h).2.2 b hb a ha) hr

end

/-! ## The first of a list -/

/-- `result` is what comes first of `l` in the order of the keys, those with equal keys in any order. -/
def First (key : α → Nat) (l : List α) (n : Nat) (result : List α) : Prop :=
  ∃ sorted : List α, sorted.Perm l ∧ sorted.Pairwise (fun a b => key a ≤ key b) ∧ result = sorted.take n

theorem First.subset {l result : List α} {n : Nat} (h : First key l n result) : ∀ a ∈ result, a ∈ l := by
  obtain ⟨sorted, hperm, -, rfl⟩ := h
  exact fun a ha => hperm.subset (List.mem_of_mem_take ha)

/-- Of a sorted list, the first are the first with `p` if all of them have it. -/
theorem first_filter_iff {p : α → Bool} {l sorted : List α} {n : Nat} (hperm : sorted.Perm l)
    (hsorted : sorted.Pairwise fun a b => key a ≤ key b) :
    First key (l.filter p) n (sorted.take n) ↔ ∀ a ∈ sorted.take n, p a = true := by
  constructor
  · exact fun h a ha => (List.mem_filter.mp (h.subset a ha)).2
  · exact fun h => ⟨sorted.filter p, hperm.filter p, hsorted.filter p, (take_filter h).symm⟩

/-- All that may come first have the same keys. -/
theorem First.map_key {l result result' : List α} {n : Nat} (h : First key l n result) (h' : First key l n result') :
    result.map key = result'.map key := by
  obtain ⟨sorted, hperm, hsorted, rfl⟩ := h
  obtain ⟨sorted', hperm', hsorted', rfl⟩ := h'
  have hkeys : sorted.map key = sorted'.map key :=
    ((hperm.trans hperm'.symm).map key).eq_of_pairwise (fun _ _ _ _ => Nat.le_antisymm)
      (List.pairwise_map.mpr hsorted) (List.pairwise_map.mpr hsorted')
  rw [List.map_take, List.map_take, hkeys]

end StableSort
