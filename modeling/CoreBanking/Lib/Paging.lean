import CoreBanking.Lib.StableSort

/-!
# Reading a growing table by pages

A cursor reads the rows of a table in the order of their keys, a page at a time.
A row takes its key when it is put in and can be read only later, so that it may
come to be seen behind the cursor. The cursor misses the rows that were under
way when a page with a later key was read, and no others.
-/

namespace Paging

/-- The rows that can be read, those under way, and the next key. -/
structure Rows (α : Type) where
  visible : List α
  inFlight : List α
  nextKey : Nat

variable {α : Type} (key : α → Nat)

structure Rows.Keyed (T : Rows α) : Prop where
  positive : ∀ a ∈ T.visible, 0 < key a
  fresh : ∀ a ∈ T.visible, key a < T.nextKey
  nodup : (T.visible.map key).Nodup
  apart : ∀ a ∈ T.visible, ∀ b ∈ T.inFlight, key a ≠ key b

/-- Rows under way come to be seen, and others take later keys. -/
structure Rows.Advances (T T' : Rows α) : Prop where
  keeps : ∀ a ∈ T.visible, a ∈ T'.visible
  appears : ∀ a ∈ T'.visible, a ∈ T.visible ∨ a ∈ T.inFlight
  takes : ∀ a ∈ T'.inFlight, a ∈ T.inFlight ∨ T.nextKey ≤ key a

def page (T : Rows α) (start n : Nat) : List α :=
  (StableSort.sort key (T.visible.filter fun a => start < key a)).take n

/-- The keys that are under way below a row of the page. -/
def overtakenBy (T : Rows α) (page : List α) : List Nat :=
  (T.inFlight.filter fun a => page.any fun b => key a < key b).map key

def lastKey (read : List α) : Nat := (read.getLast?.map key).getD 0

def Passed (read : List α) (k : Nat) : Prop := ∃ a ∈ read, k ≤ key a

/-- What a cursor has read, and the keys it has overtaken. -/
structure Follows (T : Rows α) (read : List α) (overtaken : List Nat) : Prop where
  sorted : read.Pairwise fun a b => key a < key b
  visible : ∀ a ∈ read, a ∈ T.visible
  passed : ∀ a ∈ T.visible, Passed key read (key a) → a ∈ read ∨ key a ∈ overtaken
  inFlight : ∀ a ∈ T.inFlight, Passed key read (key a) → key a ∈ overtaken
  reached : ∀ k ∈ overtaken, Passed key read k
  unread : ∀ a ∈ read, key a ∉ overtaken

variable {key} {T T' : Rows α} {start n : Nat} {read rest : List α} {overtaken : List Nat} {a b : α}

@[simp] theorem lastKey_nil : lastKey key [] = 0 := rfl

@[simp] theorem lastKey_append_singleton (read : List α) (a : α) : lastKey key (read ++ [a]) = key a := by
  rw [lastKey, List.getLast?_append_cons]
  rfl

theorem passed_append {k : Nat} : Passed key (read ++ rest) k ↔ Passed key read k ∨ Passed key rest k := by
  simp only [Passed, List.mem_append]
  constructor
  · rintro ⟨a, ha | ha, hle⟩
    · exact .inl ⟨a, ha, hle⟩
    · exact .inr ⟨a, ha, hle⟩
  · rintro (⟨a, ha, hle⟩ | ⟨a, ha, hle⟩)
    · exact ⟨a, .inl ha, hle⟩
    · exact ⟨a, .inr ha, hle⟩

theorem passed_iff (hsorted : read.Pairwise fun a b => key a < key b) {k : Nat} (hk : 0 < k) :
    Passed key read k ↔ k ≤ lastKey key read := by
  rcases List.eq_nil_or_concat read with rfl | ⟨before, last, rfl⟩
  · simp [Passed]
    omega
  · rw [List.concat_eq_append] at hsorted ⊢
    rw [lastKey_append_singleton]
    constructor
    · rintro ⟨a, ha, hle⟩
      rcases List.mem_append.mp ha with ha | ha
      · have := (List.pairwise_append.mp hsorted).2.2 a ha last List.mem_cons_self
        omega
      · rwa [List.mem_singleton.mp ha] at hle
    · exact fun hle => ⟨last, List.mem_append_right _ List.mem_cons_self, hle⟩

/-! ## A page -/

theorem mem_page (ha : a ∈ page key T start n) : a ∈ T.visible ∧ start < key a := by
  have h := List.mem_filter.mp (StableSort.mem_sort.mp (List.mem_of_mem_take ha))
  exact ⟨h.1, of_decide_eq_true h.2⟩

theorem page_sorted (hT : T.Keyed key) : (page key T start n).Pairwise fun a b => key a < key b := by
  have hnodup : ((T.visible.filter fun a => start < key a).map key).Nodup :=
    hT.nodup.sublist (List.filter_sublist.map key)
  have hperm : (StableSort.sort key (T.visible.filter fun a => start < key a)).Perm _ := StableSort.perm _
  have hne := List.pairwise_map.mp ((hperm.map key).nodup_iff.mpr hnodup)
  have hlt := List.Pairwise.imp₂ (fun _ _ => Nat.lt_of_le_of_ne) (StableSort.pairwise _) hne
  exact hlt.sublist (List.take_sublist n _)

/-- A page has all that can be read up to each of its rows. -/
theorem page_passed (hT : T.Keyed key) (ha : a ∈ T.visible) (hstart : start < key a)
    (h : Passed key (page key T start n) (key a)) : a ∈ page key T start n := by
  obtain ⟨b, hb, hle⟩ := h
  rcases Nat.lt_or_eq_of_le hle with hlt | heq
  · have hmem : a ∈ StableSort.sort key (T.visible.filter fun a => start < key a) :=
      StableSort.mem_sort.mpr (List.mem_filter.mpr ⟨ha, decide_eq_true hstart⟩)
    exact StableSort.mem_take_of_mem_take (StableSort.pairwise _) hmem hb (Nat.not_le_of_lt hlt)
  · rwa [List.inj_on_of_nodup_map hT.nodup ha (mem_page hb).1 heq]

theorem mem_overtakenBy {k : Nat} :
    k ∈ overtakenBy key T rest ↔ ∃ a ∈ T.inFlight, (∃ b ∈ rest, key a < key b) ∧ key a = k := by
  simp only [overtakenBy, List.mem_map, List.mem_filter, List.any_eq_true, decide_eq_true_eq, and_assoc]

/-! ## The cursor -/

namespace Follows

theorem nil (T : Rows α) : Follows key T [] [] where
  sorted := List.Pairwise.nil
  visible a ha := absurd ha List.not_mem_nil
  passed a _ h := by
    obtain ⟨b, hb, _⟩ := h
    cases hb
  inFlight a _ h := by
    obtain ⟨b, hb, _⟩ := h
    cases hb
  reached k hk := absurd hk List.not_mem_nil
  unread a ha := absurd ha List.not_mem_nil

/-- What comes to be seen below the cursor was under way there, and has been overtaken. -/
theorem advance (h : Follows key T read overtaken) (hT : T.Keyed key) (hadv : T.Advances key T') :
    Follows key T' read overtaken where
  sorted := h.sorted
  visible a ha := hadv.keeps a (h.visible a ha)
  passed a ha hpassed := by
    rcases hadv.appears a ha with ha | ha
    · exact h.passed a ha hpassed
    · exact .inr (h.inFlight a ha hpassed)
  inFlight a ha hpassed := by
    rcases hadv.takes a ha with ha | hlater
    · exact h.inFlight a ha hpassed
    · obtain ⟨b, hb, hle⟩ := hpassed
      have := hT.fresh b (h.visible b hb)
      omega
  reached := h.reached
  unread := h.unread

theorem nextPage (h : Follows key T read overtaken) (hT : T.Keyed key) (n : Nat) :
    Follows key T (read ++ page key T (lastKey key read) n)
      (overtaken ++ overtakenBy key T (page key T (lastKey key read) n)) where
  sorted := by
    refine List.pairwise_append.mpr ⟨h.sorted, page_sorted hT, fun a ha b hb => ?_⟩
    have hle := (passed_iff h.sorted (hT.positive a (h.visible a ha))).mp ⟨a, ha, Nat.le_refl _⟩
    have := (mem_page hb).2
    omega
  visible a ha := by
    rcases List.mem_append.mp ha with ha | ha
    · exact h.visible a ha
    · exact (mem_page ha).1
  passed a ha hpassed := by
    have hiff := passed_iff h.sorted (hT.positive a ha)
    rw [List.mem_append, List.mem_append]
    by_cases hle : key a ≤ lastKey key read
    · rcases h.passed a ha (hiff.mpr hle) with h' | h'
      · exact .inl (.inl h')
      · exact .inr (.inl h')
    · rcases passed_append.mp hpassed with h' | h'
      · exact absurd (hiff.mp h') hle
      · exact .inl (.inr (page_passed hT ha (Nat.lt_of_not_le hle) h'))
  inFlight a ha hpassed := by
    rw [List.mem_append]
    rcases passed_append.mp hpassed with h' | ⟨b, hb, hle⟩
    · exact .inl (h.inFlight a ha h')
    · have hne := hT.apart b (mem_page hb).1 a ha
      exact .inr (mem_overtakenBy.mpr ⟨a, ha, ⟨b, hb, Nat.lt_of_le_of_ne hle hne.symm⟩, rfl⟩)
  reached k hk := by
    rw [passed_append]
    rcases List.mem_append.mp hk with hk | hk
    · exact .inl (h.reached k hk)
    · obtain ⟨a, -, ⟨b, hb, hlt⟩, rfl⟩ := mem_overtakenBy.mp hk
      exact .inr ⟨b, hb, Nat.le_of_lt hlt⟩
  unread a ha hk := by
    have hvisible : a ∈ T.visible := by
      rcases List.mem_append.mp ha with ha | ha
      · exact h.visible a ha
      · exact (mem_page ha).1
    rcases List.mem_append.mp hk with hk | hk
    · have hle := (passed_iff h.sorted (hT.positive a hvisible)).mp (h.reached _ hk)
      rcases List.mem_append.mp ha with ha | ha
      · exact h.unread a ha hk
      · have := (mem_page ha).2
        omega
    · obtain ⟨b, hb, -, heq⟩ := mem_overtakenBy.mp hk
      exact hT.apart a hvisible b hb heq.symm

/-- The cursor has read all that can be read up to it exactly if it has overtaken none of it. -/
theorem complete_iff (h : Follows key T read overtaken) (hT : T.Keyed key) :
    (∀ a ∈ T.visible, key a ≤ lastKey key read → a ∈ read) ↔ ∀ a ∈ T.visible, key a ∉ overtaken := by
  constructor
  · intro hcomplete a ha hk
    have hle := (passed_iff h.sorted (hT.positive a ha)).mp (h.reached _ hk)
    exact h.unread a (hcomplete a ha hle) hk
  · intro hnone a ha hle
    have hpassed := (passed_iff h.sorted (hT.positive a ha)).mpr hle
    exact (h.passed a ha hpassed).resolve_right (hnone a ha)

/-- A row that has not been overtaken is read ahead of all with later keys. -/
theorem mem_take (h : Follows key T read overtaken) {k : Nat} (hb : read[k]? = some b) (ha : a ∈ T.visible)
    (hlt : key a < key b) (hnone : key a ∉ overtaken) : a ∈ read.take k := by
  have hpassed : Passed key read (key a) := ⟨b, List.mem_of_getElem? hb, Nat.le_of_lt hlt⟩
  obtain ⟨j, hj⟩ := List.getElem?_of_mem ((h.passed a ha hpassed).resolve_right hnone)
  rcases Nat.lt_or_ge j k with hjk | hkj
  · exact List.mem_of_getElem? ((List.getElem?_take_of_lt hjk).trans hj)
  · obtain ⟨hj', rfl⟩ := List.getElem?_eq_some_iff.mp hj
    obtain ⟨hk', rfl⟩ := List.getElem?_eq_some_iff.mp hb
    rcases Nat.lt_or_eq_of_le hkj with hkj | rfl
    · have := List.pairwise_iff_getElem.mp h.sorted k j hk' hj' hkj
      omega
    · omega

end Follows

end Paging
