import Mathlib.Data.List.Basic

/-!
# Feeds

A feed is read from its start, by readers that remember how far they have come.
Its entries have a key and, among those of the key, a version. A feed without
gaps never shows a reader an entry before the earlier versions of its key.
-/

/-- Before an entry come all earlier versions of its key. -/
def Gapless {α κ : Type} (key : α → κ) (version : α → Nat) (feed : List α) : Prop :=
  ∀ before entry after, feed = before ++ entry :: after → ∀ v, 0 < v → v < version entry →
    ∃ earlier ∈ before, key earlier = key entry ∧ version earlier = v

namespace Gapless

variable {α κ : Type} {key : α → κ} {version : α → Nat} {feed : List α}

/-- A part of the feed that has all entries of its keys. -/
theorem filter (h : Gapless key version feed) (p : κ → Bool) :
    Gapless key version (feed.filter fun entry => p (key entry)) := by
  intro before entry after heq v hpos hlt
  obtain ⟨l₁, l₂, rfl, hbefore, hrest⟩ := List.filter_eq_append_iff.mp heq
  obtain ⟨m₁, m₂, rfl, hskipped, hentry, -⟩ := List.filter_eq_cons_iff.mp hrest
  obtain ⟨earlier, hmem, hkey, hversion⟩ := h (l₁ ++ m₁) entry m₂ (by rw [List.append_assoc]) v hpos hlt
  have hkept : p (key earlier) = true := by rw [hkey]; exact hentry
  refine ⟨earlier, ?_, hkey, hversion⟩
  rcases List.mem_append.mp hmem with hmem | hmem
  · rw [← hbefore]
    exact List.mem_filter.mpr ⟨hmem, hkept⟩
  · exact absurd hkept (hskipped earlier hmem)

/-- Who has come to an entry, with all before it at or below a level, is at most one behind. -/
theorem le_succ (h : Gapless key version feed) {offset : Nat} {entry : α} (hget : feed[offset]? = some entry)
    {level : Nat} (hlevel : ∀ earlier ∈ feed.take offset, key earlier = key entry → version earlier ≤ level) :
    version entry ≤ level + 1 := by
  obtain ⟨hlt, rfl⟩ := List.getElem?_eq_some_iff.mp hget
  by_contra hahead
  have hsplit : feed = feed.take offset ++ feed[offset] :: feed.drop (offset + 1) := by
    rw [List.getElem_cons_drop, List.take_append_drop]
  obtain ⟨earlier, hmem, hkey, hversion⟩ := h _ _ _ hsplit (level + 1) (by omega) (by omega)
  have hle := hlevel earlier hmem hkey
  omega

end Gapless

namespace List

variable {α : Type} {l l' : List α}

/-- What is read of a feed stays as it is when the feed grows. -/
theorem IsPrefix.take_eq (h : l <+: l') {n : Nat} (hn : n ≤ l.length) : l'.take n = l.take n := by
  obtain ⟨r, rfl⟩ := h
  exact List.take_append_of_le_length hn

theorem IsPrefix.getElem?_of_eq_some (h : l <+: l') {k : Nat} {a : α} (hk : l[k]? = some a) : l'[k]? = some a := by
  obtain ⟨r, rfl⟩ := h
  rw [List.getElem?_append_left (List.getElem?_eq_some_iff.mp hk).1, hk]

end List
