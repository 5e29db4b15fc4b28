import Mathlib.Data.List.Infix

/-!
# Where one text stands in another

A pattern that stands in a text put together from parts either stands in one
part or runs over a border. `Apart` says that fixed parts on both sides of a
text neither hold the pattern nor reach into it.
-/

namespace Infix

variable {α : Type}

theorem append_cases {p l l' : List α} (h : p <:+: l ++ l') :
    p <:+: l ∨ p <:+: l' ∨ ∃ a b, p = a ++ b ∧ a ≠ [] ∧ b ≠ [] ∧ a <:+ l ∧ b <+: l' := by
  obtain ⟨s, t, hst⟩ := h
  rw [List.append_assoc] at hst
  rcases List.append_eq_append_iff.mp hst with ⟨c, rfl, hc⟩ | ⟨c, rfl, rfl⟩
  · rcases List.append_eq_append_iff.mp hc with ⟨d, rfl, rfl⟩ | ⟨d, rfl, rfl⟩
    · -- the pattern ends before the border
      exact .inl ⟨s, d, by simp⟩
    · by_cases hc : c = []
      · subst hc
        exact .inr (.inl ⟨[], t, by simp⟩)
      · by_cases hd : d = []
        · subst hd
          exact .inl ⟨s, [], by simp⟩
        · exact .inr (.inr ⟨c, d, rfl, hc, hd, ⟨s, rfl⟩, ⟨t, rfl⟩⟩)
  · exact .inr (.inl ⟨c, t, by simp⟩)

/-- `p` stands in neither part, no beginning of `p` ends `before`, and no end of `p` begins `after`. -/
def Apart (before p after : List α) : Prop :=
  ¬ p <:+: before ∧ ¬ p <:+: after ∧ (∀ a ∈ p.inits, a ≠ [] → ¬ a <:+ before) ∧ ∀ b ∈ p.tails, b ≠ [] → ¬ b <+: after

instance [DecidableEq α] (before p after : List α) : Decidable (Apart before p after) :=
  inferInstanceAs (Decidable (_ ∧ _ ∧ _ ∧ _))

theorem Apart.between_iff {before p after : List α} (h : Apart before p after) (text : List α) :
    p <:+: before ++ (text ++ after) ↔ p <:+: text := by
  obtain ⟨hbefore, hafter, hinits, htails⟩ := h
  constructor
  · intro hin
    rcases append_cases hin with hin | hin | ⟨a, b, rfl, ha, -, hsuf, -⟩
    · exact absurd hin hbefore
    · rcases append_cases hin with hin | hin | ⟨a, b, rfl, -, hb, -, hpre⟩
      · exact hin
      · exact absurd hin hafter
      · exact absurd hpre (htails b ((List.mem_tails _ _).mpr (List.suffix_append a b)) hb)
    · exact absurd hsuf (hinits a ((List.mem_inits _ _).mpr (List.prefix_append a b)) ha)
  · exact fun hin => hin.trans ⟨before, after, by simp⟩

end Infix
