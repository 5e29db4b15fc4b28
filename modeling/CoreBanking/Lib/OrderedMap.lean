import Mathlib.Data.List.Nodup

/-!
# Maps that remember insertion order

The entries stand in the order in which their keys were first set; setting a
key that is there already keeps its place.
-/

@[ext]
structure OrderedMap (κ ν : Type) where
  entries : List (κ × ν)
  nodup : (entries.map Prod.fst).Nodup

namespace OrderedMap

variable {κ ν : Type} [DecidableEq κ]

def empty : OrderedMap κ ν := ⟨[], List.nodup_nil⟩

def getEntries : List (κ × ν) → κ → Option ν
  | [], _ => none
  | (k', v) :: l, k => if k' = k then some v else getEntries l k

def setEntries : List (κ × ν) → κ → ν → List (κ × ν)
  | [], k, v => [(k, v)]
  | (k', v') :: l, k, v => if k' = k then (k, v) :: l else (k', v') :: setEntries l k v

theorem keys_setEntries (l : List (κ × ν)) (k : κ) (v : ν) :
    (setEntries l k v).map Prod.fst = if k ∈ l.map Prod.fst then l.map Prod.fst else l.map Prod.fst ++ [k] := by
  induction l with
  | nil => simp [setEntries]
  | cons e l ih =>
    obtain ⟨k', v'⟩ := e
    by_cases hk : k' = k
    · subst hk; simp [setEntries]
    · have hne : k ≠ k' := fun h => hk h.symm
      simp only [setEntries, hk, if_false, List.map_cons, ih, List.mem_cons, hne, false_or]
      split <;> rfl

theorem nodup_setEntries {l : List (κ × ν)} (h : (l.map Prod.fst).Nodup) (k : κ) (v : ν) :
    ((setEntries l k v).map Prod.fst).Nodup := by
  rw [keys_setEntries]
  split
  · exact h
  case isFalse hk =>
    exact List.nodup_append.mpr ⟨h, List.nodup_singleton k, fun a ha b hb => by
      rw [List.mem_singleton.mp hb]; rintro rfl; exact hk ha⟩

def get (m : OrderedMap κ ν) (k : κ) : Option ν := getEntries m.entries k

def set (m : OrderedMap κ ν) (k : κ) (v : ν) : OrderedMap κ ν :=
  ⟨setEntries m.entries k v, nodup_setEntries m.nodup k v⟩

def delete (m : OrderedMap κ ν) (k : κ) : OrderedMap κ ν :=
  ⟨m.entries.filter fun e => e.1 ≠ k, m.nodup.sublist (List.filter_sublist.map _)⟩

def values (m : OrderedMap κ ν) : List ν := m.entries.map Prod.snd

@[simp] theorem get_empty (k : κ) : (empty : OrderedMap κ ν).get k = none := rfl

theorem getEntries_setEntries (l : List (κ × ν)) (k k' : κ) (v : ν) :
    getEntries (setEntries l k v) k' = if k = k' then some v else getEntries l k' := by
  induction l with
  | nil => rfl
  | cons e l ih =>
    obtain ⟨a, b⟩ := e
    by_cases ha : a = k
    · subst ha
      simp only [setEntries, if_true, getEntries]
      split <;> rfl
    · simp only [setEntries, ha, if_false, getEntries, ih]
      split
      case isTrue h =>
        have hka : k ≠ k' := fun e => ha (h.trans e.symm)
        simp [hka]
      · rfl

theorem get_set (m : OrderedMap κ ν) (k k' : κ) (v : ν) :
    (m.set k v).get k' = if k = k' then some v else m.get k' :=
  getEntries_setEntries m.entries k k' v

@[simp] theorem get_set_self (m : OrderedMap κ ν) (k : κ) (v : ν) : (m.set k v).get k = some v := by
  simp [get_set]

def modify (m : OrderedMap κ ν) (k : κ) (f : ν → ν) : OrderedMap κ ν :=
  match m.get k with
  | none => m
  | some v => m.set k (f v)

theorem get_modify (m : OrderedMap κ ν) (k : κ) (f : ν → ν) (k' : κ) :
    (m.modify k f).get k' = if k = k' then (m.get k).map f else m.get k' := by
  unfold modify
  cases h : m.get k with
  | none =>
    by_cases hk : k = k'
    · rw [if_pos hk, ← hk, h, Option.map_none]
    · rw [if_neg hk]
  | some v => rw [get_set, Option.map_some]

theorem get_modify_ne_none (m : OrderedMap κ ν) (k : κ) (f : ν → ν) {k' : κ} (h : m.get k' ≠ none) :
    (m.modify k f).get k' ≠ none := by
  rw [get_modify]
  split
  case isTrue hk => rwa [hk, ne_eq, Option.map_eq_none_iff]
  case isFalse => exact h

theorem get_delete (m : OrderedMap κ ν) (k k' : κ) : (m.delete k).get k' = if k = k' then none else m.get k' := by
  have key : ∀ l : List (κ × ν),
      getEntries (l.filter fun e => e.1 ≠ k) k' = if k = k' then none else getEntries l k' := by
    intro l
    induction l with
    | nil => simp [getEntries]
    | cons e l ih =>
      obtain ⟨a, b⟩ := e
      by_cases ha : a = k
      · subst ha
        rw [List.filter_cons_of_neg (by simp), ih]
        split
        · rfl
        case isFalse hne =>
          rw [getEntries, if_neg hne]
      · rw [List.filter_cons_of_pos (by simpa using ha)]
        simp only [getEntries, ih]
        by_cases hk : a = k'
        · subst hk
          simp [Ne.symm ha]
        · simp [hk]
  exact key m.entries

theorem get_of_fresh {m : OrderedMap κ ν} {k : κ} (h : k ∉ m.entries.map Prod.fst) : m.get k = none := by
  have key : ∀ l : List (κ × ν), k ∉ l.map Prod.fst → getEntries l k = none := by
    intro l
    induction l with
    | nil => intro; rfl
    | cons e l ih =>
      intro h
      rw [List.map_cons, List.mem_cons, not_or] at h
      rw [getEntries, if_neg (fun heq => h.1 heq.symm), ih h.2]
  exact key m.entries h

theorem set_of_fresh {m : OrderedMap κ ν} {k : κ} (h : k ∉ m.entries.map Prod.fst) (v : ν) :
    (m.set k v).entries = m.entries ++ [(k, v)] := by
  have key : ∀ l : List (κ × ν), k ∉ l.map Prod.fst → setEntries l k v = l ++ [(k, v)] := by
    intro l
    induction l with
    | nil => intro; rfl
    | cons e l ih =>
      intro h
      rw [List.map_cons, List.mem_cons, not_or] at h
      rw [setEntries, if_neg (fun heq => h.1 heq.symm), ih h.2, List.cons_append]
  exact key m.entries h

theorem mem_keys_iff {m : OrderedMap κ ν} {k : κ} : k ∈ m.entries.map Prod.fst ↔ ∃ v, m.get k = some v := by
  constructor
  · intro h
    have key : ∀ l : List (κ × ν), k ∈ l.map Prod.fst → ∃ v, getEntries l k = some v := by
      intro l
      induction l with
      | nil => simp
      | cons e l ih =>
        intro h
        by_cases he : e.1 = k
        · exact ⟨e.2, by simp [getEntries, he]⟩
        · simp only [getEntries, if_neg he]
          exact ih ((List.mem_cons.mp h).resolve_left (Ne.symm he))
    exact key m.entries h
  · rintro ⟨v, hv⟩
    by_contra hk
    rw [get_of_fresh hk] at hv
    cases hv

theorem mem_entries_iff {m : OrderedMap κ ν} {k : κ} {v : ν} : (k, v) ∈ m.entries ↔ m.get k = some v := by
  have key : ∀ l : List (κ × ν), (l.map Prod.fst).Nodup → ((k, v) ∈ l ↔ getEntries l k = some v) := by
    intro l
    induction l with
    | nil => simp [getEntries]
    | cons e l ih =>
      intro hnodup
      obtain ⟨a, b⟩ := e
      obtain ⟨hfresh, hnodup⟩ := List.nodup_cons.mp hnodup
      by_cases ha : a = k
      · subst ha
        have hother : (a, v) ∉ l := fun h => hfresh (List.mem_map.mpr ⟨_, h, rfl⟩)
        simp [getEntries, hother, eq_comm]
      · have hne : k ≠ a := fun h => ha h.symm
        simp [getEntries, ha, hne, ih hnodup]
  exact key m.entries m.nodup

theorem mem_values_iff {m : OrderedMap κ ν} {v : ν} : v ∈ m.values ↔ ∃ k, m.get k = some v := by
  unfold values
  rw [List.mem_map]
  constructor
  · rintro ⟨⟨k, _⟩, he, rfl⟩
    exact ⟨k, mem_entries_iff.mp he⟩
  · rintro ⟨k, hk⟩
    exact ⟨(k, v), mem_entries_iff.mpr hk, rfl⟩

theorem keys_set_of_mem {m : OrderedMap κ ν} {k : κ} (h : k ∈ m.entries.map Prod.fst) (v : ν) :
    (m.set k v).entries.map Prod.fst = m.entries.map Prod.fst := by
  simp [set, keys_setEntries, h]

theorem map_values_set {β : Type} {m : OrderedMap κ ν} {k : κ} {v v' : ν} {f : ν → β} (h : m.get k = some v)
    (hf : f v' = f v) : (m.set k v').values.map f = m.values.map f := by
  have key : ∀ l : List (κ × ν), getEntries l k = some v →
      ((setEntries l k v').map Prod.snd).map f = (l.map Prod.snd).map f := by
    intro l
    induction l with
    | nil => intro h; cases h
    | cons e l ih =>
      intro h
      obtain ⟨a, b⟩ := e
      by_cases ha : a = k
      · simp only [getEntries, ha, if_true, Option.some.injEq] at h
        simp [setEntries, ha, h, hf]
      · simp only [getEntries, ha, if_false] at h
        simpa [setEntries, ha] using ih h
  exact key m.entries h

/-- A map is what its keys and `get` say. -/
theorem ext_get {m m' : OrderedMap κ ν} (hkeys : m.entries.map Prod.fst = m'.entries.map Prod.fst)
    (hget : ∀ k, m.get k = m'.get k) : m = m' := by
  have key : ∀ l l' : List (κ × ν), (l.map Prod.fst).Nodup → l.map Prod.fst = l'.map Prod.fst →
      (∀ k ∈ l.map Prod.fst, getEntries l k = getEntries l' k) → l = l' := by
    intro l
    induction l with
    | nil =>
      intro l' _ hkeys _
      exact (List.map_eq_nil_iff.mp hkeys.symm).symm
    | cons e l ih =>
      intro l' hnodup hkeys hget
      obtain ⟨e', l', rfl, he, hl⟩ := List.map_eq_cons_iff.mp hkeys.symm
      obtain ⟨k, v⟩ := e
      obtain ⟨k', v'⟩ := e'
      obtain rfl : k' = k := he
      obtain ⟨hk, hnodup⟩ := List.nodup_cons.mp hnodup
      have hv : some v = some v' := by
        simpa [getEntries] using hget k' (by simp)
      obtain rfl := Option.some.inj hv
      congr 1
      refine ih l' hnodup hl.symm fun k hmem => ?_
      have hne : k' ≠ k := fun heq => hk (heq ▸ hmem)
      simpa [getEntries, hne] using hget k (List.mem_cons_of_mem _ hmem)
  exact OrderedMap.ext (key m.entries m'.entries m.nodup hkeys fun k _ => hget k)

theorem get_set_of_ne (m : OrderedMap κ ν) {k k' : κ} (v : ν) (h : k ≠ k') :
    (m.set k v).get k' = m.get k' := by
  simp [get_set, h]

end OrderedMap
