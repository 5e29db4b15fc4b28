import Mathlib.Algebra.Order.Field.Rat
import Mathlib.Tactic.FieldSimp
import Mathlib.Tactic.Linarith
import Mathlib.Tactic.Positivity

/-!
# Decimal texts

An optional minus sign, digits, and digits after a point if there are any. A
text denotes one decimal; a rational that a decimal with `k` digits after the
point denotes has one canonical text with `k` digits.
-/

/-- The parts of a decimal text. The point is written when `fraction` is not empty. -/
@[ext]
structure Decimal where
  negative : Bool
  whole : List Char
  fraction : List Char
  whole_ne : whole ≠ []
  digits : ∀ c ∈ whole ++ fraction, c.isDigit = true

namespace Decimal

variable {d d' : Decimal} {w f cs : List Char} {k n : Nat} {c : Char}

/-! ## Runs of digits -/

theorem digit_iff : c.isDigit = true ↔ ∃ n < 10, c = Nat.digitChar n := by
  constructor
  · intro h
    have hc : 48 ≤ c.toNat ∧ c.toNat ≤ 57 := Char.isDigit_iff_toNat.mp h
    refine ⟨c.toNat - 48, by omega, ?_⟩
    apply Char.toNat_inj.mp
    rw [Nat.toNat_digitChar_of_lt_ten (by omega)]
    omega
  · rintro ⟨n, hn, rfl⟩
    simpa using hn

theorem ofDigitChars_snoc (hn : n < 10) :
    Nat.ofDigitChars 10 (cs ++ [Nat.digitChar n]) 0 = 10 * Nat.ofDigitChars 10 cs 0 + n := by
  rw [Nat.ofDigitChars_append, Nat.ofDigitChars_cons_digitChar_of_lt_ten hn, Nat.ofDigitChars_nil]

theorem ofDigitChars_lt (h : ∀ c ∈ cs, c.isDigit = true) : Nat.ofDigitChars 10 cs 0 < 10 ^ cs.length := by
  induction cs using List.reverseRecOn with
  | nil => simp
  | append_singleton cs c ih =>
    obtain ⟨n, hn, rfl⟩ := digit_iff.mp (h c (by simp))
    have hlt := ih fun c hc => h c (by simp [hc])
    rw [ofDigitChars_snoc hn, List.length_append, List.length_singleton, Nat.pow_succ]
    omega

theorem ofDigitChars_concat : Nat.ofDigitChars 10 (w ++ f) 0 =
    10 ^ f.length * Nat.ofDigitChars 10 w 0 + Nat.ofDigitChars 10 f 0 := by
  rw [Nat.ofDigitChars_append, Nat.ofDigitChars_eq_ofDigitChars_zero]

/-- No digit before it could be left out. -/
def Leads (cs : List Char) : Prop := cs.head? = some '0' → cs = ['0']

theorem ofDigitChars_pos (hne : cs ≠ []) (h : ∀ c ∈ cs, c.isDigit = true) (hzero : cs.head? ≠ some '0') :
    0 < Nat.ofDigitChars 10 cs 0 := by
  cases cs with
  | nil => exact absurd rfl hne
  | cons c cs =>
    obtain ⟨n, hn, rfl⟩ := digit_iff.mp (h c (by simp))
    have hpos : 0 < n := by
      rcases Nat.eq_zero_or_pos n with rfl | hpos
      · exact absurd rfl hzero
      · exact hpos
    rw [Nat.ofDigitChars_cons_digitChar_of_lt_ten hn, Nat.ofDigitChars_eq_ofDigitChars_zero]
    have : 0 < 10 ^ cs.length * (10 * 0 + n) := Nat.mul_pos (Nat.pow_pos (by decide)) (by omega)
    omega

/-- A run of digits without leading zeros is the one its number is written as. -/
theorem toDigits_ofDigitChars (hne : cs ≠ []) (h : ∀ c ∈ cs, c.isDigit = true) (hlead : Leads cs) :
    Nat.toDigits 10 (Nat.ofDigitChars 10 cs 0) = cs := by
  induction cs using List.reverseRecOn with
  | nil => exact absurd rfl hne
  | append_singleton cs c ih =>
    obtain ⟨n, hn, rfl⟩ := digit_iff.mp (h c (by simp))
    rw [ofDigitChars_snoc hn]
    by_cases hcs : cs = []
    · subst hcs
      simpa using Nat.toDigits_of_lt_base hn
    · have hzero : cs.head? ≠ some '0' := by
        intro hzero
        have hall := hlead (by rw [List.head?_append_of_ne_nil _ hcs, hzero])
        have hlen := congrArg List.length hall
        simp at hlen
        exact hcs hlen
      have hd : ∀ c ∈ cs, c.isDigit = true := fun c hc => h c (by simp [hc])
      rw [← Nat.toDigits_append_toDigits (by decide) (ofDigitChars_pos hcs hd hzero) hn,
        ih hcs hd fun hh => absurd hh hzero, Nat.toDigits_of_lt_base hn]

/-- Behind a one no zero leads. -/
theorem ofDigitChars_inj {f' : List Char} (hlen : f.length = f'.length) (h : ∀ c ∈ f, c.isDigit = true)
    (h' : ∀ c ∈ f', c.isDigit = true) (heq : Nat.ofDigitChars 10 f 0 = Nat.ofDigitChars 10 f' 0) : f = f' := by
  have hone : ∀ {f : List Char}, (∀ c ∈ f, c.isDigit = true) →
      Nat.toDigits 10 (Nat.ofDigitChars 10 (['1'] ++ f) 0) = ['1'] ++ f := by
    intro f hf
    refine toDigits_ofDigitChars (by simp) (fun c hc => ?_) (by simp [Leads])
    rcases List.mem_append.mp hc with hc | hc
    · rw [List.mem_singleton.mp hc]
      decide
    · exact hf c hc
  have hrun : ['1'] ++ f = ['1'] ++ f' := by
    rw [← hone h, ← hone h', ofDigitChars_concat, ofDigitChars_concat, hlen, heq]
  exact List.append_cancel_left hrun

theorem head_toDigits (hn : 0 < n) : (Nat.toDigits 10 n).head? ≠ some '0' := by
  induction n using Nat.strongRecOn with
  | ind n ih =>
    rcases Nat.lt_or_ge n 10 with hlt | hge
    · rw [Nat.toDigits_of_lt_base hlt]
      simp only [List.head?_cons, ne_eq, Option.some.injEq, Nat.digitChar_eq_zero]
      omega
    · rw [Nat.toDigits_of_base_le (by decide) hge, List.head?_append_of_ne_nil _ Nat.toDigits_ne_nil]
      exact ih (n / 10) (by omega) (by omega)

/-! ## Texts -/

def text (d : Decimal) : List Char :=
  (if d.negative then ['-'] else []) ++ d.whole ++ if d.fraction = [] then [] else '.' :: d.fraction

def magnitude (d : Decimal) : Rat :=
  Nat.ofDigitChars 10 d.whole 0 + Nat.ofDigitChars 10 d.fraction 0 / 10 ^ d.fraction.length

def value (d : Decimal) : Rat := if d.negative then -d.magnitude else d.magnitude

theorem magnitude_nonneg (d : Decimal) : 0 ≤ d.magnitude := by
  unfold magnitude
  positivity

theorem whole_digit (d : Decimal) (hc : c ∈ d.whole) : c.isDigit = true := d.digits c (List.mem_append_left _ hc)

theorem fraction_digit (d : Decimal) (hc : c ∈ d.fraction) : c.isDigit = true :=
  d.digits c (List.mem_append_right _ hc)

theorem negative_iff_head (d : Decimal) : d.negative = true ↔ d.text.head? = some '-' := by
  unfold text
  cases hneg : d.negative with
  | true => simp
  | false =>
    obtain ⟨c, cs, hw⟩ := List.exists_cons_of_ne_nil d.whole_ne
    have hc : c ≠ '-' := by
      rintro rfl
      exact absurd (d.whole_digit (hw ▸ List.mem_cons_self)) (by decide)
    simp [hw, hc]

theorem text_inj (h : d.text = d'.text) : d = d' := by
  have hneg : d.negative = d'.negative := by
    rw [Bool.eq_iff_iff, d.negative_iff_head, d'.negative_iff_head, h]
  have hrest : ∀ d : Decimal, (d.whole ++ if d.fraction = [] then [] else '.' :: d.fraction).takeWhile Char.isDigit =
      d.whole := by
    intro d
    rw [List.takeWhile_append_of_pos fun c hc => d.whole_digit hc]
    split <;> simp
  have hunsigned : (d.whole ++ if d.fraction = [] then [] else '.' :: d.fraction) =
      (d'.whole ++ if d'.fraction = [] then [] else '.' :: d'.fraction) := by
    unfold text at h
    rw [hneg, List.append_assoc, List.append_assoc] at h
    exact List.append_cancel_left h
  have hwhole : d.whole = d'.whole := by
    rw [← hrest d, ← hrest d', hunsigned]
  rw [hwhole] at hunsigned
  have hpoint := List.append_cancel_left hunsigned
  have hfraction : d.fraction = d'.fraction := by
    split at hpoint
    case isTrue hf =>
      split at hpoint
      case isTrue hf' => rw [hf, hf']
      case isFalse => cases hpoint
    case isFalse =>
      split at hpoint
      case isTrue => cases hpoint
      case isFalse => exact (List.cons.inj hpoint).2
  exact Decimal.ext hneg hwhole hfraction

open Classical in
noncomputable def read (cs : List Char) : Option Rat :=
  if h : ∃ d : Decimal, cs = d.text then some h.choose.value else none

theorem read_text (d : Decimal) : read d.text = some d.value := by
  have h : ∃ d' : Decimal, d.text = d'.text := ⟨d, rfl⟩
  rw [read, dif_pos h, ← text_inj h.choose_spec]

theorem text_head (d : Decimal) : ∃ c, d.text.head? = some c ∧ (c = '-' ∨ c.isDigit = true) := by
  cases hneg : d.negative with
  | true => exact ⟨'-', d.negative_iff_head.mp hneg, .inl rfl⟩
  | false =>
    obtain ⟨c, cs, hw⟩ := List.exists_cons_of_ne_nil d.whole_ne
    refine ⟨c, by simp [text, hneg, hw], .inr (d.whole_digit ?_)⟩
    rw [hw]
    exact List.mem_cons_self

/-! ## Canonical texts -/

/-- Padded with zeros, the digits spell `10 ^ k` times the number. -/
theorem magnitude_scaled (d : Decimal) (hk : d.fraction.length ≤ k) :
    (Nat.ofDigitChars 10 (d.whole ++ (d.fraction ++ List.replicate (k - d.fraction.length) '0')) 0 : Rat) =
      10 ^ k * d.magnitude := by
  obtain ⟨m, rfl⟩ := Nat.exists_eq_add_of_le hk
  rw [ofDigitChars_concat, ofDigitChars_concat, magnitude]
  simp only [List.length_append, List.length_replicate, Nat.add_sub_cancel_left, Nat.ofDigitChars_replicate_zero,
    Nat.mul_zero, Nat.add_zero, Nat.cast_add, Nat.cast_mul, Nat.cast_pow, Nat.cast_ofNat]
  rw [mul_add, pow_add]
  field_simp

/-- `k` digits after the point, no leading zero but the one before the point, no
sign on zero. -/
structure Canonical (d : Decimal) (k : Nat) : Prop where
  fraction : d.fraction.length = k
  whole : Leads d.whole
  negative : d.negative = true → d.value ≠ 0

theorem Canonical.negative_iff (h : d.Canonical k) : d.negative = true ↔ d.value < 0 := by
  have hpos := d.magnitude_nonneg
  unfold value
  constructor
  · intro hneg
    have hne := h.negative hneg
    unfold value at hne
    rw [if_pos hneg] at hne ⊢
    have : d.magnitude ≠ 0 := fun h0 => hne (by rw [h0, neg_zero])
    have : 0 < d.magnitude := lt_of_le_of_ne hpos (Ne.symm this)
    linarith
  · intro hlt
    by_contra hneg
    rw [if_neg hneg] at hlt
    linarith

theorem Canonical.unique (h : d.Canonical k) (h' : d'.Canonical k) (hvalue : d.value = d'.value) : d = d' := by
  have hneg : d.negative = d'.negative := by
    rw [Bool.eq_iff_iff, h.negative_iff, h'.negative_iff, hvalue]
  have hmagnitude : d.magnitude = d'.magnitude := by
    unfold value at hvalue
    rw [hneg] at hvalue
    split at hvalue
    case isTrue => linarith
    case isFalse => exact hvalue
  have hscaled : Nat.ofDigitChars 10 (d.whole ++ d.fraction) 0 = Nat.ofDigitChars 10 (d'.whole ++ d'.fraction) 0 := by
    have hd := d.magnitude_scaled (k := k) (Nat.le_of_eq h.fraction)
    have hd' := d'.magnitude_scaled (k := k) (Nat.le_of_eq h'.fraction)
    rw [hmagnitude, ← hd', h.fraction, h'.fraction] at hd
    simpa using hd
  rw [ofDigitChars_concat, ofDigitChars_concat, h.fraction, h'.fraction] at hscaled
  have hlt := ofDigitChars_lt fun c hc => d.fraction_digit (c := c) hc
  have hlt' := ofDigitChars_lt fun c hc => d'.fraction_digit (c := c) hc
  rw [h.fraction] at hlt
  rw [h'.fraction] at hlt'
  have hw : Nat.ofDigitChars 10 d.whole 0 = Nat.ofDigitChars 10 d'.whole 0 := by
    have hdiv := congrArg (· / 10 ^ k) hscaled
    simpa [Nat.mul_add_div (Nat.pow_pos (n := k) (show 0 < 10 by decide)), Nat.div_eq_of_lt hlt,
      Nat.div_eq_of_lt hlt'] using hdiv
  have hf : Nat.ofDigitChars 10 d.fraction 0 = Nat.ofDigitChars 10 d'.fraction 0 := by
    rw [hw] at hscaled
    exact Nat.add_left_cancel hscaled
  have hwhole : d.whole = d'.whole := by
    rw [← toDigits_ofDigitChars d.whole_ne (fun c hc => d.whole_digit hc) h.whole, hw,
      toDigits_ofDigitChars d'.whole_ne (fun c hc => d'.whole_digit hc) h'.whole]
  have hlen : d.fraction.length = d'.fraction.length := h.fraction.trans h'.fraction.symm
  have hfraction : d.fraction = d'.fraction :=
    ofDigitChars_inj hlen (fun c hc => d.fraction_digit hc) (fun c hc => d'.fraction_digit hc) hf
  exact Decimal.ext hneg hwhole hfraction

end Decimal
