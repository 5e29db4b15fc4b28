import CoreBanking.Money
import CoreBanking.Lib.Decimal

/-!
# The money codec

The reader accepts the decimals with at most two digits after the point, with
white space around them, and returns a hundred times the number; the writer's
text is the canonical one.
-/

namespace CoreBanking

open Decimal

variable {d : Decimal} {cs : List Char} {n : Nat}

theorem text_eq (d : Decimal) :
    d.text = if d.negative then '-' :: unsignedText d.whole d.fraction else unsignedText d.whole d.fraction := by
  unfold text unsignedText
  split <;> rfl

/-! ## What is accepted -/

theorem pattern_iff_text :
    MONEY_PATTERN cs = true ↔ ∃ d : Decimal, d.fraction.length ≤ MONEY_SCALE ∧ cs = d.text := by
  rw [pattern_iff]
  constructor
  · rintro ⟨w, f, hne, hd, hf, hcs | hcs⟩
    · refine ⟨⟨false, w, f, hne, hd⟩, hf, ?_⟩
      rw [text_eq]
      exact hcs
    · refine ⟨⟨true, w, f, hne, hd⟩, hf, ?_⟩
      rw [text_eq]
      exact hcs
  · rintro ⟨d, hf, rfl⟩
    refine ⟨d.whole, d.fraction, d.whole_ne, d.digits, hf, ?_⟩
    rw [text_eq]
    split
    · exact .inr rfl
    · exact .inl rfl

theorem parse_text_ok_iff {s : String} {n : Int} : parseMoneyToMinorUnits (.text s) = .ok n ↔
    ∃ d : Decimal, d.fraction.length ≤ MONEY_SCALE ∧ trim s.toList = d.text ∧ minorUnitsOf d.text = n := by
  simp only [parseMoneyToMinorUnits, normalizeMoneyInput]
  constructor
  · intro h
    split at h
    case isTrue hp =>
      obtain ⟨d, hf, hd⟩ := pattern_iff_text.mp hp
      exact ⟨d, hf, hd, hd ▸ Except.ok.inj h⟩
    case isFalse => cases h
  · rintro ⟨d, hf, hd, rfl⟩
    rw [hd, if_pos (pattern_iff_text.mpr ⟨d, hf, rfl⟩)]
    rfl

/-! ## What is returned -/

theorem unsignedMinorUnits_magnitude (hf : d.fraction.length ≤ MONEY_SCALE) :
    (unsignedMinorUnits (unsignedText d.whole d.fraction) : Rat) = 100 * d.magnitude := by
  rw [unsignedMinorUnits_text d.digits, padEnd, d.magnitude_scaled hf]
  norm_num [MONEY_SCALE]

theorem minorUnitsOf_text (hf : d.fraction.length ≤ MONEY_SCALE) : (minorUnitsOf d.text : Rat) = 100 * d.value := by
  have hunits := unsignedMinorUnits_magnitude hf
  rw [text_eq, value]
  split
  case isTrue =>
    show ((-(unsignedMinorUnits (unsignedText d.whole d.fraction) : Int) : Int) : Rat) = _
    push_cast
    rw [hunits, mul_neg]
  case isFalse =>
    rw [minorUnitsOf_unsigned d.whole_ne d.digits]
    exact_mod_cast hunits

/-! ## What is written -/

/-- The padding puts a zero before the point only where no digit stands. -/
theorem leads_raw {w f : List Char} (hf : f.length = 2)
    (hraw : padStart (MONEY_SCALE + 1) '0' (Nat.toDigits 10 n) = w ++ f) : Leads w := by
  intro hzero
  have hlength := congrArg List.length hraw
  simp only [padStart, List.length_append, List.length_replicate, hf] at hlength
  rcases Nat.lt_or_ge (Nat.toDigits 10 n).length (MONEY_SCALE + 1) with hshort | hlong
  · have hone : w.length = 1 := by simp only [MONEY_SCALE] at hlength hshort; omega
    obtain ⟨c, rfl⟩ := List.length_eq_one_iff.mp hone
    simpa using hzero
  · have hw : w ≠ [] := by rintro rfl; cases hzero
    rw [padStart, Nat.sub_eq_zero_of_le hlong, List.replicate_zero, List.nil_append] at hraw
    have hhead : (Nat.toDigits 10 n).head? = some '0' := by
      rw [hraw, List.head?_append_of_ne_nil _ hw, hzero]
    rcases Nat.eq_zero_or_pos n with rfl | hpos
    · simp [Nat.toDigits_zero, MONEY_SCALE] at hlong
    · exact absurd hhead (head_toDigits hpos)

theorem formatMinorUnits_canonical (n : Int) :
    ∃ d : Decimal, formatMinorUnits n = d.text ∧ d.Canonical MONEY_SCALE ∧ (n : Rat) = 100 * d.value := by
  obtain ⟨w, f, hw, hf, hd, he, hn⟩ := raw_digits n.natAbs
  let d : Decimal := ⟨decide (n < 0), w, f, hw, hd⟩
  have htext : formatMinorUnits n = d.text := by
    have hne : f ≠ [] := by rintro rfl; cases hf
    have hlen : (w ++ f).length - MONEY_SCALE = w.length := by simp [hf, MONEY_SCALE]
    rw [formatMinorUnits, he, hlen, List.take_left, List.drop_left]
    simp [text, d, hne]
  have hvalue : (n : Rat) = 100 * d.value := by
    rw [← minorUnitsOf_text (Nat.le_of_eq hf), ← htext]
    have hparse := parse_format n
    rw [parseMoneyToMinorUnits, formatMinorUnitsToMoney, normalize_text_of_pattern (format_pattern n)] at hparse
    exact_mod_cast (Except.ok.inj hparse).symm
  refine ⟨d, htext, ⟨hf, leads_raw hf he, fun hneg hzero => ?_⟩, hvalue⟩
  rw [hzero, mul_zero] at hvalue
  have : n = 0 := by exact_mod_cast hvalue
  have hlt : n < 0 := of_decide_eq_true hneg
  omega

/-- What is written reads back; what is read is a decimal, a hundred times its
number; and what is written for it is the one canonical text of the number. -/
theorem money_codec :
    (∀ n : Int, parseMoneyToMinorUnits (.text (formatMinorUnitsToMoney n)) = .ok n) ∧
      (∀ s : String, (∃ n, parseMoneyToMinorUnits (.text s) = .ok n) ↔
        ∃ d : Decimal, d.fraction.length ≤ 2 ∧ trim s.toList = d.text) ∧
      ∀ (s : String) (n : Int) (d : Decimal), parseMoneyToMinorUnits (.text s) = .ok n → trim s.toList = d.text →
        (n : Rat) = 100 * d.value ∧
          ∃ d' : Decimal, (formatMinorUnitsToMoney n).toList = d'.text ∧ d'.Canonical 2 ∧ d'.value = d.value ∧
            ∀ d'' : Decimal, d''.Canonical 2 → d''.value = d.value → d'' = d' := by
  refine ⟨parse_format, fun s => ⟨?_, ?_⟩, fun s n d h hd => ?_⟩
  · rintro ⟨n, h⟩
    obtain ⟨d, hf, hd, _⟩ := parse_text_ok_iff.mp h
    exact ⟨d, hf, hd⟩
  · rintro ⟨d, hf, hd⟩
    exact ⟨_, parse_text_ok_iff.mpr ⟨d, hf, hd, rfl⟩⟩
  · obtain ⟨d₁, hf, hd₁, rfl⟩ := parse_text_ok_iff.mp h
    obtain rfl : d = d₁ := text_inj (hd.symm.trans hd₁)
    have hvalue := minorUnitsOf_text hf
    obtain ⟨d', htext, hcanonical, hvalue'⟩ := formatMinorUnits_canonical (minorUnitsOf d.text)
    have heq : d'.value = d.value := by
      rw [hvalue] at hvalue'
      linarith
    refine ⟨hvalue, d', by rw [formatMinorUnitsToMoney, String.toList_ofList, htext], hcanonical, heq, ?_⟩
    intro d'' hd'' hvalue''
    exact hd''.unique hcanonical (hvalue''.trans heq.symm)

/-- Leading zeros, one fraction digit and white space are all gone. -/
theorem money_codec_padded :
    parseMoneyToMinorUnits (.text " -007.5\n") = .ok (-750) ∧ formatMinorUnitsToMoney (-750) = "-7.50" ∧
      ∃ d' : Decimal, "-7.50".toList = d'.text ∧ d'.Canonical 2 ∧
        d'.value = Decimal.value ⟨true, ['0', '0', '7'], ['5'], by decide, by simp⟩ ∧
        ∀ d'' : Decimal, d''.Canonical 2 →
          d''.value = Decimal.value ⟨true, ['0', '0', '7'], ['5'], by decide, by simp⟩ → d'' = d' := by
  have hparse : parseMoneyToMinorUnits (.text " -007.5\n") = .ok (-750) := by decide +kernel
  have hformat : formatMinorUnitsToMoney (-750) = "-7.50" := by decide +kernel
  refine ⟨hparse, hformat, ?_⟩
  rw [← hformat]
  exact (money_codec.2.2 " -007.5\n" (-750) _ hparse (by decide +kernel)).2

end CoreBanking
