import CoreBanking.Failure
import Mathlib.Data.List.TakeWhile
import Mathlib.Data.Int.Basic
import Mathlib.Tactic.Common

/-!
# Money amounts

Amounts enter as numbers or as decimal text and are kept in minor units. The
reader accepts an optional minus sign, digits, and at most two digits after a
point; the writer always puts two digits after the point. A number is known by
the text `toString` gives it, and `JsRuntime` holds what the code relies on
about the way back from text to number.
-/

namespace CoreBanking

def MONEY_SCALE : Nat := 2

/-- A number of the language, by its `toString()`. -/
structure JsNumber where
  text : String
  deriving DecidableEq, Repr

/-- An argument of type `number | string`. -/
inductive Amount where
  | number (x : JsNumber)
  | text (s : String)
  deriving DecidableEq, Repr

def Amount.raw : Amount → String
  | .number x => x.text
  | .text s => s

/-! ## Text -/

/-- The characters `trim` removes: white space and line terminators. -/
def isJsSpace (c : Char) : Bool :=
  decide ((9 ≤ c.toNat ∧ c.toNat ≤ 13) ∨ c.toNat = 32 ∨ c.toNat = 160 ∨ c.toNat = 5760 ∨
    (8192 ≤ c.toNat ∧ c.toNat ≤ 8202) ∨ c.toNat = 8232 ∨ c.toNat = 8233 ∨ c.toNat = 8239 ∨
    c.toNat = 8287 ∨ c.toNat = 12288 ∨ c.toNat = 65279)

def trim (cs : List Char) : List Char :=
  ((cs.dropWhile isJsSpace).reverse.dropWhile isJsSpace).reverse

/-- `\d+(\.\d{1,2})?` up to the end of the text. -/
def matchesUnsigned (cs : List Char) : Bool :=
  !(cs.takeWhile Char.isDigit).isEmpty &&
    match cs.dropWhile Char.isDigit with
    | [] => true
    | ['.', a] => a.isDigit
    | ['.', a, b] => a.isDigit && b.isDigit
    | _ => false

def MONEY_PATTERN (cs : List Char) : Bool :=
  match cs with
  | '-' :: cs => matchesUnsigned cs
  | cs => matchesUnsigned cs

def padEnd (n : Nat) (c : Char) (cs : List Char) : List Char := cs ++ List.replicate (n - cs.length) c

def padStart (n : Nat) (c : Char) (cs : List Char) : List Char := List.replicate (n - cs.length) c ++ cs

/-! ## Reading and writing -/

def normalizeMoneyInput (value : Amount) : Except Failure (List Char) :=
  let normalized := match value with
    | .number x => x.text.toList
    | .text s => trim s.toList
  if MONEY_PATTERN normalized then .ok normalized
  else .error (.error s!"Invalid money amount: {value.raw}")

/-- The whole and the fraction digits, read as one number of minor units. -/
def unsignedMinorUnits (unsigned : List Char) : Nat :=
  let wholePart := unsigned.takeWhile (· != '.')
  let fractionPart := ((unsigned.dropWhile (· != '.')).drop 1).takeWhile (· != '.')
  let paddedFraction := padEnd MONEY_SCALE '0' fractionPart
  Nat.ofDigitChars 10 (wholePart ++ paddedFraction) 0

def minorUnitsOf (normalized : List Char) : Int :=
  match normalized with
  | '-' :: unsigned => -(unsignedMinorUnits unsigned : Int)
  | unsigned => unsignedMinorUnits unsigned

def parseMoneyToMinorUnits (value : Amount) : Except Failure Int :=
  (normalizeMoneyInput value).map minorUnitsOf

def formatMinorUnits (minorUnits : Int) : List Char :=
  let raw := padStart (MONEY_SCALE + 1) '0' (Nat.toDigits 10 minorUnits.natAbs)
  let whole := raw.take (raw.length - MONEY_SCALE)
  let fraction := raw.drop (raw.length - MONEY_SCALE)
  (if minorUnits < 0 then ['-'] else []) ++ whole ++ '.' :: fraction

def formatMinorUnitsToMoney (minorUnits : Int) : String := String.ofList (formatMinorUnits minorUnits)

/-! ## The pattern -/

theorem digit_ne_point {c : Char} (h : c.isDigit = true) : c ≠ '.' := by
  rintro rfl; exact absurd h (by decide)

theorem digit_ne_minus {c : Char} (h : c.isDigit = true) : c ≠ '-' := by
  rintro rfl; exact absurd h (by decide)

theorem digit_not_space {c : Char} (h : c.isDigit = true) : isJsSpace c = false := by
  have h0 : 48 ≤ c.toNat ∧ c.toNat ≤ 57 := Char.isDigit_iff_toNat.mp h
  simp only [isJsSpace, decide_eq_false_iff_not]
  omega

/-- Whole digits, and a point before fraction digits if there are any. -/
def unsignedText (w f : List Char) : List Char := w ++ if f = [] then [] else '.' :: f

theorem takeWhile_unsignedText {w f : List Char} {p : Char → Bool} (hw : ∀ c ∈ w, p c = true)
    (hp : p '.' = false) : (unsignedText w f).takeWhile p = w := by
  rw [unsignedText, List.takeWhile_append_of_pos hw]
  split <;> simp [hp]

theorem dropWhile_unsignedText {w f : List Char} {p : Char → Bool} (hw : ∀ c ∈ w, p c = true)
    (hp : p '.' = false) : (unsignedText w f).dropWhile p = if f = [] then [] else '.' :: f := by
  rw [unsignedText, List.dropWhile_append_of_pos hw]
  split <;> simp [hp]

theorem matchesUnsigned_iff {cs : List Char} : matchesUnsigned cs = true ↔
    ∃ w f, w ≠ [] ∧ (∀ c ∈ w ++ f, c.isDigit = true) ∧ f.length ≤ 2 ∧ cs = unsignedText w f := by
  constructor
  · intro h
    have hcs := List.takeWhile_append_dropWhile (p := Char.isDigit) (l := cs)
    have hw : ∀ c ∈ cs.takeWhile Char.isDigit, c.isDigit = true := fun c hc => List.mem_takeWhile_imp hc
    simp only [matchesUnsigned, Bool.and_eq_true, Bool.not_eq_true', List.isEmpty_eq_false_iff] at h
    obtain ⟨hne, h⟩ := h
    split at h
    case h_1 he =>
      exact ⟨_, [], hne, by simpa using hw, by simp, by rw [he] at hcs; simp [unsignedText, hcs]⟩
    case h_2 a he =>
      refine ⟨_, [a], hne, ?_, by simp, by rw [he] at hcs; simp [unsignedText, hcs]⟩
      intro c hc
      rcases List.mem_append.mp hc with hc | hc
      · exact hw c hc
      · simp at hc; exact hc ▸ h
    case h_3 a b he =>
      simp only [Bool.and_eq_true] at h
      refine ⟨_, [a, b], hne, ?_, by simp, by rw [he] at hcs; simp [unsignedText, hcs]⟩
      intro c hc
      rcases List.mem_append.mp hc with hc | hc
      · exact hw c hc
      · simp at hc; rcases hc with rfl | rfl; exacts [h.1, h.2]
    · cases h
  · rintro ⟨w, f, hne, hd, hf, rfl⟩
    have hw : ∀ c ∈ w, c.isDigit = true := fun c hc => hd c (by simp [hc])
    rw [matchesUnsigned, takeWhile_unsignedText hw (by decide), dropWhile_unsignedText hw (by decide)]
    match f with
    | [] => simp [hne]
    | [a] => simpa [hne] using hd a (by simp)
    | [a, b] => simpa [hne] using And.intro (hd a (by simp)) (hd b (by simp))
    | _ :: _ :: _ :: _ => simp at hf

theorem unsignedText_head {w f : List Char} (hne : w ≠ []) (hd : ∀ c ∈ w ++ f, c.isDigit = true) :
    ∃ c cs, unsignedText w f = c :: cs ∧ c ≠ '-' := by
  cases w with
  | nil => exact absurd rfl hne
  | cons c w => exact ⟨c, _, rfl, digit_ne_minus (hd c (by simp))⟩

theorem pattern_unsigned {w f : List Char} (hne : w ≠ []) (hd : ∀ c ∈ w ++ f, c.isDigit = true)
    (hf : f.length ≤ 2) : MONEY_PATTERN (unsignedText w f) = true := by
  have hm := matchesUnsigned_iff.mpr ⟨w, f, hne, hd, hf, rfl⟩
  obtain ⟨c, cs, he, hc⟩ := unsignedText_head hne hd
  rw [he] at hm ⊢
  unfold MONEY_PATTERN
  split
  case h_1 h => simp only [List.cons.injEq] at h; exact absurd h.1 hc
  · exact hm

theorem pattern_negative {w f : List Char} (hne : w ≠ []) (hd : ∀ c ∈ w ++ f, c.isDigit = true)
    (hf : f.length ≤ 2) : MONEY_PATTERN ('-' :: unsignedText w f) = true :=
  matchesUnsigned_iff.mpr ⟨w, f, hne, hd, hf, rfl⟩

theorem pattern_iff {cs : List Char} : MONEY_PATTERN cs = true ↔
    ∃ w f, w ≠ [] ∧ (∀ c ∈ w ++ f, c.isDigit = true) ∧ f.length ≤ 2 ∧
      (cs = unsignedText w f ∨ cs = '-' :: unsignedText w f) := by
  constructor
  · intro h
    unfold MONEY_PATTERN at h
    split at h <;> obtain ⟨w, f, hne, hd, hf, rfl⟩ := matchesUnsigned_iff.mp h
    · exact ⟨w, f, hne, hd, hf, .inr rfl⟩
    · exact ⟨w, f, hne, hd, hf, .inl rfl⟩
  · rintro ⟨w, f, hne, hd, hf, rfl | rfl⟩
    · exact pattern_unsigned hne hd hf
    · exact pattern_negative hne hd hf

theorem trim_of_no_space {cs : List Char} (h : ∀ c ∈ cs, isJsSpace c = false) : trim cs = cs := by
  have hd : ∀ l : List Char, (∀ c ∈ l, isJsSpace c = false) → l.dropWhile isJsSpace = l
    | [], _ => rfl
    | c :: l, hl => List.dropWhile_cons_of_neg (by simp [hl c (by simp)])
  rw [trim, hd cs h, hd cs.reverse (fun c hc => h c (List.mem_reverse.mp hc)), List.reverse_reverse]

theorem pattern_no_space {cs : List Char} (h : MONEY_PATTERN cs = true) : ∀ c ∈ cs, isJsSpace c = false := by
  obtain ⟨w, f, _, hd, _, hcs⟩ := pattern_iff.mp h
  have hu : ∀ c ∈ unsignedText w f, isJsSpace c = false := by
    intro c hc
    rcases List.mem_append.mp hc with hc | hc
    · exact digit_not_space (hd c (by simp [hc]))
    · split at hc
      · cases hc
      · rcases List.mem_cons.mp hc with rfl | hc
        · decide
        · exact digit_not_space (hd c (by simp [hc]))
  rcases hcs with rfl | rfl
  · exact hu
  · intro c hc
    rcases List.mem_cons.mp hc with rfl | hc
    · decide
    · exact hu c hc

/-! ## What is read -/

theorem normalize_text_of_pattern {cs : List Char} (h : MONEY_PATTERN cs = true) :
    normalizeMoneyInput (.text (String.ofList cs)) = .ok cs := by
  simp [normalizeMoneyInput, trim_of_no_space (pattern_no_space h), h]

theorem unsignedMinorUnits_text {w f : List Char} (hd : ∀ c ∈ w ++ f, c.isDigit = true) :
    unsignedMinorUnits (unsignedText w f) = Nat.ofDigitChars 10 (w ++ padEnd MONEY_SCALE '0' f) 0 := by
  have hp : ∀ c ∈ w ++ f, (c != '.') = true := fun c hc => by simpa using digit_ne_point (hd c hc)
  have hw : ∀ c ∈ w, (c != '.') = true := fun c hc => hp c (by simp [hc])
  have hf : f.takeWhile (· != '.') = f := List.takeWhile_eq_self_iff.mpr fun c hc => hp c (by simp [hc])
  have hdrop : ((unsignedText w f).dropWhile (· != '.')).drop 1 = f := by
    rw [dropWhile_unsignedText hw (by decide)]
    split
    case isTrue he => simp [he]
    · rfl
  simp only [unsignedMinorUnits, takeWhile_unsignedText hw (by decide), hdrop, hf]

theorem minorUnitsOf_unsigned {w f : List Char} (hne : w ≠ []) (hd : ∀ c ∈ w ++ f, c.isDigit = true) :
    minorUnitsOf (unsignedText w f) = (unsignedMinorUnits (unsignedText w f) : Int) := by
  obtain ⟨c, cs, he, hc⟩ := unsignedText_head hne hd
  rw [he]
  unfold minorUnitsOf
  split
  case h_1 h => simp only [List.cons.injEq] at h; exact absurd h.1 hc
  · rfl

theorem parse_error {value : Amount} {e : Failure} (h : parseMoneyToMinorUnits value = .error e) :
    e = .error s!"Invalid money amount: {value.raw}" := by
  simp only [parseMoneyToMinorUnits, normalizeMoneyInput] at h
  generalize (match value with
    | .number x => x.text.toList
    | .text s => trim s.toList) = normalized at h
  cases hp : MONEY_PATTERN normalized <;> simp only [hp, if_true, Bool.false_eq_true, if_false] at h <;> cases h
  rfl

/-- Text that the pattern accepts as it stands is read alike from a string and
from a number. -/
theorem parse_number_text {x : JsNumber} {n : Int} (h : parseMoneyToMinorUnits (.number x) = .ok n) :
    parseMoneyToMinorUnits (.text x.text) = .ok n := by
  simp only [parseMoneyToMinorUnits, normalizeMoneyInput] at h ⊢
  by_cases hp : MONEY_PATTERN x.text.toList = true
  · simpa only [hp, if_true, trim_of_no_space (pattern_no_space hp)] using h
  · simp only [hp, Bool.false_eq_true, if_false] at h; cases h

/-! ## What is written -/

theorem digits_of_toDigits {n : Nat} : ∀ c ∈ Nat.toDigits 10 n, c.isDigit = true :=
  fun _ hc => Nat.isDigit_of_mem_toDigits (by decide) (by decide) hc

/-- The digits `formatMinorUnits` splits: at least one before the last two. -/
theorem raw_digits (n : Nat) : ∃ w f, w ≠ [] ∧ f.length = 2 ∧ (∀ c ∈ w ++ f, c.isDigit = true) ∧
    padStart (MONEY_SCALE + 1) '0' (Nat.toDigits 10 n) = w ++ f ∧ Nat.ofDigitChars 10 (w ++ f) 0 = n := by
  let raw := padStart (MONEY_SCALE + 1) '0' (Nat.toDigits 10 n)
  have hlen : 3 ≤ raw.length := by simp [raw, padStart, MONEY_SCALE]; omega
  have hraw : raw.take (raw.length - 2) ++ raw.drop (raw.length - 2) = raw := List.take_append_drop ..
  refine ⟨raw.take (raw.length - 2), raw.drop (raw.length - 2), ?_, by simp; omega, ?_, hraw.symm, ?_⟩
  · intro h
    have := congrArg List.length h
    simp at this; omega
  · intro c hc
    rw [hraw] at hc
    rcases List.mem_append.mp hc with hc | hc
    · rw [(List.mem_replicate.mp hc).2]; decide
    · exact digits_of_toDigits c hc
  · rw [hraw]
    simp [raw, padStart, Nat.ofDigitChars_append, Nat.ofDigitChars_replicate_zero]

theorem formatMinorUnits_eq (n : Int) : ∃ w f, w ≠ [] ∧ f.length = 2 ∧ (∀ c ∈ w ++ f, c.isDigit = true) ∧
    formatMinorUnits n = (if n < 0 then ['-'] else []) ++ unsignedText w f ∧
    Nat.ofDigitChars 10 (w ++ f) 0 = n.natAbs := by
  obtain ⟨w, f, hw, hf, hd, he, hn⟩ := raw_digits n.natAbs
  refine ⟨w, f, hw, hf, hd, ?_, hn⟩
  have hne : f ≠ [] := by rintro rfl; simp at hf
  have hlen : (w ++ f).length - MONEY_SCALE = w.length := by simp [hf, MONEY_SCALE]
  rw [formatMinorUnits, he, hlen, List.take_left, List.drop_left, unsignedText, if_neg hne, List.append_assoc]

theorem format_pattern (n : Int) : MONEY_PATTERN (formatMinorUnits n) = true := by
  obtain ⟨w, f, hw, hf, hd, he, _⟩ := formatMinorUnits_eq n
  rw [he]
  split
  · exact pattern_negative hw hd (by omega)
  · exact pattern_unsigned hw hd (by omega)

theorem parse_format (n : Int) : parseMoneyToMinorUnits (.text (formatMinorUnitsToMoney n)) = .ok n := by
  obtain ⟨w, f, hw, hf, hd, he, hn⟩ := formatMinorUnits_eq n
  have hpad : padEnd MONEY_SCALE '0' f = f := by simp [padEnd, MONEY_SCALE, hf]
  have hu : unsignedMinorUnits (unsignedText w f) = n.natAbs := by rw [unsignedMinorUnits_text hd, hpad, hn]
  have hm : minorUnitsOf (formatMinorUnits n) = n := by
    rw [he]
    split
    · show -(unsignedMinorUnits (unsignedText w f) : Int) = n
      rw [hu]; omega
    · show minorUnitsOf (unsignedText w f) = n
      rw [minorUnitsOf_unsigned hw hd, hu]; omega
  rw [parseMoneyToMinorUnits, formatMinorUnitsToMoney, normalize_text_of_pattern (format_pattern n)]
  show Except.ok (minorUnitsOf (formatMinorUnits n)) = _
  rw [hm]

/-- The decimal text of a whole number of minor units is read as that number of
major units. -/
theorem parse_minorUnits_text (n : Nat) : parseMoneyToMinorUnits (.text (toString (n : Int))) = .ok (100 * n) := by
  have hd : ∀ c ∈ Nat.toDigits 10 n ++ [], c.isDigit = true := by simpa using digits_of_toDigits
  have ht : toString (n : Int) = String.ofList (unsignedText (Nat.toDigits 10 n) []) := by
    rw [unsignedText, if_pos rfl, List.append_nil, ← Nat.toString_eq_ofList_toDigits]
    rfl
  have hu : unsignedMinorUnits (unsignedText (Nat.toDigits 10 n) []) = 100 * n := by
    rw [unsignedMinorUnits_text hd, Nat.ofDigitChars_append, Nat.ofDigitChars_ten_toDigits,
      Nat.ofDigitChars_eq_ofDigitChars_zero]
    simp [padEnd, MONEY_SCALE, Nat.ofDigitChars]
  rw [parseMoneyToMinorUnits, ht,
    normalize_text_of_pattern (pattern_unsigned Nat.toDigits_ne_nil hd (by simp))]
  show Except.ok (minorUnitsOf _) = _
  rw [minorUnitsOf_unsigned Nat.toDigits_ne_nil hd, hu]
  simp

/-! ## Amounts in stored events -/

/-- Text the reader accepts: the `amount` of a stored money event. -/
structure MoneyText where
  text : String
  accepted : ∃ n, parseMoneyToMinorUnits (.text text) = .ok n
  deriving DecidableEq

def MoneyText.minorUnits (m : MoneyText) : Int :=
  match parseMoneyToMinorUnits (.text m.text) with
  | .ok n => n
  | .error _ => 0

theorem MoneyText.parse (m : MoneyText) : parseMoneyToMinorUnits (.text m.text) = .ok m.minorUnits := by
  obtain ⟨n, h⟩ := m.accepted
  simp only [MoneyText.minorUnits, h]

def MoneyText.format (n : Int) : MoneyText := ⟨formatMinorUnitsToMoney n, n, parse_format n⟩

@[simp] theorem MoneyText.minorUnits_format (n : Int) : (MoneyText.format n).minorUnits = n := by
  simp only [MoneyText.minorUnits, MoneyText.format, parse_format]

/-! ## Numbers -/

/-- `Number(text)`: a number's own text gives the number back, and texts of one
money value give one number. -/
class JsRuntime where
  Number : String → JsNumber
  Number_text : ∀ s, Number (Number s).text = Number s
  Number_congr : ∀ {s s' n}, parseMoneyToMinorUnits (.text s) = .ok n →
    parseMoneyToMinorUnits (.text s') = .ok n → Number s = Number s'

section
variable [JsRuntime]

def JsNumber.IsNumber (x : JsNumber) : Prop := ∃ s, JsRuntime.Number s = x

def minorUnitsToNumber (minorUnits : Int) : JsNumber := JsRuntime.Number (formatMinorUnitsToMoney minorUnits)

/-- A number that is read as an amount is the number written for it. -/
theorem minorUnitsToNumber_of_parse {x : JsNumber} (hx : x.IsNumber) {n : Int}
    (h : parseMoneyToMinorUnits (.number x) = .ok n) : minorUnitsToNumber n = x := by
  obtain ⟨s, rfl⟩ := hx
  rw [minorUnitsToNumber, JsRuntime.Number_congr (parse_format n) (parse_number_text h), JsRuntime.Number_text]

end

theorem parse_NaN : parseMoneyToMinorUnits (.text "NaN") = .error (.error "Invalid money amount: NaN") := by
  decide

@[reducible] def decimalRuntime : JsRuntime where
  Number s := match parseMoneyToMinorUnits (.text s) with
    | .ok n => ⟨formatMinorUnitsToMoney n⟩
    | .error _ => ⟨"NaN"⟩
  Number_text s := by
    cases h : parseMoneyToMinorUnits (.text s) with
    | ok n => simp only [parse_format]
    | error e => simp only [parse_NaN]
  Number_congr h h' := by simp only [h, h']

end CoreBanking
