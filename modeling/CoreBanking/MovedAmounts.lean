import CoreBanking.MoneyCodec
import CoreBanking.TransferHistory
import Mathlib.Algebra.Order.Floor.Ring
import Mathlib.Data.Rat.Floor
import Mathlib.Data.Set.Basic
import Mathlib.Tactic.NormNum
import Mathlib.Tactic.Ring

/-!
# Amounts that pass through numbers

A number is a rational of some set, `Number` rounds the value of a text to one
of them, and `toString` writes a text that rounds back. Which rationals there
are, how they are rounded and which text is written is left open. A cent value
need not be one of them, but an amount that has come in as a number is.
-/

namespace CoreBanking

structure Doubles where
  doubles : Set Rat
  round : Rat → Rat
  round_mem : ∀ q, round q ∈ doubles
  /-- What a numeric text denotes, with white space and exponents; other texts denote nothing. -/
  valueOf : String → Option Rat
  valueOf_text : ∀ (s : String) (d : Decimal), trim s.toList = d.text → valueOf s = some d.value
  valueOf_NaN : valueOf "NaN" = none
  toString : Rat → String
  toString_rounds : ∀ x ∈ doubles, ∃ q, valueOf (toString x) = some q ∧ round q = x

namespace Doubles

variable (F : Doubles) {x : Rat}

def number (x : Rat) : JsNumber := ⟨F.toString x⟩

def Number (s : String) : JsNumber :=
  match F.valueOf s with
  | some q => F.number (F.round q)
  | none => ⟨"NaN"⟩

theorem Number_toString (hx : x ∈ F.doubles) : F.Number (F.toString x) = F.number x := by
  obtain ⟨q, hq, hround⟩ := F.toString_rounds x hx
  rw [Number, hq]
  exact congrArg F.number hround

theorem valueOf_of_parse {s : String} {n : Int} (h : parseMoneyToMinorUnits (.text s) = .ok n) :
    F.valueOf s = some ((n : Rat) / 100) := by
  obtain ⟨d, hf, hd, rfl⟩ := parse_text_ok_iff.mp h
  rw [F.valueOf_text s d hd, minorUnitsOf_text hf, mul_div_cancel_left₀ _ (by norm_num)]

@[reducible] def runtime : JsRuntime where
  Number := F.Number
  Number_text s := by
    cases hs : F.valueOf s with
    | some q =>
      have hnumber : F.Number s = F.number (F.round q) := by rw [Number, hs]
      rw [hnumber]
      exact F.Number_toString (F.round_mem q)
    | none =>
      have hnumber : F.Number s = ⟨"NaN"⟩ := by rw [Number, hs]
      rw [hnumber, Number, F.valueOf_NaN]
  Number_congr h h' := by rw [Number, Number, F.valueOf_of_parse h, F.valueOf_of_parse h']

theorem isNumber (hx : x ∈ F.doubles) : @JsNumber.IsNumber F.runtime (F.number x) :=
  ⟨F.toString x, F.Number_toString hx⟩

end Doubles

/-! ## From the request to the commands -/

def AccountCommand.amount : AccountCommand → Option JsNumber
  | .DepositMoney _ amount .. => some amount
  | .WithdrawMoney _ amount .. => some amount
  | _ => none

theorem TransferAggregate.when_amountMinorUnits {transfer : TransferAggregate} {event : DomainEvent}
    (h : event.data.terms = none) : (transfer.when event).amountMinorUnits = transfer.amountMinorUnits := by
  unfold TransferAggregate.when
  cases hd : event.data
  case TransferInitiated =>
    rw [hd] at h
    cases h
  all_goals rfl

theorem TransferAggregate.loadFromHistory_amountMinorUnits {es : List DomainEvent}
    (h : ∀ e ∈ es, e.data.terms = none) (transfer : TransferAggregate) :
    (transfer.loadFromHistory es).amountMinorUnits = transfer.amountMinorUnits := by
  induction es generalizing transfer with
  | nil => rfl
  | cons e es ih =>
    have hrest := ih (fun e he => h e (List.mem_cons_of_mem _ he)) (transfer.when e)
    exact hrest.trans (when_amountMinorUnits (h e List.mem_cons_self))

theorem legCommand_amount [JsRuntime] (leg : Leg) (transfer : TransferAggregate) (context : CommandContext)
    (transactionId : String) :
    (TransferCoordinatorService.legCommand leg transfer context transactionId).amount =
      some (minorUnitsToNumber transfer.amountMinorUnits) := by
  cases leg <;> rfl

/-- What the stored text of an initiation is read back as. -/
theorem TransferAggregate.reads_back {event : DomainEvent} {transferId sourceAccountId destinationAccountId : String}
    {currency : String} {n : Int}
    (h : event.data = .TransferInitiated transferId sourceAccountId destinationAccountId (.format n) currency)
    (loaded : TransferAggregate) {later : List DomainEvent} (hlater : ∀ e ∈ later, e.data.terms = none) :
    ((loaded.when event).loadFromHistory later).amountMinorUnits = n := by
  rw [loadFromHistory_amountMinorUnits hlater]
  simp only [TransferAggregate.when, h, MoneyText.minorUnits_format]

/-- The commands of the legs are given the number that has come in. -/
theorem Doubles.legs_exact (F : Doubles) {x : Rat} (hx : x ∈ F.doubles) {n : Int}
    (hn : parseMoneyToMinorUnits (.number (F.number x)) = .ok n) {transfer : TransferAggregate}
    (hamount : transfer.amountMinorUnits = n) (leg : Leg) (context : CommandContext) (transactionId : String) :
    ∃ y : JsNumber, (@TransferCoordinatorService.legCommand F.runtime leg transfer context transactionId).amount =
        some y ∧ y = @minorUnitsToNumber F.runtime transfer.amountMinorUnits ∧ y = F.number x ∧
      parseMoneyToMinorUnits (.number y) = .ok n := by
  let runtime := F.runtime
  have hnumber : minorUnitsToNumber n = F.number x := minorUnitsToNumber_of_parse (F.isNumber hx) hn
  refine ⟨F.number x, ?_, ?_, rfl, hn⟩
  · rw [legCommand_amount, hamount, hnumber]
  · rw [hamount, hnumber]

/-- The event of an accepted initiation, behind any events of the stream and
before any later ones, gives the number back that has come in, in the command of
every leg. -/
theorem transfer_moves_requested (F : Doubles) {x : Rat} (hx : x ∈ F.doubles) {transfer transfer' : TransferAggregate}
    {transferId sourceAccountId destinationAccountId currency : String} {context : CommandContext} {stamp : Stamp}
    (h : transfer.initiate transferId sourceAccountId destinationAccountId (.number (F.number x)) currency context
      stamp = .ok transfer') :
    ∃ (event : DomainEvent) (amountMinorUnits : Int),
      transfer'.uncommittedEvents = transfer.uncommittedEvents ++ [event] ∧
      parseMoneyToMinorUnits (.number (F.number x)) = .ok amountMinorUnits ∧
      ∀ (loaded : TransferAggregate) (later : List DomainEvent), (∀ e ∈ later, e.data.terms = none) →
        ((loaded.when event).loadFromHistory later).amountMinorUnits = amountMinorUnits ∧
          ∀ (leg : Leg) (context : CommandContext) (transactionId : String), ∃ y : JsNumber,
            (@TransferCoordinatorService.legCommand F.runtime leg ((loaded.when event).loadFromHistory later) context
              transactionId).amount = some y ∧
            y = @minorUnitsToNumber F.runtime ((loaded.when event).loadFromHistory later).amountMinorUnits ∧
            y = F.number x ∧ parseMoneyToMinorUnits (.number y) = .ok amountMinorUnits := by
  have hcall : (TransferMethod.initiate transferId sourceAccountId destinationAccountId (.number (F.number x))
      currency).call context stamp transfer = .ok transfer' := h
  obtain ⟨data, hemits, rfl⟩ := TransferMethod.call_ok.mp hcall
  cases hemits with
  | @initiate _ _ _ _ _ n _ _ hn _ =>
    refine ⟨_, n, rfl, hn, fun loaded later hlater => ?_⟩
    have hdata := TransferAggregate.makeEvent_data transfer (.TransferInitiated transferId sourceAccountId
      destinationAccountId (.format n) currency) (some transferId) context stamp
    have hamount := TransferAggregate.reads_back hdata loaded hlater
    exact ⟨hamount, F.legs_exact hx hn hamount⟩

/-! ## Quarters -/

theorem trim_NaN : trim "NaN".toList = ['N', 'a', 'N'] := by decide +kernel

/-- Numbers that are not exact to the cent: `Number("0.30")` is a quarter. -/
noncomputable def quarters : Doubles where
  doubles := { q | ∃ m : Int, q = m / 4 }
  round q := ⌊4 * q + 1 / 2⌋ / 4
  round_mem q := ⟨_, rfl⟩
  valueOf s := Decimal.read (trim s.toList)
  valueOf_text s d h := by rw [h, Decimal.read_text]
  valueOf_NaN := by
    rw [trim_NaN, Decimal.read, dif_neg]
    rintro ⟨d, hd⟩
    obtain ⟨c, hhead, hc⟩ := d.text_head
    rw [← hd] at hhead
    cases hhead
    exact absurd hc (by decide)
  toString x := formatMinorUnitsToMoney ⌊100 * x⌋
  toString_rounds := by
    rintro x ⟨m, rfl⟩
    have hfloor : ⌊100 * ((m : Rat) / 4)⌋ = 25 * m := by
      rw [show 100 * ((m : Rat) / 4) = ((25 * m : Int) : Rat) by push_cast; ring, Int.floor_intCast]
    obtain ⟨d, htext, _, hvalue⟩ := formatMinorUnits_canonical (25 * m)
    have htrim : trim (formatMinorUnitsToMoney ⌊100 * ((m : Rat) / 4)⌋).toList = d.text := by
      rw [hfloor, formatMinorUnitsToMoney, String.toList_ofList,
        trim_of_no_space (pattern_no_space (format_pattern _)), htext]
    refine ⟨d.value, by rw [htrim, Decimal.read_text], ?_⟩
    have hd : d.value = (m : Rat) / 4 := by
      push_cast at hvalue
      linarith
    have hround : ⌊4 * d.value + 1 / 2⌋ = m := by
      rw [hd, Int.floor_eq_iff]
      constructor <;> linarith
    rw [hround]

/-- Five and a quarter, in minor units and back. -/
theorem transfer_moves_requested_quarter :
    (quarters.number (21 / 4)).text = "5.25" ∧ ∃ event : DomainEvent,
      (({} : TransferAggregate).when event).amountMinorUnits = 525 ∧ ∃ y : JsNumber,
        (@TransferCoordinatorService.legCommand quarters.runtime .debit (({} : TransferAggregate).when event)
          { commandId := "c-1", correlationId := "t-1" } "t-1:debit").amount = some y ∧
        parseMoneyToMinorUnits (.number y) = .ok 525 := by
  have htext : quarters.number (21 / 4) = ⟨"5.25"⟩ := by
    show JsNumber.mk (formatMinorUnitsToMoney ⌊100 * ((21 : Rat) / 4)⌋) = _
    rw [show ⌊100 * ((21 : Rat) / 4)⌋ = 525 by norm_num]
    decide +kernel
  have hparse : parseMoneyToMinorUnits (.number ⟨"5.25"⟩) = .ok 525 := by decide +kernel
  obtain ⟨transfer', hinit⟩ : ∃ transfer', ({} : TransferAggregate).initiate "t-1" "acc-1" "acc-2"
      (.number (quarters.number (21 / 4))) "EUR" { commandId := "c-1", correlationId := "t-1" } ⟨"event-1", 0⟩ =
        .ok transfer' := by
    rw [htext]
    exact ⟨_, TransferMethod.call_ok.mpr ⟨_, .initiate rfl (by decide) hparse (by decide), rfl⟩⟩
  obtain ⟨event, n, _, hn, hread⟩ := transfer_moves_requested quarters (x := 21 / 4) ⟨21, by norm_num⟩ hinit
  rw [htext] at hn
  obtain rfl : n = 525 := Except.ok.inj (hn.symm.trans hparse)
  obtain ⟨hamount, hlegs⟩ := hread {} [] (by simp)
  obtain ⟨y, hy, _, _, hok⟩ := hlegs .debit { commandId := "c-1", correlationId := "t-1" } "t-1:debit"
  exact ⟨congrArg JsNumber.text htext, event, hamount, y, hy, hok⟩

end CoreBanking
