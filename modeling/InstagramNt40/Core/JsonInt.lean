import InstagramNt40.Core.DeclaredLengths
import InstagramNt40.Core.JsonAccess
import InstagramNt40.Core.JsonNumber
import Mathlib.Data.Rat.Floor

/-!
# The range of json_int

The digits of a number are accumulated in a 32-bit `long` without a check. The values
computed on the way are in range exactly if the integer part without its sign is below
`2 ^ 31`; then the result is the number truncated toward zero.
-/
namespace InstagramNt40.Json

open Http (InInt accumulated accumulated_inInt_iff decimalValue decimalValue_eq)
open Ascii Scanner Rfc8259

/-! ### The integer part -/

/-- The digits in front of the point, behind the sign. -/
def integerDigits (s : List UInt8) : List UInt8 :=
  (if s.head? = some 0x2D then s.tail else s).takeWhile isDigit

/-- The number without its fraction. -/
def integerPart (s : List UInt8) : Int :=
  if s.head? = some 0x2D then -decimal (integerDigits s) else decimal (integerDigits s)

/-- The values that `json_int` computes, before they are stored: those of its loop, and
the negation. -/
def intValues (s : List UInt8) : List Int :=
  if s.head? = some 0x2D then
    accumulated 10 decimalValue (integerDigits s) 0 ++ [-intDigits s.tail 0]
  else accumulated 10 decimalValue (integerDigits s) 0

theorem integerDigits_digits (s : List UInt8) : ∀ b ∈ integerDigits s, IsDigit b :=
  fun _ member => isDigit_iff.mp (List.mem_takeWhile_imp member)

/-- The loop reads the digits, as long as they fit. -/
theorem intDigits_small {s : List UInt8} (small : decimal (s.takeWhile isDigit) < 2 ^ 31) :
    intDigits s 0 = decimal (s.takeWhile isDigit) := by
  have read : intDigits s 0 = (decimal (s.takeWhile isDigit) : Int).bmod (2 ^ 32) :=
    intDigits_decimal s 0
  rw [read]
  exact Http.wrap32_small small

theorem jsonInt_bmod (s : List UInt8) (slen : Nat) (default : Int) :
    jsonInt (some (.num s slen)) default = (integerPart s).bmod (2 ^ 32) := by
  rw [jsonInt_number, Option.bind_some, JsonValue.number, Option.getD_some]
  unfold integerPart integerDigits
  split_ifs <;> rfl

/-- What is in the range of a `long` is read as it is: the two wraps of the most negative
number cancel. -/
theorem jsonInt_inInt {s : List UInt8} (inRange : InInt (integerPart s)) (slen : Nat)
    (default : Int) : jsonInt (some (.num s slen)) default = integerPart s := by
  obtain ⟨low, high⟩ := inRange
  rw [jsonInt_bmod]
  apply Int.bmod_eq_of_le
  · exact low
  · exact high

theorem intValues_inInt_iff (s : List UInt8) :
    (∀ v ∈ intValues s, InInt v) ↔ decimal (integerDigits s) < 2 ^ 31 := by
  have loop := accumulated_inInt_iff 10 (by decide)
    (fun d hd => decimalValue_eq (integerDigits_digits s d hd)) 0 (by decide)
  unfold intValues
  by_cases negative : s.head? = some 0x2D
  · rw [if_pos negative]
    constructor
    · intro inRange
      exact loop.mp fun v member => inRange v (List.mem_append_left _ member)
    · intro small v member
      rcases List.mem_append.mp member with inLoop | last
      · exact loop.mpr small v inLoop
      · rw [List.mem_singleton] at last
        have digits : integerDigits s = s.tail.takeWhile isDigit := by
          rw [integerDigits, if_pos negative]
        rw [digits] at small
        rw [last, intDigits_small small]
        unfold InInt
        omega
  · rw [if_neg negative]
    exact loop

/-! ### Truncation -/

/-- The number without its fraction: toward zero. -/
def truncate (q : Rat) : Int := if 0 ≤ q then ⌊q⌋ else ⌈q⌉

theorem truncate_neg {q : Rat} (positive : 0 ≤ q) : truncate (-q) = -⌊q⌋ := by
  unfold truncate
  by_cases zero : 0 ≤ -q
  · have none : q = 0 := by linarith
    rw [none]
    simp
  · rw [if_neg zero, Int.ceil_neg]

/-- A number without exponent, as it is written: its sign, the digits of its integer part,
and behind a point those of its fraction. -/
def plainText (negative : Bool) (int : List UInt8) (fraction : Option (List UInt8)) :
    List UInt8 :=
  (if negative then [0x2D] else []) ++ (int ++ (fraction.map (0x2E :: ·)).getD [])

/-- Its value. -/
def plainValue (negative : Bool) (int : List UInt8) (fraction : Option (List UInt8)) : Rat :=
  let ds := fraction.getD []
  let magnitude : Rat := decimal int + decimal ds / 10 ^ ds.length
  if negative then -magnitude else magnitude

section Plain

variable {negative : Bool} {int : List UInt8} {fraction : Option (List UInt8)}

theorem floor_magnitude {ds : List UInt8} (digits : Digits ds) (n : Nat) :
    ⌊(n : Rat) + decimal ds / 10 ^ ds.length⌋ = n := by
  have below := decimal_lt digits
  have positive : (0 : Rat) < 10 ^ ds.length := by positivity
  rw [Int.floor_natCast_add, add_eq_left, Int.floor_eq_zero_iff, Set.mem_Ico]
  constructor
  · positivity
  · rw [div_lt_one positive]
    exact_mod_cast below

theorem truncate_plainValue (digits : ∀ f ∈ fraction, Digits f) :
    truncate (plainValue negative int fraction) =
      if negative then -(decimal int : Int) else decimal int := by
  have behind : Digits (fraction.getD []) := by
    cases fraction with
    | none => exact fun _ member => absurd member List.not_mem_nil
    | some f => exact digits f rfl
  have floor := floor_magnitude behind (decimal int)
  have positive : (0 : Rat) ≤ decimal int +
      decimal (fraction.getD []) / 10 ^ (fraction.getD []).length := by positivity
  unfold plainValue
  cases negative with
  | true =>
    rw [if_pos rfl, if_pos rfl, truncate_neg positive, floor]
  | false =>
    rw [if_neg Bool.false_ne_true, if_neg Bool.false_ne_true, truncate, if_pos positive, floor]

/-- The parser's view of such a text. -/
theorem integerPart_plainText (digits : Digits int) :
    integerPart (plainText negative int fraction) =
      if negative then -(decimal int : Int) else decimal int := by
  have stop : ∀ b ∈ ((fraction.map (0x2E :: ·)).getD []).head?, isDigit b = false := by
    cases fraction with
    | none => simp
    | some f => simp [isDigit]
  have taken : (int ++ (fraction.map (0x2E :: ·)).getD []).takeWhile isDigit = int :=
    takeWhile_append_stop (fun b hb => isDigit_iff.mpr (digits b hb)) stop
  unfold integerPart integerDigits plainText
  cases negative with
  | true =>
    simp only [if_true, List.singleton_append, List.head?_cons, List.tail_cons, taken]
  | false =>
    -- without a sign the text does not start with one
    have unsigned : (int ++ (fraction.map (0x2E :: ·)).getD []).head? ≠ some 0x2D := by
      cases int with
      | nil => cases fraction <;> simp
      | cons d int =>
        have digit := digits d List.mem_cons_self
        rintro sign
        rw [List.cons_append, List.head?_cons, Option.some.injEq] at sign
        subst sign
        exact absurd digit (by decide)
    simp only [Bool.false_eq_true, if_false, List.nil_append, if_neg unsigned, taken]

end Plain

end InstagramNt40.Json
