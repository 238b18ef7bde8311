import InstagramNt40.Library.HttpRequest
import InstagramNt40.Net.PrintfMemory

/-!
# `mbedtls_nt4_vsnprintf` against C99

What C99 prints for a format of literal bytes, `%%`, `%c`, `%s` and conversions of numbers
with a `0` flag, a width and `l` or `z`, where an `int`, a `long` and a `size_t` are words
of 32 bits.
-/
namespace InstagramNt40.Printf

open Ascii Crt
open Http1 (decimalText decimalText_spec)

/-! ### What C99 prints -/

inductive Modifier where
  | none
  | l
  | z
  deriving DecidableEq

inductive Conversion where
  | d
  | i
  | u
  | x
  | X
  deriving DecidableEq

/-- `%[0][width][l|z]{d,i,u,x,X}` and its argument. A width of zero is none at all. -/
structure Number where
  zeros : Nat
  width : Nat
  modifier : Modifier
  conversion : Conversion
  value : UInt32

/-- The values of the digits of a number, the last one first. -/
def places (base n : Nat) : List Nat := if n = 0 then [0] else Nat.digits base n

/-- The digits of a number, the first one first. -/
def numeral (hex : List UInt8) (base n : Nat) : List UInt8 :=
  ((places base n).map fun d => hex.getD d 0).reverse

namespace Number

def signed (n : Number) : Prop := n.conversion = .d ∨ n.conversion = .i

instance (n : Number) : Decidable n.signed := inferInstanceAs (Decidable (_ ∨ _))

/-- The value of the argument, in its type. -/
def int (n : Number) : Int := if n.signed then n.value.toBitVec.toInt else n.value.toNat

def sign (n : Number) : List UInt8 := if n.int < 0 then [0x2D] else []

def digits (n : Number) : List UInt8 :=
  match n.conversion with
  | .d | .i | .u => decimalText n.int.natAbs
  | .x => numeral (literal "0123456789abcdef") 16 n.int.natAbs
  | .X => numeral (literal "0123456789ABCDEF") 16 n.int.natAbs

/-- The sign counts in the width; the zeros of the flag stand after it, spaces before. -/
def c99 (n : Number) : List UInt8 :=
  let pad := n.width - (n.sign.length + n.digits.length)
  if 0 < n.zeros then n.sign ++ List.replicate pad 0x30 ++ n.digits
  else List.replicate pad 0x20 ++ n.sign ++ n.digits

def modifierText (n : Number) : List UInt8 :=
  match n.modifier with
  | .none => []
  | .l => [0x6C]
  | .z => [0x7A]

def letter (n : Number) : UInt8 :=
  match n.conversion with
  | .d => 0x64
  | .i => 0x69
  | .u => 0x75
  | .x => 0x78
  | .X => 0x58

def widthText (n : Number) : List UInt8 := if n.width = 0 then [] else decimalText n.width

def format (n : Number) : List UInt8 :=
  0x25 :: (List.replicate n.zeros 0x30 ++ n.widthText ++ n.modifierText ++ [n.letter])

end Number

/-- A part of a format, with its arguments. -/
inductive Piece where
  | byte (b : UInt8) (plain : b ≠ 0x25 ∧ b ≠ 0)
  | percent
  | char (v : UInt32)
  | string (s : List UInt8)
  | number (n : Number)

namespace Piece

def format : Piece → List UInt8
  | byte b _ => [b]
  | percent => [0x25, 0x25]
  | char _ => [0x25, 0x63]
  | string _ => [0x25, 0x73]
  | number n => n.format

def args : Piece → List Arg
  | byte _ _ | percent => []
  | char v => [.word v]
  | string s => [.str (some s)]
  | number n => [.word n.value]

def c99 : Piece → List UInt8
  | byte b _ => [b]
  | percent => [0x25]
  | char v => [v.toUInt8]
  | string s => cstr s 0
  | number n => n.c99

end Piece

def formatOf (ps : List Piece) : List UInt8 := ps.flatMap Piece.format

def argsOf (ps : List Piece) : List Arg := ps.flatMap Piece.args

/-- All that C99 prints. -/
def c99 (ps : List Piece) : List UInt8 := ps.flatMap Piece.c99

/-! ### What the code prints -/

/-- The digits in a field of their own. -/
def padded (zeroPad : Bool) (width : Nat) (ds : List UInt8) : List UInt8 :=
  List.replicate (width - ds.length) (if zeroPad then 0x30 else 0x20) ++ ds

namespace Number

/-- The sign comes first, and the width is that of the digits. -/
def printed (n : Number) : List UInt8 := n.sign ++ padded (0 < n.zeros) n.width n.digits

/-- No sign is in the way: the number is not negative, or its digits fill the width. -/
def SignFree (n : Number) : Prop := n.int < 0 → n.width ≤ n.digits.length

instance (n : Number) : Decidable n.SignFree := inferInstanceAs (Decidable (_ → _))

end Number

def Piece.printed : Piece → List UInt8
  | number n => n.printed
  | piece => piece.c99

/-! ### Digits -/

theorem places_cons {base : Nat} (large : 1 < base) (n : Nat) :
    places base n = n % base :: if n / base ≠ 0 then places base (n / base) else [] := by
  unfold places
  by_cases zero : n = 0
  · subst zero
    simp
  · rw [if_neg zero, Nat.digits_def' large (Nat.pos_of_ne_zero zero)]
    by_cases last : n / base = 0
    · simp [last]
    · simp [last]

theorem uintDigits_eq (hex : List UInt8) {base : UInt32} (large : 1 < base) {room : Nat}
    (v : UInt32) (positive : room ≠ 0) (enough : v.toNat < base.toNat ^ room) :
    uintDigits hex base room v = (places base.toNat v.toNat).map fun d => hex.getD d 0 := by
  have large : 1 < base.toNat := UInt32.lt_iff_toNat_lt.mp large
  induction room generalizing v with
  | zero => exact absurd rfl positive
  | succ room ih =>
    have quotient : v / base ≠ 0 ↔ v.toNat / base.toNat ≠ 0 := by
      rw [ne_eq, ← UInt32.toNat_inj, UInt32.toNat_div]
      rfl
    rw [uintDigits, places_cons large, List.map_cons, UInt32.toNat_mod]
    by_cases more : v / base ≠ 0
    · have less : (v / base).toNat < base.toNat ^ room := by
        rw [UInt32.toNat_div, Nat.div_lt_iff_lt_mul (by omega), ← Nat.pow_succ]
        exact enough
      have some : room ≠ 0 := by
        rintro rfl
        rw [Nat.pow_zero, Nat.lt_one_iff] at less
        exact more (UInt32.toNat_inj.mp less)
      rw [if_pos more, if_pos (quotient.mp more), ih _ some less, UInt32.toNat_div]
    · rw [if_neg more, if_neg (mt quotient.mpr more)]
      rfl

theorem numeral_length_le {base n k : Nat} (hex : List UInt8) (large : 1 < base) (some : 0 < k)
    (small : n < base ^ k) : (numeral hex base n).length ≤ k := by
  unfold numeral places
  rw [List.length_reverse, List.length_map]
  split_ifs with zero
  · exact some
  · exact (Nat.digits_length_le_iff large n).mpr small

/-- The number that `emit_uint` prints, in a field that an `int` can count. -/
theorem emitUint_collect (out : List UInt8) (v base : UInt32) (upper : Bool) {width : Nat}
    (zeroPad : Bool) (large : 1 < base) (small : width < 2 ^ 31) :
    Mem.emitUint Mem.collect out v base upper width zeroPad =
      .ok (out ++ padded zeroPad width (numeral
        (if upper then literal "0123456789ABCDEF" else literal "0123456789abcdef")
        base.toNat v.toNat)) := by
  generalize text : numeral (if upper then literal "0123456789ABCDEF"
    else literal "0123456789abcdef") base.toNat v.toNat = ds
  have enough : v.toNat < base.toNat ^ 32 := calc
    v.toNat < 2 ^ 32 := v.toNat_lt
    _ ≤ base.toNat ^ 32 := Nat.pow_le_pow_left (UInt32.lt_iff_toNat_lt.mp large) 32
  have few : ds.length ≤ 32 := text ▸
    numeral_length_le _ (UInt32.lt_iff_toNat_lt.mp large) (by decide) enough
  unfold Mem.emitUint
  dsimp only
  rw [uintDigits_eq _ large v (by decide) enough]
  have same : ((places base.toNat v.toNat).map fun d =>
      (if upper then literal "0123456789ABCDEF" else literal "0123456789abcdef").getD d 0).reverse =
      ds := text
  rw [same, ← List.length_reverse, same]
  have pad : ((width : Int) - ds.length).bmod (2 ^ 32) = (width : Int) - ds.length := by
    rw [Int.bmod_eq_of_le] <;> omega
  have count : ((width : Int) - ds.length).toNat = width - ds.length := by omega
  rw [pad, count, padded, ← List.append_assoc]
  rfl

/-! ### Conversions -/

/-- The decimal digits are the first of the hexadecimal ones. -/
theorem numeral_decimal (n : Nat) : numeral (literal "0123456789abcdef") 10 n = decimalText n := by
  have digit : ∀ d < 10, (literal "0123456789abcdef").getD d 0 = UInt8.ofNat (0x30 + d) := by
    decide
  unfold numeral places decimalText
  split_ifs with zero
  · rfl
  · congr 1
    exact List.map_congr_left fun d member => digit d (Nat.digits_lt_base (by decide) member)

theorem Number.letter_notDigit (n : Number) : ¬(0x30 ≤ n.letter ∧ n.letter ≤ 0x39) := by
  unfold Number.letter
  cases n.conversion <;> decide

/-- The sign bit, and the absolute value behind it; that of the least `int` is its own. -/
theorem negative_iff (v : UInt32) : v ≥ 0x80000000 ↔ v.toBitVec.toInt < 0 := by
  rw [ge_iff_le, UInt32.le_iff_toNat_le, BitVec.toInt_eq_toNat_cond, UInt32.toNat_toBitVec]
  simp only [UInt32.reduceToNat]
  have := v.toNat_lt
  split_ifs <;> omega

theorem natAbs_of_negative {v : UInt32} (negative : v ≥ 0x80000000) :
    (0 - v).toNat = v.toBitVec.toInt.natAbs := by
  -- `0 - v` wraps around to the absolute value
  rw [ge_iff_le, UInt32.le_iff_toNat_le] at negative
  rw [BitVec.toInt_eq_toNat_cond, UInt32.toNat_toBitVec, UInt32.toNat_sub]
  simp only [UInt32.reduceToNat] at negative ⊢
  have := v.toNat_lt
  split_ifs <;> omega

theorem natAbs_of_not_negative {v : UInt32} (positive : ¬v ≥ 0x80000000) :
    v.toNat = v.toBitVec.toInt.natAbs := by
  rw [ge_iff_le, UInt32.le_iff_toNat_le] at positive
  rw [BitVec.toInt_eq_toNat_cond, UInt32.toNat_toBitVec]
  simp only [UInt32.reduceToNat] at positive
  split_ifs <;> omega

theorem Number.letter_ne_zero (n : Number) : n.letter ≠ 0 := by
  unfold Number.letter
  cases n.conversion <;> decide

section Convert

variable (out : List UInt8) (zeroPad : Bool) {width : Nat} (small : width < 2 ^ 31) (v : UInt32)
  (args : List Arg)

include small

theorem convert_signed {c : UInt8} (letter : Mem.switchCase c = .signed) :
    Mem.convert Mem.collect out zeroPad width c (.word v :: args) =
      .ok (out ++ ((if v.toBitVec.toInt < 0 then [0x2D] else []) ++
        padded zeroPad width (decimalText v.toBitVec.toInt.natAbs)), args) := by
  rw [Mem.convert_cases, letter]
  dsimp only [Mem.va, vaWord, bind, Except.bind]
  by_cases negative : v ≥ 0x80000000
  · rw [if_pos negative, if_pos ((negative_iff v).mp negative)]
    dsimp only [Mem.collect]
    rw [emitUint_collect _ _ _ _ _ (by decide) small, natAbs_of_negative negative,
      ← numeral_decimal, List.append_assoc]
    rfl
  · rw [if_neg negative, if_neg (mt (negative_iff v).mpr negative)]
    rw [emitUint_collect _ _ _ _ _ (by decide) small, natAbs_of_not_negative negative,
      ← numeral_decimal]
    rfl

theorem convert_unsigned {c : UInt8} {base : UInt32} {upper : Bool} (large : 1 < base)
    (letter : Mem.switchCase c = .unsigned base upper) :
    Mem.convert Mem.collect out zeroPad width c (.word v :: args) =
      .ok (out ++ padded zeroPad width (numeral
        (if upper then literal "0123456789ABCDEF" else literal "0123456789abcdef")
        base.toNat v.toNat), args) := by
  rw [Mem.convert_cases, letter]
  dsimp only [Mem.va, vaWord, bind, Except.bind]
  rw [emitUint_collect _ _ _ _ _ large small]
  rfl

end Convert

namespace Number

theorem int_signed {n : Number} (signed : n.signed) : n.int = n.value.toBitVec.toInt :=
  if_pos signed

theorem sign_unsigned {n : Number} (unsigned : ¬n.signed) : n.sign = [] := by
  unfold sign int
  rw [if_neg unsigned, if_neg (by omega)]

theorem natAbs_unsigned {n : Number} (unsigned : ¬n.signed) : n.int.natAbs = n.value.toNat := by
  rw [int, if_neg unsigned, Int.natAbs_natCast]

/-- The `switch` prints the number. -/
theorem convert_printed (n : Number) (small : n.width < 2 ^ 31) (args : List Arg)
    (out : List UInt8) :
    Mem.convert Mem.collect out (decide (0 < n.zeros)) n.width n.letter (.word n.value :: args) =
      .ok (out ++ n.printed, args) := by
  have unsigned (h : ¬n.signed) : n.printed = padded (0 < n.zeros) n.width n.digits := by
    rw [printed, sign_unsigned h, List.nil_append]
  cases conversion : n.conversion with
  | d =>
    have letter : n.letter = 0x64 := by rw [Number.letter, conversion]
    rw [letter, convert_signed out _ small _ _ rfl, printed, digits, conversion, sign,
      int_signed (Or.inl conversion)]
  | i =>
    have letter : n.letter = 0x69 := by rw [Number.letter, conversion]
    rw [letter, convert_signed out _ small _ _ rfl, printed, digits, conversion, sign,
      int_signed (Or.inr conversion)]
  | u =>
    have letter : n.letter = 0x75 := by rw [Number.letter, conversion]
    have plain : ¬n.signed := by rw [signed, conversion]; decide
    rw [letter, unsigned plain, digits, conversion, natAbs_unsigned plain,
      convert_unsigned out _ small _ args (by decide) rfl, ← numeral_decimal]
    rfl
  | x =>
    have letter : n.letter = 0x78 := by rw [Number.letter, conversion]
    have plain : ¬n.signed := by rw [signed, conversion]; decide
    rw [letter, unsigned plain, digits, conversion, natAbs_unsigned plain,
      convert_unsigned out _ small _ args (by decide) rfl]
    rfl
  | X =>
    have letter : n.letter = 0x58 := by rw [Number.letter, conversion]
    have plain : ¬n.signed := by rw [signed, conversion]; decide
    rw [letter, unsigned plain, digits, conversion, natAbs_unsigned plain,
      convert_unsigned out _ small _ args (by decide) rfl]
    rfl

end Number

/-! ### Reading a conversion -/

theorem readWidth_digits {ds : List UInt8} (digits : ∀ b ∈ ds, IsDigit b) {c : UInt8}
    (stop : ¬(0x30 ≤ c ∧ c ≤ 0x39)) (p : List UInt8) (width : Nat)
    (small : ds.foldl (fun n d => n * 10 + (d.toNat - 0x30)) width < 2 ^ 31) :
    Mem.readWidth (ds ++ c :: p) width =
      .ok ((ds.foldl (fun n d => n * 10 + (d.toNat - 0x30)) width : Nat), c :: p) := by
  induction ds generalizing width with
  | nil => rw [List.nil_append, Mem.readWidth, if_neg stop]; rfl
  | cons d ds ih =>
    rw [List.forall_mem_cons] at digits
    have least := UInt8.le_iff_toNat_le.mp digits.1.1
    simp only [UInt8.reduceToNat] at least
    have fits : width * 10 + (d.toNat - 0x30) < 2 ^ 31 := lt_of_le_of_lt
      (foldl_digits_le 10 (fun d => d.toNat - 0x30) (by decide) ds _) small
    have next : ((width : Int) * 10 + ((d.toNat : Int) - 0x30)).bmod (2 ^ 32) =
        ((width * 10 + (d.toNat - 0x30) : Nat) : Int) := by
      rw [Int.bmod_eq_of_le] <;> omega
    rw [List.cons_append, Mem.readWidth, if_pos (show 0x30 ≤ d ∧ d ≤ 0x39 from digits.1), next]
    exact ih digits.2 _ small

theorem decimalText_head {n : Nat} (positive : n ≠ 0) :
    ∃ d ds, decimalText n = d :: ds ∧ d ≠ 0x30 := by
  have some : Nat.digits 10 n ≠ [] := Nat.digits_ne_nil_iff_ne_zero.mpr positive
  have last := Nat.getLast_digit_ne_zero 10 positive
  have small : (Nat.digits 10 n).getLast some < 10 :=
    Nat.digits_lt_base (by decide) (List.getLast_mem some)
  unfold decimalText
  rw [if_neg positive, ← List.dropLast_concat_getLast some, List.map_append, List.reverse_append]
  refine ⟨_, _, rfl, ?_⟩
  generalize (Nat.digits 10 n).getLast some = d at last small
  rw [ne_eq, ← UInt8.toNat_inj, UInt8.toNat_ofNat']
  simp only [UInt8.reduceToNat]
  omega

namespace Number

theorem skip_zero (n : Number) {c : UInt8} (stop : c ≠ 0x30) (p : List UInt8) :
    Mem.skipByte 0x30 (List.replicate n.zeros 0x30 ++ (n.widthText ++ c :: p)) =
      .ok (decide (0 < n.zeros),
        List.replicate (n.zeros - 1) 0x30 ++ (n.widthText ++ c :: p)) := by
  cases zeros : n.zeros with
  | succ k => rfl
  | zero =>
    unfold widthText
    by_cases absent : n.width = 0
    · rw [if_pos absent]
      exact congrArg Except.ok (if_neg stop)
    · obtain ⟨d, ds, text, nonzero⟩ := decimalText_head absent
      rw [if_neg absent, text]
      exact congrArg Except.ok (if_neg nonzero)

/-- The zeros do not change the width. -/
theorem width_digits (n : Number) (k : Nat) :
    decimal (List.replicate k 0x30 ++ n.widthText) = n.width := by
  rw [decimal_zeros]
  unfold widthText
  split_ifs with absent
  · exact absent.symm
  · exact (decimalText_spec n.width).2.2

theorem width_isDigit (n : Number) (k : Nat) :
    ∀ b ∈ List.replicate k 0x30 ++ n.widthText, IsDigit b := by
  intro b member
  rcases List.mem_append.mp member with zero | digit
  · rw [(List.mem_replicate.mp zero).2]
    decide
  · unfold widthText at digit
    split_ifs at digit
    · cases digit
    · exact (decimalText_spec n.width).2.1 b digit

theorem skip_letter (n : Number) (p : List UInt8) :
    Mem.skipByte 0x6C (n.letter :: p) = .ok (false, n.letter :: p) ∧
      Mem.skipByte 0x7A (n.letter :: p) = .ok (false, n.letter :: p) := by
  unfold letter
  cases n.conversion <;> exact ⟨rfl, rfl⟩

/-- The modifier ends the width and is skipped. -/
theorem skip_modifier (n : Number) (p : List UInt8) :
    ∃ c q long size rest, n.modifierText ++ n.letter :: p = c :: q ∧
      ¬(0x30 ≤ c ∧ c ≤ 0x39) ∧ Mem.skipByte 0x6C (c :: q) = .ok (long, rest) ∧
      Mem.skipByte 0x7A rest = .ok (size, n.letter :: p) := by
  obtain ⟨noL, noZ⟩ := n.skip_letter p
  unfold modifierText
  cases n.modifier with
  | none => exact ⟨_, _, _, _, _, rfl, n.letter_notDigit, noL, noZ⟩
  | l => exact ⟨_, _, true, _, _, rfl, by decide, rfl, noZ⟩
  | z => exact ⟨_, _, false, true, _, rfl, by decide, rfl, rfl⟩

theorem conversion_printed (n : Number) (small : n.width < 2 ^ 31) (p : List UInt8)
    (args : List Arg) (out : List UInt8) :
    Mem.conversion Mem.collect (List.replicate n.zeros 0x30 ++
        (n.widthText ++ (n.modifierText ++ n.letter :: p))) (.word n.value :: args) out =
      .ok (n.letter, p, args, out ++ n.printed) := by
  obtain ⟨c, q, long, size, rest, modifier, stop, skipL, skipZ⟩ := n.skip_modifier p
  have width := n.width_digits (n.zeros - 1)
  have read := readWidth_digits (n.width_isDigit (n.zeros - 1)) stop q 0
    (lt_of_eq_of_lt width small)
  have value : List.foldl (fun n d => n * 10 + (d.toNat - 0x30)) 0
      (List.replicate (n.zeros - 1) 0x30 ++ n.widthText) = n.width := width
  rw [value, List.append_assoc] at read
  unfold Mem.conversion
  rw [modifier, n.skip_zero (by rintro rfl; exact stop (by decide))]
  dsimp only [bind, Except.bind]
  rw [show (0 : Int) = ((0 : Nat) : Int) from rfl, read]
  dsimp only
  rw [skipL]
  dsimp only
  rw [skipZ]
  dsimp only
  rw [n.convert_printed small]
  rfl

end Number

/-! ### The loop over the format -/

theorem Piece.format_ne_nil (piece : Piece) : piece.format ≠ [] := by
  cases piece <;> exact List.cons_ne_nil _ _

/-- The width of every number can be counted by an `int`. -/
def Piece.Narrow : Piece → Prop
  | .number n => n.width < 2 ^ 31
  | _ => True

theorem formatLoop_piece (piece : Piece) (narrow : piece.Narrow) (fuel : Nat) (p : List UInt8)
    (args : List Arg) (out : List UInt8) :
    Mem.formatLoop Mem.collect (fuel + 1) (piece.format ++ p) (piece.args ++ args) out =
      Mem.formatLoop Mem.collect fuel p args (out ++ piece.printed) := by
  cases piece with
  | byte b plain =>
    show Mem.formatLoop Mem.collect (fuel + 1) (b :: p) args out = _
    rw [Mem.formatLoop, if_neg plain.2, if_pos plain.1]
    rfl
  | percent => rfl
  | char v => rfl
  | string s => rfl
  | number n =>
    have text : Piece.format (.number n) ++ p = 0x25 :: (List.replicate n.zeros 0x30 ++
        (n.widthText ++ (n.modifierText ++ n.letter :: p))) := by
      simp [Piece.format, Number.format]
    rw [text]
    show Mem.formatLoop Mem.collect (fuel + 1) _ (.word n.value :: args) out = _
    rw [Mem.formatLoop, if_neg (by decide), if_neg (by decide), n.conversion_printed narrow]
    exact if_neg n.letter_ne_zero

theorem formatLoop_pieces (ps : List Piece) (narrow : ∀ piece ∈ ps, piece.Narrow) (fuel : Nat)
    (enough : (formatOf ps).length < fuel) (out : List UInt8) :
    Mem.formatLoop Mem.collect fuel (formatOf ps ++ [0]) (argsOf ps) out =
      .ok (out ++ ps.flatMap Piece.printed) := by
  induction ps generalizing fuel out with
  | nil =>
    obtain ⟨fuel, rfl⟩ := Nat.exists_eq_succ_of_ne_zero (Nat.ne_zero_of_lt enough)
    rw [List.flatMap_nil, List.append_nil]
    rfl
  | cons piece ps ih =>
    rw [List.forall_mem_cons] at narrow
    obtain ⟨fuel, rfl⟩ := Nat.exists_eq_succ_of_ne_zero (Nat.ne_zero_of_lt enough)
    -- every piece takes one round of the loop
    have some := List.length_pos_iff.mpr piece.format_ne_nil
    have less : (formatOf ps).length < fuel := by
      rw [formatOf, List.flatMap_cons, List.length_append] at enough
      unfold formatOf
      omega
    rw [formatOf, List.flatMap_cons, List.append_assoc, argsOf, List.flatMap_cons]
    rw [Nat.succ_eq_add_one, formatLoop_piece piece narrow.1]
    have rest := ih narrow.2 fuel less (out ++ piece.printed)
    rw [List.append_assoc, ← List.flatMap_cons] at rest
    exact rest

theorem Number.format_plain (n : Number) : 0 ∉ n.format := by
  intro nul
  rw [Number.format, List.append_assoc, List.mem_cons, List.mem_append] at nul
  rcases nul with percent | digit | rest
  · exact absurd percent (by decide)
  · exact absurd (n.width_isDigit n.zeros 0 digit) (by decide)
  · rcases List.mem_append.mp rest with modifier | letter
    · unfold Number.modifierText at modifier
      cases same : n.modifier <;> rw [same] at modifier <;> revert modifier <;> decide
    · exact n.letter_ne_zero (List.mem_singleton.mp letter).symm

theorem formatOf_plain (ps : List Piece) : 0 ∉ formatOf ps := by
  intro member
  obtain ⟨piece, -, nul⟩ := List.mem_flatMap.mp member
  cases piece with
  | byte b plain => exact plain.2 (List.mem_singleton.mp nul).symm
  | percent => exact absurd (show (0 : UInt8) ∈ [0x25, 0x25] from nul) (by decide)
  | char v => exact absurd (show (0 : UInt8) ∈ [0x25, 0x63] from nul) (by decide)
  | string s => exact absurd (show (0 : UInt8) ∈ [0x25, 0x73] from nul) (by decide)
  | number n => exact n.format_plain nul

theorem output_formatOf (ps : List Piece) (narrow : ∀ piece ∈ ps, piece.Narrow) :
    Mem.output (formatOf ps) (argsOf ps) = .ok (ps.flatMap Piece.printed) := by
  unfold Mem.output
  rw [cstr_whole (formatOf_plain ps)]
  exact formatLoop_pieces ps narrow _ (by simp) []

/-! ### Where the two agree -/

namespace Number

theorem printed_eq {n : Number} (free : n.SignFree) : n.printed = n.c99 := by
  unfold printed padded c99
  by_cases negative : n.int < 0
  · have full := free negative
    have none : n.width - (n.sign.length + n.digits.length) = 0 := by omega
    rw [none, Nat.sub_eq_zero_of_le full]
    simp
  · have unsigned : n.sign = [] := if_neg negative
    rw [unsigned]
    simp
    split_ifs <;> rfl

/-- With a sign in the way one byte more is printed. -/
theorem printed_length (n : Number) : n.c99.length ≤ n.printed.length := by
  unfold printed padded c99
  dsimp only
  split_ifs <;> simp <;> omega

theorem width_le (n : Number) : n.width ≤ n.c99.length := by
  unfold c99
  dsimp only
  split_ifs <;> simp <;> omega

theorem digits_negative {n : Number} (negative : n.int < 0) :
    ∃ d ds, n.digits = d :: ds ∧ d ≠ 0x30 ∧ d ≠ 0x20 := by
  have signed : n.signed := by
    by_contra unsigned
    rw [int, if_neg unsigned] at negative
    omega
  have digits : n.digits = decimalText n.int.natAbs := by
    unfold Number.digits
    rcases signed with d | i
    · rw [d]
    · rw [i]
  obtain ⟨d, ds, text, nonzero⟩ := decimalText_head (n := n.int.natAbs) (by omega)
  refine ⟨d, ds, digits.trans text, nonzero, ?_⟩
  rintro rfl
  have digit := (decimalText_spec n.int.natAbs).2.1 0x20 (by rw [text]; exact List.mem_cons_self)
  exact absurd digit (by decide)

/-- Where the field is wider than the digits, a sign puts another byte in the place of the
first digit, or in that of the sign. -/
theorem signFree_of_prefix {n : Number} (start : n.c99 <+: n.printed) : n.SignFree := by
  intro negative
  by_contra wide
  obtain ⟨d, ds, digits, nonzero, nonspace⟩ := digits_negative negative
  have sign : n.sign = [0x2D] := if_pos negative
  -- the code pads one byte more than C99
  obtain ⟨k, more⟩ := Nat.exists_eq_add_of_lt (Nat.not_le.mp wide)
  have less : n.width - n.digits.length = k + 1 := by omega
  have pad : n.width - ([(0x2D : UInt8)].length + n.digits.length) = k := by
    rw [List.length_singleton]
    omega
  rw [c99, printed, padded, sign, less] at start
  rw [pad, digits] at start
  by_cases zeros : 0 < n.zeros
  · rw [if_pos zeros, decide_eq_true zeros, if_pos rfl, List.replicate_succ', List.append_assoc,
      List.append_assoc, List.prefix_append_right_inj, List.prefix_append_right_inj] at start
    exact nonzero (List.cons_prefix_cons.mp start).1
  · rw [if_neg zeros, decide_eq_false zeros, if_neg (by decide), List.append_assoc] at start
    cases k with
    | zero =>
      rw [List.replicate_zero, List.nil_append, List.prefix_append_right_inj] at start
      exact nonspace (List.cons_prefix_cons.mp start).1
    | succ k => exact absurd (List.cons_prefix_cons.mp start).1 (by decide)

end Number

namespace Piece

/-- The sign is in the way of no number. -/
def SignFree : Piece → Prop
  | number n => n.SignFree
  | _ => True

theorem printed_eq {piece : Piece} (free : piece.SignFree) : piece.printed = piece.c99 := by
  cases piece with
  | number n => exact Number.printed_eq free
  | _ => rfl

theorem printed_length (piece : Piece) : piece.c99.length ≤ piece.printed.length := by
  cases piece with
  | number n => exact n.printed_length
  | _ => exact le_refl _

theorem signFree_of_prefix {piece : Piece} (start : piece.c99 <+: piece.printed) :
    piece.SignFree := by
  cases piece with
  | number n => exact Number.signFree_of_prefix start
  | _ => trivial

end Piece

theorem printed_eq {ps : List Piece} (free : ∀ piece ∈ ps, piece.SignFree) :
    ps.flatMap Piece.printed = c99 ps :=
  List.flatMap_congr fun piece member => piece.printed_eq (free piece member)

theorem printed_length (ps : List Piece) :
    (c99 ps).length ≤ (ps.flatMap Piece.printed).length := by
  unfold c99
  induction ps with
  | nil => exact le_refl _
  | cons piece ps ih =>
    rw [List.flatMap_cons, List.flatMap_cons, List.length_append, List.length_append]
    exact Nat.add_le_add piece.printed_length ih

theorem signFree_of_prefix {ps : List Piece} (start : c99 ps <+: ps.flatMap Piece.printed) :
    ∀ piece ∈ ps, piece.SignFree := by
  unfold c99 at start
  induction ps with
  | nil => exact List.forall_mem_nil _
  | cons piece ps ih =>
    rw [List.flatMap_cons, List.flatMap_cons] at start
    -- the first piece does not print less than C99, so its text can be split off
    have first : piece.c99 <+: piece.printed := List.prefix_of_prefix_length_le
      ((List.prefix_append _ _).trans start) (List.prefix_append _ _) piece.printed_length
    have free := piece.signFree_of_prefix first
    rw [piece.printed_eq free, List.prefix_append_right_inj] at start
    exact List.forall_mem_cons.mpr ⟨free, ih start⟩

/-! ### In a buffer that is large enough -/

/-- The buffer after all of `text` has been written into it. -/
def terminated (buf text : List UInt8) : List UInt8 := text ++ 0 :: buf.drop (text.length + 1)

/-- The buffer holds exactly what C99 prints. -/
def PrintsC99 (ps : List Piece) (buf : List UInt8) : Prop :=
  ∃ len, Mem.mbedtlsNt4Vsnprintf buf (formatOf ps) (argsOf ps) =
    .ok (terminated buf (c99 ps), len)

section Buffer

variable {buf text : List UInt8} (room : text.length < buf.length)

include room

theorem prefix_of_stored {out : List UInt8} (long : text.length ≤ out.length)
    (same : Mem.stored buf out = terminated buf text) : text <+: out := by
  obtain ⟨cap, size⟩ := Nat.exists_eq_succ_of_ne_zero (Nat.ne_zero_of_lt room)
  have start := congrArg (List.take text.length) same
  rw [Mem.stored, size] at start
  dsimp only at start
  rw [terminated, List.take_left, List.take_append_of_le_length (by simp; omega), List.take_take,
    Nat.min_eq_left (by omega)] at start
  rw [← start]
  exact List.take_prefix _ _

theorem stored_eq : Mem.stored buf text = terminated buf text := by
  obtain ⟨cap, size⟩ := Nat.exists_eq_succ_of_ne_zero (Nat.ne_zero_of_lt room)
  rw [Mem.stored, size]
  dsimp only
  rw [List.take_of_length_le (by omega), Nat.min_eq_left (by omega), terminated]

end Buffer

/-- The code prints what C99 prints unless a negative number stands in a field that is wider
than its digits. -/
theorem printsC99_iff (ps : List Piece) (buf : List UInt8) (room : (c99 ps).length < buf.length)
    (size : buf.length < 2 ^ 31) : PrintsC99 ps buf ↔ ∀ piece ∈ ps, piece.SignFree := by
  -- the output is at least as long as the widest field
  have narrow : ∀ piece ∈ ps, piece.Narrow := by
    intro piece member
    obtain ⟨before, after, rfl⟩ := List.append_of_mem member
    have part : piece.c99.length ≤ (c99 (before ++ piece :: after)).length := by
      rw [c99, List.flatMap_append, List.flatMap_cons, List.length_append, List.length_append]
      omega
    cases piece with
    | number n => exact lt_of_le_of_lt (n.width_le.trans part) (room.trans size)
    | _ => trivial
  unfold PrintsC99
  rw [Mem.vsnprintf_eq, output_formatOf ps narrow]
  constructor
  · rintro ⟨len, printed⟩
    have same := congrArg Prod.fst (Except.ok.inj printed)
    exact signFree_of_prefix (prefix_of_stored room (printed_length ps) same)
  · intro free
    rw [printed_eq free]
    exact ⟨_, by rw [← stored_eq room]; rfl⟩

theorem printsC99_filled :
    PrintsC99 [.number ⟨1, 2, .l, .d, 0xFFFFFFD6⟩] (List.replicate 16 0) :=
  (printsC99_iff _ _ (by decide) (by decide)).mpr
    (List.forall_mem_singleton.mpr (show Number.SignFree _ by decide))

/-- `%5d` of -42. -/
def fieldOfFive : List Piece := [.number ⟨0, 5, .none, .d, 0xFFFFFFD6⟩]

/-- The code prints `-   42` where C99 prints `  -42`. -/
theorem not_printsC99_negative :
    ¬∀ ps buf, (c99 ps).length < buf.length → buf.length < 2 ^ 31 → PrintsC99 ps buf := by
  intro all
  obtain ⟨len, printed⟩ := all fieldOfFive (List.replicate 16 0) (by decide) (by decide)
  have run : Mem.mbedtlsNt4Vsnprintf (List.replicate 16 0) (formatOf fieldOfFive)
      (argsOf fieldOfFive) = .ok (literal "-   42" ++ List.replicate 10 0, 6) := by decide
  rw [run] at printed
  have same : literal "-   42" ++ List.replicate 10 0 =
      terminated (List.replicate 16 0) (c99 fieldOfFive) :=
    congrArg Prod.fst (Except.ok.inj printed)
  exact absurd same (by decide)

end InstagramNt40.Printf
