import InstagramNt40.Core.HttpRequest
import InstagramNt40.Core.JsonInt
import InstagramNt40.Ui.Feed

/-!
# The like count on a card

`json_int` reads the count and `format_likes` writes it out: the card shows the integer part
of the number in the response, as long as that fits a `long`.
-/
namespace InstagramNt40.Feed

open Ascii Crt Json Rfc8259
open Http (InInt)
open Http1 (decimalText decimal_digits decimalText_length_le)

/-- The digit loop of `format_likes`, with room for all digits. -/
theorem likeDigits_eq {room n : Nat} (enough : n < 10 ^ room) :
    likeDigits room n = (Nat.digits 10 n).map fun d => UInt8.ofNat (0x30 + d) := by
  induction room generalizing n with
  | zero =>
    have none : n = 0 := by simpa using enough
    rw [none]
    rfl
  | succ room ih =>
    rw [likeDigits]
    by_cases positive : 0 < n
    · have digit : UInt8.ofInt (0x30 + (n : Int) % 10) = UInt8.ofNat (0x30 + n % 10) := by
        have cast : 0x30 + (n : Int) % 10 = ((0x30 + n % 10 : Nat) : Int) := by push_cast; rfl
        rw [cast]
        apply UInt8.toNat_inj.mp
        rw [UInt8.ofInt, UInt8.toNat_ofNat', UInt8.toNat_ofNat']
        omega
      have rest : (n : Int) / 10 = ((n / 10 : Nat) : Int) := by push_cast; rfl
      have less : n / 10 < 10 ^ room := by
        rw [Nat.div_lt_iff_lt_mul (by decide), ← Nat.pow_succ]
        exact enough
      rw [if_pos (by omega), digit, rest, ih less, Nat.digits_def' (by decide) positive,
        List.map_cons]
    · have none : n = 0 := by omega
      rw [none]
      rfl

/-- A count that fits a `long` is shown in full. -/
theorem formatLikes_eq {n : Nat} (small : n < 2 ^ 31) :
    formatLikes likesBuf n = decimalText n ++ cstring " likes" := by
  have short := decimalText_length_le (n := n) (by omega)
  have digits : (if (n : Int) ≤ 0 then [0x30] else likeDigits 24 n).reverse = decimalText n := by
    unfold decimalText
    by_cases zero : n = 0
    · rw [if_pos (by omega), if_pos zero]
      rfl
    · rw [if_neg (by omega), if_neg zero, likeDigits_eq (by omega)]
  have suffix : (cstring " likes").length = 6 := by decide
  unfold formatLikes
  dsimp only
  rw [digits]
  apply List.take_of_length_le
  rw [List.length_append, suffix, likesBuf]
  omega

/-- A digit string without needless zeros is the text of its value. -/
theorem decimalText_intPart {ds : List UInt8} (int : IntPart ds) :
    decimalText (decimal ds) = ds := by
  rcases int with rfl | ⟨d, ds, rfl, low, high, digits⟩
  · decide
  have all : ∀ b ∈ d :: ds, IsDigit b := by
    rw [List.forall_mem_cons]
    exact ⟨⟨UInt8.le_trans (by decide) low, high⟩, digits⟩
  have value (b : UInt8) (digit : IsDigit b) : b.toNat - 0x30 < 10 ∧
      UInt8.ofNat (0x30 + (b.toNat - 0x30)) = b := by
    have least := UInt8.le_iff_toNat_le.mp digit.1
    have most := UInt8.le_iff_toNat_le.mp digit.2
    simp only [UInt8.reduceToNat] at least most
    refine ⟨by omega, ?_⟩
    rw [Nat.add_sub_cancel' least, UInt8.ofNat_toNat]
  -- the digits as numbers, from the last one on
  generalize numbers : (d :: ds).reverse.map (fun b => b.toNat - 0x30) = ns
  have text : (ns.map fun n => UInt8.ofNat (0x30 + n)).reverse = d :: ds := by
    have back : ((d :: ds).reverse.map fun b => UInt8.ofNat (0x30 + (b.toNat - 0x30))) =
        (d :: ds).reverse := by
      rw [List.map_congr_left (g := id), List.map_id]
      intro b member
      exact (value b (all b (List.mem_reverse.mp member))).2
    rw [← numbers, List.map_map]
    exact (congrArg List.reverse back).trans (List.reverse_reverse _)
  have small : ∀ n ∈ ns, n < 10 := by
    rw [← numbers]
    intro n member
    obtain ⟨b, inside, rfl⟩ := List.mem_map.mp member
    exact (value b (all b (List.mem_reverse.mp inside))).1
  have leading : ∀ some : ns ≠ [], ns.getLast some ≠ 0 := by
    rw [← numbers]
    intro some
    have first : 0x31 ≤ d.toNat := UInt8.le_iff_toNat_le.mp low
    simp only [List.getLast_map, List.getLast_reverse, List.head_cons]
    omega
  have read : decimal (d :: ds) = Nat.ofDigits 10 ns := by
    rw [← text]
    exact decimal_digits small
  have digitsOf : Nat.digits 10 (decimal (d :: ds)) = ns := by
    rw [read]
    exact Nat.digits_ofDigits 10 (by decide) ns small leading
  have positive : decimal (d :: ds) ≠ 0 := by
    intro zero
    rw [zero, Nat.digits_zero] at digitsOf
    rw [← digitsOf] at text
    cases text
  rw [decimalText, if_neg positive, digitsOf, text]

/-- The number `s` of a response is read without overflow and truncated, and as a like
count it is shown with the digits of its integer part. -/
structure ReadFaithfully (s : List UInt8) : Prop where
  inRange : ∀ v ∈ intValues s, InInt v
  truncated : ∀ negative int fraction, Digits int → (∀ f ∈ fraction, Digits f) →
    s = plainText negative int fraction → InInt (truncate (plainValue negative int fraction)) →
      ∀ slen default,
        jsonInt (some (.num s slen)) default = truncate (plainValue negative int fraction)
  shown : 0 ≤ integerPart s → ∀ slen,
    formatLikes likesBuf (jsonInt (some (.num s slen)) 0) =
      decimalText (integerPart s).toNat ++ cstring " likes"
  /-- The same digits as written, if the number is written without needless zeros. -/
  written : 0 ≤ integerPart s → IntPart (integerDigits s) → ∀ slen,
    formatLikes likesBuf (jsonInt (some (.num s slen)) 0) = integerDigits s ++ cstring " likes"

theorem readFaithfully_iff (s : List UInt8) :
    ReadFaithfully s ↔ decimal (integerDigits s) < 2 ^ 31 := by
  constructor
  · intro faithful
    exact (intValues_inInt_iff s).mp faithful.inRange
  · intro small
    have shown (positive : 0 ≤ integerPart s) (slen : Nat) :
        formatLikes likesBuf (jsonInt (some (.num s slen)) 0) =
          decimalText (decimal (integerDigits s)) ++ cstring " likes" := by
      have part : integerPart s = decimal (integerDigits s) := by
        unfold integerPart at positive ⊢
        split_ifs at positive ⊢ <;> omega
      have inRange : InInt (integerPart s) := by
        unfold InInt
        omega
      rw [jsonInt_inInt inRange, part, formatLikes_eq small]
    constructor
    · exact (intValues_inInt_iff s).mpr small
    · rintro negative int fraction digits behind rfl inRange slen default
      have part := @integerPart_plainText negative int fraction digits
      rw [truncate_plainValue behind, ← part] at inRange ⊢
      exact jsonInt_inInt inRange slen default
    · intro positive slen
      have part : (integerPart s).toNat = decimal (integerDigits s) := by
        unfold integerPart at positive ⊢
        split_ifs at positive ⊢ <;> omega
      rw [shown positive slen, part]
    · intro positive int slen
      rw [shown positive slen, decimalText_intPart int]

/-- The least count that does not fit. -/
theorem not_readFaithfully_large :
    ¬∀ text x s slen y, parseNumber text x = .ok (.num s slen) y → ReadFaithfully s := by
  intro faithful
  have all : (literal "2147483648").all isDigit = true := by decide
  have digits : Digits (literal "2147483648") :=
    fun b member => isDigit_iff.mp (List.all_eq_true.mp all b member)
  have number : RelaxedNumber (literal "2147483648") :=
    ⟨⟨[], literal "2147483648", [], [], rfl, .inl rfl, digits, .inl rfl, .inl rfl⟩, by decide,
      0x32, rfl, .inr (by decide)⟩
  have run : parseNumber (literal "2147483648") ⟨0, 0, 0⟩ =
      .ok (.num (literal "2147483648") 10) ⟨10, 0, 0⟩ := run_parseNumber number Stops.nil rfl
  have small := (intValues_inInt_iff _).mp (faithful _ _ _ _ _ run).inRange
  exact absurd small (by decide)

end InstagramNt40.Feed
