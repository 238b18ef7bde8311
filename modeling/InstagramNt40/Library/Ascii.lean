import Mathlib.Data.List.Basic
import Mathlib.Tactic.Ring

/-!
# ASCII digits and letters

Digit strings in decimal and hexadecimal and letter case, over bytes.
-/
namespace Ascii

def IsDigit (b : UInt8) : Prop := 0x30 ≤ b ∧ b ≤ 0x39

instance : DecidablePred IsDigit := fun b => by unfold IsDigit; infer_instance

def hexVal (b : UInt8) : Option Nat :=
  if 0x30 ≤ b ∧ b ≤ 0x39 then some (b.toNat - 0x30)
  else if 0x61 ≤ b ∧ b ≤ 0x66 then some (b.toNat - 0x61 + 10)
  else if 0x41 ≤ b ∧ b ≤ 0x46 then some (b.toNat - 0x41 + 10)
  else none

def IsHex (b : UInt8) : Prop := ∃ n, hexVal b = some n

/-- A hex digit is neither a quote nor a backslash. -/
theorem IsHex.plain {b : UInt8} (h : IsHex b) : b ≠ 0x22 ∧ b ≠ 0x5C := by
  obtain ⟨n, hn⟩ := h
  constructor <;> (rintro rfl; revert hn; simp [hexVal])

theorem IsHex.ascii {b : UInt8} (h : IsHex b) : b < 0x80 := by
  obtain ⟨n, hn⟩ := h
  unfold hexVal at hn
  simp only [UInt8.le_iff_toNat_le, UInt8.reduceToNat] at hn
  rw [UInt8.lt_iff_toNat_lt]
  simp only [UInt8.reduceToNat]
  split_ifs at hn <;> omega

/-- The lower-case form of a letter; other bytes stay. -/
def lower (b : UInt8) : UInt8 := if 0x41 ≤ b ∧ b ≤ 0x5A then b + 32 else b

/-! ### The value of a digit string -/

def decimal (ds : List UInt8) : Nat := ds.foldl (fun n d => n * 10 + (d.toNat - 0x30)) 0

def hexadecimal (ds : List UInt8) : Nat := ds.foldl (fun n d => n * 16 + (hexVal d).getD 0) 0

theorem foldl_digits_le (base : Nat) (value : UInt8 → Nat) (positive : 0 < base) (ds : List UInt8)
    (n : Nat) : n ≤ ds.foldl (fun n d => n * base + value d) n := by
  induction ds generalizing n with
  | nil => exact Nat.le_refl n
  | cons d ds ih =>
    refine Nat.le_trans ?_ (ih _)
    exact Nat.le_add_right_of_le (Nat.le_mul_of_pos_right n positive)

theorem decimal_lt {ds : List UInt8} (digits : ∀ b ∈ ds, IsDigit b) :
    decimal ds < 10 ^ ds.length := by
  have bound (n : Nat) : ds.foldl (fun n d => n * 10 + (d.toNat - 0x30)) n <
      (n + 1) * 10 ^ ds.length := by
    induction ds generalizing n with
    | nil => simp
    | cons d ds ih =>
      have high := UInt8.le_iff_toNat_le.mp (digits d (by simp)).2
      have rest := ih (fun b hb => digits b (by simp [hb])) (n * 10 + (d.toNat - 0x30))
      have step : n * 10 + (d.toNat - 0x30) + 1 ≤ (n + 1) * 10 := by
        simp only [UInt8.reduceToNat] at high
        omega
      calc
        _ < (n * 10 + (d.toNat - 0x30) + 1) * 10 ^ ds.length := rest
        _ ≤ (n + 1) * 10 * 10 ^ ds.length := Nat.mul_le_mul_right _ step
        _ = (n + 1) * 10 ^ (d :: ds).length := by rw [List.length_cons, Nat.pow_succ]; ring
  simpa [decimal] using bound 0

/-- Zeros in front of a number do not change its value. -/
theorem decimal_zeros (k : Nat) (ds : List UInt8) :
    decimal (List.replicate k 0x30 ++ ds) = decimal ds := by
  induction k with
  | zero => rfl
  | succ k ih =>
    rw [List.replicate_succ, List.cons_append]
    exact ih

end Ascii
