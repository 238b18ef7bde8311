import Mathlib.Algebra.BigOperators.Group.Finset.Basic
import Mathlib.Algebra.Group.Action.Defs
import Mathlib.Algebra.Order.BigOperators.Group.List
import Mathlib.Algebra.Order.Round
import Mathlib.Data.Rat.Floor
import Mathlib.Tactic.Linarith
import InstagramNt40.Library.Loop

/-!
# Sums and means

The floor of the mean of a list of numbers lies between two of them. A sum of bytes kept
in a 32-bit word is the exact sum as long as that one fits. A mix of two numbers is
their weighted mean, rounded to the nearest integer.
-/
namespace Average

open Loop

variable {α : Type}

/-- The floor of the mean. -/
def mean (l : List Nat) : Nat := l.sum / l.length

theorem exists_le_mean {l : List Nat} (nonempty : l ≠ []) : ∃ x ∈ l, x ≤ mean l := by
  by_contra none
  push Not at none
  have above := l.card_nsmul_le_sum (mean l + 1) none
  have positive : 0 < l.length := List.length_pos_iff.mpr nonempty
  have below : l.sum < l.length * (mean l + 1) := Nat.lt_mul_div_succ l.sum positive
  rw [smul_eq_mul] at above
  omega

theorem exists_mean_le {l : List Nat} (nonempty : l ≠ []) : ∃ x ∈ l, mean l ≤ x := by
  by_contra none
  push Not at none
  have positive : 0 < l.length := List.length_pos_iff.mpr nonempty
  have above : l.length * mean l ≤ l.sum := Nat.mul_div_le l.sum l.length
  obtain ⟨x, hx⟩ := List.exists_mem_of_ne_nil l nonempty
  have some : 1 ≤ mean l := by
    have := none x hx
    omega
  have below := l.sum_le_card_nsmul (mean l - 1) fun x hx => by
    have := none x hx
    omega
  rw [smul_eq_mul, Nat.mul_sub, Nat.mul_one] at below
  have room : l.length ≤ l.length * mean l := Nat.le_mul_of_pos_right _ some
  omega

/-- The numbers of a rectangle, row by row, add up to the double sum. -/
theorem sum_rowMajor (w h : Nat) (item : Nat → Nat → α) (f : α → Nat) :
    ((rowMajor w h item).map f).sum =
      ∑ y ∈ Finset.range h, ∑ x ∈ Finset.range w, f (item x y) := by
  induction h with
  | zero => rfl
  | succ h ih =>
    rw [rowMajor_succ, List.map_append, List.sum_append, ih, Finset.sum_range_succ, List.map_map]
    rfl

/-- Bytes added up in a 32-bit word. -/
def wordSum (f : α → UInt8) (l : List α) (start : UInt32) : UInt32 :=
  l.foldl (fun s x => s + (f x).toUInt32) start

theorem wordSum_toNat (f : α → UInt8) (l : List α) (start : UInt32) :
    (wordSum f l start).toNat = (start.toNat + (l.map fun x => (f x).toNat).sum) % 2 ^ 32 := by
  induction l generalizing start with
  | nil => simp [wordSum, Nat.mod_eq_of_lt start.toNat_lt]
  | cons x l ih =>
    have step : wordSum f (x :: l) start = wordSum f l (start + (f x).toUInt32) := rfl
    rw [step, ih, UInt32.toNat_add, UInt8.toNat_toUInt32, List.map_cons, List.sum_cons,
      Nat.mod_add_mod, Nat.add_assoc]

/-- Bytes add up to at most 255 times their number. -/
theorem sum_bytes_le (f : α → UInt8) (l : List α) :
    (l.map fun x => (f x).toNat).sum ≤ l.length * 255 := by
  have bound := (l.map fun x => (f x).toNat).sum_le_card_nsmul 255 fun n member => by
    obtain ⟨x, -, rfl⟩ := List.mem_map.mp member
    have := (f x).toNat_lt
    omega
  simpa using bound

/-! ### Weighted means -/

/-- The mean of `s` and `d` with the weights `a` and `m - a`, rounded. -/
def mix (m a s d : Nat) : Nat := (s * a + d * (m - a) + m / 2) / m

section Mix

variable {m a : Nat} (s d : Nat)

theorem mix_le (positive : 0 < m) (within : a ≤ m) : mix m a s d ≤ max s d := by
  have total : s * a + d * (m - a) ≤ max s d * m :=
    calc
      s * a + d * (m - a) ≤ max s d * a + max s d * (m - a) :=
        Nat.add_le_add (Nat.mul_le_mul_right a (Nat.le_max_left s d))
          (Nat.mul_le_mul_right (m - a) (Nat.le_max_right s d))
      _ = max s d * m := by rw [← Nat.mul_add, Nat.add_sub_cancel' within]
  have half : m / 2 < m := Nat.div_lt_self positive Nat.one_lt_two
  apply Nat.le_of_lt_succ
  unfold mix
  rw [Nat.div_lt_iff_lt_mul positive, Nat.succ_mul]
  omega

theorem le_mix (positive : 0 < m) (within : a ≤ m) : min s d ≤ mix m a s d := by
  have total : min s d * m ≤ s * a + d * (m - a) :=
    calc
      min s d * m = min s d * a + min s d * (m - a) := by
        rw [← Nat.mul_add, Nat.add_sub_cancel' within]
      _ ≤ s * a + d * (m - a) :=
        Nat.add_le_add (Nat.mul_le_mul_right a (Nat.min_le_left s d))
          (Nat.mul_le_mul_right (m - a) (Nat.min_le_right s d))
  unfold mix
  rw [Nat.le_div_iff_mul_le positive]
  omega

theorem mix_none (positive : 0 < m) : mix m 0 s d = d := by
  have half : m / 2 < m := Nat.div_lt_self positive Nat.one_lt_two
  unfold mix
  rw [Nat.mul_zero, Nat.zero_add, Nat.sub_zero, Nat.add_comm, Nat.add_mul_div_right _ _ positive,
    Nat.div_eq_of_lt half, Nat.zero_add]

theorem mix_all (positive : 0 < m) : mix m m s d = s := by
  have half : m / 2 < m := Nat.div_lt_self positive Nat.one_lt_two
  unfold mix
  rw [Nat.sub_self, Nat.mul_zero, Nat.add_zero, Nat.add_comm, Nat.add_mul_div_right _ _ positive,
    Nat.div_eq_of_lt half, Nat.zero_add]

/-- With an odd sum of the weights no mean lies half-way between two integers. -/
theorem mix_eq_round (k : Nat) (odd : m = 2 * k + 1) :
    (mix m a s d : Int) = round (((s * a + d * (m - a : Nat) : Nat) : Rat) / m) := by
  have quotient := Nat.div_add_mod (s * a + d * (m - a) + m / 2) m
  have remainder := Nat.mod_lt (s * a + d * (m - a) + m / 2) (show 0 < m by omega)
  have half : m / 2 = k := by omega
  have positive : (0 : Rat) < m := by
    have : 0 < m := by omega
    exact_mod_cast this
  symm
  rw [round_eq_iff, Set.mem_Ico, le_div_iff₀ positive, div_lt_iff₀ positive, sub_mul, add_mul]
  unfold mix
  rw [half] at quotient remainder ⊢
  -- both bounds, doubled, are between integers
  generalize (s * a + d * (m - a) + k) / m = q at quotient ⊢
  generalize (s * a + d * (m - a) + k) % m = t at quotient remainder
  generalize s * a + d * (m - a) = n at quotient ⊢
  have below : 2 * (q * m) ≤ 2 * n + m := by
    rw [Nat.mul_comm q m]
    omega
  have above : 2 * n < 2 * (q * m) + m := by
    rw [Nat.mul_comm q m]
    omega
  have below' : 2 * ((q : Rat) * m) ≤ 2 * n + m := by exact_mod_cast below
  have above' : 2 * (n : Rat) < 2 * (q * m) + m := by exact_mod_cast above
  push_cast
  constructor
  · linarith
  · linarith

end Mix

end Average
