import InstagramNt40.Core.Font
import Mathlib.Data.List.GetD
import Mathlib.Data.List.Sort

/-!
# tools/gen_hangul_font.py

The script that writes the table of Hangul glyphs, and what `hangul_lookup` finds in it: of
every syllable in the character set the picture that was rendered, of anything else nothing.
-/
namespace InstagramNt40.Font

/-! ### The script -/

/-- `SIZE` -/
def size : Nat := 18

/-- `THRESHOLD` -/
def threshold : Nat := 110

/-- The codec `euc-kr` on two bytes, and the picture of a character: its brightness in a
column and a row, as the image library scales it down. -/
structure Renderer where
  decode : Nat → Nat → Option Char
  px : Char → Nat → Nat → Nat

section script

variable (R : Renderer)

/-- A round of the loops of `enumerate_ksx1001`. -/
def codepointOf (lead trail : Nat) : Option Nat :=
  (R.decode lead trail).bind fun ch =>
    if 0xAC00 ≤ ch.toNat ∧ ch.toNat ≤ 0xD7A3 then some ch.toNat else none

/-- `enumerate_ksx1001`, without its assertion. -/
def enumerateKsx1001 : List Nat :=
  (List.range' 0xB0 (0xC9 - 0xB0)).flatMap fun lead =>
    (List.range' 0xA1 (0xFF - 0xA1)).filterMap (codepointOf R lead)

/-- The loop over the columns of a row in `render_bits`. -/
def renderRow (on : Nat → Bool) (n : Nat) : Nat :=
  (List.range n).foldl (fun val col => if on col then val ||| 1 <<< (n - 1 - col) else val) 0

/-- Whether the picture of a character is set in a column of a row. -/
def isOn (ch : Char) (row col : Nat) : Bool := R.px ch col row > threshold

def renderBits (ch : Char) (n : Nat) : List Nat :=
  (List.range n).map fun row => renderRow (isOn R ch row) n

/-- The tables that are written. The script stops if the code points are not ascending or
not `HANGUL_COUNT` many. -/
def genHangulFont : Option HangulData :=
  let cps := enumerateKsx1001 R
  if cps.Pairwise (· ≤ ·) ∧ cps.length = 2350 then
    some ⟨cps.toArray, (cps.map fun cp => (renderBits R (Char.ofNat cp) size).toArray).toArray⟩
  else none

end script

/-! ### The rows -/

/-- The bits set by the first `m` columns. -/
theorem testBit_columns (on : Nat → Bool) (n m bit : Nat) :
    ((List.range m).foldl (fun val col => if on col then val ||| 1 <<< (n - 1 - col) else val)
      0).testBit bit = (List.range m).any fun col => on col && decide (n - 1 - col = bit) := by
  induction m with
  | zero => simp
  | succ m ih =>
    rw [List.range_succ, List.foldl_append, List.any_append, List.foldl_cons, List.foldl_nil,
      List.any_cons, List.any_nil, Bool.or_false, ← ih]
    by_cases set : on m = true
    · rw [if_pos set, Nat.testBit_or, Nat.one_shiftLeft, Nat.testBit_two_pow, set, Bool.true_and]
    · rw [if_neg set, Bool.eq_false_iff.mpr set, Bool.false_and, Bool.or_false]

/-- The leftmost column is the highest bit. -/
theorem testBit_renderRow (on : Nat → Bool) {n col : Nat} (inside : col < n) :
    (renderRow on n).testBit (n - 1 - col) = on col := by
  rw [renderRow, testBit_columns, Bool.eq_iff_iff, List.any_eq_true]
  constructor
  · rintro ⟨other, member, set⟩
    rw [Bool.and_eq_true, decide_eq_true_eq] at set
    have less := List.mem_range.mp member
    have same : other = col := by omega
    rw [← same]
    exact set.1
  · intro set
    exact ⟨col, List.mem_range.mpr inside, by simp [set]⟩

/-! ### The search -/

section search

variable {hangul : HangulData} {cp : Nat}

/-- The binary search in an ascending table finds the code point, or it is not there. -/
theorem lookupLoop_spec
    (ascending : ∀ i j, i ≤ j → j < hangul.codepoints.size →
      hangul.codepoints.getD i 0 ≤ hangul.codepoints.getD j 0) (lo hi : Int) (start : 0 ≤ lo)
    (stop : hi < hangul.codepoints.size) :
    (∃ i : Nat, lookupLoop hangul cp lo hi = i ∧ i < hangul.codepoints.size ∧
      hangul.codepoints.getD i 0 = cp) ∨
    (lookupLoop hangul cp lo hi = -1 ∧
      ∀ i : Nat, lo ≤ i → i ≤ hi → hangul.codepoints.getD i 0 ≠ cp) := by
  fun_induction lookupLoop hangul cp lo hi with
  | case1 lo hi le mid v found =>
    have nonneg : 0 ≤ mid := by omega
    exact .inl ⟨mid.toNat, by omega, by omega, found⟩
  | case2 lo hi le mid v other less ih =>
    rcases ih (by omega) stop with here | ⟨none, rest⟩
    · exact .inl here
    · refine .inr ⟨none, fun i first last => ?_⟩
      -- up to the middle everything is smaller
      by_cases right : mid + 1 ≤ i
      · exact rest i right last
      · have below := ascending i mid.toNat (by omega) (by omega)
        exact Nat.ne_of_lt (Nat.lt_of_le_of_lt below less)
  | case3 lo hi le mid v other more ih =>
    rcases ih start (by omega) with here | ⟨none, rest⟩
    · exact .inl here
    · refine .inr ⟨none, fun i first last => ?_⟩
      by_cases left : (i : Int) ≤ mid - 1
      · exact rest i first left
      · have above := ascending mid.toNat i (by omega) (by omega)
        have larger : cp < hangul.codepoints.getD mid.toNat 0 := by omega
        exact Nat.ne_of_gt (Nat.lt_of_lt_of_le larger above)
  | case4 lo hi empty =>
    exact .inr ⟨rfl, fun i first last => absurd (Int.le_trans first last) empty⟩

end search

/-! ### What is found -/

section found

variable {R : Renderer} {hangul : HangulData}

/-- The tables of a script that did not stop. -/
theorem genHangulFont_eq (gen : genHangulFont R = some hangul) :
    (enumerateKsx1001 R).Pairwise (· ≤ ·) ∧ (enumerateKsx1001 R).length = 2350 ∧
      hangul = ⟨(enumerateKsx1001 R).toArray, ((enumerateKsx1001 R).map fun cp =>
        (renderBits R (Char.ofNat cp) size).toArray).toArray⟩ := by
  unfold genHangulFont at gen
  dsimp only at gen
  split_ifs at gen with asserted
  cases gen
  exact ⟨asserted.1, asserted.2, rfl⟩

theorem codepoints_getD (gen : genHangulFont R = some hangul) (i : Nat) :
    hangul.codepoints.getD i 0 = (enumerateKsx1001 R).getD i 0 := by
  obtain ⟨-, -, rfl⟩ := genHangulFont_eq gen
  simp [Array.getD_eq_getD_getElem?]

theorem hangulRows_eq (gen : genHangulFont R = some hangul) {i row : Nat} {c : Char}
    (there : (enumerateKsx1001 R)[i]? = some c.toNat) (inside : row < hangulH) :
    hangulRows hangul i row = renderRow (isOn R c row) size := by
  obtain ⟨-, -, rfl⟩ := genHangulFont_eq gen
  have inside : row < size := inside
  unfold hangulRows
  simp [Array.getD_eq_getD_getElem?, there, renderBits, inside]

/-- The search of the whole table: an index of the code point, if it has one. -/
theorem hangulLookup_spec (gen : genHangulFont R = some hangul) (cp : Nat) :
    (∃ i : Nat, hangulLookup hangul cp = i ∧ (enumerateKsx1001 R)[i]? = some cp) ∨
      (hangulLookup hangul cp = -1 ∧ cp ∉ enumerateKsx1001 R) := by
  obtain ⟨sorted, -, is_hangul⟩ := genHangulFont_eq gen
  have count : hangul.codepoints.size = (enumerateKsx1001 R).length := by
    rw [is_hangul, List.size_toArray]
  have value {i : Nat} (inside : i < (enumerateKsx1001 R).length) :
      hangul.codepoints.getD i 0 = (enumerateKsx1001 R)[i] := by
    rw [codepoints_getD gen, List.getD_eq_getElem _ _ inside]
  have ascending : ∀ i j, i ≤ j → j < hangul.codepoints.size →
      hangul.codepoints.getD i 0 ≤ hangul.codepoints.getD j 0 := by
    intro i j le inside
    rw [count] at inside
    rw [value (Nat.lt_of_le_of_lt le inside), value inside]
    rcases Nat.eq_or_lt_of_le le with rfl | less
    · exact Nat.le_refl _
    · exact List.pairwise_iff_getElem.mp sorted i j (Nat.lt_trans less inside) inside less
  have search := @lookupLoop_spec hangul cp ascending 0 (hangul.codepoints.size - 1)
    (Int.le_refl 0) (by omega)
  rcases search with ⟨i, found, inside, here⟩ | ⟨none, rest⟩
  · rw [count] at inside
    rw [value inside] at here
    exact .inl ⟨i, found, by rw [List.getElem?_eq_getElem inside, here]⟩
  · refine .inr ⟨none, fun member => ?_⟩
    obtain ⟨i, inside, here⟩ := List.getElem_of_mem member
    exact rest i (by omega) (by omega) (by rw [value inside, here])

/-- A syllable of the character set has its picture in the table. -/
theorem hangulLookup_listed (gen : genHangulFont R = some hangul) {c : Char}
    (listed : c.toNat ∈ enumerateKsx1001 R) :
    0 ≤ hangulLookup hangul c.toNat ∧ ∀ row < hangulH, ∀ col < hangulW,
      (hangulRows hangul (hangulLookup hangul c.toNat) row).testBit (hangulW - 1 - col) =
        isOn R c row col := by
  rcases hangulLookup_spec gen c.toNat with ⟨i, found, there⟩ | ⟨-, other⟩
  · rw [found]
    refine ⟨Int.natCast_nonneg i, fun row inside col within => ?_⟩
    rw [hangulRows_eq gen there inside]
    exact testBit_renderRow (isOn R c row) within
  · exact absurd listed other

/-- Nothing else is found. -/
theorem hangulLookup_other (gen : genHangulFont R = some hangul) {cp : Nat}
    (other : cp ∉ enumerateKsx1001 R) : hangulLookup hangul cp = -1 := by
  rcases hangulLookup_spec gen cp with ⟨i, -, there⟩ | ⟨none, -⟩
  · exact absurd (List.mem_of_getElem? there) other
  · exact none

end found

end InstagramNt40.Font
