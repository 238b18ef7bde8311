import Mathlib.Tactic.Ring

/-!
# Stacks of spans

Items one below the other: each has a height, and a gap follows it. Where the items
lie, where the stack ends, and which item holds a row.
-/
namespace Stack

/-- The rows of an item. -/
structure Span where
  top : Int
  height : Int
  deriving DecidableEq, Repr

def Span.Holds (s : Span) (row : Int) : Prop := s.top ≤ row ∧ row < s.top + s.height

instance (s : Span) (row : Int) : Decidable (s.Holds row) := by unfold Span.Holds; infer_instance

/-- The spans of items of the given heights, the first at `y`. -/
def spans (gap : Int) : Int → List Int → List Span
  | _, [] => []
  | y, h :: hs => ⟨y, h⟩ :: spans gap (y + h + gap) hs

/-- The row after the last gap. -/
def extent (gap : Int) : Int → List Int → Int
  | y, [] => y
  | y, h :: hs => extent gap (y + h + gap) hs

/-- The item that holds a row, looked for from the top. -/
def locate (gap row : Int) : Int → List Int → Option Nat
  | _, [] => none
  | y, h :: hs =>
    if y ≤ row ∧ row < y + h then some 0 else (locate gap row (y + h + gap) hs).map (· + 1)

variable {gap row y : Int} {hs : List Int}

theorem spans_length (gap y : Int) (hs : List Int) : (spans gap y hs).length = hs.length := by
  induction hs generalizing y with
  | nil => rfl
  | cons h hs ih => simp [spans, ih]

/-- An item begins where the stack of those before it ends. -/
theorem spans_getElem? (gap y : Int) (hs : List Int) (i : Nat) :
    (spans gap y hs)[i]? = hs[i]?.map fun h => ⟨extent gap y (hs.take i), h⟩ := by
  induction hs generalizing y i with
  | nil => simp [spans]
  | cons h hs ih =>
    cases i with
    | zero => rfl
    | succ i =>
      rw [spans, List.getElem?_cons_succ, ih, List.getElem?_cons_succ]
      rfl

/-- Neighbours are one gap apart. -/
theorem spans_next {i : Nat} {s t : Span} (hi : (spans gap y hs)[i]? = some s)
    (hj : (spans gap y hs)[i + 1]? = some t) : t.top = s.top + s.height + gap := by
  induction hs generalizing y i with
  | nil => cases hi
  | cons h hs ih =>
    cases i with
    | zero =>
      cases hi
      cases hs with
      | nil => cases hj
      | cons => cases hj; rfl
    | succ i => exact ih hi hj

theorem le_extent (gapNonneg : 0 ≤ gap) (positive : ∀ h ∈ hs, 0 < h) : y ≤ extent gap y hs := by
  induction hs generalizing y with
  | nil => exact Int.le_refl y
  | cons h hs ih =>
    have first := positive h (by simp)
    have rest := ih (y := y + h + gap) fun k member => positive k (by simp [member])
    rw [extent]
    omega

/-- Items of bounded height make a stack of bounded height. -/
theorem extent_le {bound : Int} (bounded : ∀ h ∈ hs, h ≤ bound) :
    extent gap y hs ≤ y + hs.length * (bound + gap) := by
  induction hs generalizing y with
  | nil => simp [extent]
  | cons h hs ih =>
    have first := bounded h (by simp)
    have rest := ih (y := y + h + gap) fun k member => bounded k (by simp [member])
    calc extent gap (y + h + gap) hs
        ≤ y + h + gap + hs.length * (bound + gap) := rest
      _ ≤ y + bound + gap + hs.length * (bound + gap) := by omega
      _ = y + (h :: hs).length * (bound + gap) := by push_cast [List.length_cons]; ring

/-- Every item lies inside the stack. -/
theorem spans_inside (gapNonneg : 0 ≤ gap) (positive : ∀ h ∈ hs, 0 < h) {s : Span}
    (member : s ∈ spans gap y hs) :
    y ≤ s.top ∧ 0 < s.height ∧ s.top + s.height + gap ≤ extent gap y hs := by
  induction hs generalizing y with
  | nil => cases member
  | cons h hs ih =>
    have first := positive h (by simp)
    have later : ∀ k ∈ hs, 0 < k := fun k member => positive k (by simp [member])
    rw [spans, List.mem_cons] at member
    rw [extent]
    rcases member with rfl | member
    · exact ⟨Int.le_refl y, first, le_extent gapNonneg later⟩
    · obtain ⟨above, height, below⟩ := ih later member
      exact ⟨by omega, height, below⟩

/-- A row is held by an item exactly when looking from the top finds it there. -/
theorem locate_eq_some_iff (gapNonneg : 0 ≤ gap) (positive : ∀ h ∈ hs, 0 < h) {i : Nat} :
    locate gap row y hs = some i ↔ ∃ s, (spans gap y hs)[i]? = some s ∧ s.Holds row := by
  induction hs generalizing y i with
  | nil => simp [locate, spans]
  | cons h hs ih =>
    have later : ∀ k ∈ hs, 0 < k := fun k member => positive k (by simp [member])
    rw [locate]
    by_cases here : y ≤ row ∧ row < y + h
    · rw [if_pos here]
      cases i with
      | zero => simp [spans, Span.Holds, here]
      | succ i =>
        refine ⟨nofun, ?_⟩
        rintro ⟨s, found, holds⟩
        -- the later items lie below this one
        obtain ⟨above, -, -⟩ := spans_inside gapNonneg later (List.mem_of_getElem? found)
        have := holds.1
        omega
    · rw [if_neg here]
      cases i with
      | zero => simp [spans, Span.Holds, here]
      | succ i => simp [spans, ih later]

theorem locate_eq_none_iff :
    locate gap row y hs = none ↔ ∀ s ∈ spans gap y hs, ¬s.Holds row := by
  induction hs generalizing y with
  | nil => simp [locate, spans]
  | cons h hs ih =>
    rw [locate, spans, List.forall_mem_cons]
    by_cases here : y ≤ row ∧ row < y + h
    · rw [if_pos here]
      exact ⟨nofun, fun none => absurd here none.1⟩
    · rw [if_neg here, Option.map_eq_none_iff, ih]
      exact ⟨fun none => ⟨here, none⟩, fun none => none.2⟩

/-- The first item that holds a row still does when it alone becomes higher. -/
theorem locate_set {i : Nat} {h h' : Int} (found : locate gap row y hs = some i)
    (here : hs[i]? = some h) (higher : h ≤ h') : locate gap row y (hs.set i h') = some i := by
  induction hs generalizing y i with
  | nil => cases here
  | cons k hs ih =>
    rw [locate] at found
    by_cases inside : y ≤ row ∧ row < y + k
    · rw [if_pos inside] at found
      cases found
      cases here
      have still : y ≤ row ∧ row < y + h' := ⟨inside.1, by omega⟩
      rw [List.set_cons_zero, locate, if_pos still]
    · rw [if_neg inside] at found
      obtain ⟨j, later, rfl⟩ := Option.map_eq_some_iff.mp found
      -- the items above the row keep their heights
      rw [List.set_cons_succ, locate, if_neg inside, ih later here, Option.map_some]

theorem locate_lt {i : Nat} (found : locate gap row y hs = some i) : i < hs.length := by
  induction hs generalizing y i with
  | nil => cases found
  | cons k hs ih =>
    rw [locate] at found
    split at found
    · cases found
      exact Nat.succ_pos _
    · obtain ⟨j, later, rfl⟩ := Option.map_eq_some_iff.mp found
      exact Nat.succ_lt_succ (ih later)

end Stack
