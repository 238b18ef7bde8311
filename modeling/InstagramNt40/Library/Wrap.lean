import Mathlib.Algebra.Order.BigOperators.Group.List
import Mathlib.Data.List.Infix
import Mathlib.Tactic.Ring

/-!
# Greedy line breaking

Items with advances are broken into lines of limited width. Some items force a break and
belong to no line. Each greedy line takes as many items as fit, at least one; so no other
division of the items has fewer lines.
-/
namespace Wrap

variable {α : Type} (adv : α → Int) (isBreak : α → Bool)

/-- The width of a line: the last advance counts without its gap of 1. -/
def width (line : List α) : Int := if line = [] then 0 else (line.map adv).sum - 1

/-- A line fits if it is not too wide, or has a single item. -/
def Fits (maxW : Int) (line : List α) : Prop := width adv line ≤ maxW ∨ line.length ≤ 1

/-- How many items go on the line that holds `line` already. A negative maximum is no
limit. -/
def fitAfter (maxW : Int) : List α → List α → Nat
  | _, [] => 0
  | line, a :: items =>
    if isBreak a then 0
    else if maxW ≥ 0 ∧ line ≠ [] ∧ width adv (line ++ [a]) > maxW then 0
    else fitAfter maxW (line ++ [a]) items + 1

/-- The number of items on the first line. -/
def fit (maxW : Int) (items : List α) : Nat := fitAfter adv isBreak maxW [] items

/-- What follows the break that ended a line. -/
def skipBreak : List α → List α
  | [] => []
  | a :: items => if isBreak a then items else a :: items

/-- The items after the first line. -/
def next (maxW : Int) (items : List α) : List α :=
  skipBreak isBreak (items.drop (fit adv isBreak maxW items))

theorem skipBreak_suffix (items : List α) : skipBreak isBreak items <:+ items := by
  cases items with
  | nil => exact List.suffix_rfl
  | cons a items =>
    rw [skipBreak]
    split
    · exact List.suffix_cons a items
    · exact List.suffix_rfl

theorem fit_pos {maxW : Int} {a : α} {items : List α} (inLine : isBreak a = false) :
    0 < fit adv isBreak maxW (a :: items) := by
  simp [fit, fitAfter, inLine]

/-- Every line makes progress. -/
theorem next_lt (maxW : Int) {items : List α} (some : items ≠ []) :
    (next adv isBreak maxW items).length < items.length := by
  cases items with
  | nil => exact absurd rfl some
  | cons a items =>
    unfold next
    by_cases forced : isBreak a = true
    · simp [fit, fitAfter, forced, skipBreak]
    · have short := (skipBreak_suffix isBreak
        ((a :: items).drop (fit adv isBreak maxW (a :: items)))).length_le
      have positive : 0 < fit adv isBreak maxW (a :: items) :=
        fit_pos adv isBreak (Bool.eq_false_iff.mpr forced)
      rw [List.length_drop] at short
      rw [List.length_cons] at short ⊢
      omega

/-- The greedy lines. -/
def lines (maxW : Int) (items : List α) : List (List α) :=
  if _some : items = [] then []
  else items.take (fit adv isBreak maxW items) :: lines maxW (next adv isBreak maxW items)
termination_by items.length
decreasing_by exact next_lt adv isBreak maxW _some

theorem lines_nil (maxW : Int) : lines adv isBreak maxW [] = [] := by rw [lines, dif_pos rfl]

theorem lines_cons (maxW : Int) {items : List α} (some : items ≠ []) :
    lines adv isBreak maxW items =
      items.take (fit adv isBreak maxW items) ::
        lines adv isBreak maxW (next adv isBreak maxW items) := by
  rw [lines, dif_neg some]

/-! ### What a greedy line holds -/

variable {adv isBreak}

theorem width_nil : width adv [] = 0 := if_pos rfl

theorem width_of_ne {line : List α} (some : line ≠ []) :
    width adv line = (line.map adv).sum - 1 := if_neg some

theorem sum_append (pre line : List α) :
    ((pre ++ line).map adv).sum = (pre.map adv).sum + (line.map adv).sum := by
  rw [List.map_append, List.sum_append]

theorem sum_concat (pre : List α) (a : α) :
    ((pre ++ [a]).map adv).sum = (pre.map adv).sum + adv a := by
  rw [sum_append, List.map_singleton, List.sum_singleton]

theorem sum_nonneg (positive : ∀ a, 1 ≤ adv a) (line : List α) : 0 ≤ (line.map adv).sum := by
  apply List.sum_nonneg
  intro w member
  obtain ⟨a, -, rfl⟩ := List.mem_map.mp member
  have := positive a
  omega

theorem width_nonneg (positive : ∀ a, 1 ≤ adv a) (line : List α) : 0 ≤ width adv line := by
  cases line with
  | nil => exact Int.le_of_eq width_nil.symm
  | cons a line =>
    have first := positive a
    have others := sum_nonneg positive line
    rw [width_of_ne (List.cons_ne_nil a line), List.map_cons, List.sum_cons]
    omega

/-- The loop takes no break. -/
theorem fitAfter_inLine (maxW : Int) (pre items : List α) :
    ∀ a ∈ items.take (fitAfter adv isBreak maxW pre items), isBreak a = false := by
  induction items generalizing pre with
  | nil => simp
  | cons a items ih =>
    rw [fitAfter]
    split_ifs with forced full
    · simp
    · simp
    · rw [List.take_succ_cons, List.forall_mem_cons]
      exact ⟨Bool.eq_false_iff.mpr forced, ih _⟩

/-- With what it takes the line still fits. -/
theorem fitAfter_fits {maxW : Int} (limited : 0 ≤ maxW) (pre items : List α)
    (fits : Fits adv maxW pre) :
    Fits adv maxW (pre ++ items.take (fitAfter adv isBreak maxW pre items)) := by
  induction items generalizing pre with
  | nil => simpa using fits
  | cons a items ih =>
    rw [fitAfter]
    split_ifs with forced full
    · simpa using fits
    · simpa using fits
    · rw [List.take_succ_cons, List.append_cons]
      apply ih
      by_cases first : pre = []
      · right
        simp [first]
      · left
        by_contra wide
        exact full ⟨limited, first, by omega⟩

/-- Where the loop stops there is a break, the end, or an item too many. -/
theorem fitAfter_maximal (maxW : Int) (pre items : List α) {a : α} {rest : List α}
    (stop : items.drop (fitAfter adv isBreak maxW pre items) = a :: rest)
    (inLine : isBreak a = false) :
    0 ≤ maxW ∧ pre ++ items.take (fitAfter adv isBreak maxW pre items) ≠ [] ∧
      maxW < width adv (pre ++ items.take (fitAfter adv isBreak maxW pre items) ++ [a]) := by
  induction items generalizing pre with
  | nil => simp at stop
  | cons b items ih =>
    rw [fitAfter] at stop ⊢
    split_ifs at stop ⊢ with forced full
    · -- the loop stopped at a break
      rw [List.drop_zero, List.cons.injEq] at stop
      rw [stop.1, inLine] at forced
      cases forced
    · rw [List.drop_zero, List.cons.injEq] at stop
      rw [List.take_zero, List.append_nil, ← stop.1]
      exact full
    · rw [List.drop_succ_cons] at stop
      rw [List.take_succ_cons, List.append_cons]
      exact ih _ stop

/-- Without a limit the loop takes all that has no break. -/
theorem fitAfter_unlimited {maxW : Int} (unlimited : maxW < 0) (pre : List α) {items : List α}
    (inLine : ∀ a ∈ items, isBreak a = false) :
    fitAfter adv isBreak maxW pre items = items.length := by
  induction items generalizing pre with
  | nil => rfl
  | cons a items ih =>
    rw [List.forall_mem_cons] at inLine
    rw [fitAfter, if_neg (by simp [inLine.1]), if_neg (by omega), ih _ inLine.2, List.length_cons]

/-- The loop takes at least what fits. -/
theorem le_fitAfter (positive : ∀ a, 1 ≤ adv a) (maxW : Int) (pre line rest : List α)
    (inLine : ∀ a ∈ line, isBreak a = false) (fits : Fits adv maxW (pre ++ line)) :
    line.length ≤ fitAfter adv isBreak maxW pre (line ++ rest) := by
  induction line generalizing pre with
  | nil => exact Nat.zero_le _
  | cons a line ih =>
    rw [List.forall_mem_cons] at inLine
    have room : ¬(maxW ≥ 0 ∧ pre ≠ [] ∧ width adv (pre ++ [a]) > maxW) := by
      rintro ⟨-, some, wide⟩
      have size := List.length_pos_iff.mpr some
      have more := sum_nonneg positive line
      rcases fits with narrow | single
      · rw [width_of_ne (by simp), sum_append, List.map_cons, List.sum_cons] at narrow
        rw [width_of_ne (by simp), sum_concat] at wide
        omega
      · simp only [List.length_append, List.length_cons] at single
        omega
    rw [List.cons_append, fitAfter, if_neg (by simp [inLine.1]), if_neg room,
      List.length_cons]
    apply Nat.succ_le_succ
    apply ih _ inLine.2
    rwa [← List.append_cons]

/-! ### Divisions -/

/-- A division of items into lines: every break ends a line, other lines may end anywhere,
and every line fits. -/
inductive Division (adv : α → Int) (isBreak : α → Bool) (maxW : Int) :
    List α → List (List α) → Prop
  | nil : Division adv isBreak maxW [] []
  | cut {line rest : List α} {ls : List (List α)} : (∀ a ∈ line, isBreak a = false) →
      Fits adv maxW line → Division adv isBreak maxW rest ls →
      Division adv isBreak maxW (line ++ rest) (line :: ls)
  | forced {line rest : List α} {b : α} {ls : List (List α)} :
      (∀ a ∈ line, isBreak a = false) → Fits adv maxW line → isBreak b = true →
      Division adv isBreak maxW rest ls → Division adv isBreak maxW (line ++ b :: rest) (line :: ls)

theorem Fits.widen {w w' : Int} (wider : w ≤ w') {line : List α} (fits : Fits adv w line) :
    Fits adv w' line := by
  rcases fits with narrow | single
  · exact .inl (Int.le_trans narrow wider)
  · exact .inr single

theorem Division.widen {w w' : Int} (wider : w ≤ w') {items : List α} {ls : List (List α)}
    (division : Division adv isBreak w items ls) : Division adv isBreak w' items ls := by
  induction division with
  | nil => exact .nil
  | cut inLine fits _ ih => exact .cut inLine (fits.widen wider) ih
  | forced inLine fits brk _ ih => exact .forced inLine (fits.widen wider) brk ih

theorem fit_inLine (maxW : Int) (items : List α) :
    ∀ a ∈ items.take (fit adv isBreak maxW items), isBreak a = false :=
  fitAfter_inLine maxW [] items

theorem fit_fits {maxW : Int} (limited : 0 ≤ maxW) (items : List α) :
    Fits adv maxW (items.take (fit adv isBreak maxW items)) :=
  fitAfter_fits limited [] items (.inr (Nat.zero_le _))

/-- The greedy lines are a division. -/
theorem lines_division {maxW : Int} (limited : 0 ≤ maxW) (items : List α) :
    Division adv isBreak maxW items (lines adv isBreak maxW items) := by
  fun_induction lines adv isBreak maxW items with
  | case1 => exact .nil
  | case2 items some ih =>
    have inLine : ∀ a ∈ items.take (fit adv isBreak maxW items), isBreak a = false :=
      fit_inLine maxW items
    have fits : Fits adv maxW (items.take (fit adv isBreak maxW items)) := fit_fits limited items
    have split := List.take_append_drop (fit adv isBreak maxW items) items
    unfold next at ih ⊢
    cases stop : items.drop (fit adv isBreak maxW items) with
    | nil =>
      rw [stop] at ih split
      have division := Division.cut inLine fits ih
      rwa [skipBreak, split] at division
    | cons b rest =>
      rw [stop] at ih split
      rw [skipBreak] at ih ⊢
      split at ih
      next brk =>
        rw [if_pos brk]
        have division := Division.forced inLine fits brk ih
        rwa [split] at division
      next more =>
        rw [if_neg more]
        have division := Division.cut inLine fits ih
        rwa [split] at division

/-- The greedy first line reaches at least as far as any line that fits. -/
theorem next_ahead (positive : ∀ a, 1 ≤ adv a) {maxW : Int} {line : List α} (rest : List α)
    (inLine : ∀ a ∈ line, isBreak a = false) (fits : Fits adv maxW line) :
    next adv isBreak maxW (line ++ rest) <:+ skipBreak isBreak rest := by
  have least := le_fitAfter positive maxW [] line rest inLine fits
  have taken : ∀ a ∈ (line ++ rest).take (fit adv isBreak maxW (line ++ rest)),
      isBreak a = false := fit_inLine maxW (line ++ rest)
  unfold next
  rw [fit] at taken ⊢
  obtain ⟨more, count⟩ := Nat.exists_eq_add_of_le least
  rw [count, List.take_length_add_append] at taken
  rw [count, List.drop_length_add_append]
  cases more with
  | zero => exact List.suffix_rfl
  | succ more =>
    cases rest with
    | nil => exact List.suffix_rfl
    | cons a rest =>
      -- the line goes on, so what follows `line` is no break
      have goesOn := taken a (by simp)
      have whole : skipBreak isBreak (a :: rest) = a :: rest := by simp [skipBreak, goesOn]
      rw [whole]
      exact (skipBreak_suffix isBreak _).trans (List.drop_suffix _ _)

theorem Fits.suffix (positive : ∀ a, 1 ≤ adv a) {maxW : Int} {pre line : List α}
    (limited : 0 ≤ maxW) (fits : Fits adv maxW (pre ++ line)) : Fits adv maxW line := by
  rcases fits with narrow | single
  · left
    by_cases empty : line = []
    · rwa [empty, width_nil]
    · rw [width_of_ne (by simp [empty]), sum_append] at narrow
      have more := sum_nonneg positive pre
      rw [width_of_ne empty]
      omega
  · right
    rw [List.length_append] at single
    omega

/-- What begins on the first line, or at the break that ends it. -/
theorem suffix_inside {maxW : Int} {items later : List α} (suffix : later <:+ items)
    (inside : ¬later <:+ next adv isBreak maxW items) :
    ∃ line, later = line ++ items.drop (fit adv isBreak maxW items) ∧
      line <:+ items.take (fit adv isBreak maxW items) := by
  have split := List.take_append_drop (fit adv isBreak maxW items) items
  rcases List.suffix_or_suffix_of_suffix suffix
    (List.drop_suffix (fit adv isBreak maxW items) items) with behind | ⟨line, eq⟩
  · refine ⟨[], ?_, List.nil_suffix⟩
    unfold next at inside
    cases rest : items.drop (fit adv isBreak maxW items) with
    | nil =>
      rw [rest] at behind
      exact List.suffix_nil.mp behind
    | cons b rest' =>
      rw [rest] at behind inside
      rw [skipBreak] at inside
      split at inside
      next brk =>
        rcases List.suffix_cons_iff.mp behind with same | past
        · exact same
        · exact absurd past inside
      next more => exact absurd behind inside
  · obtain ⟨pre, whole⟩ := suffix
    refine ⟨line, eq.symm, pre, ?_⟩
    have same : pre ++ line ++ items.drop (fit adv isBreak maxW items) =
        items.take (fit adv isBreak maxW items) ++ items.drop (fit adv isBreak maxW items) := by
      rw [split, List.append_assoc, eq, whole]
    exact List.append_cancel_right same

/-- Starting later never takes more lines. The induction is on the items: either the later
start lies behind the first line, or its own first line reaches as far. -/
theorem lines_suffix (positive : ∀ a, 1 ≤ adv a) {maxW : Int} (limited : 0 ≤ maxW)
    {items later : List α} (suffix : later <:+ items) :
    (lines adv isBreak maxW later).length ≤ (lines adv isBreak maxW items).length := by
  induction size : items.length using Nat.strong_induction_on generalizing items later with
  | _ n ih =>
    subst size
    by_cases none : later = []
    · rw [none, lines_nil]
      exact Nat.zero_le _
    by_cases same : later = items
    · rw [same]
    have some : items ≠ [] := by
      rintro rfl
      exact none (List.suffix_nil.mp suffix)
    have shorter := next_lt adv isBreak maxW some
    rw [lines_cons adv isBreak maxW some, List.length_cons]
    by_cases past : later <:+ next adv isBreak maxW items
    · -- `later` begins after the first line
      have rest := ih _ shorter past rfl
      omega
    obtain ⟨line, eq, pre, whole⟩ := suffix_inside suffix past
    have inLine : ∀ a ∈ items.take (fit adv isBreak maxW items), isBreak a = false :=
      fit_inLine maxW items
    have fits : Fits adv maxW (items.take (fit adv isBreak maxW items)) := fit_fits limited items
    rw [← whole] at inLine fits
    have ahead := next_ahead positive (items.drop (fit adv isBreak maxW items))
      (fun a member => inLine a (List.mem_append_right pre member)) (fits.suffix positive limited)
    rw [← eq] at ahead
    rw [lines_cons adv isBreak maxW none, List.length_cons]
    exact Nat.succ_le_succ (ih _ shorter ahead rfl)

/-- No division has fewer lines than the greedy one. -/
theorem lines_minimal (positive : ∀ a, 1 ≤ adv a) {maxW : Int} (limited : 0 ≤ maxW)
    {items : List α} {ls : List (List α)} (division : Division adv isBreak maxW items ls) :
    (lines adv isBreak maxW items).length ≤ ls.length := by
  have first {line rest : List α} {n : Nat} (inLine : ∀ a ∈ line, isBreak a = false)
      (fits : Fits adv maxW line)
      (later : (lines adv isBreak maxW (skipBreak isBreak rest)).length ≤ n) :
      (lines adv isBreak maxW (line ++ rest)).length ≤ n + 1 := by
    by_cases none : line ++ rest = []
    · rw [none, lines_nil]
      exact Nat.zero_le _
    · rw [lines_cons adv isBreak maxW none, List.length_cons]
      apply Nat.succ_le_succ
      exact (lines_suffix positive limited (next_ahead positive rest inLine fits)).trans later
  induction division with
  | nil => rw [lines_nil]
  | cut inLine fits _ ih =>
    exact first inLine fits ((lines_suffix positive limited (skipBreak_suffix isBreak _)).trans ih)
  | forced inLine fits brk _ ih =>
    apply first inLine fits
    rwa [skipBreak, if_pos brk]

/-- Wider lines are not more lines. -/
theorem lines_antitone (positive : ∀ a, 1 ≤ adv a) {w w' : Int} (limited : 0 ≤ w)
    (wider : w ≤ w') (items : List α) :
    (lines adv isBreak w' items).length ≤ (lines adv isBreak w items).length :=
  lines_minimal positive (limited.trans wider) ((lines_division limited items).widen wider)

end Wrap
