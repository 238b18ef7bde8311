import Mathlib.Data.List.Basic
import Mathlib.Data.List.Range

/-!
# Compaction into preallocated cells

A loop that skips some of its items and stores the others one after the other into an
array allocated for all of them. A store behind the array is no result.
-/
namespace Compact

variable {α β : Type}

/-- An allocated array whose first `count` cells are in use. -/
structure Cells (α : Type) where
  cells : List α
  count : Nat
  deriving DecidableEq

/-- `n` cleared cells, none of them in use. -/
def calloc (n : Nat) (zero : α) : Cells α := ⟨List.replicate n zero, 0⟩

/-- `p = &cells[count++]` and the stores through `p`. -/
def Cells.push (c : Cells α) (fill : α → α) : Option (Cells α) :=
  c.cells[c.count]?.map fun p => ⟨c.cells.set c.count (fill p), c.count + 1⟩

/-- Of `n` cells the first hold the items, each once and in order, and the others are
still clear. -/
structure Holds (n : Nat) (zero : α) (items : List α) (c : Cells α) : Prop where
  fits : items.length ≤ n
  count : c.count = items.length
  cells : c.cells = items ++ List.replicate (n - items.length) zero

/-- The cells in use. -/
def Cells.used (c : Cells α) : List α := c.cells.take c.count

theorem Holds.used {n : Nat} {zero : α} {items : List α} {c : Cells α}
    (holds : Holds n zero items c) : c.used = items := by
  rw [Cells.used, holds.count, holds.cells, List.take_left]

theorem calloc_holds (n : Nat) (zero : α) : Holds n zero [] (calloc n zero) :=
  ⟨Nat.zero_le n, rfl, rfl⟩

/-- The next store finds a cleared cell. -/
theorem Holds.push {n : Nat} {zero : α} {items : List α} {c : Cells α}
    (holds : Holds n zero items c) (room : items.length < n) (fill : α → α) :
    ∃ c', c.push fill = some c' ∧ Holds n zero (items ++ [fill zero]) c' := by
  obtain ⟨-, count, cells⟩ := holds
  obtain ⟨k, free⟩ : ∃ k, n - items.length = k + 1 := ⟨n - items.length - 1, by omega⟩
  rw [free, List.replicate_succ] at cells
  have cell : c.cells[c.count]? = some zero := by
    rw [cells, count]
    simp
  refine ⟨_, by rw [Cells.push, cell]; rfl, ?_, ?_, ?_⟩
  · rw [List.length_append, List.length_singleton]
    exact room
  · rw [List.length_append, List.length_singleton, count]
  · have left : n - (items ++ [fill zero]).length = k := by
      rw [List.length_append, List.length_singleton]
      omega
    rw [left, cells, count]
    simp

/-- The items that a loop over `0`, …, `n - 1` keeps. -/
def kept (n : Nat) (item : Nat → Option α) : List α := (List.range n).filterMap item

theorem kept_succ (n : Nat) (item : Nat → Option α) :
    kept (n + 1) item = kept n item ++ (item n).toList := by
  unfold kept
  rw [List.range_succ, List.filterMap_append]
  cases here : item n <;> simp [here]

theorem kept_length_le (n : Nat) (item : Nat → Option α) : (kept n item).length ≤ n := by
  have short := List.length_filterMap_le item (List.range n)
  rwa [List.length_range] at short

/-- A loop whose round `i` skips the item or stores it: after all rounds the cells hold
what was kept. -/
theorem foldlM_holds {n : Nat} {zero : α} {round : Cells α → Nat → Option (Cells α)}
    {item : Nat → Option α}
    (skips : ∀ c i, item i = none → round c i = some c)
    (stores : ∀ c i a, item i = some a → ∃ fill, fill zero = a ∧ round c i = c.push fill) :
    ∃ c, (List.range n).foldlM round (calloc n zero) = some c ∧ Holds n zero (kept n item) c := by
  -- after `m` rounds at most `m` cells are in use, so a cell is left for the next one
  have run (m : Nat) (less : m ≤ n) : ∃ c,
      (List.range m).foldlM round (calloc n zero) = some c ∧ Holds n zero (kept m item) c := by
    induction m with
    | zero => exact ⟨_, rfl, calloc_holds n zero⟩
    | succ m ih =>
      obtain ⟨c, before, holds⟩ := ih (by omega)
      rw [List.range_succ, List.foldlM_append, before, kept_succ]
      simp only [List.foldlM_cons, List.foldlM_nil, bind_pure, Option.bind_some,
        Option.bind_eq_bind]
      cases here : item m with
      | none =>
        refine ⟨c, skips c m here, ?_⟩
        simpa using holds
      | some a =>
        obtain ⟨fill, rfl, stored⟩ := stores c m a here
        have room := kept_length_le m item
        rw [stored]
        exact holds.push (by omega) fill
  exact run n (Nat.le_refl n)

/-- A loop over the indices of a list keeps what its items are mapped to. -/
theorem kept_list (f : β → Option α) (l : List β) :
    kept l.length (fun i => l[i]?.bind f) = l.filterMap f := by
  induction l using List.reverseRecOn with
  | nil => rfl
  | append_singleton l b ih =>
    have before : kept l.length (fun i => (l ++ [b])[i]?.bind f) = l.filterMap f := by
      rw [← ih]
      apply List.filterMap_congr
      intro i member
      rw [List.getElem?_append_left (List.mem_range.mp member)]
    rw [List.length_append, List.length_singleton, kept_succ, before, List.filterMap_append,
      List.getElem?_concat_length]
    cases here : f b <;> simp [here]

end Compact
