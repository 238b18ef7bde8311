import Mathlib.Data.List.TakeDrop

/-!
# Copies within an array

An array with loads and stores that fail outside of it, and the two loops that copy a range
of it onto another one: from its start up and from its end down. Each is right as long as it
does not overwrite what it has still to read.
-/
namespace Copy

variable {α : Type}

def load (mem : List α) (i : Nat) : Option α := mem[i]?

def store (mem : List α) (i : Nat) (a : α) : Option (List α) :=
  if i < mem.length then some (mem.set i a) else none

/-- `while (n--) *d++ = *s++;` -/
def up : Nat → Nat → Nat → List α → Option (List α)
  | 0, _, _, mem => some mem
  | n + 1, d, s, mem => do
    let a ← load mem s
    let mem ← store mem d a
    up n (d + 1) (s + 1) mem

/-- `while (n--) *--d = *--s;` -/
def down : Nat → Nat → Nat → List α → Option (List α)
  | 0, _, _, mem => some mem
  | n + 1, d + 1, s + 1, mem => do
    let a ← load mem s
    let mem ← store mem d a
    down n d s mem
  | _ + 1, _, _, _ => none

/-- `while (n--) *d++ = *s++;` where `s` points into another array. -/
def into (src : List α) : Nat → Nat → Nat → List α → Option (List α)
  | 0, _, _, mem => some mem
  | n + 1, d, s, mem => do
    let a ← load src s
    let mem ← store mem d a
    into src n (d + 1) (s + 1) mem

/-! ### One cell -/

theorem load_inside {mem : List α} {i : Nat} (inside : i < mem.length) :
    ∃ a, load mem i = some a := ⟨_, List.getElem?_eq_getElem inside⟩

theorem store_inside {mem : List α} {i : Nat} (inside : i < mem.length) (a : α) :
    store mem i a = some (mem.set i a) := if_pos inside

/-! ### A range -/

/-- The `n` cells from `d` on hold what those from `s` on held, and no other has changed. -/
structure Moved (mem : List α) (d s n : Nat) (mem' : List α) : Prop where
  length : mem'.length = mem.length
  copied : ∀ i < n, mem'[d + i]? = mem[s + i]?
  frame : ∀ j, j < d ∨ d + n ≤ j → mem'[j]? = mem[j]?

theorem Moved.refl (mem : List α) (d s : Nat) : Moved mem d s 0 mem :=
  ⟨rfl, fun _ none => absurd none (Nat.not_lt_zero _), fun _ _ => rfl⟩

/-- The first cell is copied, then the others, none of which has been overwritten. -/
theorem Moved.cons {mem mem' : List α} {d s n : Nat} {a : α} (inside : d < mem.length)
    (first : mem[s]? = some a) (kept : d ≤ s ∨ s + n < d)
    (others : Moved (mem.set d a) (d + 1) (s + 1) n mem') : Moved mem d s (n + 1) mem' where
  length := by rw [others.length, List.length_set]
  copied i less := by
    cases i with
    -- the others do not reach the first cell
    | zero =>
      rw [Nat.add_zero, Nat.add_zero, others.frame _ (.inl (Nat.lt_succ_self _)),
        List.getElem?_set_self inside, first]
    -- nor does the first cell reach what they read
    | succ i =>
      have apart : d ≠ s + 1 + i := by omega
      have next := others.copied i (by omega)
      rw [List.getElem?_set_ne apart] at next
      rwa [Nat.add_assoc, Nat.add_assoc, Nat.add_comm 1] at next
  frame j outside := by
    rw [others.frame j (by omega), List.getElem?_set_ne (by omega)]

/-- The last cell is copied, then the others, none of which has been overwritten. -/
theorem Moved.snoc {mem mem' : List α} {d s n : Nat} {a : α} (inside : d + n < mem.length)
    (last : mem[s + n]? = some a) (kept : s ≤ d ∨ d + n < s)
    (others : Moved (mem.set (d + n) a) d s n mem') : Moved mem d s (n + 1) mem' where
  length := by rw [others.length, List.length_set]
  copied i less := by
    by_cases here : i = n
    · rw [here, others.frame _ (.inr (Nat.le_refl _)), List.getElem?_set_self inside, last]
    · rw [others.copied i (by omega), List.getElem?_set_ne (by omega)]
  frame j outside := by
    rw [others.frame j (by omega), List.getElem?_set_ne (by omega)]

/-- Upward the destination may reach into the source from below. -/
theorem up_moved {n d s : Nat} {mem : List α} (dstIn : d + n ≤ mem.length)
    (srcIn : s + n ≤ mem.length) (kept : d ≤ s ∨ s + n ≤ d) :
    ∃ mem', up n d s mem = some mem' ∧ Moved mem d s n mem' := by
  induction n generalizing d s mem with
  | zero => exact ⟨mem, rfl, .refl mem d s⟩
  | succ n ih =>
    obtain ⟨a, read⟩ := load_inside (show s < mem.length by omega)
    have written := store_inside (show d < mem.length by omega) a
    obtain ⟨mem', run, others⟩ := @ih (d + 1) (s + 1) (mem.set d a)
      (by rw [List.length_set]; omega) (by rw [List.length_set]; omega) (by omega)
    refine ⟨mem', ?_, .cons (by omega) read (by omega) others⟩
    rw [up, read, Option.bind_eq_bind, Option.bind_some, written, Option.bind_eq_bind,
      Option.bind_some, run]

/-- Downward it may reach into the source from above. -/
theorem down_moved {n d s : Nat} {mem : List α} (dstIn : d + n ≤ mem.length)
    (srcIn : s + n ≤ mem.length) (kept : s ≤ d ∨ d + n ≤ s) :
    ∃ mem', down n (d + n) (s + n) mem = some mem' ∧ Moved mem d s n mem' := by
  induction n generalizing mem with
  | zero => exact ⟨mem, rfl, .refl mem d s⟩
  | succ n ih =>
    obtain ⟨a, read⟩ := load_inside (show s + n < mem.length by omega)
    have written := store_inside (show d + n < mem.length by omega) a
    obtain ⟨mem', run, others⟩ := @ih (mem.set (d + n) a) (by rw [List.length_set]; omega)
      (by rw [List.length_set]; omega) (by omega)
    refine ⟨mem', ?_, .snoc (by omega) read (by omega) others⟩
    rw [← Nat.add_assoc, ← Nat.add_assoc, down, read, Option.bind_eq_bind, Option.bind_some,
      written, Option.bind_eq_bind, Option.bind_some, run]

/-- From another array nothing can be overwritten. -/
theorem into_eq {src : List α} {n d s : Nat} {mem : List α} (dstIn : d + n ≤ mem.length)
    (srcIn : s + n ≤ src.length) :
    into src n d s mem = some (mem.take d ++ ((src.drop s).take n ++ mem.drop (d + n))) := by
  induction n generalizing d s mem with
  | zero => simp [into]
  | succ n ih =>
    obtain ⟨a, read⟩ := load_inside (show s < src.length by omega)
    have written := store_inside (show d < mem.length by omega) a
    have size : (mem.take d).length = d := by rw [List.length_take]; omega
    have first : (src.drop s).take (n + 1) = a :: (src.drop (s + 1)).take n := by
      have here : src.drop s = a :: src.drop (s + 1) := by
        rw [List.drop_eq_getElem_cons (by omega)]
        congr 1
        exact Option.some.inj ((List.getElem?_eq_getElem _).symm.trans read)
      rw [here, List.take_succ_cons]
    have start : (mem.set d a).take (d + 1) = mem.take d ++ [a] := by
      rw [List.take_add_one, List.take_set_of_le (Nat.le_refl d),
        List.getElem?_set_self (by omega)]
      rfl
    rw [into, read, Option.bind_eq_bind, Option.bind_some, written, Option.bind_eq_bind,
      Option.bind_some, ih (by rw [List.length_set]; omega) (by omega), start, first,
      List.drop_set_of_lt (by omega), Nat.add_assoc, Nat.add_comm 1]
    simp

end Copy
