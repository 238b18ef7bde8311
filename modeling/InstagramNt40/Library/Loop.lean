import Mathlib.Data.List.Range
import Mathlib.Tactic.Ring

/-!
# Counting loops

`for (i = 0; i < n; i++)` over a state, and its rules: an invariant of the counter and
the state, two loops in step, and a loop over the items of a list.
-/
namespace Loop

variable {σ τ α : Type}

/-- The state after the iterations `0`, …, `n - 1`. -/
def forLoop : Nat → (Nat → σ → σ) → σ → σ
  | 0, _, s => s
  | n + 1, body, s => body n (forLoop n body s)

@[simp] theorem forLoop_zero (body : Nat → σ → σ) (s : σ) : forLoop 0 body s = s := rfl

theorem forLoop_succ (n : Nat) (body : Nat → σ → σ) (s : σ) :
    forLoop (n + 1) body s = body n (forLoop n body s) := rfl

/-- What each iteration preserves holds after the loop. -/
theorem forLoop_invariant {P : Nat → σ → Prop} {n : Nat} {body : Nat → σ → σ} {s : σ}
    (start : P 0 s) (step : ∀ i < n, ∀ t, P i t → P (i + 1) (body i t)) :
    P n (forLoop n body s) := by
  induction n with
  | zero => exact start
  | succ n ih =>
    have before := ih fun i less => step i (Nat.lt_succ_of_lt less)
    exact step n (Nat.lt_succ_self n) _ before

/-- A property without the counter. -/
theorem forLoop_preserves {P : σ → Prop} {n : Nat} {body : Nat → σ → σ} {s : σ}
    (start : P s) (step : ∀ i t, P t → P (body i t)) : P (forLoop n body s) :=
  forLoop_invariant (P := fun _ => P) start fun i _ => step i

/-- A value that no iteration changes. -/
theorem forLoop_frame {f : σ → τ} {n : Nat} {body : Nat → σ → σ} (s : σ)
    (step : ∀ i t, f (body i t) = f t) : f (forLoop n body s) = f s :=
  forLoop_preserves (P := fun t => f t = f s) rfl fun i t same => (step i t).trans same

/-- Two loops whose iterations agree. -/
theorem forLoop_congr {n : Nat} {body body' : Nat → σ → σ} {s : σ}
    (same : ∀ i < n, ∀ t, body i t = body' i t) : forLoop n body s = forLoop n body' s := by
  induction n with
  | zero => rfl
  | succ n ih =>
    rw [forLoop_succ, forLoop_succ, ih fun i less => same i (Nat.lt_succ_of_lt less),
      same n (Nat.lt_succ_self n)]

/-- A loop whose iterations can fail: where none does, it runs like the plain loop. -/
theorem forLoop_some {P : σ → Prop} {n : Nat} {body : Nat → σ → Option σ} {plain : Nat → σ → σ}
    {s : σ} (start : P s) (step : ∀ i < n, ∀ t, P t → body i t = some (plain i t) ∧ P (plain i t)) :
    forLoop n (fun i t => t.bind (body i)) (some s) = some (forLoop n plain s) := by
  have both : forLoop n (fun i t => t.bind (body i)) (some s) = some (forLoop n plain s) ∧
      P (forLoop n plain s) := by
    induction n with
    | zero => exact ⟨rfl, start⟩
    | succ n ih =>
      obtain ⟨run, holds⟩ := ih fun i less => step i (Nat.lt_succ_of_lt less)
      obtain ⟨succeeds, kept⟩ := step n (Nat.lt_succ_self n) _ holds
      rw [forLoop_succ, forLoop_succ, run, Option.bind_some]
      exact ⟨succeeds, kept⟩
  exact both.1

/-- A loop whose iterations can fail, with an invariant that none of them fails under. -/
theorem forLoop_succeeds {P : Nat → σ → Prop} {n : Nat} {body : Nat → σ → Option σ} {s : σ}
    (start : P 0 s) (step : ∀ i < n, ∀ t, P i t → ∃ u, body i t = some u ∧ P (i + 1) u) :
    ∃ u, forLoop n (fun i t => t.bind (body i)) (some s) = some u ∧ P n u := by
  induction n with
  | zero => exact ⟨s, rfl, start⟩
  | succ n ih =>
    obtain ⟨t, run, holds⟩ := ih fun i less => step i (Nat.lt_succ_of_lt less)
    obtain ⟨u, succeeds, kept⟩ := step n (Nat.lt_succ_self n) t holds
    exact ⟨u, by rw [forLoop_succ, run, Option.bind_some, succeeds], kept⟩

/-- A value that each iteration moves on by `c`. -/
theorem forLoop_linear (f : σ → Int) (c : Int) {n : Nat} {body : Nat → σ → σ} (s : σ)
    (step : ∀ i t, f (body i t) = f t + c) : f (forLoop n body s) = f s + n * c := by
  induction n with
  | zero => simp
  | succ n ih =>
    rw [forLoop_succ, step, ih]
    push_cast
    ring

/-- A loop over the first `n` items of a table is a fold over them. -/
theorem forLoop_eq_foldl (f : σ → α → σ) (item : Nat → α) (n : Nat) (s : σ) :
    forLoop n (fun i t => f t (item i)) s = ((List.range n).map item).foldl f s := by
  induction n with
  | zero => rfl
  | succ n ih =>
    rw [forLoop_succ, ih, List.range_succ, List.map_append, List.foldl_append]
    rfl

/-- The items of the rows `0`, …, `h - 1`, one row after the other. -/
def rowMajor (w h : Nat) (item : Nat → Nat → α) : List α :=
  (List.range h).flatMap fun y => (List.range w).map fun x => item x y

theorem rowMajor_succ (w h : Nat) (item : Nat → Nat → α) :
    rowMajor w (h + 1) item = rowMajor w h item ++ (List.range w).map fun x => item x h := by
  simp [rowMajor, List.range_succ]

/-- A nested loop over rows is a fold over the items, row by row. -/
theorem forLoop_rows (f : σ → α → σ) (item : Nat → Nat → α) (w h : Nat) (s : σ) :
    forLoop h (fun y t => forLoop w (fun x u => f u (item x y)) t) s =
      (rowMajor w h item).foldl f s := by
  induction h with
  | zero => rfl
  | succ h ih =>
    rw [forLoop_succ, ih, rowMajor_succ, List.foldl_append,
      forLoop_eq_foldl f (fun x => item x h)]

theorem rowMajor_length (w h : Nat) (item : Nat → Nat → α) :
    (rowMajor w h item).length = h * w := by
  induction h with
  | zero => simp [rowMajor]
  | succ h ih => simp [rowMajor_succ, ih, Nat.succ_mul]

/-- The item `x` of row `y` comes at index `y * w + x`. -/
theorem rowMajor_getElem? {w h x y : Nat} (item : Nat → Nat → α) (hx : x < w) (hy : y < h) :
    (rowMajor w h item)[y * w + x]? = some (item x y) := by
  induction h with
  | zero => omega
  | succ h ih =>
    rw [rowMajor_succ]
    by_cases last : y = h
    · subst last
      rw [List.getElem?_append_right (by rw [rowMajor_length]; omega), rowMajor_length,
        Nat.add_sub_cancel_left]
      simp [hx]
    · have earlier : y < h := by omega
      have inside : y * w + x < h * w := by
        calc
          y * w + x < y * w + w := by omega
          _ = (y + 1) * w := (Nat.succ_mul y w).symm
          _ ≤ h * w := Nat.mul_le_mul_right w earlier
      rw [List.getElem?_append_left (by rwa [rowMajor_length]), ih earlier]

end Loop
