import InstagramNt40.Library.Ownership
import InstagramNt40.Library.Scanner

/-!
# Scanners that own what they build

A parser that builds its result out of acquired resources does what a scanner does,
unless a request is refused. It is said to implement the scanner: whatever the
answers to its requests, it returns the scanner's result and owns exactly what that
result is made of, or it returns nothing and owns nothing.
-/
namespace Scanner

variable {α β : Type}

theorem Scan.pure_bind (a : α) (k : α → Scan β) : (pure a : Scan α) >>= k = k a := rfl

theorem Scan.bind_pure (m : Scan α) : m >>= pure = m := by
  funext text x
  simp only [run_bind, Scan.bind]
  cases m text x <;> rfl

theorem Scan.fail_bind (k : α → Scan β) : (fail : Scan α) >>= k = fail := rfl

theorem Scan.ite_bind {p : Prop} [Decidable p] (m m' : Scan α) (k : α → Scan β) :
    (if p then m else m') >>= k = if p then m >>= k else m' >>= k := by
  split_ifs <;> rfl

/-- The scanner never gives up. -/
def Certain (m : Scan α) : Prop := ∀ text x, m text x ≠ .null

theorem Certain.bind {m : Scan α} {k : α → Scan β} (first : Certain m)
    (next : ∀ a, Certain (k a)) : Certain (m >>= k) := by
  intro text x
  simp only [run_bind, Scan.bind]
  cases run : m text x with
  | ok a y => exact next a text y
  | null => exact absurd run (first text x)
  | fault => simp
  | timeout => simp

theorem certain_pure (a : α) : Certain (pure a : Scan α) := fun text x => by simp

theorem certain_cursor : Certain cursor := fun text x => by simp

theorem certain_limit : Certain limit := fun text x => by simp

theorem certain_deref (i : Nat) : Certain (deref i) := fun text x => by
  simp only [deref]
  split <;> simp

theorem certain_seek (q : Nat) : Certain (seek q) := fun text x => by
  simp only [seek]
  split <;> simp

theorem certain_peek : Certain peek := fun text x => by
  unfold peek
  split_ifs with inside
  · simp only [Functor.map, Scan.bind, deref, List.getElem?_eq_getElem inside]
    simp
  · simp

theorem certain_setDepth (d : Nat) : Certain (setDepth d) := fun text x => by simp

theorem certain_advance (n : Nat) : Certain (advance n) := fun text x => by
  simp only [advance, seek]
  split <;> simp

theorem certain_slice (i n : Nat) : Certain (slice i n) := fun text x => by
  simp only [slice]
  split <;> simp

theorem certain_skipWhile (test : UInt8 → Bool) : Certain (skipWhile test) := fun text x => by
  simp [run_skipWhile]

theorem certain_accept (test : UInt8 → Bool) : Certain (accept test) := fun text x => by
  cases left : rest text x with
  | nil => simp [run_accept_nil test left]
  | cons b r =>
    rw [run_accept_cons test left]
    split <;> simp

end Scanner

namespace Ownership

open Scanner

variable {κ : Type} {α β γ : Type}

/-- Run a scanner that acquires nothing. -/
def scan (m : Scan α) (text : List UInt8) (x : Cursor) : Prog κ (Option (α × Cursor)) :=
  match m text x with
  | .ok a y => pure (some (a, y))
  | .null => pure none
  | .fault => fault
  | .timeout => timeout

/-- What is owned through a result, if there is one. -/
def ownedBy (own : β → Multiset (Name κ)) : Option (β × Cursor) → Multiset (Name κ)
  | some (b, _) => own b
  | none => 0

/-- The result is the scanner's and nothing was refused, or there is none because of a
refusal or because the scanner gives up. -/
def Agrees (run : Scanner.Outcome α) (rel : β → α → Prop) : Bool → Option (β × Cursor) → Prop
  | r, some (b, y) => r = false ∧ ∃ a, run = .ok a y ∧ rel b a
  | r, none => r = true ∨ run = .null

/-- Where the scanner neither faults nor runs out of fuel, `m` does what it does. -/
def Implements (text : List UInt8) (x : Cursor) (s : Scan α) (pre : Multiset (Name κ))
    (m : Prog κ (Option (β × Cursor))) (own : β → Multiset (Name κ)) (rel : β → α → Prop) : Prop :=
  Safe text x s (fun _ _ => True) → Triple pre m (ownedBy own) (Agrees (s text x) rel)

/-- Everything owned is released and nothing is returned. -/
def Discards (pre : Multiset (Name κ)) (m : Prog κ (Option (β × Cursor))) : Prop :=
  Triple pre m (fun _ => 0) fun _ o => o = none

variable {text : List UInt8} {x : Cursor} {s : Scan α} {pre : Multiset (Name κ)}
  {m : Prog κ (Option (β × Cursor))} {own : β → Multiset (Name κ)} {rel : β → α → Prop}

theorem Discards.none (empty : pre = 0) :
    Discards pre (pure none : Prog κ (Option (β × Cursor))) := .pure empty rfl

theorem Discards.agrees (discards : Discards pre m) {run : Scanner.Outcome α}
    {r : Bool} (reason : r = true ∨ run = .null) :
    Triple pre m (ownedBy own) fun r' => Agrees run rel (r || r') := by
  refine Triple.mono discards rfl fun o r' gone => ?_
  subst gone
  refine ⟨rfl, reason.imp_left fun refused => ?_⟩
  rw [refused, Bool.true_or]

/-- A safe sequence is safe in its first part, and then in the rest. -/
theorem safe_bind_inv {m : Scan α} {k : α → Scan γ} {post : γ → Cursor → Prop}
    (safe : Safe text x (m >>= k) post) : Safe text x m fun a y => Safe text y (k a) post := by
  unfold Safe at safe ⊢
  cases run : m text x with
  | ok a y => simpa only [bind_ok run] using safe
  | null => trivial
  | fault => simp only [run_bind, Scan.bind, run] at safe
  | timeout => simp only [run_bind, Scan.bind, run] at safe

/-- The scanner returns and so does the program. -/
theorem Implements.ok {a : α} {b : β} {y : Cursor} (run : s text x = .ok a y) (holds : rel b a)
    (made : pre = own b) : Implements text x s pre (pure (some (b, y))) own rel :=
  fun _ => .pure made ⟨rfl, a, run, holds⟩

theorem Implements.null (run : s text x = .null) (discards : Discards pre m) :
    Implements text x s pre m own rel := by
  intro _
  have agreed : Triple pre m (ownedBy own) fun r => Agrees (s text x) rel (false || r) :=
    discards.agrees (Or.inr run)
  simpa only [Bool.false_or] using agreed

/-- Scanners with the same run are implemented alike. -/
theorem Implements.congr {s' : Scan α} {x' : Cursor} (same : s text x = s' text x')
    (done : Implements text x' s' pre m own rel) : Implements text x s pre m own rel := by
  unfold Implements Safe at *
  rw [same]
  exact done

/-- A part that acquires nothing. -/
theorem Implements.scan {k : α → Scan γ} {K : Option (α × Cursor) → Prog κ (Option (β × Cursor))}
    {rel : β → γ → Prop}
    (next : ∀ a y, s text x = .ok a y → Implements text y (k a) pre (K (some (a, y))) own rel)
    (failed : Discards pre (K none)) :
    Implements text x (s >>= k) pre (Ownership.scan s text x >>= K) own rel := by
  intro safe
  have first := safe_bind_inv safe
  unfold Ownership.scan
  cases run : s text x with
  | ok a y =>
    rw [bind_ok run]
    simp only [Prog.pure_bind]
    exact next a y run (first.elim run)
  | null =>
    have gone : (s >>= k) text x = .null := by simp only [run_bind, Scan.bind, run]
    rw [gone]
    simp only [Prog.pure_bind]
    have agreed : Triple pre (K none) (ownedBy own) fun r =>
        Agrees (.null : Scanner.Outcome γ) rel (false || r) := failed.agrees (Or.inr rfl)
    simpa only [Bool.false_or] using agreed
  | fault => simp only [Safe, run] at first
  | timeout => simp only [Safe, run] at first

/-- The last part, where what follows only uses its value. -/
theorem Implements.last {K : Option (α × Cursor) → Prog κ (Option (β × Cursor))}
    (next : ∀ a y, Implements text y (pure a) pre (K (some (a, y))) own rel)
    (failed : Discards pre (K none)) :
    Implements text x s pre (Ownership.scan s text x >>= K) own rel := by
  have whole := Implements.scan (s := s) (x := x) (fun a y _ => next a y) failed
  rwa [Scan.bind_pure] at whole

/-- A part that acquires nothing and never gives up. -/
theorem Implements.certain {k : α → Scan γ}
    {K : Option (α × Cursor) → Prog κ (Option (β × Cursor))} {rel : β → γ → Prop}
    (sure : Certain s)
    (next : ∀ a y, s text x = .ok a y → Implements text y (k a) pre (K (some (a, y))) own rel) :
    Implements text x (s >>= k) pre (Ownership.scan s text x >>= K) own rel := by
  intro safe
  have first := safe_bind_inv safe
  obtain gone | ⟨a, y, run, safe'⟩ := first.returns_or_null
  · exact absurd gone (sure text x)
  · rw [bind_ok run]
    simp only [Ownership.scan, run, Prog.pure_bind]
    exact next a y run safe'

/-- The last part, if it never gives up. -/
theorem Implements.surely {K : Option (α × Cursor) → Prog κ (Option (β × Cursor))}
    (sure : Certain s) (next : ∀ a y, Implements text y (pure a) pre (K (some (a, y))) own rel) :
    Implements text x s pre (Ownership.scan s text x >>= K) own rel := by
  have whole := Implements.certain (s := s) (x := x) sure fun a y _ => next a y
  rwa [Scan.bind_pure] at whole

/-- A part that itself implements a scanner. -/
theorem Implements.call {k : α → Scan γ} {F all : Multiset (Name κ)} {δ : Type}
    {K : Option (β × Cursor) → Prog κ (Option (δ × Cursor))} {own' : δ → Multiset (Name κ)}
    {rel' : δ → γ → Prop} (spec : Implements text x s pre m own rel) (part : all = pre + F)
    (next : ∀ b a y, s text x = .ok a y → rel b a →
      Implements text y (k a) (own b + F) (K (some (b, y))) own' rel')
    (failed : Discards F (K none)) :
    Implements text x (s >>= k) all (m >>= K) own' rel' := by
  intro safe
  have first := safe_bind_inv safe
  refine Triple.call (spec (first.mono fun _ _ _ => trivial)) part fun o r agrees => ?_
  cases o with
  | none =>
    refine Triple.mono (failed.agrees (r := r) (agrees.imp_right fun run => ?_)) (zero_add F)
      fun _ _ holds => ⟨rfl, holds⟩
    simp only [run_bind, Scan.bind, run]
  | some result =>
    obtain ⟨b, y⟩ := result
    obtain ⟨calm, a, run, holds⟩ := agrees
    subst calm
    rw [bind_ok run]
    exact next b a y run holds (first.elim run)

/-- A request and the test of its answer. -/
theorem Implements.request {K : Option (Name κ) → Prog κ (Option (β × Cursor))} {kind : κ}
    (granted : ∀ n, Implements text x s ({n} + pre) (K (some n)) own rel)
    (refused : Discards pre (K none)) :
    Implements text x s pre (acquire kind >>= K) own rel :=
  fun safe => .request (fun n => granted n safe) (refused.agrees (Or.inl rfl))

/-- A step of another kind: it either works, or is refused what it asks for. -/
theorem Implements.step {δ : Type} {c : Prog κ δ} {K : δ → Prog κ (Option (β × Cursor))}
    {part F all : Multiset (Name κ)} {left : δ → Multiset (Name κ)} {Q : Bool → δ → Prop}
    (spec : Triple part c left Q) (split : all = part + F)
    (next : ∀ d, Q false d → Implements text x s (left d + F) (K d) own rel)
    (refused : ∀ d, Q true d → Discards (left d + F) (K d)) :
    Implements text x s all (c >>= K) own rel := by
  intro safe
  refine spec.call split fun d r holds => ?_
  cases r with
  | false => exact next d holds safe
  | true => exact (refused d holds).agrees (Or.inl rfl)

theorem Implements.timeout : Implements text x (Scanner.timeout : Scan α) pre m own rel :=
  fun safe => False.elim safe

/-- The same resources under another description. -/
theorem Implements.owning {pre' : Multiset (Name κ)} (same : pre' = pre)
    (done : Implements text x s pre m own rel) : Implements text x s pre' m own rel :=
  same ▸ done

theorem Discards.owning {pre' : Multiset (Name κ)} (same : pre' = pre)
    (done : Discards pre m) : Discards pre' m := same ▸ done

theorem Discards.then {δ : Type} {c : Prog κ δ} {K : δ → Prog κ (Option (β × Cursor))}
    {part F all : Multiset (Name κ)} {left : δ → Multiset (Name κ)} {Q : Bool → δ → Prop}
    (spec : Triple part c left Q) (split : all = part + F)
    (next : ∀ d, Discards (left d + F) (K d)) : Discards all (c >>= K) :=
  spec.call split fun d _ _ => next d

end Ownership
