import Mathlib.Data.List.Basic
import Mathlib.Data.List.Monad

/-!
# Transfers and runs

A stream from a sender to a receiver that is taken and handed over in pieces of any size,
and systems whose parties act in any order: what every action keeps holds after every run,
and a run of actions that each use up something is no longer than what there is.
-/
namespace Transfer

/-! ### Streams -/

variable {α : Type}

/-- What the sender still has, what was taken from it, and what the receiver got. -/
structure Stream (α : Type) where
  left : List α
  inFlight : List α
  got : List α
  deriving DecidableEq

/-- All of `items` are still with the sender. -/
def Stream.of (items : List α) : Stream α := ⟨items, [], []⟩

/-- The next `n` items are taken from the sender. -/
def Stream.send (s : Stream α) (n : Nat) : Stream α :=
  { s with left := s.left.drop n, inFlight := s.inFlight ++ s.left.take n }

/-- The next `n` items reach the receiver. -/
def Stream.deliver (s : Stream α) (n : Nat) : Stream α :=
  { s with inFlight := s.inFlight.drop n, got := s.got ++ s.inFlight.take n }

/-- The items in their order. -/
def Stream.total (s : Stream α) : List α := s.got ++ (s.inFlight ++ s.left)

/-- How many hands they still have to pass through. -/
def Stream.weight (s : Stream α) : Nat := 2 * s.left.length + s.inFlight.length

@[simp] theorem Stream.total_of (items : List α) : (Stream.of items).total = items := rfl

/-- Nothing is lost, doubled or moved. -/
@[simp] theorem Stream.total_send (s : Stream α) (n : Nat) : (s.send n).total = s.total := by
  simp only [Stream.total, Stream.send, List.append_assoc, List.take_append_drop]

@[simp] theorem Stream.total_deliver (s : Stream α) (n : Nat) :
    (s.deliver n).total = s.total := by
  simp only [Stream.total, Stream.deliver, List.append_assoc]
  rw [← List.append_assoc (s.inFlight.take n), List.take_append_drop]

@[simp] theorem Stream.got_send (s : Stream α) (n : Nat) : (s.send n).got = s.got := rfl

@[simp] theorem Stream.left_deliver (s : Stream α) (n : Nat) : (s.deliver n).left = s.left := rfl

theorem Stream.got_prefix (s : Stream α) : s.got <+: s.total := List.prefix_append _ _

theorem Stream.total_eq_nil {s : Stream α} :
    s.total = [] ↔ s.got = [] ∧ s.inFlight = [] ∧ s.left = [] := by
  rw [Stream.total, List.append_eq_nil_iff, List.append_eq_nil_iff]

theorem Stream.weight_send {s : Stream α} {n : Nat} (some : 0 < n) (fits : n ≤ s.left.length) :
    (s.send n).weight < s.weight := by
  simp only [Stream.weight, Stream.send, List.length_append, List.length_drop, List.length_take]
  omega

theorem Stream.weight_deliver {s : Stream α} {n : Nat} (some : 0 < n)
    (fits : n ≤ s.inFlight.length) : (s.deliver n).weight < s.weight := by
  simp only [Stream.weight, Stream.deliver, List.length_drop]
  omega

/-- With nothing left and nothing in flight all has arrived. -/
theorem Stream.got_all {s : Stream α} (left : s.left = []) (inFlight : s.inFlight = []) :
    s.got = s.total := by
  simp [Stream.total, left, inFlight]

/-! ### Runs -/

section Runs

variable {σ τ : Type} {step : σ → τ → Option σ} {P : σ → Prop} {s s' : σ} {acts : List τ}

/-- What every action of a run keeps. -/
theorem run_invariant (run : acts.foldlM step s = some s')
    (keeps : ∀ a ∈ acts, ∀ t t', P t → step t a = some t' → P t') (start : P s) : P s' := by
  induction acts generalizing s with
  | nil =>
    cases run
    exact start
  | cons a acts ih =>
    rw [List.foldlM_cons] at run
    obtain ⟨t, first, rest⟩ := Option.bind_eq_some_iff.mp run
    rw [List.forall_mem_cons] at keeps
    exact ih rest keeps.2 (keeps.1 s t start first)

/-- A run in which every action lowers a measure. -/
theorem run_length (measure : σ → Nat) (run : acts.foldlM step s = some s')
    (keeps : ∀ a t t', P t → step t a = some t' → P t')
    (lowers : ∀ a t t', P t → step t a = some t' → measure t' < measure t) (start : P s) :
    acts.length + measure s' ≤ measure s := by
  induction acts generalizing s with
  | nil =>
    cases run
    exact Nat.le_of_eq (Nat.zero_add _)
  | cons a acts ih =>
    rw [List.foldlM_cons] at run
    obtain ⟨t, first, rest⟩ := Option.bind_eq_some_iff.mp run
    have less := lowers a s t start first
    have bound := ih rest (keeps a s t start first)
    rw [List.length_cons]
    omega

end Runs

end Transfer
