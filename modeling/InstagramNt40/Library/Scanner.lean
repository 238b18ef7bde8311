import Mathlib.Data.List.TakeWhile
import Mathlib.Tactic.Ring

/-!
# Scanners over a byte buffer

A scanner walks a cursor over an immutable buffer, as a hand-written C parser
does. Undefined behaviour is an outcome of its own: a read at or past the end of
the buffer, a cursor moved backward or past the end, a write past the capacity
of an output buffer, or more scopes open at once than a limit allows is a
`fault`. A scanner that is shown never to fault therefore keeps all of these
bounds at every step of every run.
-/
namespace Scanner

/-- The cursor, the nesting counter the scanner keeps itself, and the number of
scopes it has really opened and not yet closed. -/
structure Cursor where
  pos : Nat
  depth : Nat
  live : Nat
  deriving DecidableEq, Repr

/-- The cursor `n` bytes further on. -/
def Cursor.forward (x : Cursor) (n : Nat) : Cursor := { x with pos := x.pos + n }

@[simp] theorem Cursor.forward_pos (x : Cursor) (n : Nat) : (x.forward n).pos = x.pos + n := rfl

@[simp] theorem Cursor.forward_depth (x : Cursor) (n : Nat) : (x.forward n).depth = x.depth := rfl

@[simp] theorem Cursor.forward_live (x : Cursor) (n : Nat) : (x.forward n).live = x.live := rfl

@[simp] theorem Cursor.forward_zero (x : Cursor) : x.forward 0 = x := rfl

@[simp] theorem Cursor.forward_forward (x : Cursor) (m n : Nat) :
    (x.forward m).forward n = x.forward (m + n) := by
  simp only [Cursor.forward, Nat.add_assoc]

/-- A scanner returns a value, gives up (a null result), does something
undefined, or exhausts its fuel. -/
inductive Outcome (α : Type) where
  | ok (value : α) (x : Cursor)
  | null
  | fault
  | timeout
  deriving DecidableEq, Repr

abbrev Scan (α : Type) : Type := List UInt8 → Cursor → Outcome α

variable {α β : Type}

def Scan.bind (m : Scan α) (k : α → Scan β) : Scan β := fun text x =>
  match m text x with
  | .ok a y => k a text y
  | .null => .null
  | .fault => .fault
  | .timeout => .timeout

instance : Monad Scan where
  pure a := fun _ x => .ok a x
  bind := Scan.bind

/-! ### Primitives -/

def fail : Scan α := fun _ _ => .null

def timeout : Scan α := fun _ _ => .timeout

/-- Read the byte at index `i`. -/
def deref (i : Nat) : Scan UInt8 := fun text x =>
  match text[i]? with
  | some b => .ok b x
  | none => .fault

def cursor : Scan Nat := fun _ x => .ok x.pos x

/-- The index one past the last byte. -/
def limit : Scan Nat := fun text x => .ok text.length x

/-- Move the cursor to `q`. -/
def seek (q : Nat) : Scan Unit := fun text x =>
  if x.pos ≤ q ∧ q ≤ text.length then .ok () { x with pos := q } else .fault

def advance (n : Nat) : Scan Unit := fun text x => seek (x.pos + n) text x

/-- `p < end ? *p : nothing`. -/
def peek : Scan (Option UInt8) := fun text x =>
  if x.pos < text.length then (some <$> deref x.pos) text x else .ok none x

def getDepth : Scan Nat := fun _ x => .ok x.depth x

def setDepth (d : Nat) : Scan Unit := fun _ x => .ok () { x with depth := d }

/-- Open a scope; at most `most` may be open at once. -/
def openScope (most : Nat) : Scan Unit := fun _ x =>
  if x.live < most then .ok () { x with live := x.live + 1 } else .fault

def closeScope : Scan Unit := fun _ x => .ok () { x with live := x.live - 1 }

/-- Append `bytes` to an output buffer of `cap` bytes. -/
def emit (cap : Nat) (out bytes : List UInt8) : Scan (List UInt8) := fun _ x =>
  if out.length + bytes.length ≤ cap then .ok (out ++ bytes) x else .fault

/-- Copy `n` bytes from index `i` on. -/
def slice (i n : Nat) : Scan (List UInt8) := fun text x =>
  if i + n ≤ text.length then .ok ((text.drop i).take n) x else .fault

/-- `if (p < end && test(*p)) p++`, telling whether it moved. -/
def accept (test : UInt8 → Bool) : Scan Bool := do
  match ← peek with
  | some b => if test b then do advance 1; pure true else pure false
  | none => pure false

/-- `while (p < end && test(*p)) p++`, with fuel for the bytes left. -/
def skipLoop (test : UInt8 → Bool) : Nat → Scan Unit
  | 0 => pure ()
  | fuel + 1 => do
    match ← peek with
    | some b => if test b then do advance 1; skipLoop test fuel else pure ()
    | none => pure ()

def skipWhile (test : UInt8 → Bool) : Scan Unit := fun text x =>
  skipLoop test (text.length - x.pos) text x

/-! ### Running a scanner -/

@[simp] theorem run_pure (a : α) (text : List UInt8) (x : Cursor) :
    (pure a : Scan α) text x = .ok a x := rfl

theorem run_bind (m : Scan α) (k : α → Scan β) (text : List UInt8) (x : Cursor) :
    (m >>= k) text x = Scan.bind m k text x := rfl

theorem bind_ok {m : Scan α} {k : α → Scan β} {text : List UInt8} {x y : Cursor} {a : α}
    (h : m text x = .ok a y) : (m >>= k) text x = k a text y := by
  simp only [run_bind, Scan.bind, h]

theorem Scan.bind_assoc {γ : Type} (m : Scan α) (k : α → Scan β) (l : β → Scan γ) :
    (m >>= k) >>= l = m >>= fun a => k a >>= l := by
  funext text x
  simp only [run_bind, Scan.bind]
  cases m text x <;> rfl

@[simp] theorem run_cursor (text : List UInt8) (x : Cursor) : cursor text x = .ok x.pos x := rfl

@[simp] theorem run_limit (text : List UInt8) (x : Cursor) :
    limit text x = .ok text.length x := rfl

@[simp] theorem run_getDepth (text : List UInt8) (x : Cursor) :
    getDepth text x = .ok x.depth x := rfl

@[simp] theorem run_setDepth (d : Nat) (text : List UInt8) (x : Cursor) :
    setDepth d text x = .ok () { x with depth := d } := rfl

@[simp] theorem run_closeScope (text : List UInt8) (x : Cursor) :
    closeScope text x = .ok () { x with live := x.live - 1 } := rfl

@[simp] theorem run_fail (text : List UInt8) (x : Cursor) : (fail : Scan α) text x = .null := rfl

theorem run_openScope {most : Nat} {x : Cursor} (text : List UInt8) (h : x.live < most) :
    openScope most text x = .ok () { x with live := x.live + 1 } := by
  simp only [openScope, if_pos h]

theorem run_emit {cap : Nat} {out bytes : List UInt8} (text : List UInt8) (x : Cursor)
    (h : out.length + bytes.length ≤ cap) :
    emit cap out bytes text x = .ok (out ++ bytes) x := by
  simp only [emit, if_pos h]

/-- What is left to read from the cursor on. -/
def rest (text : List UInt8) (x : Cursor) : List UInt8 := text.drop x.pos

theorem rest_cons {text r : List UInt8} {x : Cursor} {b : UInt8} (h : rest text x = b :: r) :
    text[x.pos]? = some b ∧ x.pos < text.length ∧ text.drop (x.pos + 1) = r := by
  -- a byte is left, so the cursor is not at the end
  have inside : x.pos < text.length := by
    by_contra outside
    rw [rest, List.drop_eq_nil_of_le (by omega)] at h
    cases h
  rw [rest, List.drop_eq_getElem_cons inside, List.cons.injEq] at h
  exact ⟨by rw [List.getElem?_eq_getElem inside, h.1], inside, h.2⟩

theorem rest_forward {text s post : List UInt8} {x : Cursor} (h : rest text x = s ++ post) :
    rest text (x.forward s.length) = post := by
  rw [rest, Cursor.forward_pos, ← List.drop_drop, ← rest, h, List.drop_left]

theorem rest_forward_one {text r : List UInt8} {x : Cursor} {b : UInt8}
    (h : rest text x = b :: r) : rest text (x.forward 1) = r :=
  rest_forward (s := [b]) h

theorem rest_length {text : List UInt8} {x : Cursor} :
    (rest text x).length = text.length - x.pos := by simp [rest]

theorem run_deref {text : List UInt8} {i : Nat} {b : UInt8} (x : Cursor)
    (h : text[i]? = some b) : deref i text x = .ok b x := by
  simp only [deref, h]

theorem run_peek_cons {text r : List UInt8} {x : Cursor} {b : UInt8}
    (h : rest text x = b :: r) : peek text x = .ok (some b) x := by
  obtain ⟨found, inside, -⟩ := rest_cons h
  simp only [peek, if_pos inside, Functor.map, Scan.bind, deref, found]
  rfl

theorem run_peek_nil {text : List UInt8} {x : Cursor} (h : rest text x = []) :
    peek text x = .ok none x := by
  have outside : ¬x.pos < text.length := by
    have := List.drop_eq_nil_iff.mp h
    omega
  simp only [peek, if_neg outside]

theorem run_seek {text : List UInt8} {x : Cursor} {q : Nat} (forward : x.pos ≤ q)
    (inside : q ≤ text.length) : seek q text x = .ok () { x with pos := q } := by
  simp only [seek, if_pos (And.intro forward inside)]

theorem run_advance {text : List UInt8} {x : Cursor} {n : Nat}
    (inside : x.pos + n ≤ text.length) : advance n text x = .ok () (x.forward n) := by
  simp only [advance]
  exact run_seek (by omega) inside

theorem run_advance_one {text r : List UInt8} {x : Cursor} {b : UInt8}
    (h : rest text x = b :: r) : advance 1 text x = .ok () (x.forward 1) := by
  obtain ⟨-, inside, -⟩ := rest_cons h
  exact run_advance (by omega)

theorem run_slice {text s post : List UInt8} {x : Cursor} (y : Cursor)
    (inside : x.pos ≤ text.length) (h : rest text x = s ++ post) :
    slice x.pos s.length text y = .ok s y := by
  have size := congrArg List.length h
  rw [rest_length, List.length_append] at size
  rw [rest] at h
  simp only [slice, h, List.take_left]
  rw [if_pos (by omega)]

theorem run_accept_cons {text r : List UInt8} {x : Cursor} {b : UInt8} (test : UInt8 → Bool)
    (h : rest text x = b :: r) :
    accept test text x =
      if test b then .ok true (x.forward 1) else .ok false x := by
  unfold accept
  rw [bind_ok (run_peek_cons h)]
  cases passes : test b with
  | false => simp [passes]
  | true =>
    simp only [passes, if_true]
    rw [bind_ok (run_advance_one h)]
    simp

theorem run_accept_nil {text : List UInt8} {x : Cursor} (test : UInt8 → Bool)
    (h : rest text x = []) : accept test text x = .ok false x := by
  unfold accept
  rw [bind_ok (run_peek_nil h)]
  simp

theorem run_accept_stop {text : List UInt8} {x : Cursor} {test : UInt8 → Bool}
    (stop : ∀ b ∈ (rest text x).head?, test b = false) : accept test text x = .ok false x := by
  cases left : rest text x with
  | nil => exact run_accept_nil test left
  | cons b r =>
    rw [run_accept_cons test left, stop b (by simp [left]), if_neg Bool.false_ne_true]

theorem run_accept_one {text r : List UInt8} {x : Cursor} {test : UInt8 → Bool} {b : UInt8}
    (passes : test b = true) (left : rest text x = b :: r) :
    accept test text x = .ok true (x.forward 1) := by
  rw [run_accept_cons test left, passes, if_pos rfl]

/-- The loop stops right after the longest run of bytes that pass the test. -/
theorem run_skipLoop (test : UInt8 → Bool) (text : List UInt8) (fuel : Nat) (x : Cursor)
    (enough : text.length - x.pos ≤ fuel) :
    skipLoop test fuel text x = .ok () (x.forward ((rest text x).takeWhile test).length) := by
  induction fuel generalizing x with
  | zero =>
    -- the fuel is at least the number of bytes left
    have done : rest text x = [] := List.drop_eq_nil_of_le (by omega)
    simp [skipLoop, done]
  | succ fuel ih =>
    unfold skipLoop
    cases left : rest text x with
    | nil =>
      rw [bind_ok (run_peek_nil left)]
      simp
    | cons b r =>
      rw [bind_ok (run_peek_cons left)]
      cases passes : test b with
      | false => simp [passes]
      | true =>
        simp only [passes, if_true]
        rw [bind_ok (run_advance_one left), ih _ (by simp only [Cursor.forward_pos]; omega),
          rest_forward_one left]
        simp [passes, Nat.add_comm]

theorem run_skipWhile (test : UInt8 → Bool) (text : List UInt8) (x : Cursor) :
    skipWhile test text x = .ok () (x.forward ((rest text x).takeWhile test).length) :=
  run_skipLoop test text _ x (Nat.le_refl _)

/-- A byte that stops a run of bytes passing a test. -/
theorem takeWhile_append_stop {test : UInt8 → Bool} {s post : List UInt8}
    (all : ∀ b ∈ s, test b = true) (stop : ∀ b ∈ post.head?, test b = false) :
    (s ++ post).takeWhile test = s := by
  rw [List.takeWhile_append_of_pos all]
  cases post with
  | nil => simp
  | cons b post => simp [stop b (by simp)]

theorem dropWhile_append_stop {test : UInt8 → Bool} {s post : List UInt8}
    (all : ∀ b ∈ s, test b = true) (stop : ∀ b ∈ post.head?, test b = false) :
    (s ++ post).dropWhile test = post := by
  rw [List.dropWhile_append_of_pos all]
  cases post with
  | nil => simp
  | cons b post => simp [stop b (by simp)]

/-! ### What a run consumed -/

/-- Between `x` and `y` exactly the bytes `s` were consumed, and every scope opened
was closed again. -/
structure Reads (text : List UInt8) (x : Cursor) (s : List UInt8) (y : Cursor) : Prop where
  bytes : rest text x = s ++ rest text y
  moved : y = x.forward s.length

theorem Reads.refl (text : List UInt8) (x : Cursor) : Reads text x [] x := ⟨rfl, rfl⟩

theorem Reads.trans {text s r : List UInt8} {x y z : Cursor} (h : Reads text x s y)
    (h' : Reads text y r z) : Reads text x (s ++ r) z := by
  refine ⟨by rw [h.bytes, h'.bytes, List.append_assoc], ?_⟩
  rw [h'.moved, h.moved, Cursor.forward_forward, List.length_append]

theorem Reads.of_rest {text s r : List UInt8} {x : Cursor} (h : rest text x = s ++ r) :
    Reads text x s (x.forward s.length) := ⟨by rw [rest_forward h, h], rfl⟩

theorem Reads.one {text r : List UInt8} {x : Cursor} {b : UInt8} (h : rest text x = b :: r) :
    Reads text x [b] (x.forward 1) := .of_rest (s := [b]) h

theorem Reads.pos {text s : List UInt8} {x y : Cursor} (h : Reads text x s y) :
    y.pos = x.pos + s.length := by rw [h.moved]; rfl

theorem Reads.depth {text s : List UInt8} {x y : Cursor} (h : Reads text x s y) :
    y.depth = x.depth := by rw [h.moved]; rfl

theorem Reads.live {text s : List UInt8} {x y : Cursor} (h : Reads text x s y) :
    y.live = x.live := by rw [h.moved]; rfl

theorem Reads.inside {text s : List UInt8} {x y : Cursor} (h : Reads text x s y)
    (start : x.pos ≤ text.length) : y.pos ≤ text.length := by
  have size := congrArg List.length h.bytes
  rw [List.length_append, rest_length, rest_length] at size
  have := h.pos
  omega

/-! ### Safety with a postcondition -/

/-- From `x` the scanner neither faults nor exhausts its fuel, and a value it
returns satisfies `post` together with the cursor it leaves. -/
def Safe (text : List UInt8) (x : Cursor) (m : Scan α) (post : α → Cursor → Prop) : Prop :=
  match m text x with
  | .ok a y => post a y
  | .null => True
  | .fault => False
  | .timeout => False

theorem Safe.of_ok {text : List UInt8} {x y : Cursor} {m : Scan α} {a : α}
    {post : α → Cursor → Prop} (h : m text x = .ok a y) (holds : post a y) :
    Safe text x m post := by
  simp only [Safe, h, holds]

theorem Safe.elim {text : List UInt8} {x y : Cursor} {m : Scan α} {a : α}
    {post : α → Cursor → Prop} (safe : Safe text x m post) (h : m text x = .ok a y) :
    post a y := by
  simpa only [Safe, h] using safe

theorem Safe.fail {text : List UInt8} {x : Cursor} {post : α → Cursor → Prop} :
    Safe text x Scanner.fail post := trivial

theorem Safe.pure {text : List UInt8} {x : Cursor} {a : α} {post : α → Cursor → Prop}
    (holds : post a x) : Safe text x (Pure.pure a) post := holds

theorem Safe.mono {text : List UInt8} {x : Cursor} {m : Scan α} {post weaker : α → Cursor → Prop}
    (safe : Safe text x m post) (imp : ∀ a y, post a y → weaker a y) :
    Safe text x m weaker := by
  unfold Safe at safe ⊢
  split at safe <;> simp_all

theorem Safe.bind {text : List UInt8} {x : Cursor} {m : Scan α} {k : α → Scan β}
    {mid : α → Cursor → Prop} {post : β → Cursor → Prop} (first : Safe text x m mid)
    (next : ∀ a y, mid a y → Safe text y (k a) post) : Safe text x (m >>= k) post := by
  unfold Safe at first
  cases h : m text x with
  | ok a y =>
    simp only [h] at first
    simp only [Safe, bind_ok h]
    exact next a y first
  | null => simp [Safe, run_bind, Scan.bind, h]
  | fault => simp [h] at first
  | timeout => simp [h] at first

/-- A step whose result is known is run away. -/
theorem Safe.bind_ok {text : List UInt8} {x y : Cursor} {m : Scan α} {k : α → Scan β} {a : α}
    {post : β → Cursor → Prop} (h : m text x = .ok a y) (next : Safe text y (k a) post) :
    Safe text x (m >>= k) post := by
  simpa only [Safe, Scanner.bind_ok h] using next

theorem Safe.peek {text : List UInt8} {x : Cursor} {k : Option UInt8 → Scan β}
    {post : β → Cursor → Prop} (nil : rest text x = [] → Safe text x (k none) post)
    (cons : ∀ b r, rest text x = b :: r → Safe text x (k (some b)) post) :
    Safe text x (peek >>= k) post := by
  cases left : rest text x with
  | nil => exact .bind_ok (run_peek_nil left) (nil left)
  | cons b r => exact .bind_ok (run_peek_cons left) (cons b r left)

theorem Safe.accept {text : List UInt8} {x : Cursor} {test : UInt8 → Bool} {k : Bool → Scan β}
    {post : β → Cursor → Prop}
    (moved : ∀ b r, rest text x = b :: r → test b = true →
      Safe text (x.forward 1) (k true) post)
    (stayed : (∀ b r, rest text x = b :: r → test b = false) → Safe text x (k false) post) :
    Safe text x (accept test >>= k) post := by
  cases left : rest text x with
  | nil => exact .bind_ok (run_accept_nil test left) (stayed (by simp [left]))
  | cons b r =>
    -- a byte is there: the test decides
    have run := run_accept_cons test left
    cases passes : test b with
    | true =>
      rw [passes, if_pos rfl] at run
      exact .bind_ok run (moved b r left passes)
    | false =>
      rw [passes, if_neg Bool.false_ne_true] at run
      refine .bind_ok run (stayed fun c q same => ?_)
      rw [left, List.cons.injEq] at same
      rw [← same.1, passes]

/-- A run over bytes that pass a test consumes such a run. -/
theorem skipWhile_safe (text : List UInt8) (x : Cursor) (test : UInt8 → Bool) :
    Safe text x (skipWhile test) fun _ y =>
      ∃ s, Reads text x s y ∧ ∀ b ∈ s, test b = true := by
  have split : rest text x = (rest text x).takeWhile test ++ (rest text x).dropWhile test :=
    List.takeWhile_append_dropWhile.symm
  exact .of_ok (run_skipWhile test text x)
    ⟨_, .of_rest split, fun b hb => List.mem_takeWhile_imp hb⟩

theorem Safe.returns_or_null {text : List UInt8} {x : Cursor} {m : Scan α}
    {post : α → Cursor → Prop} (safe : Safe text x m post) :
    m text x = .null ∨ ∃ a y, m text x = .ok a y ∧ post a y := by
  unfold Safe at safe
  cases h : m text x with
  | ok a y => exact Or.inr ⟨a, y, rfl, by simpa only [h] using safe⟩
  | null => exact Or.inl rfl
  | fault => simp only [h] at safe
  | timeout => simp only [h] at safe

/-! ### More fuel -/

/-- Where the first scanner does not exhaust its fuel the second agrees with it. -/
def Settles (m m' : Scan α) : Prop :=
  ∀ text x, m text x ≠ .timeout → m' text x = m text x

theorem Settles.refl (m : Scan α) : Settles m m := fun _ _ _ => rfl

theorem Settles.timeout (m : Scan α) : Settles Scanner.timeout m :=
  fun _ _ returned => absurd rfl returned

theorem Settles.bind {m m' : Scan α} {k k' : α → Scan β} (first : Settles m m')
    (next : ∀ a, Settles (k a) (k' a)) : Settles (m >>= k) (m' >>= k') := by
  intro text x returned
  simp only [run_bind, Scan.bind] at returned ⊢
  -- the first part either returned, or ended for another reason than fuel
  have same := first text x
  cases h : m text x with
  | ok a y =>
    rw [h] at same returned
    rw [same (by simp)]
    exact next a text y returned
  | null => rw [same (by simp [h]), h]
  | fault => rw [same (by simp [h]), h]
  | timeout => simp [h] at returned

theorem Settles.ite {p : Prop} [Decidable p] {m m' k k' : Scan α} (pos : Settles m m')
    (neg : Settles k k') : Settles (if p then m else k) (if p then m' else k') := by
  split
  · exact pos
  · exact neg

/-- A scanner with a fuel argument that settles step by step settles for good. -/
theorem settles_of_le {m : Nat → Scan α} (step : ∀ fuel, Settles (m fuel) (m (fuel + 1)))
    {fuel more : Nat} (le : fuel ≤ more) : Settles (m fuel) (m more) := by
  induction le with
  | refl => exact .refl _
  | step _ ih =>
    intro text x returned
    have same := ih text x returned
    rw [step _ text x (by rwa [same]), same]

end Scanner
