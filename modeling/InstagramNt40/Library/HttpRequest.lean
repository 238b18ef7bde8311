import InstagramNt40.Library.HttpMessage
import Mathlib.Data.Bool.AllAny
import Mathlib.Data.List.DropRight
import Mathlib.Data.Nat.Digits.Lemmas

/-!
# HTTP/1.1 requests

How a request is written, and a reader for it: a request line, header fields, a blank
line, and the bytes after it.
-/
namespace Http1

open Ascii

/-- `HTTP/1.1` -/
def version11 : List UInt8 := [0x48, 0x54, 0x54, 0x50, 0x2F, 0x31, 0x2E, 0x31]

/-- The digits of a number. -/
def decimalText (n : Nat) : List UInt8 :=
  if n = 0 then [0x30] else ((Nat.digits 10 n).map fun d => UInt8.ofNat (0x30 + d)).reverse

/-- The digits of a number, from the last one on. -/
theorem decimal_digits {ds : List Nat} (small : ∀ d ∈ ds, d < 10) :
    decimal (ds.map fun d => UInt8.ofNat (0x30 + d)).reverse = Nat.ofDigits 10 ds := by
  induction ds with
  | nil => rfl
  | cons d ds ih =>
    rw [List.forall_mem_cons] at small
    have value : (UInt8.ofNat (0x30 + d)).toNat = 0x30 + d := by
      rw [UInt8.toNat_ofNat']
      omega
    have last (s : List UInt8) (b : UInt8) :
        decimal (s ++ [b]) = decimal s * 10 + (b.toNat - 0x30) := by
      simp [decimal]
    rw [List.map_cons, List.reverse_cons, last, ih small.2, value, Nat.ofDigits_cons]
    omega

theorem decimalText_spec (n : Nat) : DecimalText (decimalText n) n := by
  unfold decimalText
  split
  · subst n
    exact ⟨by decide, List.forall_mem_singleton.mpr (by decide), by decide⟩
  · have small : ∀ d ∈ Nat.digits 10 n, d < 10 := fun d => Nat.digits_lt_base (by decide)
    refine ⟨?_, ?_, ?_⟩
    · simpa [Nat.digits_ne_nil_iff_ne_zero] using ‹n ≠ 0›
    · intro b hb
      obtain ⟨d, hd, rfl⟩ := List.mem_map.mp (List.mem_reverse.mp hb)
      have less := small d hd
      unfold IsDigit
      simp only [UInt8.le_iff_toNat_le, UInt8.toNat_ofNat', UInt8.reduceToNat]
      omega
    · rw [decimal_digits small, Nat.ofDigits_digits]

theorem decimalText_short {n k : Nat} (some : 0 < k) (small : n < 10 ^ k) :
    (decimalText n).length ≤ k := by
  unfold decimalText
  split_ifs
  · exact some
  · rw [List.length_reverse, List.length_map, Nat.digits_length_le_iff (by decide)]
    exact small

/-- A number of a 32-bit word has at most ten digits. -/
theorem decimalText_length_le {n : Nat} (small : n < 2 ^ 32) : (decimalText n).length ≤ 10 :=
  decimalText_short (by decide) (by omega)

/-! ### Requests -/

/-- A header field, with a space after the colon. -/
def headerLine (f : List UInt8 × List UInt8) : List UInt8 := f.1 ++ 0x3A :: 0x20 :: (f.2 ++ crlf)

/-- A request: the request line, the header fields, a blank line and the rest. -/
def requestText (method target : List UInt8) (fields : List (List UInt8 × List UInt8))
    (rest : List UInt8) : List UInt8 :=
  method ++ 0x20 :: (target ++ 0x20 :: (version11 ++ (crlf ++
    (fields.flatMap headerLine ++ (crlf ++ rest)))))

/-! ### A reader -/

/-- What the reader finds. `rest` are the bytes after the blank line. -/
structure Request where
  method : List UInt8
  target : List UInt8
  fields : List (List UInt8 × List UInt8)
  rest : List UInt8
  deriving DecidableEq, Repr

/-- The bytes before the first `sep`, and those after it. -/
def cutAt (sep : UInt8) : List UInt8 → Option (List UInt8 × List UInt8)
  | [] => none
  | b :: s => if b = sep then some ([], s) else (cutAt sep s).map fun cut => (b :: cut.1, cut.2)

/-- The bytes before the first CRLF, and those after it. -/
def cutLine : List UInt8 → Option (List UInt8 × List UInt8)
  | [] => none
  | b :: s =>
    if b = 0x0D ∧ s.head? = some 0x0A then some ([], s.tail)
    else (cutLine s).map fun cut => (b :: cut.1, cut.2)

/-- The method and the target of a request line. -/
def readRequestLine (line : List UInt8) : Option (List UInt8 × List UInt8) := do
  let (method, s) ← cutAt 0x20 line
  let (target, version) ← cutAt 0x20 s
  if version = version11 then some (method, target) else none

/-- The header fields up to the blank line, and the rest; `value` takes the value of a
field out of the text after the colon. -/
def readFields (value : List UInt8 → List UInt8) :
    Nat → List UInt8 → Option (List (List UInt8 × List UInt8) × List UInt8)
  | 0, _ => none
  | fuel + 1, s => do
    let (line, s) ← cutLine s
    if line = [] then some ([], s)
    else do
      let (name, text) ← cutAt 0x3A line
      let (fields, rest) ← readFields value fuel s
      some ((name, value text) :: fields, rest)

def readRequest (value : List UInt8 → List UInt8) (bytes : List UInt8) : Option Request := do
  let (line, s) ← cutLine bytes
  let (method, target) ← readRequestLine line
  let (fields, rest) ← readFields value s.length s
  some ⟨method, target, fields, rest⟩

/-- The value as it was written, behind one space. -/
def behindSpace : List UInt8 → List UInt8
  | [] => []
  | b :: s => if b = 0x20 then s else b :: s

/-- The value without the blanks around it. -/
def trimBlanks (s : List UInt8) : List UInt8 :=
  (s.dropWhile fun b => decide (IsBlank b)).rdropWhile fun b => decide (IsBlank b)

/-- The body that the fields announce: as many bytes as the content length says, none
without one. A transfer encoding is not read. -/
def Request.content (r : Request) : Option (List UInt8) :=
  if (lookup r.fields transferEncoding).isSome then none
  else
    match lookup r.fields contentLength with
    | none => some []
    | some v => if decimal v ≤ r.rest.length then some (r.rest.take (decimal v)) else none

/-! ### Reading what was written -/

theorem cutAt_append {sep : UInt8} {s t : List UInt8} (free : ∀ b ∈ s, b ≠ sep) :
    cutAt sep (s ++ sep :: t) = some (s, t) := by
  induction s with
  | nil => simp [cutAt]
  | cons b s ih =>
    rw [List.forall_mem_cons] at free
    rw [List.cons_append, cutAt, if_neg free.1, ih free.2]
    rfl

theorem cutLine_append {s t : List UInt8} (text : ∀ b ∈ s, b ≠ 0x0D) :
    cutLine (s ++ (crlf ++ t)) = some (s, t) := by
  induction s with
  | nil => rfl
  | cons b s ih =>
    rw [List.forall_mem_cons] at text
    rw [List.cons_append, cutLine, if_neg fun eol => text.1 eol.1, ih text.2]
    rfl

/-- A text ends its first line in one place. -/
theorem line_unique {s s' t t' : List UInt8} (plain : ∀ b ∈ s, b ≠ 0x0D)
    (plain' : ∀ b ∈ s', b ≠ 0x0D) (same : s ++ (crlf ++ t) = s' ++ (crlf ++ t')) : s = s' := by
  have first := cutLine_append (t := t) plain
  rw [same, cutLine_append plain'] at first
  exact (congrArg Prod.fst (Option.some.inj first)).symm

/-- The parts of a request that can be told apart by the reader. -/
structure Separable (method target : List UInt8) (fields : List (List UInt8 × List UInt8)) :
    Prop where
  method : ∀ b ∈ method, IsText b ∧ b ≠ 0x20
  target : ∀ b ∈ target, IsText b ∧ b ≠ 0x20
  fields : ∀ f ∈ fields, (∀ b ∈ f.1, IsText b ∧ b ≠ 0x3A) ∧ ∀ b ∈ f.2, IsText b

/-- It is enough to look at every byte. -/
theorem Separable.of_all {method target : List UInt8} {fields : List (List UInt8 × List UInt8)}
    (line : (method ++ target).all (fun b => decide (IsText b ∧ b ≠ 0x20)) = true)
    (each : fields.all (fun f => f.1.all (fun b => decide (IsText b ∧ b ≠ 0x3A)) &&
      f.2.all fun b => decide (IsText b)) = true) : Separable method target fields where
  method b member := of_decide_eq_true
    (List.all_eq_true.mp line b (List.mem_append_left target member))
  target b member := of_decide_eq_true
    (List.all_eq_true.mp line b (List.mem_append_right method member))
  fields f member := by
    obtain ⟨name, value⟩ := Bool.and_eq_true_iff.mp (List.all_eq_true.mp each f member)
    exact ⟨fun b inside => of_decide_eq_true (List.all_eq_true.mp name b inside),
      fun b inside => of_decide_eq_true (List.all_eq_true.mp value b inside)⟩

theorem readFields_headerLine (value : List UInt8 → List UInt8)
    (fields : List (List UInt8 × List UInt8)) (rest : List UInt8) {fuel : Nat}
    (enough : fields.length < fuel)
    (plain : ∀ f ∈ fields, (∀ b ∈ f.1, IsText b ∧ b ≠ 0x3A) ∧ ∀ b ∈ f.2, IsText b) :
    readFields value fuel (fields.flatMap headerLine ++ (crlf ++ rest)) =
      some (fields.map fun f => (f.1, value (0x20 :: f.2)), rest) := by
  induction fields generalizing fuel with
  | nil =>
    obtain ⟨fuel, rfl⟩ := Nat.exists_eq_add_one_of_ne_zero (Nat.ne_of_gt enough)
    rfl
  | cons f fields ih =>
    obtain ⟨fuel, rfl⟩ := Nat.exists_eq_add_one_of_ne_zero (Nat.ne_zero_of_lt enough)
    rw [List.forall_mem_cons] at plain
    obtain ⟨⟨name, text⟩, others⟩ := plain
    rw [List.length_cons] at enough
    have line : (f :: fields).flatMap headerLine ++ (crlf ++ rest) =
        f.1 ++ 0x3A :: 0x20 :: f.2 ++ (crlf ++ (fields.flatMap headerLine ++ (crlf ++ rest))) := by
      simp [headerLine]
    have plain : ∀ b ∈ f.1 ++ 0x3A :: 0x20 :: f.2, IsText b := by
      intro b hb
      rcases List.mem_append.mp hb with hb | hb
      · exact (name b hb).1
      · rcases List.mem_cons.mp hb with rfl | hb
        · decide
        · rcases List.mem_cons.mp hb with rfl | hb
          · decide
          · exact text b hb
    have tail := @ih fuel (by omega) others
    rw [line, readFields, cutLine_append fun b hb => (plain b hb).2.1]
    have colon := cutAt_append (t := 0x20 :: f.2) fun b hb => (name b hb).2
    have nonempty : f.1 ++ 0x3A :: 0x20 :: f.2 ≠ [] := by simp
    simp only [Option.bind_eq_bind, Option.bind_some, if_neg nonempty, colon, tail, List.map_cons]

theorem length_le_headerLines (fields : List (List UInt8 × List UInt8)) :
    fields.length ≤ (fields.flatMap headerLine).length := by
  induction fields with
  | nil => exact Nat.le_refl 0
  | cons f fields ih =>
    simp only [List.flatMap_cons, List.length_append, List.length_cons, headerLine]
    omega

theorem readRequest_requestText (value : List UInt8 → List UInt8) {method target : List UInt8}
    {fields : List (List UInt8 × List UInt8)} (rest : List UInt8)
    (plain : Separable method target fields) :
    readRequest value (requestText method target fields rest) =
      some ⟨method, target, fields.map fun f => (f.1, value (0x20 :: f.2)), rest⟩ := by
  have shape : requestText method target fields rest =
      method ++ 0x20 :: (target ++ 0x20 :: version11) ++
        (crlf ++ (fields.flatMap headerLine ++ (crlf ++ rest))) := by
    simp [requestText]
  have version : ∀ b ∈ 0x20 :: version11, IsText b := List.all_iff_forall_prop.mp (by decide)
  have text : ∀ b ∈ method ++ 0x20 :: (target ++ 0x20 :: version11), IsText b := by
    intro b hb
    rcases List.mem_append.mp hb with hb | hb
    · exact (plain.method b hb).1
    · rcases List.mem_cons.mp hb with rfl | hb
      · decide
      · rcases List.mem_append.mp hb with hb | hb
        · exact (plain.target b hb).1
        · exact version b hb
  have line : readRequestLine (method ++ 0x20 :: (target ++ 0x20 :: version11)) =
      some (method, target) := by
    have first := cutAt_append (t := target ++ 0x20 :: version11) fun b hb => (plain.method b hb).2
    have second := cutAt_append (t := version11) fun b hb => (plain.target b hb).2
    simp [readRequestLine, first, second]
  have enough : fields.length < (fields.flatMap headerLine ++ (crlf ++ rest)).length := by
    have lines := length_le_headerLines fields
    simp only [List.length_append, crlf, List.length_cons]
    omega
  have tail := readFields_headerLine value fields rest enough plain.fields
  rw [shape, readRequest, cutLine_append fun b hb => (text b hb).2.1]
  simp only [Option.bind_eq_bind, Option.bind_some, line, tail]

/-! ### Reading a part -/

theorem cutLine_more {s line r : List UInt8} (cut : cutLine s = some (line, r))
    (more : List UInt8) : cutLine (s ++ more) = some (line, r ++ more) := by
  induction s generalizing line with
  | nil => cases cut
  | cons b s ih =>
    rw [cutLine] at cut
    by_cases here : b = 0x0D ∧ s.head? = some 0x0A
    · rw [if_pos here] at cut
      cases cut
      obtain ⟨rfl, head⟩ := here
      obtain ⟨t, rfl⟩ := List.head?_eq_some_iff.mp head
      rfl
    · rw [if_neg here] at cut
      obtain ⟨⟨line', r'⟩, found, eq⟩ := Option.map_eq_some_iff.mp cut
      cases eq
      -- the line ends later on, so there is a next byte, and it stays the same
      have still : ¬(b = 0x0D ∧ (s ++ more).head? = some 0x0A) := by
        rintro ⟨rfl, head⟩
        cases s with
        | nil => cases found
        | cons c s => exact here ⟨rfl, head⟩
      rw [List.cons_append, cutLine, if_neg still, ih found]
      rfl

theorem readFields_more (value : List UInt8 → List UInt8) {fuel fuel' : Nat} (le : fuel ≤ fuel')
    {s rest : List UInt8} {fields : List (List UInt8 × List UInt8)}
    (read : readFields value fuel s = some (fields, rest)) (more : List UInt8) :
    readFields value fuel' (s ++ more) = some (fields, rest ++ more) := by
  induction fuel generalizing s fuel' fields with
  | zero => cases read
  | succ fuel ih =>
    obtain ⟨fuel', rfl⟩ := Nat.exists_eq_add_one_of_ne_zero (Nat.ne_zero_of_lt le)
    simp only [readFields, Option.bind_eq_bind, Option.bind_eq_some_iff] at read
    obtain ⟨⟨line, r⟩, cut, read⟩ := read
    simp only [readFields, cutLine_more cut more, Option.bind_eq_bind, Option.bind_some]
    by_cases blank : line = []
    · rw [if_pos blank] at read ⊢
      cases read
      rfl
    · rw [if_neg blank, Option.bind_eq_some_iff] at read
      obtain ⟨⟨name, text⟩, colon, read⟩ := read
      rw [Option.bind_eq_some_iff] at read
      obtain ⟨⟨others, rest'⟩, tail, eq⟩ := read
      cases eq
      rw [if_neg blank, colon, Option.bind_some, ih (Nat.le_of_succ_le_succ le) tail,
        Option.bind_some]

/-- What is read of a part of a request is read of the request. -/
theorem readRequest_more (value : List UInt8 → List UInt8) {s : List UInt8} {r : Request}
    (read : readRequest value s = some r) (more : List UInt8) :
    readRequest value (s ++ more) = some { r with rest := r.rest ++ more } := by
  simp only [readRequest, Option.bind_eq_bind, Option.bind_eq_some_iff] at read
  obtain ⟨⟨line, s'⟩, cut, ⟨method, target⟩, first, ⟨fields, rest⟩, tail, eq⟩ := read
  cases eq
  have enough : s'.length ≤ (s' ++ more).length := by
    rw [List.length_append]
    exact Nat.le_add_right _ _
  simp only [readRequest, Option.bind_eq_bind, cutLine_more cut more, Option.bind_some, first,
    readFields_more value enough tail more]

theorem lookup_append {headers more : List (List UInt8 × List UInt8)} {name : List UInt8}
    (other : ∀ h ∈ headers, ¬SameText h.1 name) :
    lookup (headers ++ more) name = lookup more name := by
  have none : headers.find? (fun h => decide (SameText h.1 name)) = none :=
    List.find?_eq_none.mpr fun h hh => by simpa using other h hh
  unfold lookup
  rw [List.find?_append, none, Option.none_or]

theorem trimBlanks_space (s : List UInt8) : trimBlanks (0x20 :: s) = trimBlanks s := by
  unfold trimBlanks
  rw [List.dropWhile_cons_of_pos (by decide)]

/-- A value without blanks at its ends stays. -/
theorem trimBlanks_self {s : List UInt8} (first : ∀ b ∈ s.head?, ¬IsBlank b)
    (last : ∀ b ∈ s.getLast?, ¬IsBlank b) : trimBlanks s = s := by
  unfold trimBlanks
  have start : (s.dropWhile fun b => decide (IsBlank b)) = s := by
    cases s with
    | nil => rfl
    | cons b s => exact List.dropWhile_cons_of_neg (by simpa using first b rfl)
  rw [start, List.rdropWhile_eq_self_iff]
  intro nonempty
  simpa using last _ (List.getLast?_eq_some_getLast nonempty)

theorem not_isBlank_of_digit {b : UInt8} (digit : IsDigit b) : ¬IsBlank b := by
  rintro (rfl | rfl) <;> (revert digit; decide)

end Http1
