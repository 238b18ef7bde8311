import InstagramNt40.Library.Ascii
import Mathlib.Algebra.BigOperators.Group.List.Basic

/-!
# String literals of C

How a C11 compiler reads the text of a narrow string literal: trigraphs first, then the
escape sequences. As with GCC, a byte without an escape of its own stands for itself, and an
octal or hexadecimal value is cut to a byte.
-/
namespace CLiteral

open Ascii

/-! ### Trigraphs -/

/-- What two question marks and a byte stand for. -/
def trigraphByte (c : UInt8) : Option UInt8 :=
  if c = 0x3D then some 0x23
  else if c = 0x28 then some 0x5B
  else if c = 0x2F then some 0x5C
  else if c = 0x29 then some 0x5D
  else if c = 0x27 then some 0x5E
  else if c = 0x3C then some 0x7B
  else if c = 0x21 then some 0x7C
  else if c = 0x3E then some 0x7D
  else if c = 0x2D then some 0x7E
  else none

def trigraph (a b c : UInt8) : Option UInt8 :=
  if a = 0x3F ∧ b = 0x3F then trigraphByte c else none

def trigraphs : List UInt8 → List UInt8
  | a :: b :: c :: s =>
    match trigraph a b c with
    | some d => d :: trigraphs s
    | none => a :: trigraphs (b :: c :: s)
  | s => s

def HasTrigraph : List UInt8 → Prop
  | a :: b :: c :: s => (trigraph a b c).isSome ∨ HasTrigraph (b :: c :: s)
  | _ => False

instance decidableHasTrigraph : (s : List UInt8) → Decidable (HasTrigraph s)
  | a :: b :: c :: s =>
    have : Decidable (HasTrigraph (b :: c :: s)) := decidableHasTrigraph (b :: c :: s)
    inferInstanceAs (Decidable ((trigraph a b c).isSome ∨ HasTrigraph (b :: c :: s)))
  | [] | [_] | [_, _] => isFalse id

theorem hasTrigraph_cons_iff (a : UInt8) (s : List UInt8) :
    HasTrigraph (a :: s) ↔
      (a = 0x3F ∧ ∃ c r, s = 0x3F :: c :: r ∧ (trigraphByte c).isSome) ∨ HasTrigraph s := by
  rcases s with _ | ⟨b, _ | ⟨c, s⟩⟩
  · simp [HasTrigraph]
  · simp [HasTrigraph]
  · rw [HasTrigraph]
    refine or_congr ?_ Iff.rfl
    unfold trigraph
    by_cases marks : a = 0x3F ∧ b = 0x3F
    · obtain ⟨rfl, rfl⟩ := marks
      simp
    · rw [if_neg marks]
      constructor
      · intro found
        cases found
      · rintro ⟨rfl, c', r, same, -⟩
        exact absurd ⟨rfl, (List.cons.inj same).1⟩ marks

theorem trigraphs_plain {s : List UInt8} (plain : ¬HasTrigraph s) : trigraphs s = s := by
  fun_induction trigraphs s with
  | case1 a b c s d found ih => exact absurd (Or.inl (by rw [found]; rfl)) plain
  | case2 a b c s found ih => rw [ih fun rest => plain (Or.inr rest)]
  | case3 s => rfl

/-- No trigraph begins with another byte. -/
theorem hasTrigraph_cons {a : UInt8} (other : a ≠ 0x3F) (s : List UInt8) :
    HasTrigraph (a :: s) ↔ HasTrigraph s := by
  rw [hasTrigraph_cons_iff]
  exact or_iff_right fun found => other found.1

/-! ### Escape sequences -/

/-- The escapes of one letter. -/
def simpleEscape (c : UInt8) : UInt8 :=
  if c = 0x61 then 0x07
  else if c = 0x62 then 0x08
  else if c = 0x66 then 0x0C
  else if c = 0x6E then 0x0A
  else if c = 0x72 then 0x0D
  else if c = 0x74 then 0x09
  else if c = 0x76 then 0x0B
  -- an extension of GCC
  else if c = 0x65 ∨ c = 0x45 then 0x1B
  else c

def isOctal (c : UInt8) : Bool := 0x30 ≤ c && c ≤ 0x37

def isHexDigit (c : UInt8) : Bool := (hexVal c).isSome

/-- The `n` hex digits of a universal character name, and what follows. -/
def universalName (n : Nat) (s : List UInt8) : Option (List UInt8 × List UInt8) :=
  let ds := s.take n
  let value := hexadecimal ds
  if ds.length = n ∧ ds.all isHexDigit ∧ value.isValidChar ∧
      (0xA0 ≤ value ∨ value = 0x24 ∨ value = 0x40 ∨ value = 0x60) then
    some (String.utf8EncodeChar (Char.ofNat value), s.drop n)
  else none

/-- The bytes of the escape sequence after a backslash, and what follows. -/
def escape : List UInt8 → Option (List UInt8 × List UInt8)
  | [] => none
  | c :: s =>
    if isOctal c then
      let ds := (c :: s.take 2).takeWhile isOctal
      some ([UInt8.ofNat (ds.foldl (fun n d => n * 8 + (d.toNat - 0x30)) 0)],
        (c :: s).drop ds.length)
    else if c = 0x78 then
      let ds := s.takeWhile isHexDigit
      if ds = [] then none else some ([UInt8.ofNat (hexadecimal ds)], s.drop ds.length)
    else if c = 0x75 then universalName 4 s
    else if c = 0x55 then universalName 8 s
    else some ([simpleEscape c], s)

/-! ### Literals -/

/-- Nothing but white space and comments up to the end of the line, from inside a comment on
or not. -/
def blank : Bool → List UInt8 → Bool
  | inside, [] => !inside
  | inside, [b] => !inside && (b = 0x20 || b = 0x09)
  | false, a :: b :: s =>
    if a = 0x2F ∧ b = 0x2F then true
    else if a = 0x2F ∧ b = 0x2A then blank true s
    else (a = 0x20 || a = 0x09) && blank false (b :: s)
  | true, a :: b :: s => if a = 0x2A ∧ b = 0x2F then blank false s else blank true (b :: s)

/-- The value of a literal from behind its opening quote on. Behind the closing quote there
may only be comments. -/
def literalLoop : Nat → List UInt8 → Option (List UInt8)
  | 0, _ => none
  | _ + 1, [] => none
  | fuel + 1, b :: s =>
    if b = 0x22 then if blank false s then some [] else none
    else if b = 0x5C then do
      let (bytes, rest) ← escape s
      let value ← literalLoop fuel rest
      some (bytes ++ value)
    else (literalLoop fuel s).map (b :: ·)

/-- The value of a text that is one string literal. -/
def literalValue (text : List UInt8) : Option (List UInt8) :=
  match trigraphs text with
  | 0x22 :: s => literalLoop s.length s
  | _ => none

/-! ### The length of a value -/

/-- A byte of a literal counts twice, the signs that an escape doubles only once. -/
def weightOf (b : UInt8) : Nat := if b = 0x22 ∨ b = 0x5C then 1 else 2

def weight (s : List UInt8) : Nat := (s.map weightOf).sum

theorem weight_cons (b : UInt8) (s : List UInt8) : weight (b :: s) = weightOf b + weight s :=
  List.sum_cons

theorem weight_append (s r : List UInt8) : weight (s ++ r) = weight s + weight r := by
  simp [weight]

theorem weightOf_pos (b : UInt8) : 1 ≤ weightOf b := by
  unfold weightOf
  split_ifs <;> decide

theorem weightOf_le (b : UInt8) : weightOf b ≤ 2 := by
  unfold weightOf
  split_ifs <;> decide

theorem trigraph_weight {a b c d : UInt8} (found : trigraph a b c = some d) :
    weightOf d + 4 ≤ weightOf a + weightOf b + weightOf c := by
  unfold trigraph at found
  split_ifs at found with marks
  obtain ⟨rfl, rfl⟩ := marks
  -- no trigraph ends in a quote or a backslash
  have last : weightOf c = 2 := by
    unfold trigraphByte at found
    split_ifs at found <;> subst c <;> rfl
  have light := weightOf_le d
  rw [last, show weightOf 0x3F = 2 from rfl]
  omega

/-- Trigraphs are shorter than they look. -/
theorem trigraphs_weight (s : List UInt8) :
    weight (trigraphs s) ≤ weight s ∧ (HasTrigraph s → weight (trigraphs s) + 4 ≤ weight s) := by
  fun_induction trigraphs s with
  | case1 a b c s d found ih =>
    have less := trigraph_weight found
    simp only [weight_cons]
    omega
  | case2 a b c s found ih =>
    rw [weight_cons, weight_cons a (b :: c :: s)]
    refine ⟨by omega, ?_⟩
    rintro (here | later)
    · rw [found] at here
      cases here
    · have less := ih.2 later
      omega
  | case3 s other =>
    refine ⟨le_refl _, fun trigraph => ?_⟩
    rcases s with _ | ⟨a, _ | ⟨b, _ | ⟨c, s⟩⟩⟩
    · cases trigraph
    · cases trigraph
    · cases trigraph
    · exact absurd rfl (other a b c s)

theorem weight_plain {s : List UInt8} (plain : ∀ b ∈ s, b ≠ 0x22 ∧ b ≠ 0x5C) :
    weight s = 2 * s.length := by
  induction s with
  | nil => rfl
  | cons b s ih =>
    rw [List.forall_mem_cons] at plain
    have heavy : weightOf b = 2 := if_neg (not_or.mpr plain.1)
    rw [weight_cons, ih plain.2, heavy, List.length_cons]
    omega

theorem weight_take_drop (n : Nat) (s : List UInt8) :
    weight s = weight (s.take n) + weight (s.drop n) := by
  rw [← weight_append, List.take_append_drop]

/-- A character name has at least as many digits as its character has bytes. -/
theorem universalName_weight {n : Nat} {s bytes rest : List UInt8} (large : 4 ≤ n)
    (found : universalName n s = some (bytes, rest)) :
    2 * bytes.length + weight rest ≤ weight s := by
  unfold universalName at found
  dsimp only at found
  split_ifs at found with valid
  obtain ⟨length, digits, -, -⟩ := valid
  cases found
  have plain : ∀ b ∈ s.take n, b ≠ 0x22 ∧ b ≠ 0x5C := fun b member =>
    IsHex.plain (Option.isSome_iff_exists.mp (List.all_eq_true.mp digits b member))
  have heavy := weight_plain plain
  have short : (String.utf8EncodeChar (Char.ofNat (hexadecimal (s.take n)))).length ≤ 4 := by
    rw [String.length_utf8EncodeChar]
    exact Char.utf8Size_le_four _
  rw [weight_take_drop n s]
  omega

/-- An escape sequence stands for no more than it is long. -/
theorem escape_weight {s bytes rest : List UInt8} (found : escape s = some (bytes, rest)) :
    2 * bytes.length + weight rest ≤ weight s + 1 := by
  rcases s with _ | ⟨c, s⟩
  · cases found
  unfold escape at found
  dsimp only at found
  have positive := weightOf_pos c
  split_ifs at found with octal hex none short long
  · cases found
    have digits : ((c :: s.take 2).takeWhile isOctal).length =
        ((s.take 2).takeWhile isOctal).length + 1 := by
      rw [List.takeWhile_cons_of_pos octal, List.length_cons]
    have tail := weight_take_drop ((s.take 2).takeWhile isOctal).length s
    rw [digits, List.drop_succ_cons, weight_cons, List.length_singleton]
    omega
  · cases found
    have tail := weight_take_drop (s.takeWhile isHexDigit).length s
    have heavy : weightOf 0x78 = 2 := rfl
    rw [weight_cons, hex, heavy, List.length_singleton]
    omega
  · have digits := universalName_weight (by decide) found
    rw [weight_cons]
    omega
  · have digits := universalName_weight (by decide) found
    rw [weight_cons]
    omega
  · cases found
    rw [weight_cons, List.length_singleton]
    omega

theorem literalLoop_weight {fuel : Nat} {s value : List UInt8}
    (found : literalLoop fuel s = some value) : 2 * value.length + 1 ≤ weight s := by
  induction fuel generalizing s value with
  | zero => cases found
  | succ fuel ih =>
    rcases s with _ | ⟨b, s⟩
    · cases found
    unfold literalLoop at found
    rw [weight_cons]
    have positive := weightOf_pos b
    split_ifs at found with quote ends escaped
    · cases found
      rw [List.length_nil]
      omega
    -- the backslash pays for what its escape sequence gives
    · obtain ⟨⟨bytes, rest⟩, first, next⟩ := Option.bind_eq_some_iff.mp found
      obtain ⟨value', read, whole⟩ := Option.bind_eq_some_iff.mp next
      cases whole
      have here := escape_weight first
      have later := ih read
      rw [List.length_append]
      omega
    · obtain ⟨value', read, rfl⟩ := Option.map_eq_some_iff.mp found
      have heavy : weightOf b = 2 := if_neg (not_or.mpr ⟨quote, escaped⟩)
      have later := ih read
      rw [List.length_cons]
      omega

/-! ### The literal of a value -/

/-- The text of a value between quotes: a backslash before each quote and each backslash. -/
def escaped (s : List UInt8) : List UInt8 :=
  s.flatMap fun b => if b = 0x22 ∨ b = 0x5C then [0x5C, b] else [b]

theorem escaped_cons (b : UInt8) (s : List UInt8) :
    escaped (b :: s) = (if b = 0x22 ∨ b = 0x5C then [0x5C, b] else [b]) ++ escaped s :=
  List.flatMap_cons

theorem escaped_append (s r : List UInt8) : escaped (s ++ r) = escaped s ++ escaped r :=
  List.flatMap_append

theorem escaped_plain {s : List UInt8} (plain : ∀ b ∈ s, b ≠ 0x22 ∧ b ≠ 0x5C) :
    escaped s = s := by
  induction s with
  | nil => rfl
  | cons b s ih =>
    rw [List.forall_mem_cons] at plain
    rw [escaped_cons, if_neg (not_or.mpr plain.1), ih plain.2]
    rfl

theorem length_le_escaped (s : List UInt8) : s.length ≤ (escaped s).length := by
  induction s with
  | nil => exact le_refl 0
  | cons b s ih =>
    rw [escaped_cons, List.length_append, List.length_cons]
    split_ifs <;> simp only [List.length_cons, List.length_nil] <;> omega

theorem weight_escaped (s : List UInt8) : weight (escaped s) = 2 * s.length := by
  induction s with
  | nil => rfl
  | cons b s ih =>
    have two : weight (if b = 0x22 ∨ b = 0x5C then [0x5C, b] else [b]) = 2 := by
      split_ifs with special
      · rcases special with rfl | rfl <;> rfl
      · simp [weight, weightOf, special]
    rw [escaped_cons, weight_append, two, ih, List.length_cons]
    omega

/-- The backslashes neither make a trigraph nor hide one. -/
theorem hasTrigraph_escaped (s : List UInt8) : HasTrigraph (escaped s) ↔ HasTrigraph s := by
  induction s with
  | nil => exact Iff.rfl
  | cons a s ih =>
    rw [escaped_cons]
    by_cases special : a = 0x22 ∨ a = 0x5C
    · have other : a ≠ 0x3F := by rcases special with rfl | rfl <;> decide
      rw [if_pos special, List.cons_append, List.cons_append, List.nil_append,
        hasTrigraph_cons (by decide), hasTrigraph_cons other, hasTrigraph_cons other, ih]
    · rw [if_neg special, List.singleton_append, hasTrigraph_cons_iff, hasTrigraph_cons_iff, ih]
      refine or_congr (and_congr_right fun _ => ?_) Iff.rfl
      -- two marks in front stay where they are
      have mark {c : UInt8} (valid : (trigraphByte c).isSome) : ¬(c = 0x22 ∨ c = 0x5C) := by
        rintro (rfl | rfl) <;> cases valid
      constructor
      · rintro ⟨c, r, same, valid⟩
        rcases s with _ | ⟨b, _ | ⟨c', s⟩⟩
        · cases same
        · rw [escaped_cons] at same
          split_ifs at same <;> cases same
        · rw [escaped_cons] at same
          split_ifs at same with quoted
          · rcases quoted with rfl | rfl <;> cases same
          · rw [List.singleton_append, escaped_cons] at same
            split_ifs at same with quoted
            · rcases quoted with rfl | rfl <;> cases same <;> cases valid
            · cases same
              exact ⟨c, s, rfl, valid⟩
      · rintro ⟨c, r, rfl, valid⟩
        refine ⟨c, escaped r, ?_, valid⟩
        rw [escaped_cons, if_neg (by decide), escaped_cons, if_neg (mark valid)]
        rfl

theorem hasTrigraph_concat {b : UInt8} (other : trigraphByte b = none) (s : List UInt8) :
    HasTrigraph (s ++ [b]) ↔ HasTrigraph s := by
  induction s with
  | nil => exact Iff.rfl
  | cons a s ih =>
    rw [List.cons_append, hasTrigraph_cons_iff, hasTrigraph_cons_iff, ih]
    refine or_congr (and_congr_right fun _ => ?_) Iff.rfl
    rcases s with _ | ⟨a', _ | ⟨c, s⟩⟩
    · simp
    · simp only [List.cons_append, List.nil_append, List.cons.injEq, List.nil_eq]
      constructor
      · rintro ⟨c, r, ⟨rfl, rfl, rfl⟩, valid⟩
        rw [other] at valid
        cases valid
      · rintro ⟨c, r, ⟨-, impossible⟩, -⟩
        cases impossible
    · simp

theorem literalLoop_escaped {fuel : Nat} {s : List UInt8} (room : s.length < fuel) :
    literalLoop fuel (escaped s ++ [0x22]) = some s := by
  induction s generalizing fuel with
  | nil =>
    obtain ⟨fuel, rfl⟩ := Nat.exists_eq_add_of_lt room
    rfl
  | cons b s ih =>
    obtain ⟨fuel, rfl⟩ : ∃ n, fuel = n + 1 := ⟨fuel - 1, by omega⟩
    have rest := @ih fuel (by rw [List.length_cons] at room; omega)
    rw [escaped_cons]
    by_cases special : b = 0x22 ∨ b = 0x5C
    · have itself : ∀ r, escape (b :: r) = some ([b], r) := by
        rcases special with rfl | rfl <;> exact fun r => rfl
      rw [if_pos special]
      show literalLoop (fuel + 1) (0x5C :: b :: (escaped s ++ [0x22])) = some (b :: s)
      rw [literalLoop, if_neg (by decide), if_pos rfl, itself]
      show (literalLoop fuel (escaped s ++ [0x22]) >>= fun value => some ([b] ++ value)) = _
      rw [rest]
      rfl
    · obtain ⟨quote, backslash⟩ := not_or.mp special
      rw [if_neg special, List.singleton_append, List.cons_append, literalLoop, if_neg quote,
        if_neg backslash, rest]
      rfl

/-- The text of a literal is as the value says, where no trigraph is in between. -/
theorem literalValue_escaped {s : List UInt8} (plain : ¬HasTrigraph s) :
    literalValue (0x22 :: (escaped s ++ [0x22])) = some s := by
  have none : ¬HasTrigraph (0x22 :: (escaped s ++ [0x22])) := by
    rw [hasTrigraph_cons (by decide), hasTrigraph_concat (by decide), hasTrigraph_escaped]
    exact plain
  have room : s.length < (escaped s ++ [0x22]).length := by
    rw [List.length_append, List.length_singleton]
    exact Nat.lt_succ_of_le (length_le_escaped s)
  rw [literalValue, trigraphs_plain none]
  exact literalLoop_escaped room

/-- Other values of that text are no longer, and shorter where there is a trigraph. -/
theorem literalValue_length {s value : List UInt8}
    (found : literalValue (0x22 :: (escaped s ++ [0x22])) = some value) :
    value.length ≤ s.length ∧ (HasTrigraph s → value.length + 2 ≤ s.length) := by
  have text : weight (0x22 :: (escaped s ++ [0x22])) = 2 * s.length + 2 := by
    have quote : weightOf 0x22 = 1 := rfl
    rw [weight_cons, weight_append, weight_escaped, weight_cons, quote]
    exact Nat.add_comm _ _
  have bound := trigraphs_weight (0x22 :: (escaped s ++ [0x22]))
  rw [text, hasTrigraph_cons (by decide), hasTrigraph_concat (by decide),
    hasTrigraph_escaped] at bound
  unfold literalValue at found
  split at found
  · next r quoted =>
    have inner := literalLoop_weight found
    rw [quoted, weight_cons, show weightOf 0x22 = 1 from rfl] at bound
    refine ⟨by omega, fun trigraph => ?_⟩
    have less := bound.2 trigraph
    omega
  · cases found

end CLiteral
