import InstagramNt40.Library.JsonGrammar

/-!
# Number and string tokens of RFC 8259

The exact tokens, the relaxed tokens a lenient scanner lets through, and all the
ways of spelling a given string.
-/
namespace Rfc8259

open Ascii

/-! ### Numbers -/

def Fraction (digits : List UInt8 → Prop) (f : List UInt8) : Prop :=
  f = [] ∨ ∃ ds, f = 0x2E :: ds ∧ digits ds

def ExpSign (s : List UInt8) : Prop := s = [] ∨ s = [0x2B] ∨ s = [0x2D]

def Exponent (digits : List UInt8 → Prop) (e : List UInt8) : Prop :=
  e = [] ∨ ∃ m s ds, e = m :: (s ++ ds) ∧ (m = 0x65 ∨ m = 0x45) ∧ ExpSign s ∧ digits ds

/-- `[ minus ] int [ frac ] [ exp ]`, for given integer parts and digit strings. -/
def NumberOf (int digits : List UInt8 → Prop) (s : List UInt8) : Prop :=
  ∃ sign i f e, s = sign ++ (i ++ (f ++ e)) ∧ (sign = [] ∨ sign = [0x2D]) ∧ int i ∧
    Fraction digits f ∧ Exponent digits e

/-- `int = zero / ( digit1-9 *DIGIT )` -/
def IntPart (i : List UInt8) : Prop :=
  i = [0x30] ∨ ∃ d ds, i = d :: ds ∧ 0x31 ≤ d ∧ d ≤ 0x39 ∧ Digits ds

/-- `1*DIGIT` -/
def Digits1 (ds : List UInt8) : Prop := ds ≠ [] ∧ Digits ds

def Number (s : List UInt8) : Prop := NumberOf IntPart Digits1 s

/-- Any digit string may be empty and leading zeros are allowed, but the token
starts with a minus sign or a digit and is not a minus sign alone. -/
def RelaxedNumber (s : List UInt8) : Prop :=
  NumberOf Digits Digits s ∧ s ≠ [0x2D] ∧ ∃ b ∈ s.head?, b = 0x2D ∨ IsDigit b

theorem Fraction.mono {p q : List UInt8 → Prop} (imp : ∀ ds, p ds → q ds) {f : List UInt8}
    (h : Fraction p f) : Fraction q f :=
  h.imp_right fun ⟨ds, eq, hd⟩ => ⟨ds, eq, imp ds hd⟩

theorem Exponent.mono {p q : List UInt8 → Prop} (imp : ∀ ds, p ds → q ds) {e : List UInt8}
    (h : Exponent p e) : Exponent q e :=
  h.imp_right fun ⟨m, s, ds, eq, mark, sign, hd⟩ => ⟨m, s, ds, eq, mark, sign, imp ds hd⟩

theorem IntPart.digits {i : List UInt8} (h : IntPart i) :
    Digits i ∧ ∃ d r, i = d :: r ∧ IsDigit d := by
  rcases h with rfl | ⟨d, ds, rfl, low, high, hds⟩
  · exact ⟨by simp [Digits, IsDigit], 0x30, [], rfl, by decide⟩
  · have digit : IsDigit d := ⟨UInt8.le_trans (by decide) low, high⟩
    refine ⟨?_, d, ds, rfl, digit⟩
    intro b hb
    rcases List.mem_cons.mp hb with rfl | hb
    · exact digit
    · exact hds b hb

theorem Number.relaxed {s : List UInt8} (h : Number s) : RelaxedNumber s := by
  obtain ⟨sign, i, f, e, rfl, hsign, hi, hf, he⟩ := h
  obtain ⟨digits, d, r, rfl, hd⟩ := hi.digits
  -- the integer part makes sure that more than a minus sign is there
  have notMinus : d ≠ 0x2D := by
    rintro rfl
    revert hd
    decide
  refine ⟨⟨sign, d :: r, f, e, rfl, hsign, digits, hf.mono fun _ h => h.2,
    he.mono fun _ h => h.2⟩, ?_, ?_⟩
  · rcases hsign with rfl | rfl <;> simp [notMinus]
  · rcases hsign with rfl | rfl
    · exact ⟨d, by simp, Or.inr hd⟩
    · exact ⟨0x2D, by simp, Or.inl rfl⟩

theorem numberByte_of_digit {b : UInt8} (h : IsDigit b) : IsNumberByte b := Or.inl h

theorem Fraction.numberBytes {f : List UInt8} (h : Fraction Digits f) :
    ∀ b ∈ f, IsNumberByte b := by
  rcases h with rfl | ⟨ds, rfl, hds⟩
  · simp
  · intro b hb
    rcases List.mem_cons.mp hb with rfl | hb
    · decide
    · exact numberByte_of_digit (hds b hb)

theorem Exponent.numberBytes {e : List UInt8} (h : Exponent Digits e) :
    ∀ b ∈ e, IsNumberByte b := by
  rcases h with rfl | ⟨m, s, ds, rfl, mark, sign, hds⟩
  · simp
  · intro b hb
    rcases List.mem_cons.mp hb with rfl | hb
    · rcases mark with rfl | rfl <;> decide
    · rcases List.mem_append.mp hb with hb | hb
      · rcases sign with rfl | rfl | rfl
        · cases hb
        · rw [List.mem_singleton.mp hb]; decide
        · rw [List.mem_singleton.mp hb]; decide
      · exact numberByte_of_digit (hds b hb)

theorem RelaxedNumber.numberBytes {s : List UInt8} (h : RelaxedNumber s) :
    ∀ b ∈ s, IsNumberByte b := by
  obtain ⟨⟨sign, i, f, e, rfl, hsign, hi, hf, he⟩, -, -⟩ := h
  intro b hb
  simp only [List.mem_append] at hb
  rcases hb with hb | hb | hb | hb
  · rcases hsign with rfl | rfl
    · cases hb
    · rw [List.mem_singleton.mp hb]; decide
  · exact numberByte_of_digit (hi b hb)
  · exact hf.numberBytes b hb
  · exact he.numberBytes b hb

/-! ### String bodies -/

def IsShortEscape (e : UInt8) : Prop :=
  e = 0x22 ∨ e = 0x5C ∨ e = 0x2F ∨ e = 0x62 ∨ e = 0x66 ∨ e = 0x6E ∨ e = 0x72 ∨ e = 0x74

/-- `unescaped = %x20-21 / %x23-5B / %x5D-10FFFF` -/
def Unescaped (c : Char) : Prop := 0x20 ≤ c.toNat ∧ c.toNat ≠ 0x22 ∧ c.toNat ≠ 0x5C

/-- The bytes between the quotes of an RFC 8259 string, in UTF-8. -/
inductive Body : List UInt8 → Prop
  | nil : Body []
  | char {c r} : Unescaped c → Body r → Body (String.utf8EncodeChar c ++ r)
  | short {e r} : IsShortEscape e → Body r → Body (0x5C :: e :: r)
  | unicode {a b c d r} : IsHex a → IsHex b → IsHex c → IsHex d → Body r →
      Body (0x5C :: 0x75 :: a :: b :: c :: d :: r)

/-- The same with any raw byte but a quote or a backslash. -/
inductive RelaxedBody : List UInt8 → Prop
  | nil : RelaxedBody []
  | byte {b r} : b ≠ 0x22 → b ≠ 0x5C → RelaxedBody r → RelaxedBody (b :: r)
  | short {e r} : IsShortEscape e → RelaxedBody r → RelaxedBody (0x5C :: e :: r)
  | unicode {a b c d r} : IsHex a → IsHex b → IsHex c → IsHex d → RelaxedBody r →
      RelaxedBody (0x5C :: 0x75 :: a :: b :: c :: d :: r)

theorem RelaxedBody.bytes_append {s r : List UInt8} (hs : ∀ b ∈ s, b ≠ 0x22 ∧ b ≠ 0x5C)
    (h : RelaxedBody r) : RelaxedBody (s ++ r) := by
  induction s with
  | nil => exact h
  | cons b s ih =>
    have hb := hs b (by simp)
    exact .byte hb.1 hb.2 (ih fun c hc => hs c (by simp [hc]))

/-- A character is its own byte or a sequence of bytes from `0x80` on. -/
theorem utf8EncodeChar_bytes (c : Char) :
    (c.toNat < 0x80 ∧ String.utf8EncodeChar c = [UInt8.ofNat c.toNat]) ∨
    ∀ b ∈ String.utf8EncodeChar c, 0x80 ≤ b.toNat := by
  -- every byte of a longer sequence has its top bit set
  have lead {n : Nat} (low : 128 ≤ n) (high : n < 256) : 0x80 ≤ (UInt8.ofNat n).toNat := by
    rw [UInt8.toNat_ofNat', Nat.mod_eq_of_lt high]
    exact low
  unfold String.utf8EncodeChar
  simp only [Char.toNat_val]
  split
  · exact Or.inl ⟨by omega, rfl⟩
  · right
    split_ifs <;> simp only [List.mem_cons, List.not_mem_nil, or_false, forall_eq_or_imp,
      forall_eq]
    · exact ⟨lead (by omega) (by omega), lead (by omega) (by omega)⟩
    · exact ⟨lead (by omega) (by omega), lead (by omega) (by omega), lead (by omega) (by omega)⟩
    · exact ⟨lead (by omega) (by omega), lead (by omega) (by omega), lead (by omega) (by omega),
        lead (by omega) (by omega)⟩

theorem Unescaped.bytes {c : Char} (h : Unescaped c) :
    ∀ b ∈ String.utf8EncodeChar c, b ≠ 0x22 ∧ b ≠ 0x5C := by
  obtain ⟨-, notQuote, notBackslash⟩ := h
  rcases utf8EncodeChar_bytes c with ⟨small, eq⟩ | high
  · intro b hb
    rw [eq, List.mem_singleton] at hb
    -- the only byte is the character itself
    have value : b.toNat = c.toNat := by
      rw [hb, UInt8.toNat_ofNat', Nat.mod_eq_of_lt (by omega)]
    constructor
    · rintro rfl
      exact notQuote value.symm
    · rintro rfl
      exact notBackslash value.symm
  · intro b hb
    have := high b hb
    constructor <;> (rintro rfl; revert this; decide)

theorem Body.relaxed {s : List UInt8} (h : Body s) : RelaxedBody s := by
  induction h with
  | nil => exact .nil
  | char hc _ ih => exact .bytes_append hc.bytes ih
  | short he _ ih => exact .short he ih
  | unicode ha hb hc hd _ ih => exact .unicode ha hb hc hd ih

/-- The closing quote is the first one the escapes leave. -/
theorem RelaxedBody.closeQuote {s : List UInt8} (h : RelaxedBody s) (post : List UInt8) :
    closeQuote (s ++ 0x22 :: post) = some s.length := by
  induction h with
  | nil => exact closeQuote_quote post
  | byte hq hb _ ih => rw [List.cons_append, closeQuote_byte hq hb, ih]; rfl
  | short _ _ ih => rw [List.cons_append, List.cons_append, closeQuote_escape, ih]; rfl
  | unicode ha hb hc hd _ ih =>
    simp only [List.cons_append]
    -- the scan steps over the `u` with the backslash, and over the digits one by one
    rw [closeQuote_escape, closeQuote_byte ha.plain.1 ha.plain.2,
      closeQuote_byte hb.plain.1 hb.plain.2, closeQuote_byte hc.plain.1 hc.plain.2,
      closeQuote_byte hd.plain.1 hd.plain.2, ih]
    rfl

theorem lexical_relaxed : Lexical RelaxedNumber RelaxedBody where
  number_bytes s h := by
    obtain ⟨b, hb, first⟩ := h.2.2
    cases s with
    | nil => simp at hb
    | cons c r =>
      simp only [List.head?_cons, Option.mem_def, Option.some.injEq] at hb
      subst hb
      exact ⟨c, r, rfl, first, fun d hd => h.numberBytes d (by simp [hd])⟩
  body_quote _ h := h.closeQuote

theorem lexical_exact : Lexical Number Body where
  number_bytes s h := lexical_relaxed.number_bytes s h.relaxed
  body_quote s h := lexical_relaxed.body_quote s h.relaxed

/-! ### Spelling a string -/

/-- The characters with a one-letter escape. -/
def shortEscapes : List (UInt8 × Nat) :=
  [(0x22, 0x22), (0x5C, 0x5C), (0x2F, 0x2F), (0x62, 0x08), (0x66, 0x0C), (0x6E, 0x0A),
    (0x72, 0x0D), (0x74, 0x09)]

/-- Four hex digits of either case spelling `n`. -/
def Hex4 (s : List UInt8) (n : Nat) : Prop :=
  ∃ a b c d x y z w, s = [a, b, c, d] ∧ hexVal a = some x ∧ hexVal b = some y ∧
    hexVal c = some z ∧ hexVal d = some w ∧ n = ((x * 16 + y) * 16 + z) * 16 + w

/-- `Spells s cs`: between quotes, `s` is a way of writing the characters `cs`: each
raw in UTF-8 where that is allowed, as a short escape, as `\uXXXX`, or as a
surrogate pair. -/
inductive Spells : List UInt8 → List Char → Prop
  | nil : Spells [] []
  | raw {c r cs} : Unescaped c → Spells r cs → Spells (String.utf8EncodeChar c ++ r) (c :: cs)
  | short {e c r cs} : (e, c.toNat) ∈ shortEscapes → Spells r cs →
      Spells (0x5C :: e :: r) (c :: cs)
  | unicode {ds c r cs} : Hex4 ds c.toNat → Spells r cs →
      Spells (0x5C :: 0x75 :: (ds ++ r)) (c :: cs)
  | pair {hi lo c r cs} : 0x10000 ≤ c.toNat →
      Hex4 hi (0xD800 + (c.toNat - 0x10000) / 0x400) →
      Hex4 lo (0xDC00 + (c.toNat - 0x10000) % 0x400) → Spells r cs →
      Spells (0x5C :: 0x75 :: (hi ++ 0x5C :: 0x75 :: (lo ++ r))) (c :: cs)

/-- The UTF-8 encoding of a string. -/
def utf8 (cs : List Char) : List UInt8 := cs.flatMap String.utf8EncodeChar

/-- The serialisations of trees whose strings are sequences of characters. -/
def Tokens.serial : Tokens (List Char) where
  number := Number
  body := Spells

end Rfc8259
