import Mathlib.Data.List.Basic
import Mathlib.Data.List.Chain

/-!
# UTF-8

A byte sequence is well formed if it is the encoding of characters, which are no
surrogates. ASCII bytes are characters of their own, and the encodings of the surrogates
occur in no well-formed sequence.
-/
namespace Utf8

/-- The encoding of some characters. -/
def WellFormed (s : List UInt8) : Prop := ∃ cs : List Char, s = cs.flatMap String.utf8EncodeChar

theorem WellFormed.nil : WellFormed [] := ⟨[], rfl⟩

theorem WellFormed.char (c : Char) : WellFormed (String.utf8EncodeChar c) := ⟨[c], by simp⟩

theorem WellFormed.append {s t : List UInt8} (first : WellFormed s) (second : WellFormed t) :
    WellFormed (s ++ t) := by
  obtain ⟨cs, rfl⟩ := first
  obtain ⟨ds, rfl⟩ := second
  exact ⟨cs ++ ds, List.flatMap_append.symm⟩

/-! ### One character -/

theorem toNat_byte {n : Nat} (small : n < 256) : (UInt8.ofNat n).toNat = n :=
  UInt8.toNat_ofNat_of_lt' small

/-- The encoding by its length. -/
inductive Encoding (c : Char) : Prop
  | one : c.toNat < 0x80 → String.utf8EncodeChar c = [UInt8.ofNat c.toNat] → Encoding c
  | two : 0x80 ≤ c.toNat → c.toNat < 0x800 → String.utf8EncodeChar c =
      [UInt8.ofNat (c.toNat / 64 + 0xC0), UInt8.ofNat (c.toNat % 64 + 0x80)] → Encoding c
  | three : 0x800 ≤ c.toNat → c.toNat < 0x10000 → c.toNat < 0xD800 ∨ 0xDFFF < c.toNat →
      String.utf8EncodeChar c =
        [UInt8.ofNat (c.toNat / 4096 + 0xE0), UInt8.ofNat (c.toNat / 64 % 64 + 0x80),
          UInt8.ofNat (c.toNat % 64 + 0x80)] → Encoding c
  | four : 0x10000 ≤ c.toNat → c.toNat < 0x110000 → String.utf8EncodeChar c =
      [UInt8.ofNat (c.toNat / 262144 + 0xF0), UInt8.ofNat (c.toNat / 4096 % 64 + 0x80),
        UInt8.ofNat (c.toNat / 64 % 64 + 0x80), UInt8.ofNat (c.toNat % 64 + 0x80)] → Encoding c

theorem encoding (c : Char) : Encoding c := by
  have valid : c.toNat < 0xD800 ∨ 0xDFFF < c.toNat ∧ c.toNat < 0x110000 := c.valid
  have value : c.val.toNat = c.toNat := rfl
  by_cases one : c.toNat ≤ 0x7F
  · apply Encoding.one (by omega)
    rw [String.utf8EncodeChar, value, if_pos one]
  by_cases two : c.toNat ≤ 0x7FF
  · apply Encoding.two (by omega) (by omega)
    rw [String.utf8EncodeChar, value, if_neg one, if_pos two, Nat.mod_eq_of_lt (by omega)]
  by_cases three : c.toNat ≤ 0xFFFF
  · apply Encoding.three (by omega) (by omega) (by omega)
    rw [String.utf8EncodeChar, value, if_neg one, if_neg two, if_pos three,
      Nat.mod_eq_of_lt (a := c.toNat / 4096) (by omega)]
  · apply Encoding.four (by omega) (by omega)
    rw [String.utf8EncodeChar, value, if_neg one, if_neg two, if_neg three,
      Nat.mod_eq_of_lt (a := c.toNat / 262144) (by omega)]

/-- An ASCII character is its byte. -/
theorem encoding_of_ascii {c : Char} (ascii : c.toNat < 0x80) :
    String.utf8EncodeChar c = [UInt8.ofNat c.toNat] := by
  cases encoding c with
  | one _ eq => exact eq
  | two low => omega
  | three low => omega
  | four low => omega

/-- The first byte of a character is ASCII exactly if it is the only one. -/
theorem encoding_ascii (c : Char) :
    (∃ b, String.utf8EncodeChar c = [b] ∧ b < 0x80) ∨
      ∀ b ∈ String.utf8EncodeChar c, 0x80 ≤ b := by
  have high {n : Nat} (least : 0x80 ≤ n) (small : n < 256) : (0x80 : UInt8) ≤ UInt8.ofNat n := by
    rw [UInt8.le_iff_toNat_le, toNat_byte small]
    exact least
  cases encoding c with
  | one small eq =>
    left
    refine ⟨_, eq, ?_⟩
    rw [UInt8.lt_iff_toNat_lt, toNat_byte (by omega)]
    exact small
  | two low least eq =>
    right
    rw [eq]
    simp only [List.forall_mem_cons, List.not_mem_nil, false_imp_iff, implies_true, and_true]
    exact ⟨high (by omega) (by omega), high (by omega) (by omega)⟩
  | three low least valid eq =>
    right
    rw [eq]
    simp only [List.forall_mem_cons, List.not_mem_nil, false_imp_iff, implies_true, and_true]
    exact ⟨high (by omega) (by omega), high (by omega) (by omega), high (by omega) (by omega)⟩
  | four low least eq =>
    right
    rw [eq]
    simp only [List.forall_mem_cons, List.not_mem_nil, false_imp_iff, implies_true, and_true]
    exact ⟨high (by omega) (by omega), high (by omega) (by omega), high (by omega) (by omega),
      high (by omega) (by omega)⟩

/-- All bytes of any other character are high. -/
theorem encoding_of_high {c : Char} (high : 0x80 ≤ c.toNat) :
    ∀ b ∈ String.utf8EncodeChar c, 0x80 ≤ b := by
  rcases encoding_ascii c with ⟨b, single, -⟩ | wide
  · cases encoding c with
    | one low => omega
    | two _ _ eq => simp [eq] at single
    | three _ _ _ eq => simp [eq] at single
    | four _ _ eq => simp [eq] at single
  · exact wide

/-! ### Sequences -/

/-- An ASCII byte parts a well-formed sequence in two. -/
theorem WellFormed.split {s t : List UInt8} {b : UInt8} (ascii : b < 0x80)
    (wellFormed : WellFormed (s ++ b :: t)) : WellFormed s ∧ WellFormed t := by
  obtain ⟨cs, eq⟩ := wellFormed
  induction cs generalizing s with
  | nil => simp at eq
  | cons c cs ih =>
    rw [List.flatMap_cons, List.append_eq_append_iff] at eq
    rcases eq with ⟨u, char, later⟩ | ⟨u, rfl, later⟩
    · cases u with
      | nil =>
        rw [List.append_nil] at char
        rw [← char]
        have tail := (ih (s := []) later).2
        exact ⟨.char c, tail⟩
      | cons b' u =>
        -- the byte lies in the character, which is no other then
        rw [List.cons_append, List.cons.injEq] at later
        obtain ⟨rfl, rfl⟩ := later
        rcases encoding_ascii c with ⟨b', single, -⟩ | high
        · rw [single] at char
          obtain ⟨rfl, rfl⟩ : s = [] ∧ u = [] := by
            cases s with
            | nil => exact ⟨rfl, (List.cons.inj char).2.symm⟩
            | cons => simp at char
          exact ⟨.nil, cs, rfl⟩
        · have top := high b (by simp [char])
          exact absurd ascii (UInt8.not_lt.mpr top)
    · obtain ⟨first, second⟩ := ih later.symm
      exact ⟨(WellFormed.char c).append first, second⟩

/-- So do several. -/
theorem WellFormed.split_ascii {s t r : List UInt8} (bytes : t ≠ [])
    (ascii : ∀ b ∈ t, b < 0x80) (wellFormed : WellFormed (s ++ (t ++ r))) :
    WellFormed s ∧ WellFormed r := by
  induction t generalizing s with
  | nil => contradiction
  | cons b t ih =>
    rw [List.forall_mem_cons] at ascii
    obtain ⟨first, later⟩ := wellFormed.split ascii.1
    cases t with
    | nil => exact ⟨first, later⟩
    | cons b' t => exact ⟨first, (ih (s := []) (by simp) ascii.2 later).2⟩

/-- A code point that is no surrogate is a character. -/
theorem exists_char {v : UInt32}
    (scalar : v.toNat < 0xD800 ∨ 0xDFFF < v.toNat ∧ v.toNat < 0x110000) :
    ∃ c : Char, c.val = v := ⟨⟨v, scalar⟩, rfl⟩

/-- An ASCII byte is a character. -/
theorem wellFormed_ascii {b : UInt8} (ascii : b < 0x80) : WellFormed [b] := by
  rw [UInt8.lt_iff_toNat_lt] at ascii
  have small : b.toNat < 0x80 := ascii
  obtain ⟨c, eq⟩ := exists_char (v := b.toUInt32) (by rw [UInt8.toNat_toUInt32]; omega)
  have value : c.toNat = b.toNat := by rw [Char.toNat, eq, UInt8.toNat_toUInt32]
  have char := WellFormed.char c
  rw [encoding_of_ascii (by omega), value, UInt8.ofNat_toNat] at char
  exact char

/-! ### No surrogates -/

/-- After a lead byte `0xED` comes no byte from `0xA0` on, as the surrogates would have. -/
def NoSurrogate (s : List UInt8) : Prop := s.IsChain fun a b => a = 0xED → b < 0xA0

theorem byte_ne_lead {n : Nat} (small : n < 256) (other : n ≠ 0xED) : UInt8.ofNat n ≠ 0xED := by
  intro lead
  have same := congrArg UInt8.toNat lead
  rw [toNat_byte small] at same
  exact other same

/-- A character has no surrogate in it and ends with no lead byte. -/
theorem encoding_noSurrogate (c : Char) :
    NoSurrogate (String.utf8EncodeChar c) ∧
      ∀ b ∈ (String.utf8EncodeChar c).getLast?, b ≠ 0xED := by
  unfold NoSurrogate
  cases encoding c with
  | one small eq =>
    rw [eq]
    simp only [List.isChain_singleton, List.getLast?_singleton, Option.mem_some_iff, true_and,
      forall_eq']
    exact byte_ne_lead (by omega) (by omega)
  | two low least eq =>
    rw [eq]
    simp only [List.isChain_cons_cons, List.isChain_singleton, and_true]
    refine ⟨fun lead => absurd lead (byte_ne_lead (by omega) (by omega)), ?_⟩
    simp only [List.getLast?_cons_cons, List.getLast?_singleton, Option.mem_some_iff, forall_eq']
    exact byte_ne_lead (by omega) (by omega)
  | three low least valid eq =>
    rw [eq]
    simp only [List.isChain_cons_cons, List.isChain_singleton, and_true]
    refine ⟨⟨fun lead => ?_, fun lead => absurd lead (byte_ne_lead (by omega) (by omega))⟩, ?_⟩
    · -- the lead byte of the surrogates is that of the characters below them
      have same := congrArg UInt8.toNat lead
      rw [toNat_byte (by omega)] at same
      have block : c.toNat / 4096 + 0xE0 = 0xED := same
      rw [UInt8.lt_iff_toNat_lt, toNat_byte (by omega)]
      change c.toNat / 64 % 64 + 0x80 < 0xA0
      omega
    · simp only [List.getLast?_cons_cons, List.getLast?_singleton, Option.mem_some_iff, forall_eq']
      exact byte_ne_lead (by omega) (by omega)
  | four low least eq =>
    rw [eq]
    simp only [List.isChain_cons_cons, List.isChain_singleton, and_true]
    refine ⟨⟨fun lead => absurd lead (byte_ne_lead (by omega) (by omega)),
      fun lead => absurd lead (byte_ne_lead (by omega) (by omega)),
      fun lead => absurd lead (byte_ne_lead (by omega) (by omega))⟩, ?_⟩
    simp only [List.getLast?_cons_cons, List.getLast?_singleton, Option.mem_some_iff, forall_eq']
    exact byte_ne_lead (by omega) (by omega)

/-- No well-formed sequence holds the encoding of a surrogate. -/
theorem WellFormed.noSurrogate {s : List UInt8} (wellFormed : WellFormed s) : NoSurrogate s := by
  obtain ⟨cs, rfl⟩ := wellFormed
  induction cs with
  | nil => exact List.IsChain.nil
  | cons c cs ih =>
    obtain ⟨first, last⟩ := encoding_noSurrogate c
    rw [List.flatMap_cons]
    unfold NoSurrogate at first ih ⊢
    rw [List.isChain_append]
    exact ⟨first, ih, fun a end_ b _ lead => absurd lead (last a end_)⟩

theorem NoSurrogate.behind {pre post : List UInt8} {b : UInt8}
    (clean : NoSurrogate (pre ++ 0xED :: b :: post)) : b < 0xA0 := by
  unfold NoSurrogate at clean
  rw [List.isChain_append, List.isChain_cons_cons] at clean
  exact clean.2.1.1 rfl

end Utf8
