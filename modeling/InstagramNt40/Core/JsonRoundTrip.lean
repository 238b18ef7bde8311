import InstagramNt40.Core.JsonComplete

/-!
# Decoding undoes encoding

Each way of spelling a string decodes to the UTF-8 encoding of its characters, so
each serialisation of a tree parses back to the tree.
-/
namespace InstagramNt40.Json

open Scanner Rfc8259 Ascii

/-! ### UTF-8 -/

/-- A byte built by or-ing a value below the low bits of its marker. -/
theorem or_byte {i a : Nat} {m v : UInt32} (marker : m.toNat = 2 ^ i * a) (low : v.toNat < 2 ^ i) :
    (m ||| v).toUInt8 = UInt8.ofNat (v.toNat + 2 ^ i * a) := by
  rw [← UInt8.toNat_inj, UInt32.toNat_toUInt8, UInt32.toNat_or, marker,
    ← Nat.two_pow_add_eq_or_of_lt low, UInt8.toNat_ofNat', Nat.add_comm]

theorem shiftRight_toNat (v : UInt32) {n : UInt32} {k : Nat} (amount : n.toNat = k)
    (small : k < 32) : (v >>> n).toNat = v.toNat / 2 ^ k := by
  rw [UInt32.toNat_shiftRight, amount, Nat.mod_eq_of_lt small, Nat.shiftRight_eq_div_pow]

theorem continuation_eq (v : UInt32) : continuation v = UInt8.ofNat (v.toNat % 0x40 + 0x80) := by
  have low : (v &&& 0x3F).toNat = v.toNat % 2 ^ 6 := by
    rw [UInt32.toNat_and]
    exact Nat.and_two_pow_sub_one_eq_mod v.toNat 6
  unfold continuation
  rw [or_byte (i := 6) (a := 2) rfl (by rw [low]; exact Nat.mod_lt _ (by decide)), low]
  rfl

theorem char_bounds (c : Char) :
    c.toNat < 0x110000 ∧ ¬(0xD800 ≤ c.toNat ∧ c.toNat ≤ 0xDFFF) := by
  have valid := c.valid
  simp only [UInt32.isValidChar, Nat.isValidChar] at valid
  unfold Char.toNat
  omega

theorem putUtf8_char {cp : UInt32} {c : Char} (same : cp.toNat = c.toNat) :
    putUtf8 cp = String.utf8EncodeChar c := by
  obtain rfl : cp = c.val := UInt32.toNat_inj.mp same
  have top : c.val.toNat < 0x110000 := (char_bounds c).1
  -- the three shifts in natural numbers
  have shift6 := shiftRight_toNat c.val (n := 6) (k := 6) rfl (by decide)
  have shift12 := shiftRight_toNat c.val (n := 12) (k := 12) rfl (by decide)
  have shift18 := shiftRight_toNat c.val (n := 18) (k := 18) rfl (by decide)
  have next6 := continuation_eq (c.val >>> 6)
  have next12 := continuation_eq (c.val >>> 12)
  rw [shift6] at next6
  rw [shift12] at next12
  unfold putUtf8 String.utf8EncodeChar
  simp only [UInt32.lt_iff_toNat_lt, UInt32.reduceToNat]
  by_cases one : c.val.toNat < 0x80
  · rw [if_pos one, if_pos (show c.val.toNat ≤ 0x7F by omega)]
    rfl
  rw [if_neg one, if_neg (show ¬c.val.toNat ≤ 0x7F by omega)]
  by_cases two : c.val.toNat < 0x800
  · have lead := or_byte (i := 5) (a := 6) (m := 0xC0) (v := c.val >>> 6) rfl (by omega)
    rw [if_pos two, if_pos (show c.val.toNat ≤ 0x7FF by omega), lead, continuation_eq, shift6,
      Nat.mod_eq_of_lt (b := 0x20) (by omega)]
    rfl
  rw [if_neg two, if_neg (show ¬c.val.toNat ≤ 0x7FF by omega)]
  by_cases three : c.val.toNat < 0x10000
  · have lead := or_byte (i := 4) (a := 14) (m := 0xE0) (v := c.val >>> 12) rfl (by omega)
    rw [if_pos three, if_pos (show c.val.toNat ≤ 0xFFFF by omega), lead, next6, continuation_eq,
      shift12, Nat.mod_eq_of_lt (b := 0x10) (by omega)]
    rfl
  rw [if_neg three, if_neg (show ¬c.val.toNat ≤ 0xFFFF by omega)]
  have lead := or_byte (i := 3) (a := 30) (m := 0xF0) (v := c.val >>> 18) rfl (by omega)
  rw [lead, next12, next6, continuation_eq, shift18, Nat.mod_eq_of_lt (b := 8) (by omega)]
  rfl

/-! ### Hex digits and surrogate pairs -/

theorem hexDigit_val {h : UInt8} {n : Nat} (value : hexVal h = some n) :
    n < 16 ∧ ∃ d, hexDigit h = some d ∧ d.toNat = n := by
  -- no borrow: the digit lies above the start of its range
  have offset {low : UInt8} (above : low ≤ h) : (h - low).toNat = h.toNat - low.toNat :=
    UInt8.toNat_sub_of_le _ _ above
  unfold hexVal at value
  unfold hexDigit
  split_ifs at value ⊢ with digit lower upper <;>
    simp only [Option.some.injEq] at value <;> subst value
  · have high : h.toNat ≤ 0x39 := UInt8.le_iff_toNat_le.mp digit.2
    refine ⟨by omega, _, rfl, ?_⟩
    rw [UInt8.toNat_toUInt32, offset digit.1]
    rfl
  · have high : h.toNat ≤ 0x66 := UInt8.le_iff_toNat_le.mp lower.2
    refine ⟨by omega, _, rfl, ?_⟩
    rw [UInt8.toNat_toUInt32, UInt8.toNat_add, offset lower.1]
    simp only [UInt8.reduceToNat]
    omega
  · have high : h.toNat ≤ 0x46 := UInt8.le_iff_toNat_le.mp upper.2
    refine ⟨by omega, _, rfl, ?_⟩
    rw [UInt8.toNat_toUInt32, UInt8.toNat_add, offset upper.1]
    simp only [UInt8.reduceToNat]
    omega

/-- One more digit. -/
theorem shift_or_digit {cp d : UInt32} (room : cp.toNat < 2 ^ 28) (digit : d.toNat < 16) :
    ((cp <<< 4) ||| d).toNat = cp.toNat * 16 + d.toNat := by
  have shifted : (cp <<< 4).toNat = 2 ^ 4 * cp.toNat := by
    rw [UInt32.toNat_shiftLeft]
    simp only [UInt32.reduceToNat, Nat.reduceMod, Nat.shiftLeft_eq]
    omega
  rw [UInt32.toNat_or, shifted, ← Nat.two_pow_add_eq_or_of_lt (by omega)]
  omega

theorem hexQuad_of_hex4 {s : List UInt8} {n : Nat} (h : Hex4 s n) :
    ∃ cp, HexQuad s cp ∧ cp.toNat = n := by
  obtain ⟨a, b, c, d, x, y, z, w, rfl, ha, hb, hc, hd, rfl⟩ := h
  obtain ⟨xs, da, ea, va⟩ := hexDigit_val ha
  obtain ⟨ys, db, eb, vb⟩ := hexDigit_val hb
  obtain ⟨zs, dc, ec, vc⟩ := hexDigit_val hc
  obtain ⟨ws, dd, ed, vd⟩ := hexDigit_val hd
  have zero : (0 : UInt32).toNat = 0 := rfl
  have room : (0 : UInt32).toNat < 2 ^ 28 := by decide
  -- four digits fill sixteen bits, so nothing is shifted out
  have one := shift_or_digit (d := da) room (by omega)
  have two := shift_or_digit (d := db) (by rw [one]; omega) (by omega)
  have three := shift_or_digit (d := dc) (by rw [two]; omega) (by omega)
  have four := shift_or_digit (d := dd) (by rw [three]; omega) (by omega)
  refine ⟨_, ⟨rfl, by simp only [hexFold, ea, eb, ec, ed]; rfl⟩, ?_⟩
  rw [four, three, two, one, zero]
  omega

theorem isHighSurrogate_iff {cp : UInt32} :
    isHighSurrogate cp = true ↔ 0xD800 ≤ cp.toNat ∧ cp.toNat ≤ 0xDBFF := by
  simp [isHighSurrogate, UInt32.le_iff_toNat_le]

theorem combineSurrogates_toNat {hi lo : UInt32} {n : Nat} (astral : 0x10000 ≤ n)
    (top : n < 0x110000) (high : hi.toNat = 0xD800 + (n - 0x10000) / 0x400)
    (low : lo.toNat = 0xDC00 + (n - 0x10000) % 0x400) :
    (combineSurrogates hi lo).toNat = n := by
  -- for a real pair neither subtraction wraps around
  have highPart : (hi - 0xD800).toNat = (n - 0x10000) / 0x400 := by
    rw [UInt32.toNat_sub_of_le _ _ (UInt32.le_iff_toNat_le.mpr (by simp [high]))]
    simp [high]
  have lowPart : (lo - 0xDC00).toNat = (n - 0x10000) % 0x400 := by
    rw [UInt32.toNat_sub_of_le _ _ (UInt32.le_iff_toNat_le.mpr (by simp [low]))]
    simp [low]
  have shifted : ((hi - 0xD800) <<< (10 : UInt32)).toNat = (n - 0x10000) / 0x400 * 0x400 := by
    rw [UInt32.toNat_shiftLeft, highPart]
    simp only [UInt32.reduceToNat, Nat.reduceMod, Nat.shiftLeft_eq]
    omega
  unfold combineSurrogates
  rw [UInt32.toNat_add, UInt32.toNat_add, shifted, lowPart]
  simp only [UInt32.reduceToNat]
  omega

/-! ### Spellings -/

theorem Decoded.bytes_append {s r out : List UInt8} (plain : ∀ b ∈ s, b ≠ 0x22 ∧ b ≠ 0x5C)
    (h : Decoded r out) : Decoded (s ++ r) (s ++ out) := by
  induction s with
  | nil => exact h
  | cons b s ih =>
    have hb := plain b (by simp)
    exact .byte hb.1 hb.2 (ih fun c hc => plain c (by simp [hc]))

theorem shortEscape_char {e : UInt8} {c : Char} (member : (e, c.toNat) ∈ shortEscapes) :
    ∃ b, shortEscape e = some b ∧ String.utf8EncodeChar c = [b] := by
  -- all of them are ASCII
  have encode {n : Nat} (eq : c.toNat = n) (small : n < 0x80) :
      String.utf8EncodeChar c = [UInt8.ofNat n] := by
    have value : c.val.toNat = n := eq
    unfold String.utf8EncodeChar
    simp only [value]
    rw [if_pos (by omega)]
  simp only [shortEscapes, List.mem_cons, Prod.mk.injEq, List.not_mem_nil, or_false] at member
  rcases member with ⟨rfl, h⟩ | ⟨rfl, h⟩ | ⟨rfl, h⟩ | ⟨rfl, h⟩ | ⟨rfl, h⟩ | ⟨rfl, h⟩ |
    ⟨rfl, h⟩ | ⟨rfl, h⟩ <;> exact ⟨_, rfl, encode h (by decide)⟩

/-- Every spelling of a string decodes to its UTF-8 encoding. -/
theorem spells_decoded {s : List UInt8} {cs : List Char} (h : Spells s cs) :
    Decoded s (utf8 cs) := by
  induction h with
  | nil => exact .nil
  | raw hc _ ih => exact .bytes_append hc.bytes ih
  | @short e c r cs member _ ih =>
    obtain ⟨b, escape, bytes⟩ := shortEscape_char member
    have decoded := Decoded.escape (.short escape) ih
    rwa [← bytes] at decoded
  | @unicode ds c r cs hex _ ih =>
    obtain ⟨cp, quad, value⟩ := hexQuad_of_hex4 hex
    -- a character is no surrogate, so no second escape is looked for
    have scalar := (char_bounds c).2
    have low : isHighSurrogate cp = false := by
      rw [Bool.eq_false_iff, Ne, isHighSurrogate_iff, value]
      omega
    have decoded := Decoded.escape (.unicode quad low) ih
    rwa [putUtf8_char value] at decoded
  | @pair hi lo c r cs astral hexHi hexLo _ ih =>
    obtain ⟨cp, quad, value⟩ := hexQuad_of_hex4 hexHi
    obtain ⟨cp', quad', value'⟩ := hexQuad_of_hex4 hexLo
    have top := (char_bounds c).1
    -- the quotient has ten bits
    have high : isHighSurrogate cp = true := by
      rw [isHighSurrogate_iff, value]
      omega
    have decoded := Decoded.escape (.pair quad high quad') ih
    rw [putUtf8_char (combineSurrogates_toNat astral top value value')] at decoded
    simpa [utf8] using decoded

/-- Every serialisation of a tree, of nesting at most 128, parses to the tree: its
numbers as spelled and its strings in UTF-8. -/
theorem jsonParse_serialisation {text : List UInt8} {t : JsonTree (List Char)}
    (serialises : Derives Tokens.serial text (.padded t)) (nesting : t.nesting ≤ jsonMaxDepth) :
    jsonParse text = .ok (dom (t.map utf8)) ⟨text.length, 0, 0⟩ := by
  have decoded : Derives decodedTokens text (.padded (t.map utf8)) :=
    serialises.map utf8 (fun _ => Number.relaxed) fun _ _ => spells_decoded
  exact jsonParse_of_derives decoded (by rwa [JsonTree.nesting_map])

/-- `["\u0041"]`, an escape inside an array. -/
theorem jsonParse_serialisation_escape :
    jsonParse [0x5B, 0x22, 0x5C, 0x75, 0x30, 0x30, 0x34, 0x31, 0x22, 0x5D] =
      .ok (.arr [.str [0x41] 1]) ⟨10, 0, 0⟩ := by
  have blank : Ws [] := by simp [Ws]
  have letter : Spells [0x5C, 0x75, 0x30, 0x30, 0x34, 0x31] ['A'] :=
    .unicode (⟨_, _, _, _, 0, 0, 4, 1, rfl, rfl, rfl, rfl, rfl, rfl⟩ :
      Hex4 [0x30, 0x30, 0x34, 0x31] 'A'.toNat) .nil
  have string := Derives.string (T := Tokens.serial) letter
  have array := Derives.array (.lastElement (.padded blank string blank))
  have text := Derives.padded blank array blank
  exact jsonParse_serialisation text (by decide)

end InstagramNt40.Json
