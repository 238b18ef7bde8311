import InstagramNt40.Core.HangulTable
import InstagramNt40.Library.Utf8

/-!
# Drawing Unicode text

A typewriter that knows characters and pictures: one step of the cursor for each character,
a stamp for those that have a picture. `font_draw_scaled` over the UTF-8 bytes of a text
and a generated table does the same.
-/
namespace InstagramNt40.Font

open Loop Raster

/-! ### The typewriter -/

/-- A block of the color for every cell of a picture that is set. -/
def stamp (on : Nat → Nat → Bool) (w h : Nat) (cx y scale : Int) (color : UInt32) (s : Surface) :
    Surface :=
  forLoop h (fun row s =>
    forLoop w (fun col s =>
      if on row col then
        surfaceBlendRect s ⟨cx + col * scale, y + row * scale, scale, scale⟩ color
      else s) s) s

/-- The picture of an ASCII character. -/
def latinOn (c : Char) (row col : Nat) : Bool :=
  (latinRows (UInt8.ofNat c.toNat) row).testBit (fontW - 1 - col)

structure Page where
  surface : Surface
  cx : Int
  y : Int

/-- Type a character; `x` is where lines begin. -/
def typeChar (R : Renderer) (x : Int) (color : UInt32) (scale : Int) (p : Page) (c : Char) : Page :=
  if c.toNat = 0x0A then { p with cx := x, y := p.y + fontLine * scale }
  else if 32 ≤ c.toNat ∧ c.toNat ≤ 126 then
    ⟨stamp (latinOn c) fontW fontH p.cx p.y scale color p.surface, p.cx + fontAdv * scale, p.y⟩
  else if c.toNat ∈ enumerateKsx1001 R then
    ⟨stamp (isOn R c) size size p.cx p.y scale color p.surface, p.cx + hangulAdv * scale, p.y⟩
  else { p with cx := p.cx + fontAdv * scale }

/-! ### Bytes of a character -/

theorem utf8SeqLen_bytes :
    (∀ n < 128, utf8SeqLen (UInt8.ofNat n) = 1) ∧
    (∀ n < 32, utf8SeqLen (UInt8.ofNat (n + 0xC0)) = 2) ∧
    (∀ n < 16, utf8SeqLen (UInt8.ofNat (n + 0xE0)) = 3) ∧
    (∀ n < 8, utf8SeqLen (UInt8.ofNat (n + 0xF0)) = 4) := by
  decide

/-- A byte that continues a sequence. -/
def Continues (b : UInt8) : Prop := b ≠ 0 ∧ b &&& 0xC0 = 0x80

instance : DecidablePred Continues := fun b => by unfold Continues; infer_instance

theorem continues_bytes : ∀ n < 64, Continues (UInt8.ofNat (n + 0x80)) := by decide

theorem payload_bytes : (∀ n < 64, (UInt8.ofNat (n + 0x80) &&& 0x3F).toNat = n) ∧
    ∀ n < 16, (UInt8.ofNat (n + 0xE0) &&& 0x0F).toNat = n := by
  decide

/-- The first byte says how long a sequence is, and it is so long. -/
theorem seqLen_continued {b : UInt8} (tail r : List UInt8)
    (length : utf8SeqLen b = tail.length + 1) (continued : ∀ b ∈ tail, Continues b) :
    seqLen (b :: tail ++ r) = tail.length + 1 := by
  have valid : utf8SeqValid (b :: tail ++ r) (tail.length + 1) = true := by
    unfold utf8SeqValid
    rw [List.all_eq_true]
    intro i member
    obtain ⟨first, last⟩ := List.mem_range'_1.mp member
    obtain ⟨j, rfl⟩ := Nat.exists_eq_add_of_le' first
    have inside : j < tail.length := by omega
    have here : byteAt (b :: tail ++ r) (j + 1) = tail[j] := by
      change (tail ++ r).getD j 0 = tail[j]
      rw [List.getD_eq_getElem?_getD, List.getElem?_append_left inside,
        List.getElem?_eq_getElem inside]
      rfl
    rw [here]
    have holds := continued _ (List.getElem_mem inside)
    simpa [Continues] using holds
  have first : byteAt (b :: tail ++ r) 0 = b := rfl
  unfold seqLen
  dsimp only
  rw [first, length, if_neg]
  rintro ⟨-, invalid⟩
  exact invalid valid

/-- A character that is no ASCII is one sequence, and its code point is that of the
character if it has three bytes. -/
theorem sequence_of_char {c : Char} (high : 0x80 ≤ c.toNat) (r : List UInt8) :
    seqLen (String.utf8EncodeChar c ++ r) = (String.utf8EncodeChar c).length ∧
      ((String.utf8EncodeChar c).length = 3 →
        codepoint (String.utf8EncodeChar c ++ r) = c.toNat) := by
  obtain ⟨-, two, three, four⟩ := utf8SeqLen_bytes
  cases Utf8.encoding c with
  | one low _ => omega
  | two low top eq =>
    rw [eq]
    refine ⟨seqLen_continued [_] r ?_ ?_, fun wrong => by cases wrong⟩
    · exact two _ (by omega)
    · exact List.forall_mem_singleton.mpr (continues_bytes _ (Nat.mod_lt _ (by decide)))
  | three low top valid eq =>
    rw [eq]
    refine ⟨seqLen_continued [_, _] r ?_ ?_, fun _ => ?_⟩
    · exact three _ (by omega)
    · simp only [List.forall_mem_cons, List.not_mem_nil, false_imp_iff, implies_true, and_true]
      exact ⟨continues_bytes _ (Nat.mod_lt _ (by decide)),
        continues_bytes _ (Nat.mod_lt _ (by decide))⟩
    · -- the payloads are the digits of the code point in base 64
      obtain ⟨payload, lead⟩ := payload_bytes
      have a := lead (c.toNat / 4096) (by omega)
      have b := payload (c.toNat / 64 % 64) (Nat.mod_lt _ (by decide))
      have d := payload (c.toNat % 64) (Nat.mod_lt _ (by decide))
      change ((UInt8.ofNat (c.toNat / 4096 + 0xE0) &&& 0x0F).toNat <<< 12) |||
        ((UInt8.ofNat (c.toNat / 64 % 64 + 0x80) &&& 0x3F).toNat <<< 6) |||
        (UInt8.ofNat (c.toNat % 64 + 0x80) &&& 0x3F).toNat = c.toNat
      rw [a, b, d, Nat.or_assoc,
        ← Nat.shiftLeft_add_eq_or_of_lt (show c.toNat % 64 < 2 ^ 6 by omega),
        ← Nat.shiftLeft_add_eq_or_of_lt (by rw [Nat.shiftLeft_eq]; omega), Nat.shiftLeft_eq,
        Nat.shiftLeft_eq]
      omega
  | four low top eq =>
    rw [eq]
    refine ⟨seqLen_continued [_, _, _] r ?_ ?_, fun wrong => by cases wrong⟩
    · exact four _ (by omega)
    · simp only [List.forall_mem_cons, List.not_mem_nil, false_imp_iff, implies_true, and_true]
      exact ⟨continues_bytes _ (Nat.mod_lt _ (by decide)),
        continues_bytes _ (Nat.mod_lt _ (by decide)), continues_bytes _ (Nat.mod_lt _ (by decide))⟩

theorem ascii_bytes : ∀ n < 128, (UInt8.ofNat n = 0 → n = 0) ∧
    (UInt8.ofNat n = 0x0A ↔ n = 0x0A) ∧
    (isPrintable (UInt8.ofNat n) = true ↔ 32 ≤ n ∧ n ≤ 126) := by
  decide

/-- An ASCII byte is a sequence of its own, and no Hangul. -/
theorem seqLen_ascii (hangul : HangulData) {n : Nat} (ascii : n < 0x80) (r : List UInt8) :
    seqLen (UInt8.ofNat n :: r) = 1 ∧ hangulAt hangul (UInt8.ofNat n :: r) = -1 := by
  have length : seqLen (UInt8.ofNat n :: r) = 1 :=
    seqLen_continued [] r (utf8SeqLen_bytes.1 n ascii) (fun _ no => absurd no List.not_mem_nil)
  refine ⟨length, ?_⟩
  unfold hangulAt
  rw [length, if_neg (by decide)]

theorem wide_byte {b : UInt8} (wide : 0x80 ≤ b) : b ≠ 0 ∧ b ≠ 0x0A ∧ ¬isPrintable b = true := by
  rw [UInt8.le_iff_toNat_le] at wide
  refine ⟨?_, ?_, ?_⟩
  · rintro rfl
    exact absurd wide (by decide)
  · rintro rfl
    exact absurd wide (by decide)
  · intro printable
    have top : b.toNat ≤ 126 := by
      simp only [isPrintable, Bool.and_eq_true, decide_eq_true_eq, UInt8.le_iff_toNat_le]
        at printable
      exact printable.2
    have low : 128 ≤ b.toNat := wide
    omega

/-! ### The same pictures -/

theorem drawGlyph_stamp {rows : Nat → Nat} {on : Nat → Nat → Bool} {w h : Nat}
    (same : ∀ row < h, ∀ col < w, (rows row).testBit (w - 1 - col) = on row col)
    (cx y scale : Int) (color : UInt32) (s : Surface) :
    drawGlyph rows w h cx y scale color s = stamp on w h cx y scale color s := by
  refine forLoop_congr fun row inside t => forLoop_congr fun col within u => ?_
  rw [same row inside col within]

section Text

variable {R : Renderer} {hangul : HangulData}

theorem mem_enumerateKsx1001 {cp : Nat} (listed : cp ∈ enumerateKsx1001 R) :
    0xAC00 ≤ cp ∧ cp ≤ 0xD7A3 := by
  unfold enumerateKsx1001 at listed
  obtain ⟨lead, -, listed⟩ := List.mem_flatMap.mp listed
  obtain ⟨trail, -, found⟩ := List.mem_filterMap.mp listed
  obtain ⟨ch, -, kept⟩ := Option.bind_eq_some_iff.mp found
  split_ifs at kept with syllable
  cases kept
  exact syllable

/-- A syllable has three bytes. -/
theorem syllable_length {c : Char} (low : 0xAC00 ≤ c.toNat) (top : c.toNat ≤ 0xD7A3) :
    (String.utf8EncodeChar c).length = 3 := by
  cases Utf8.encoding c with
  | one _ _ => omega
  | two _ _ _ => omega
  | three _ _ _ eq =>
    rw [eq]
    rfl
  | four _ _ _ => omega

/-- The glyph that is found at a character is that of the character. -/
theorem hangulAt_char (gen : genHangulFont R = some hangul) {c : Char} (high : 0x80 ≤ c.toNat)
    (r : List UInt8) :
    hangulAt hangul (String.utf8EncodeChar c ++ r) = hangulLookup hangul c.toNat := by
  obtain ⟨length, value⟩ := sequence_of_char high r
  unfold hangulAt
  rw [length]
  by_cases three : (String.utf8EncodeChar c).length = 3
  · rw [if_pos three, value three]
  · rw [if_neg three, hangulLookup_other gen]
    intro listed
    obtain ⟨low, top⟩ := mem_enumerateKsx1001 listed
    exact three (syllable_length low top)

variable (x : Int) (color : UInt32) (scale : Int)

/-- A character that is no ASCII is drawn, and all of its bytes are passed. -/
theorem drawLoop_char (gen : genHangulFont R = some hangul) {c : Char} (high : 0x80 ≤ c.toNat)
    (s : Surface) (cx y : Int) (r : List UInt8) :
    drawLoop hangul x color scale s cx y (String.utf8EncodeChar c ++ r) =
      drawLoop hangul x color scale (typeChar R x color scale ⟨s, cx, y⟩ c).surface
        (typeChar R x color scale ⟨s, cx, y⟩ c).cx (typeChar R x color scale ⟨s, cx, y⟩ c).y r := by
  have at_char := hangulAt_char gen high r
  have length := (sequence_of_char high r).1
  have rest : (String.utf8EncodeChar c ++ r).drop (String.utf8EncodeChar c).length = r :=
    List.drop_left
  have newline : ¬c.toNat = 0x0A := by omega
  have printable : ¬(32 ≤ c.toNat ∧ c.toNat ≤ 126) := by omega
  have wide := Utf8.encoding_of_high high
  cases bytes : String.utf8EncodeChar c with
  | nil => exact absurd bytes String.utf8EncodeChar_ne_nil
  | cons b tail =>
    rw [bytes] at at_char length rest wide
    rw [List.cons_append] at at_char length rest ⊢
    obtain ⟨notNul, notNewline, other⟩ := wide_byte (wide b List.mem_cons_self)
    rw [drawLoop, if_neg notNul, if_neg notNewline, if_neg other, at_char, length, rest]
    unfold typeChar
    rw [if_neg newline, if_neg printable]
    by_cases listed : c.toNat ∈ enumerateKsx1001 R
    · obtain ⟨found, rows⟩ := hangulLookup_listed gen listed
      rw [if_pos (show hangulLookup hangul c.toNat ≥ 0 from found), if_pos listed,
        drawGlyph_stamp rows]
      rfl
    · rw [hangulLookup_other gen listed, if_neg (by decide), if_neg listed]

/-- An ASCII character is its byte. -/
theorem drawLoop_ascii {c : Char} (ascii : c.toNat < 0x80) (notNul : c ≠ '\x00') (s : Surface)
    (cx y : Int) (r : List UInt8) :
    drawLoop hangul x color scale s cx y (String.utf8EncodeChar c ++ r) =
      drawLoop hangul x color scale (typeChar R x color scale ⟨s, cx, y⟩ c).surface
        (typeChar R x color scale ⟨s, cx, y⟩ c).cx (typeChar R x color scale ⟨s, cx, y⟩ c).y r := by
  obtain ⟨nul, newline, printable⟩ := ascii_bytes c.toNat ascii
  have notNul : ¬UInt8.ofNat c.toNat = 0 := fun zero => notNul (Char.toNat_inj.mp (nul zero))
  have unlisted : c.toNat ∉ enumerateKsx1001 R := by
    intro listed
    have low := (mem_enumerateKsx1001 listed).1
    omega
  rw [Utf8.encoding_of_ascii ascii, List.singleton_append, drawLoop, if_neg notNul]
  unfold typeChar
  by_cases line : c.toNat = 0x0A
  · rw [if_pos (newline.mpr line), if_pos line]
  rw [if_neg (fun eq => line (newline.mp eq)), if_neg line]
  by_cases picture : 32 ≤ c.toNat ∧ c.toNat ≤ 126
  · have same := @drawGlyph_stamp (latinRows (UInt8.ofNat c.toNat)) (latinOn c) fontW fontH
      (fun _ _ _ _ => rfl)
    rw [if_pos (printable.mpr picture), if_pos picture, same]
  · -- a control character leaves a gap
    obtain ⟨length, none⟩ := seqLen_ascii hangul ascii r
    rw [if_neg (fun eq => picture (printable.mp eq)), if_neg picture, if_neg unlisted, length,
      none, if_neg (by decide)]
    rfl

/-- Text is typed from the cursor on. -/
theorem drawLoop_types (gen : genHangulFont R = some hangul) {text : List Char}
    (noNul : '\x00' ∉ text) (s : Surface) (cx y : Int) :
    drawLoop hangul x color scale s cx y (text.flatMap String.utf8EncodeChar) =
      (text.foldl (typeChar R x color scale) ⟨s, cx, y⟩).surface := by
  induction text generalizing s cx y with
  | nil =>
    rw [List.flatMap_nil, drawLoop, List.foldl_nil]
  | cons c text ih =>
    rw [List.mem_cons, not_or] at noNul
    obtain ⟨notNul, later⟩ := noNul
    rw [List.flatMap_cons, List.foldl_cons]
    rcases Nat.lt_or_ge c.toNat 0x80 with ascii | high
    · rw [@drawLoop_ascii R hangul x color scale c ascii (Ne.symm notNul)]
      exact ih later _ _ _
    · rw [drawLoop_char x color scale gen high]
      exact ih later _ _ _

/-- **Unicode text is typed**: over a table that the script generated, every character of
UTF-8 text takes one step, with its picture if the character set has it. -/
theorem fontDrawScaled_types (gen : genHangulFont R = some hangul) {text : List Char}
    (noNul : '\x00' ∉ text) (s : Surface) (y : Int) :
    fontDrawScaled hangul s x y (text.flatMap String.utf8EncodeChar) color scale =
      (text.foldl (typeChar R x color (max 1 scale)) ⟨s, x, y⟩).surface := by
  have least : (if scale < 1 then 1 else scale) = max 1 scale := by omega
  unfold fontDrawScaled
  dsimp only
  rw [least]
  exact drawLoop_types x color (max 1 scale) gen noNul s x y

end Text

/-- A font of strokes, and a codec with the syllables from `0xAC00` on. -/
def strokes : Renderer :=
  ⟨fun lead trail => some (Char.ofNat (0xAC00 + (lead - 0xB0) * 94 + (trail - 0xA1))),
    fun _ col row => if col = row then 255 else 0⟩

theorem genHangulFont_strokes : ∃ hangul, genHangulFont strokes = some hangul := by
  have order : enumerateKsx1001 strokes = List.range' 0xAC00 2350 := by decide +kernel
  have asserted : (enumerateKsx1001 strokes).Pairwise (· ≤ ·) ∧
      (enumerateKsx1001 strokes).length = 2350 := by
    rw [order]
    exact ⟨List.pairwise_le_range', List.length_range'⟩
  unfold genHangulFont
  dsimp only
  rw [if_pos asserted]
  exact ⟨_, rfl⟩

theorem fontDrawScaled_types_strokes : ∃ hangul, genHangulFont strokes = some hangul ∧
    fontDrawScaled hangul ⟨fun _ => 0, 64, 48, 64⟩ 4 2
        (['가', '\n', 'A', 'é'].flatMap String.utf8EncodeChar) 0xFFFFFF 2 =
      (['가', '\n', 'A', 'é'].foldl (typeChar strokes 4 0xFFFFFF 2)
        ⟨⟨fun _ => 0, 64, 48, 64⟩, 4, 2⟩).surface := by
  obtain ⟨hangul, gen⟩ := genHangulFont_strokes
  exact ⟨hangul, gen, fontDrawScaled_types 4 0xFFFFFF 2 gen (by decide) _ 2⟩

end InstagramNt40.Font
