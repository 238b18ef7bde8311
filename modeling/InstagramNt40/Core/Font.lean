import InstagramNt40.Core.Raster

/-!
# core/font.c

The bitmap font. A string is the bytes before its NUL, so that reading behind the last
byte gives 0. The generated table of Hangul glyphs is a parameter.
-/
namespace InstagramNt40.Font

open Loop Raster

def fontW : Nat := 5
def fontH : Nat := 7
def fontAdv : Int := 6
def fontLine : Int := 8
def fontWideLine : Int := 19

def hangulW : Nat := 18
def hangulH : Nat := 18
def hangulAdv : Int := hangulW + 1

/-- The tables of `font_hangul_data.h`: the code points, ascending, and for each glyph its
rows. -/
structure HangulData where
  codepoints : Array Nat
  glyphs : Array (Array Nat)

/-- `p[i]`, 0 at the end of the string. -/
def byteAt (s : List UInt8) (i : Nat) : UInt8 := s.getD i 0

/-- `FONT`: the rows of the characters 32 to 126, the low five bits of each the pixels. -/
def latin : List (List Nat) :=
  [
    [0b00000, 0b00000, 0b00000, 0b00000, 0b00000, 0b00000, 0b00000],
    [0b00100, 0b00100, 0b00100, 0b00100, 0b00100, 0b00000, 0b00100],
    [0b01010, 0b01010, 0b01010, 0b00000, 0b00000, 0b00000, 0b00000],
    [0b01010, 0b01010, 0b11111, 0b01010, 0b11111, 0b01010, 0b01010],
    [0b00100, 0b01111, 0b10100, 0b01110, 0b00101, 0b11110, 0b00100],
    [0b11000, 0b11001, 0b00010, 0b00100, 0b01000, 0b10011, 0b00011],
    [0b01100, 0b10010, 0b10100, 0b01000, 0b10101, 0b10010, 0b01101],
    [0b00100, 0b00100, 0b01000, 0b00000, 0b00000, 0b00000, 0b00000],
    [0b00010, 0b00100, 0b01000, 0b01000, 0b01000, 0b00100, 0b00010],
    [0b01000, 0b00100, 0b00010, 0b00010, 0b00010, 0b00100, 0b01000],
    [0b00000, 0b00100, 0b10101, 0b01110, 0b10101, 0b00100, 0b00000],
    [0b00000, 0b00100, 0b00100, 0b11111, 0b00100, 0b00100, 0b00000],
    [0b00000, 0b00000, 0b00000, 0b00000, 0b00100, 0b00100, 0b01000],
    [0b00000, 0b00000, 0b00000, 0b11111, 0b00000, 0b00000, 0b00000],
    [0b00000, 0b00000, 0b00000, 0b00000, 0b00000, 0b00110, 0b00110],
    [0b00001, 0b00010, 0b00100, 0b00100, 0b00100, 0b01000, 0b10000],
    [0b01110, 0b10001, 0b10011, 0b10101, 0b11001, 0b10001, 0b01110],
    [0b00100, 0b01100, 0b00100, 0b00100, 0b00100, 0b00100, 0b01110],
    [0b01110, 0b10001, 0b00001, 0b00110, 0b01000, 0b10000, 0b11111],
    [0b11111, 0b00010, 0b00100, 0b00010, 0b00001, 0b10001, 0b01110],
    [0b00010, 0b00110, 0b01010, 0b10010, 0b11111, 0b00010, 0b00010],
    [0b11111, 0b10000, 0b11110, 0b00001, 0b00001, 0b10001, 0b01110],
    [0b00110, 0b01000, 0b10000, 0b11110, 0b10001, 0b10001, 0b01110],
    [0b11111, 0b00001, 0b00010, 0b00100, 0b01000, 0b01000, 0b01000],
    [0b01110, 0b10001, 0b10001, 0b01110, 0b10001, 0b10001, 0b01110],
    [0b01110, 0b10001, 0b10001, 0b01111, 0b00001, 0b00010, 0b01100],
    [0b00000, 0b00110, 0b00110, 0b00000, 0b00110, 0b00110, 0b00000],
    [0b00000, 0b00110, 0b00110, 0b00000, 0b00110, 0b00100, 0b01000],
    [0b00010, 0b00100, 0b01000, 0b10000, 0b01000, 0b00100, 0b00010],
    [0b00000, 0b00000, 0b11111, 0b00000, 0b11111, 0b00000, 0b00000],
    [0b01000, 0b00100, 0b00010, 0b00001, 0b00010, 0b00100, 0b01000],
    [0b01110, 0b10001, 0b00001, 0b00010, 0b00100, 0b00000, 0b00100],
    [0b01110, 0b10001, 0b10111, 0b10101, 0b10111, 0b10000, 0b01110],
    [0b01110, 0b10001, 0b10001, 0b11111, 0b10001, 0b10001, 0b10001],
    [0b11110, 0b10001, 0b10001, 0b11110, 0b10001, 0b10001, 0b11110],
    [0b01110, 0b10001, 0b10000, 0b10000, 0b10000, 0b10001, 0b01110],
    [0b11100, 0b10010, 0b10001, 0b10001, 0b10001, 0b10010, 0b11100],
    [0b11111, 0b10000, 0b10000, 0b11110, 0b10000, 0b10000, 0b11111],
    [0b11111, 0b10000, 0b10000, 0b11110, 0b10000, 0b10000, 0b10000],
    [0b01110, 0b10001, 0b10000, 0b10111, 0b10001, 0b10001, 0b01111],
    [0b10001, 0b10001, 0b10001, 0b11111, 0b10001, 0b10001, 0b10001],
    [0b01110, 0b00100, 0b00100, 0b00100, 0b00100, 0b00100, 0b01110],
    [0b00111, 0b00010, 0b00010, 0b00010, 0b00010, 0b10010, 0b01100],
    [0b10001, 0b10010, 0b10100, 0b11000, 0b10100, 0b10010, 0b10001],
    [0b10000, 0b10000, 0b10000, 0b10000, 0b10000, 0b10000, 0b11111],
    [0b10001, 0b11011, 0b10101, 0b10101, 0b10001, 0b10001, 0b10001],
    [0b10001, 0b10001, 0b11001, 0b10101, 0b10011, 0b10001, 0b10001],
    [0b01110, 0b10001, 0b10001, 0b10001, 0b10001, 0b10001, 0b01110],
    [0b11110, 0b10001, 0b10001, 0b11110, 0b10000, 0b10000, 0b10000],
    [0b01110, 0b10001, 0b10001, 0b10001, 0b10101, 0b10010, 0b01101],
    [0b11110, 0b10001, 0b10001, 0b11110, 0b10100, 0b10010, 0b10001],
    [0b01111, 0b10000, 0b10000, 0b01110, 0b00001, 0b00001, 0b11110],
    [0b11111, 0b00100, 0b00100, 0b00100, 0b00100, 0b00100, 0b00100],
    [0b10001, 0b10001, 0b10001, 0b10001, 0b10001, 0b10001, 0b01110],
    [0b10001, 0b10001, 0b10001, 0b10001, 0b10001, 0b01010, 0b00100],
    [0b10001, 0b10001, 0b10001, 0b10101, 0b10101, 0b10101, 0b01010],
    [0b10001, 0b10001, 0b01010, 0b00100, 0b01010, 0b10001, 0b10001],
    [0b10001, 0b10001, 0b01010, 0b00100, 0b00100, 0b00100, 0b00100],
    [0b11111, 0b00001, 0b00010, 0b00100, 0b01000, 0b10000, 0b11111],
    [0b01110, 0b01000, 0b01000, 0b01000, 0b01000, 0b01000, 0b01110],
    [0b10000, 0b01000, 0b00100, 0b00100, 0b00100, 0b00010, 0b00001],
    [0b01110, 0b00010, 0b00010, 0b00010, 0b00010, 0b00010, 0b01110],
    [0b00100, 0b01010, 0b10001, 0b00000, 0b00000, 0b00000, 0b00000],
    [0b00000, 0b00000, 0b00000, 0b00000, 0b00000, 0b00000, 0b11111],
    [0b01000, 0b00100, 0b00010, 0b00000, 0b00000, 0b00000, 0b00000],
    [0b00000, 0b00000, 0b01110, 0b00001, 0b01111, 0b10001, 0b01111],
    [0b10000, 0b10000, 0b10110, 0b11001, 0b10001, 0b10001, 0b11110],
    [0b00000, 0b00000, 0b01110, 0b10001, 0b10000, 0b10001, 0b01110],
    [0b00001, 0b00001, 0b01101, 0b10011, 0b10001, 0b10001, 0b01111],
    [0b00000, 0b00000, 0b01110, 0b10001, 0b11111, 0b10000, 0b01110],
    [0b00110, 0b01001, 0b01000, 0b11100, 0b01000, 0b01000, 0b01000],
    [0b00000, 0b00000, 0b01111, 0b10001, 0b01111, 0b00001, 0b01110],
    [0b10000, 0b10000, 0b10110, 0b11001, 0b10001, 0b10001, 0b10001],
    [0b00100, 0b00000, 0b01100, 0b00100, 0b00100, 0b00100, 0b01110],
    [0b00010, 0b00000, 0b00110, 0b00010, 0b00010, 0b10010, 0b01100],
    [0b10000, 0b10000, 0b10010, 0b10100, 0b11000, 0b10100, 0b10010],
    [0b01100, 0b00100, 0b00100, 0b00100, 0b00100, 0b00100, 0b01110],
    [0b00000, 0b00000, 0b11010, 0b10101, 0b10101, 0b10001, 0b10001],
    [0b00000, 0b00000, 0b10110, 0b11001, 0b10001, 0b10001, 0b10001],
    [0b00000, 0b00000, 0b01110, 0b10001, 0b10001, 0b10001, 0b01110],
    [0b00000, 0b00000, 0b11110, 0b10001, 0b11110, 0b10000, 0b10000],
    [0b00000, 0b00000, 0b01101, 0b10011, 0b01111, 0b00001, 0b00001],
    [0b00000, 0b00000, 0b10110, 0b11001, 0b10000, 0b10000, 0b10000],
    [0b00000, 0b00000, 0b01111, 0b10000, 0b01110, 0b00001, 0b11110],
    [0b01000, 0b01000, 0b11100, 0b01000, 0b01000, 0b01001, 0b00110],
    [0b00000, 0b00000, 0b10001, 0b10001, 0b10001, 0b10011, 0b01101],
    [0b00000, 0b00000, 0b10001, 0b10001, 0b10001, 0b01010, 0b00100],
    [0b00000, 0b00000, 0b10001, 0b10001, 0b10101, 0b10101, 0b01010],
    [0b00000, 0b00000, 0b10001, 0b01010, 0b00100, 0b01010, 0b10001],
    [0b00000, 0b00000, 0b10001, 0b10001, 0b01111, 0b00001, 0b01110],
    [0b00000, 0b00000, 0b11111, 0b00010, 0b00100, 0b01000, 0b11111],
    [0b00010, 0b00100, 0b00100, 0b01000, 0b00100, 0b00100, 0b00010],
    [0b00100, 0b00100, 0b00100, 0b00100, 0b00100, 0b00100, 0b00100],
    [0b01000, 0b00100, 0b00100, 0b00010, 0b00100, 0b00100, 0b01000],
    [0b00000, 0b00000, 0b01000, 0b10101, 0b00010, 0b00000, 0b00000]]

/-! ### Code points -/

/-- The binary search of `hangul_lookup` between `lo`, which is not negative, and `hi`. -/
def lookupLoop (hangul : HangulData) (cp : Nat) (lo hi : Int) : Int :=
  if _h : lo ≤ hi then
    let mid := (lo + hi) / 2
    let v := hangul.codepoints.getD mid.toNat 0
    if v = cp then mid
    else if v < cp then lookupLoop hangul cp (mid + 1) hi
    else lookupLoop hangul cp lo (mid - 1)
  else -1
termination_by (hi + 1 - lo).toNat

/-- `hangul_lookup`: the index of the glyph, or -1. -/
def hangulLookup (hangul : HangulData) (cp : Nat) : Int :=
  lookupLoop hangul cp 0 (hangul.codepoints.size - 1)

/-- `utf8_seq_len` -/
def utf8SeqLen (c : UInt8) : Nat :=
  if c &&& 0xE0 = 0xC0 then 2
  else if c &&& 0xF0 = 0xE0 then 3
  else if c &&& 0xF8 = 0xF0 then 4
  else 1

/-- `utf8_seq_valid` -/
def utf8SeqValid (s : List UInt8) (seqlen : Nat) : Bool :=
  (List.range' 1 (seqlen - 1)).all fun i =>
    ¬(byteAt s i = 0 ∨ byteAt s i &&& 0xC0 ≠ 0x80)

/-- The length of the sequence at the start of a string that is not ASCII. -/
def seqLen (s : List UInt8) : Nat :=
  let seqlen := utf8SeqLen (byteAt s 0)
  if seqlen > 1 ∧ ¬utf8SeqValid s seqlen then 1 else seqlen

/-- The code point of a sequence of three bytes. -/
def codepoint (s : List UInt8) : Nat :=
  ((byteAt s 0 &&& 0x0F).toNat <<< 12) ||| ((byteAt s 1 &&& 0x3F).toNat <<< 6) |||
    (byteAt s 2 &&& 0x3F).toNat

/-- `c >= 32 && c <= 126` -/
def isPrintable (c : UInt8) : Bool := 32 ≤ c && c ≤ 126

/-- The index of the Hangul glyph at the start of a string, or -1. -/
def hangulAt (hangul : HangulData) (s : List UInt8) : Int :=
  if seqLen s = 3 then hangulLookup hangul (codepoint s) else -1

theorem utf8SeqLen_pos (c : UInt8) : 0 < utf8SeqLen c := by
  unfold utf8SeqLen
  split_ifs <;> decide

theorem seqLen_pos (s : List UInt8) : 0 < seqLen s := by
  unfold seqLen
  dsimp only
  split
  · exact Nat.zero_lt_one
  · exact utf8SeqLen_pos _

/-! ### Drawing -/

/-- `FONT[c - 32]` -/
def latinRows (c : UInt8) (row : Nat) : Nat := (latin.getD (c.toNat - 32) []).getD row 0

/-- `HANGUL_GLYPHS[idx]` -/
def hangulRows (hangul : HangulData) (idx : Int) (row : Nat) : Nat :=
  (hangul.glyphs.getD idx.toNat #[]).getD row 0

/-- The loops over the bits of a glyph. -/
def drawGlyph (rows : Nat → Nat) (w h : Nat) (cx y scale : Int) (color : UInt32) (s : Surface) :
    Surface :=
  forLoop h (fun row s =>
    forLoop w (fun col s =>
      if (rows row).testBit (w - 1 - col) then
        surfaceBlendRect s ⟨cx + col * scale, y + row * scale, scale, scale⟩ color
      else s) s) s

/-- The loop of `font_draw_scaled` from the string `str` on. -/
def drawLoop (hangul : HangulData) (x : Int) (color : UInt32) (scale : Int) (s : Surface)
    (cx y : Int) (str : List UInt8) : Surface :=
  match _h : str with
  | [] => s
  | c :: r =>
    if c = 0 then s
    else if c = 0x0A then drawLoop hangul x color scale s x (y + fontLine * scale) r
    else if isPrintable c then
      let s := drawGlyph (latinRows c) fontW fontH cx y scale color s
      drawLoop hangul x color scale s (cx + fontAdv * scale) y r
    else if hangulAt hangul str ≥ 0 then
      let s :=
        drawGlyph (hangulRows hangul (hangulAt hangul str)) hangulW hangulH cx y scale color s
      drawLoop hangul x color scale s (cx + hangulAdv * scale) y (str.drop (seqLen str))
    else drawLoop hangul x color scale s (cx + fontAdv * scale) y (str.drop (seqLen str))
termination_by str.length
decreasing_by
  all_goals
    have := seqLen_pos str
    simp_all only [List.length_cons, List.length_drop]
    omega

def fontDrawScaled (hangul : HangulData) (s : Surface) (x y : Int) (str : List UInt8)
    (color : UInt32) (scale : Int) : Surface :=
  let scale := if scale < 1 then 1 else scale
  drawLoop hangul x color scale s x y str

def fontDraw (hangul : HangulData) (s : Surface) (x y : Int) (str : List UInt8)
    (color : UInt32) : Surface := fontDrawScaled hangul s x y str color 1

/-! ### Measuring -/

/-- The length in bytes of the glyph at the start of a string, and its advance. -/
def glyphAt (hangul : HangulData) (s : List UInt8) : Nat × Int :=
  if isPrintable (byteAt s 0) then (1, fontAdv)
  else (seqLen s, if hangulAt hangul s ≥ 0 then hangulAdv else fontAdv)

theorem glyphAt_pos (hangul : HangulData) (s : List UInt8) : 0 < (glyphAt hangul s).1 := by
  unfold glyphAt
  split
  · exact Nat.zero_lt_one
  · exact seqLen_pos s

/-- The loop of `measure` from the string `s` on: the width, whether there was a glyph,
and the offset `off` behind the last one. -/
def measureLoop (hangul : HangulData) (maxW : Int) (width : Int) (any : Bool) (off : Nat)
    (s : List UInt8) : Int × Bool × Nat :=
  match _h : s with
  | [] => (width, any, off)
  | c :: _ =>
    if c = 0 ∨ c = 0x0A then (width, any, off)
    else
      let glyph := glyphAt hangul s
      if maxW ≥ 0 ∧ any ∧ width + glyph.2 - 1 > maxW then (width, any, off)
      else
        measureLoop hangul maxW (width + glyph.2) true (off + glyph.1) (s.drop glyph.1)
termination_by s.length
decreasing_by
  have := glyphAt_pos hangul s
  simp_all only [List.length_cons, List.length_drop]
  omega

/-- `measure`: the width, and what it stores through `out_len`. -/
def measure (hangul : HangulData) (str : List UInt8) (maxW : Int) : Int × Nat :=
  let (width, any, off) := measureLoop hangul maxW 0 false 0 str
  (if ¬any then 0 else width - 1, off)

def fontTextWidth (hangul : HangulData) (str : List UInt8) (scale : Int) : Int :=
  let scale := if scale < 1 then 1 else scale
  (measure hangul str (-1)).1 * scale

def fontFitWidth (hangul : HangulData) (str : List UInt8) (maxW : Int) : Int × Nat :=
  measure hangul str maxW

/-! ### Text keeps the shape of the surface -/

theorem drawGlyph_shape (rows : Nat → Nat) (w h : Nat) (cx y scale : Int) (color : UInt32)
    (s : Surface) : (drawGlyph rows w h cx y scale color s).shape = s.shape := by
  refine forLoop_frame s fun row t => forLoop_frame t fun col u => ?_
  split
  · exact surfaceBlendRect_shape _ _ _
  · rfl

theorem drawLoop_shape (hangul : HangulData) (x : Int) (color : UInt32) (scale : Int)
    (s : Surface) (cx y : Int) (str : List UInt8) :
    (drawLoop hangul x color scale s cx y str).shape = s.shape := by
  fun_induction drawLoop hangul x color scale s cx y str with
  | case1 => rfl
  | case2 => rfl
  | case3 s cx y r _ ih => exact ih
  | case4 s cx y c r notNul other printable t ih =>
    exact ih.trans (drawGlyph_shape _ _ _ _ _ _ _ _)
  | case5 s cx y c r notNul other wide found t ih =>
    rw [if_pos found]
    exact ih.trans (drawGlyph_shape _ _ _ _ _ _ _ _)
  | case6 s cx y c r notNul other wide none ih =>
    rw [if_neg none]
    exact ih

@[simp] theorem fontDrawScaled_shape (hangul : HangulData) (s : Surface) (x y : Int)
    (str : List UInt8) (color : UInt32) (scale : Int) :
    (fontDrawScaled hangul s x y str color scale).shape = s.shape :=
  drawLoop_shape _ _ _ _ _ _ _ _

@[simp] theorem fontDraw_shape (hangul : HangulData) (s : Surface) (x y : Int)
    (str : List UInt8) (color : UInt32) : (fontDraw hangul s x y str color).shape = s.shape :=
  fontDrawScaled_shape _ _ _ _ _ _ _

end InstagramNt40.Font
