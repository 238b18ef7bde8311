import InstagramNt40.Core.FontDraw

/-!
# The reads of the font

The two loops again, with every read of the string as a load that fails outside of it. On
a string of bytes and its NUL no load fails.
-/
namespace InstagramNt40.Font

open Loop Raster

namespace Mem

/-- The loop of `utf8_seq_valid` from index `i` on, with `n` bytes left: the memory from
`p` on may end before. -/
def validFrom (p : List UInt8) : Nat → Nat → Option Bool
  | _, 0 => some true
  | i, n + 1 =>
    match p[i]? with
    | none => none
    | some b => if b = 0 ∨ b &&& 0xC0 ≠ 0x80 then some false else validFrom p (i + 1) n

/-- The length of the sequence at `p`, whose first byte is `c`. -/
def seqLen (p : List UInt8) (c : UInt8) : Option Nat :=
  let seqlen := utf8SeqLen c
  if seqlen > 1 then
    (validFrom p 1 (seqlen - 1)).map fun valid => if valid then seqlen else 1
  else some seqlen

/-- The index of the Hangul glyph at `p`, or -1. -/
def hangulAt (hangul : HangulData) (p : List UInt8) (c : UInt8) (seqlen : Nat) : Option Int :=
  if seqlen = 3 then
    p[1]?.bind fun b => p[2]?.map fun d =>
      hangulLookup hangul
        (((c &&& 0x0F).toNat <<< 12) ||| ((b &&& 0x3F).toNat <<< 6) ||| (d &&& 0x3F).toNat)
  else some (-1)

/-- The sequence at `p`: its length and its Hangul glyph. -/
def sequence (hangul : HangulData) (p : List UInt8) (c : UInt8) : Option (Nat × Int) :=
  (seqLen p c).bind fun seqlen => (hangulAt hangul p c seqlen).map fun idx => (seqlen, idx)

theorem sequence_pos {hangul : HangulData} {p : List UInt8} {c : UInt8} {seqlen : Nat} {idx : Int}
    (found : sequence hangul p c = some (seqlen, idx)) : 0 < seqlen := by
  obtain ⟨n, length, rest⟩ := Option.bind_eq_some_iff.mp found
  obtain ⟨_, _, eq⟩ := Option.map_eq_some_iff.mp rest
  cases eq
  have positive := utf8SeqLen_pos c
  unfold seqLen at length
  dsimp only at length
  split at length
  · obtain ⟨valid, -, rfl⟩ := Option.map_eq_some_iff.mp length
    split <;> omega
  · cases length
    exact positive

/-- The loop of `font_draw_scaled`: the surface and the cursor. -/
def drawLoop (hangul : HangulData) (x : Int) (color : UInt32) (scale : Int) (s : Surface)
    (cx y : Int) (p : List UInt8) : Option (Surface × Int × Int) :=
  match _h : p with
  | [] => none
  | c :: r =>
    if c = 0 then some (s, cx, y)
    else if c = 0x0A then drawLoop hangul x color scale s x (y + fontLine * scale) r
    else if isPrintable c then
      let s := drawGlyph (latinRows c) fontW fontH cx y scale color s
      drawLoop hangul x color scale s (cx + fontAdv * scale) y r
    else
      match _found : sequence hangul p c with
      | none => none
      | some (seqlen, idx) =>
        if idx ≥ 0 then
          let s := drawGlyph (hangulRows hangul idx) hangulW hangulH cx y scale color s
          drawLoop hangul x color scale s (cx + hangulAdv * scale) y (p.drop seqlen)
        else drawLoop hangul x color scale s (cx + fontAdv * scale) y (p.drop seqlen)
termination_by p.length
decreasing_by
  · simp_all
  · simp_all
  all_goals
    have := sequence_pos _found
    simp_all only [List.length_cons, List.length_drop]
    omega

/-- `font_draw_scaled`, with its cursor. -/
def fontDrawScaled (hangul : HangulData) (s : Surface) (x y : Int) (p : List UInt8)
    (color : UInt32) (scale : Int) : Option (Surface × Int × Int) :=
  let scale := if scale < 1 then 1 else scale
  drawLoop hangul x color scale s x y p

/-- The length and the advance of the glyph at `p`. -/
def glyphAt (hangul : HangulData) (p : List UInt8) (c : UInt8) : Option (Nat × Int) :=
  if isPrintable c then some (1, fontAdv)
  else (sequence hangul p c).map fun seq => (seq.1, if seq.2 ≥ 0 then hangulAdv else fontAdv)

theorem glyphAt_pos {hangul : HangulData} {p : List UInt8} {c : UInt8} {glyph : Nat × Int}
    (found : glyphAt hangul p c = some glyph) : 0 < glyph.1 := by
  unfold glyphAt at found
  split at found
  · cases found
    exact Nat.zero_lt_one
  · obtain ⟨seq, read, rfl⟩ := Option.map_eq_some_iff.mp found
    exact sequence_pos read

/-- The loop of `measure`. -/
def measureLoop (hangul : HangulData) (maxW : Int) (width : Int) (any : Bool) (off : Nat)
    (p : List UInt8) : Option (Int × Bool × Nat) :=
  match _h : p with
  | [] => none
  | c :: _ =>
    if c = 0 ∨ c = 0x0A then some (width, any, off)
    else
      match _found : glyphAt hangul p c with
      | none => none
      | some glyph =>
        if maxW ≥ 0 ∧ any ∧ width + glyph.2 - 1 > maxW then some (width, any, off)
        else measureLoop hangul maxW (width + glyph.2) true (off + glyph.1) (p.drop glyph.1)
termination_by p.length
decreasing_by
  have := glyphAt_pos _found
  simp_all only [List.length_cons, List.length_drop]
  omega

/-- `measure` -/
def measure (hangul : HangulData) (p : List UInt8) (maxW : Int) : Option (Int × Nat) :=
  (measureLoop hangul maxW 0 false 0 p).map fun (width, any, off) =>
    (if ¬any then 0 else width - 1, off)

def fontTextWidth (hangul : HangulData) (p : List UInt8) (scale : Int) : Option Int :=
  let scale := if scale < 1 then 1 else scale
  (measure hangul p (-1)).map fun measured => measured.1 * scale

/-! ### No load fails -/

section Terminated

variable {hangul : HangulData} {str : List UInt8}

/-- Memory that holds a string and its NUL. -/
theorem load_inside (i : Nat) (inside : i < str.length) :
    (str ++ [0])[i]? = some (byteAt str i) := by
  rw [List.getElem?_append_left inside, byteAt, List.getD_eq_getElem?_getD,
    List.getElem?_eq_getElem inside]
  rfl

theorem drop_terminated {n : Nat} (inside : n ≤ str.length) :
    (str ++ [0]).drop n = str.drop n ++ [0] := List.drop_append_of_le_length inside

/-- The check stops at the NUL. -/
theorem validFrom_eq {i n : Nat} (inside : i ≤ str.length) :
    validFrom (str ++ [0]) i n =
      some ((List.range' i n).all fun i => ¬(byteAt str i = 0 ∨ byteAt str i &&& 0xC0 ≠ 0x80)) := by
  induction n generalizing i with
  | zero => rfl
  | succ n ih =>
    rw [validFrom, List.range'_succ, List.all_cons]
    by_cases last : i = str.length
    · have nul : (str ++ [0])[i]? = some 0 := by simp [last]
      have outside : byteAt str i = 0 := byteAt_outside (Nat.le_of_eq last.symm)
      rw [nul, outside]
      simp
    · rw [load_inside i (by omega)]
      dsimp only
      by_cases bad : byteAt str i = 0 ∨ byteAt str i &&& 0xC0 ≠ 0x80
      · rw [if_pos bad]
        simp [bad]
      · rw [if_neg bad, ih (by omega)]
        simp [bad]

theorem seqLen_eq (c : UInt8) (r : List UInt8) :
    seqLen (c :: r ++ [0]) c = some (Font.seqLen (c :: r)) := by
  unfold seqLen Font.seqLen utf8SeqValid
  dsimp only
  rw [byteAt_cons_zero, validFrom_eq (Nat.succ_le_succ (Nat.zero_le r.length))]
  by_cases long : utf8SeqLen c > 1
  · rw [if_pos long, Option.map_some]
    split_ifs <;> simp_all
  · rw [if_neg long, if_neg fun both => long both.1]

theorem sequence_eq {c : UInt8} (r : List UInt8) (other : ¬isPrintable c = true) :
    sequence hangul (c :: r ++ [0]) c =
      some (Font.seqLen (c :: r), Font.hangulAt hangul (c :: r)) := by
  have inside {i : Nat} (first : 1 ≤ i) (last : i < Font.seqLen (c :: r)) :
      i < (c :: r).length := by
    apply (glyphAt_bytes hangul r first _).1
    rwa [glyphAt_other hangul r other]
  unfold sequence hangulAt Font.hangulAt
  rw [seqLen_eq, Option.bind_some]
  by_cases three : Font.seqLen (c :: r) = 3
  · rw [if_pos three, if_pos three, load_inside 1 (inside (by omega) (by omega)),
      load_inside 2 (inside (by omega) (by omega))]
    rfl
  · rw [if_neg three, if_neg three]
    rfl

theorem glyphAt_eq (c : UInt8) (r : List UInt8) :
    glyphAt hangul (c :: r ++ [0]) c = some (Font.glyphAt hangul (c :: r)) := by
  unfold glyphAt
  by_cases printable : isPrintable c = true
  · rw [if_pos printable, glyphAt_printable hangul r printable]
  · rw [if_neg printable, glyphAt_other hangul r printable, sequence_eq r printable]
    rfl

theorem measureLoop_glyph {maxW width : Int} {any : Bool} {off : Nat} {c : UInt8} {r : List UInt8}
    {glyph : Nat × Int} (go : ¬(c = 0 ∨ c = 0x0A)) (read : glyphAt hangul (c :: r) c = some glyph) :
    measureLoop hangul maxW width any off (c :: r) =
      if maxW ≥ 0 ∧ any ∧ width + glyph.2 - 1 > maxW then some (width, any, off)
      else measureLoop hangul maxW (width + glyph.2) true (off + glyph.1)
        ((c :: r).drop glyph.1) := by
  rw [measureLoop, if_neg go]
  split
  next failed =>
    rw [read] at failed
    cases failed
  next found =>
    rw [read] at found
    cases found
    rfl

theorem measureLoop_eq (maxW width : Int) (any : Bool) (off : Nat) (str : List UInt8) :
    measureLoop hangul maxW width any off (str ++ [0]) =
      some (Font.measureLoop hangul maxW width any off str) := by
  fun_induction Font.measureLoop hangul maxW width any off str with
  | case1 width any off => rw [List.nil_append, measureLoop, if_pos (.inl rfl)]
  | case2 width any off c r stop => rw [List.cons_append, measureLoop, if_pos stop]
  | case3 width any off c r go glyph full =>
    have read : glyphAt hangul (c :: (r ++ [0])) c = some glyph := glyphAt_eq c r
    rw [List.cons_append, measureLoop_glyph go read, if_pos full]
    dsimp only
    rw [if_pos full]
  | case4 width any off c r go glyph room ih =>
    have read : glyphAt hangul (c :: (r ++ [0])) c = some glyph := glyphAt_eq c r
    rw [List.cons_append, measureLoop_glyph go read, if_neg room, ← List.cons_append,
      drop_terminated (glyphAt_le hangul c r), ih]
    dsimp only
    rw [if_neg room]

theorem drawLoop_sequence {x : Int} {color : UInt32} {scale : Int} {s : Surface} {cx y : Int}
    {c : UInt8} {r : List UInt8} {seqlen : Nat} {idx : Int} (notNul : ¬c = 0) (inLine : ¬c = 0x0A)
    (other : ¬isPrintable c = true) (read : sequence hangul (c :: r) c = some (seqlen, idx)) :
    drawLoop hangul x color scale s cx y (c :: r) =
      if idx ≥ 0 then
        drawLoop hangul x color scale
          (drawGlyph (hangulRows hangul idx) hangulW hangulH cx y scale color s)
          (cx + hangulAdv * scale) y ((c :: r).drop seqlen)
      else drawLoop hangul x color scale s (cx + fontAdv * scale) y ((c :: r).drop seqlen) := by
  rw [drawLoop, if_neg notNul, if_neg inLine, if_neg other]
  split
  next failed =>
    rw [read] at failed
    cases failed
  next found =>
    rw [read] at found
    cases found
    rfl

/-- Behind a sequence the memory holds the rest of the string. -/
theorem drop_sequence (hangul : HangulData) {c : UInt8} (r : List UInt8)
    (other : ¬isPrintable c = true) : (c :: (r ++ [0])).drop (Font.seqLen (c :: r)) =
      (c :: r).drop (Font.seqLen (c :: r)) ++ [0] := by
  have inside := glyphAt_le hangul c r
  rw [glyphAt_other hangul r other] at inside
  rw [← List.cons_append, drop_terminated inside]

theorem cursorAfter_sequence (cx scale : Int) {c : UInt8} (r : List UInt8) (notNul : ¬c = 0)
    (other : ¬isPrintable c = true) :
    cursorAfter cx scale (glyphs hangul (c :: r)) =
      cursorAfter (cx + (if Font.hangulAt hangul (c :: r) ≥ 0 then hangulAdv else fontAdv) * scale)
        scale (glyphs hangul ((c :: r).drop (Font.seqLen (c :: r)))) := by
  rw [glyphs_cons hangul notNul, cursorAfter_cons, firstGlyph_adv, glyphAt_other hangul r other]

/-- The loop reads up to the NUL and ends behind the units. -/
theorem drawLoop_eq (x : Int) (color : UInt32) (scale : Int) (s : Surface) (cx y : Int)
    (str : List UInt8) (plain : 0 ∉ str) (inLine : 0x0A ∉ str) :
    drawLoop hangul x color scale s cx y (str ++ [0]) =
      some (Font.drawLoop hangul x color scale s cx y str,
        cursorAfter cx scale (glyphs hangul str), y) := by
  fun_induction Font.drawLoop hangul x color scale s cx y str with
  | case1 s cx y =>
    rw [List.nil_append, drawLoop, if_pos rfl, glyphs_nil]
    simp [cursorAfter]
  | case2 s cx y r => exact absurd List.mem_cons_self plain
  | case3 s cx y r notNul ih => exact absurd List.mem_cons_self inLine
  | case4 s cx y c r notNul other printable t ih =>
    rw [List.cons_append, drawLoop, if_neg notNul, if_neg other, if_pos printable,
      glyphs_cons hangul notNul, glyphAt_printable hangul r printable, cursorAfter_cons,
      firstGlyph_adv, glyphAt_printable hangul r printable]
    exact ih (fun later => plain (List.mem_cons_of_mem c later))
      (fun later => inLine (List.mem_cons_of_mem c later))
  | case5 s cx y c r notNul other wide found t ih =>
    have read : sequence hangul (c :: (r ++ [0])) c =
        some (Font.seqLen (c :: r), Font.hangulAt hangul (c :: r)) := sequence_eq r wide
    rw [List.cons_append, drawLoop_sequence notNul other wide read, if_pos found,
      drop_sequence hangul r wide, cursorAfter_sequence cx scale r notNul wide,
      if_pos found, if_pos found]
    exact ih (fun later => plain (List.mem_of_mem_drop later))
      (fun later => inLine (List.mem_of_mem_drop later))
  | case6 s cx y c r notNul other wide none ih =>
    have read : sequence hangul (c :: (r ++ [0])) c =
        some (Font.seqLen (c :: r), Font.hangulAt hangul (c :: r)) := sequence_eq r wide
    rw [List.cons_append, drawLoop_sequence notNul other wide read, if_neg none,
      drop_sequence hangul r wide, cursorAfter_sequence cx scale r notNul wide,
      if_neg none, if_neg none]
    exact ih (fun later => plain (List.mem_of_mem_drop later))
      (fun later => inLine (List.mem_of_mem_drop later))

end Terminated

end Mem

/-! ### Text in its box -/

/-- Drawing a string of one line on a surface: what `font_draw_scaled` and
`font_text_width` do with the memory of a string and its NUL. -/
structure DrawsInBox (hangul : HangulData) (s : Surface) (x y : Int) (str : List UInt8)
    (color : UInt32) (scale : Int) : Prop where
  measured : Mem.fontTextWidth hangul (str ++ [0]) scale = some (fontTextWidth hangul str scale)
  drawn : Mem.fontDrawScaled hangul s x y (str ++ [0]) color scale =
    some (fontDrawScaled hangul s x y str color scale,
      if str = [] then x else x + fontTextWidth hangul str scale + scale, y)
  box : ∀ px py, 0 ≤ px → px < s.stride → 0 ≤ py →
    ¬(x ≤ px ∧ px < x + fontTextWidth hangul str scale ∧ y ≤ py ∧ py < y + 18 * scale) →
    (fontDrawScaled hangul s x y str color scale).pixel px py = s.pixel px py
  parts : ∀ a b gs hs, str = a ++ b → glyphs hangul str = gs ++ hs → a = flat gs →
    ∃ t cx, Mem.fontDrawScaled hangul s x y (a ++ [0]) color scale = some (t, cx, y) ∧
      (Mem.fontDrawScaled hangul t cx y (b ++ [0]) color scale).map Prod.fst =
        some (fontDrawScaled hangul s x y str color scale)

section Text

variable (hangul : HangulData) (s : Surface) (x y : Int) (color : UInt32) {scale : Int}
  {str : List UInt8}

theorem fontTextWidth_mem (str : List UInt8) (scale : Int) :
    Mem.fontTextWidth hangul (str ++ [0]) scale = some (fontTextWidth hangul str scale) := by
  unfold Mem.fontTextWidth Mem.measure fontTextWidth measure
  rw [Mem.measureLoop_eq]
  rfl

/-- What is drawn, and where the cursor is left. -/
theorem fontDrawScaled_mem (plain : 0 ∉ str) (inLine : 0x0A ∉ str) (positive : 1 ≤ scale) :
    Mem.fontDrawScaled hangul s x y (str ++ [0]) color scale =
      some (fontDrawScaled hangul s x y str color scale,
        cursorAfter x scale (glyphs hangul str), y) := by
  unfold Mem.fontDrawScaled fontDrawScaled
  rw [if_neg (show ¬scale < 1 by omega)]
  exact Mem.drawLoop_eq x color scale s x y str plain inLine

theorem fontDrawScaled_units (inLine : ∀ g ∈ glyphs hangul str, g.isNewline = false)
    (positive : 1 ≤ scale) :
    fontDrawScaled hangul s x y str color scale =
      drawUnits hangul y scale color x (glyphs hangul str) s := by
  unfold fontDrawScaled
  rw [if_neg (show ¬scale < 1 by omega)]
  exact drawLoop_units hangul x color scale s x y str inLine

/-- A string of one line is drawn inside its box. -/
theorem fontDrawScaled_paints {w h : Int} (inLine : ∀ g ∈ glyphs hangul str, g.isNewline = false)
    (positive : 1 ≤ scale) :
    Paints w h (Rect.Holds ⟨x, y, fontTextWidth hangul str scale, hangulH * scale⟩)
      fun s => fontDrawScaled hangul s x y str color scale := by
  rw [fontTextWidth_glyphs inLine positive]
  simp only [fontDrawScaled_units hangul _ x y color inLine positive]
  apply drawUnits_paints hangul positive
  intro g unit cx
  exact drawUnit_paints hangul unit cx y positive color

/-- Printable ASCII needs the rows of the small font only. -/
theorem fontDrawScaled_latin {w h : Int} (printable : ∀ c ∈ str, isPrintable c = true)
    (positive : 1 ≤ scale) :
    Paints w h (Rect.Holds ⟨x, y, fontTextWidth hangul str scale, fontH * scale⟩)
      fun s => fontDrawScaled hangul s x y str color scale := by
  have inLine : ∀ g ∈ glyphs hangul str, g.isNewline = false := by
    apply glyphs_inLine
    intro newline
    exact absurd (printable _ newline) (by decide)
  rw [fontTextWidth_glyphs inLine positive]
  simp only [fontDrawScaled_units hangul _ x y color inLine positive]
  apply drawUnits_paints hangul positive
  intro g unit cx
  exact drawLatin_paints hangul unit (printable _ (byteAt_mem_glyphs unit)) cx y positive color

theorem cursorAfter_glyphs (plain : 0 ∉ str) (inLine : 0x0A ∉ str) (positive : 1 ≤ scale) :
    cursorAfter x scale (glyphs hangul str) =
      if str = [] then x else x + fontTextWidth hangul str scale + scale := by
  rw [fontTextWidth_glyphs (glyphs_inLine hangul inLine) positive]
  cases str with
  | nil =>
    rw [glyphs_nil, if_pos rfl]
    simp [cursorAfter]
  | cons c r =>
    have notNul : c ≠ 0 := by
      rintro rfl
      exact plain List.mem_cons_self
    have some : glyphs hangul (c :: r) ≠ [] := by
      rw [glyphs_cons hangul notNul]
      exact List.cons_ne_nil _ _
    rw [if_neg (List.cons_ne_nil c r), cursorAfter, lineWidth, Wrap.width_of_ne some]
    ring

/-- Drawing and measuring agree, byte for byte and part by part. -/
theorem drawsInBox (stride : s.w ≤ s.stride) (plain : 0 ∉ str) (inLine : 0x0A ∉ str)
    (positive : 1 ≤ scale) : DrawsInBox hangul s x y str color scale := by
  constructor
  · exact fontTextWidth_mem hangul str scale
  · rw [fontDrawScaled_mem hangul s x y color plain inLine positive,
      cursorAfter_glyphs hangul x plain inLine positive]
  · intro px py hx hx' hy out
    apply (fontDrawScaled_paints hangul x y color (glyphs_inLine hangul inLine) positive).outside
      rfl rfl stride hx hx' hy
    unfold Rect.Holds
    simp only [hangulH]
    omega
  · rintro a b gs hs rfl units rfl
    rw [List.mem_append, not_or] at plain inLine
    have before : glyphs hangul (flat gs) = gs := glyphs_cut units
    have behind := glyphs_drop units
    rw [List.drop_left] at behind
    refine ⟨_, _, fontDrawScaled_mem hangul s x y color plain.1 inLine.1 positive, ?_⟩
    have whole : 0x0A ∉ flat gs ++ b := by
      rw [List.mem_append, not_or]
      exact inLine
    have inA := glyphs_inLine hangul inLine.1
    have inB := glyphs_inLine hangul inLine.2
    rw [fontDrawScaled_mem hangul _ _ y color plain.2 inLine.2 positive, Option.map_some,
      fontDrawScaled_units hangul s x y color (glyphs_inLine hangul whole) positive, units,
      drawUnits_append, fontDrawScaled_units hangul _ _ y color inB positive, behind,
      fontDrawScaled_units hangul s x y color inA positive, before]

end Text

theorem drawsInBox_mixed :
    fontTextWidth ⟨#[0xAC00], #[#[1, 3]]⟩ [0x78, 0xEA, 0xB0, 0x80, 0xE2] 2 = 60 ∧
      DrawsInBox ⟨#[0xAC00], #[#[1, 3]]⟩ ⟨fun _ => 0, 80, 40, 80⟩ 2 1
        [0x78, 0xEA, 0xB0, 0x80, 0xE2] 0xFF000000 2 :=
  ⟨by decide +kernel,
    drawsInBox _ _ 2 1 _ (by decide) (by decide) (by decide) (by decide)⟩

end InstagramNt40.Font
