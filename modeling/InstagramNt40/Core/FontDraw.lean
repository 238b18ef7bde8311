import InstagramNt40.Core.FontGlyphs
import InstagramNt40.Core.RasterPixel

/-!
# Drawing the units of a string

`font_draw_scaled` draws the units of a string next to each other, where `measure` puts
them: the same units, the same advances.
-/
namespace InstagramNt40.Font

open Loop Raster

variable (hangul : HangulData)

/-- Draw one unit. -/
def drawUnit (y scale : Int) (color : UInt32) (cx : Int) (g : Glyph) (s : Surface) : Surface :=
  if isPrintable (byteAt g.bytes 0) then
    drawGlyph (latinRows (byteAt g.bytes 0)) fontW fontH cx y scale color s
  else if hangulAt hangul g.bytes ≥ 0 then
    drawGlyph (hangulRows hangul (hangulAt hangul g.bytes)) hangulW hangulH cx y scale color s
  else s

/-- Draw units from the cursor `cx` on. -/
def drawUnits (y scale : Int) (color : UInt32) : Int → List Glyph → Surface → Surface
  | _, [], s => s
  | cx, g :: gs, s =>
    drawUnits y scale color (cx + g.adv * scale) gs (drawUnit hangul y scale color cx g s)

/-- The cursor after some units. -/
def cursorAfter (cx scale : Int) (gs : List Glyph) : Int := cx + (gs.map Glyph.adv).sum * scale

theorem cursorAfter_cons (cx scale : Int) (g : Glyph) (gs : List Glyph) :
    cursorAfter cx scale (g :: gs) = cursorAfter (cx + g.adv * scale) scale gs := by
  unfold cursorAfter
  rw [List.map_cons, List.sum_cons]
  ring

theorem drawUnits_append (y scale : Int) (color : UInt32) (cx : Int) (gs hs : List Glyph)
    (s : Surface) :
    drawUnits hangul y scale color cx (gs ++ hs) s =
      drawUnits hangul y scale color (cursorAfter cx scale gs) hs
        (drawUnits hangul y scale color cx gs s) := by
  induction gs generalizing cx s with
  | nil => simp [drawUnits, cursorAfter]
  | cons g gs ih =>
    rw [List.cons_append, drawUnits, ih, cursorAfter_cons]
    rfl

/-! ### The loop draws units -/

/-- The bytes of a unit, as the loop looks at them. -/
theorem firstGlyph_byteAt (c : UInt8) (r : List UInt8) :
    byteAt (firstGlyph hangul (c :: r)).bytes 0 = c := by
  obtain ⟨n, count⟩ := Nat.exists_eq_add_of_lt (glyphAt_pos hangul (c :: r))
  rw [firstGlyph_bytes, count, Nat.zero_add, List.take_succ_cons]
  rfl

theorem glyphAt_printable {c : UInt8} (r : List UInt8) (printable : isPrintable c = true) :
    glyphAt hangul (c :: r) = (1, fontAdv) := if_pos printable

theorem glyphAt_other {c : UInt8} (r : List UInt8) (other : ¬isPrintable c = true) :
    glyphAt hangul (c :: r) =
      (seqLen (c :: r), if hangulAt hangul (c :: r) ≥ 0 then hangulAdv else fontAdv) :=
  if_neg other

theorem firstGlyph_hangulAt {c : UInt8} (r : List UInt8) (other : ¬isPrintable c = true) :
    hangulAt hangul (firstGlyph hangul (c :: r)).bytes = hangulAt hangul (c :: r) := by
  obtain ⟨d, first⟩ : ∃ d, (firstGlyph hangul (c :: r)).bytes = c :: d := by
    obtain ⟨n, count⟩ := Nat.exists_eq_add_of_lt (glyphAt_pos hangul (c :: r))
    exact ⟨r.take n, by rw [firstGlyph_bytes, count, Nat.zero_add, List.take_succ_cons]⟩
  have whole := firstGlyph_split hangul (c :: r)
  have length := firstGlyph_length hangul c r
  rw [first] at whole length
  rw [first]
  conv_rhs => rw [← whole]
  rw [hangulAt_append]
  rw [whole, length, glyphAt_other hangul r other]

/-- Without a newline the loop draws the units one after the other. -/
theorem drawLoop_units (x : Int) (color : UInt32) (scale : Int) (s : Surface) (cx y : Int)
    (str : List UInt8) (inLine : ∀ g ∈ glyphs hangul str, g.isNewline = false) :
    drawLoop hangul x color scale s cx y str =
      drawUnits hangul y scale color cx (glyphs hangul str) s := by
  fun_induction drawLoop hangul x color scale s cx y str with
  | case1 s => rw [glyphs_nil, drawUnits]
  | case2 s cx y r => rw [glyphs_nul, drawUnits]
  | case3 s cx y r notNul ih =>
    have newline := inLine _ (glyphs_cons hangul notNul r ▸ List.mem_cons_self)
    rw [(firstGlyph_isNewline hangul 0x0A r).mpr rfl] at newline
    cases newline
  | case4 s cx y c r notNul other printable t ih =>
    rw [glyphs_cons hangul notNul] at inLine ⊢
    rw [List.forall_mem_cons, glyphAt_printable hangul r printable, List.drop_succ_cons,
      List.drop_zero] at inLine
    rw [drawUnits, glyphAt_printable hangul r printable, firstGlyph_adv,
      glyphAt_printable hangul r printable, ih inLine.2]
    unfold drawUnit
    rw [firstGlyph_byteAt, if_pos printable]
    rfl
  | case5 s cx y c r notNul other wide found t ih =>
    rw [glyphs_cons hangul notNul] at inLine ⊢
    rw [List.forall_mem_cons, glyphAt_other hangul r wide] at inLine
    rw [drawUnits, glyphAt_other hangul r wide, firstGlyph_adv, glyphAt_other hangul r wide,
      if_pos found, ih inLine.2]
    unfold drawUnit
    rw [firstGlyph_byteAt, if_neg wide, firstGlyph_hangulAt hangul r wide, if_pos found,
      if_pos found]
  | case6 s cx y c r notNul other wide none ih =>
    rw [glyphs_cons hangul notNul] at inLine ⊢
    rw [List.forall_mem_cons, glyphAt_other hangul r wide] at inLine
    rw [drawUnits, glyphAt_other hangul r wide, firstGlyph_adv, glyphAt_other hangul r wide,
      if_neg none, ih inLine.2]
    unfold drawUnit
    rw [firstGlyph_byteAt, if_neg wide, firstGlyph_hangulAt hangul r wide, if_neg none,
      if_neg none]

/-! ### Where units are drawn -/

/-- A multiple of the scale inside a multiple of the scale. -/
theorem cell_inside {scale : Int} (positive : 1 ≤ scale) {i n : Nat} (less : i < n) :
    0 ≤ i * scale ∧ i * scale + scale ≤ n * scale := by
  constructor
  · exact Int.mul_nonneg (Int.natCast_nonneg i) (by omega)
  · have most : ((i + 1 : Nat) : Int) * scale ≤ n * scale :=
      Int.mul_le_mul_of_nonneg_right (by omega) (by omega)
    rwa [Nat.cast_succ, Int.add_mul, Int.one_mul] at most

theorem drawGlyph_paints {w h : Int} (rows : Nat → Nat) (cols lines : Nat) (cx y : Int)
    {scale : Int} (positive : 1 ≤ scale) (color : UInt32) :
    Paints w h (Rect.Holds ⟨cx, y, cols * scale, lines * scale⟩)
      (drawGlyph rows cols lines cx y scale color) := by
  apply Paints.loop
  intro row lastRow
  apply Paints.loop
  intro col lastCol
  apply Paints.ite
  · intro _
    apply (Paints.blendRect _ color).mono
    intro px py within
    have right := cell_inside positive lastCol
    have bottom := cell_inside positive lastRow
    unfold Rect.Holds at within ⊢
    dsimp only at within ⊢
    omega
  · intro _
    exact Paints.nothing

/-- The units of strings: a character or a Hangul glyph is as wide as its advance, less
the gap. -/
theorem glyphs_adv {str : List UInt8} {g : Glyph} (unit : g ∈ glyphs hangul str) :
    (isPrintable (byteAt g.bytes 0) = true → g.adv = fontAdv) ∧
      (¬isPrintable (byteAt g.bytes 0) = true → hangulAt hangul g.bytes ≥ 0 →
        g.adv = hangulAdv) := by
  fun_induction glyphs hangul str with
  | case1 => cases unit
  | case2 => cases unit
  | case3 c r notNul ih =>
    rcases List.mem_cons.mp unit with rfl | later
    · rw [firstGlyph_byteAt]
      constructor
      · intro printable
        rw [firstGlyph_adv, glyphAt_printable hangul r printable]
      · intro other found
        rw [firstGlyph_hangulAt hangul r other] at found
        rw [firstGlyph_adv, glyphAt_other hangul r other, if_pos found]
    · exact ih later

theorem drawUnit_paints {w h : Int} {str : List UInt8} {g : Glyph}
    (unit : g ∈ glyphs hangul str) (cx y : Int) {scale : Int} (positive : 1 ≤ scale)
    (color : UInt32) :
    Paints w h (Rect.Holds ⟨cx, y, (g.adv - 1) * scale, hangulH * scale⟩)
      (drawUnit hangul y scale color cx g) := by
  obtain ⟨narrow, wide⟩ := glyphs_adv hangul unit
  apply Paints.ite
  · intro printable
    apply (drawGlyph_paints _ _ _ _ _ positive color).mono
    intro px py within
    rw [narrow printable]
    unfold Rect.Holds at within ⊢
    simp only [fontW, fontH, fontAdv, hangulH] at within ⊢
    omega
  · intro other
    apply Paints.ite
    · intro found
      rw [wide other found]
      exact drawGlyph_paints _ _ _ _ _ positive color
    · intro _
      exact Paints.nothing

/-- A character needs the rows of the small font only. -/
theorem drawLatin_paints {w h : Int} {str : List UInt8} {g : Glyph}
    (unit : g ∈ glyphs hangul str) (printable : isPrintable (byteAt g.bytes 0) = true)
    (cx y : Int) {scale : Int} (positive : 1 ≤ scale) (color : UInt32) :
    Paints w h (Rect.Holds ⟨cx, y, (g.adv - 1) * scale, fontH * scale⟩)
      (drawUnit hangul y scale color cx g) := by
  unfold drawUnit
  simp only [if_pos printable]
  rw [(glyphs_adv hangul unit).1 printable]
  exact drawGlyph_paints _ _ _ _ _ positive color

/-- The box of some units, `rows` high. -/
def textBox (x y scale rows : Int) (gs : List Glyph) : Rect :=
  ⟨x, y, lineWidth gs * scale, rows * scale⟩

theorem cursorAfter_ge (cx : Int) {scale : Int} (positive : 1 ≤ scale) (gs : List Glyph) :
    cx ≤ cursorAfter cx scale gs := by
  have width : 0 ≤ (gs.map Glyph.adv).sum * scale :=
    Int.mul_nonneg (Wrap.sum_nonneg Glyph.positive gs) (by omega)
  unfold cursorAfter
  omega

theorem lineWidth_right (x scale : Int) {gs : List Glyph} (some : gs ≠ []) :
    x + lineWidth gs * scale = cursorAfter x scale gs - scale := by
  unfold cursorAfter lineWidth
  rw [Wrap.width_of_ne some]
  ring

/-- Units that are drawn in their cells are drawn in the box of all. -/
theorem drawUnits_paints {w h : Int} {y scale rows : Int} {color : UInt32}
    (positive : 1 ≤ scale) {gs : List Glyph}
    (cells : ∀ g ∈ gs, ∀ cx, Paints w h (Rect.Holds ⟨cx, y, (g.adv - 1) * scale, rows * scale⟩)
      (drawUnit hangul y scale color cx g)) (cx : Int) :
    Paints w h (textBox cx y scale rows gs).Holds (drawUnits hangul y scale color cx gs) := by
  induction gs generalizing cx with
  | nil => exact Paints.nothing
  | cons g gs ih =>
    rw [List.forall_mem_cons] at cells
    have right := lineWidth_right cx scale (List.cons_ne_nil g gs)
    rw [cursorAfter_cons] at right
    have advance : 0 ≤ g.adv * scale := Int.mul_nonneg (by have := g.positive; omega) (by omega)
    have first : Paints w h (textBox cx y scale rows (g :: gs)).Holds
        (drawUnit hangul y scale color cx g) := by
      apply (cells.1 cx).mono
      intro px py within
      have least := cursorAfter_ge (cx + g.adv * scale) positive gs
      unfold Rect.Holds at within ⊢
      dsimp only [textBox] at within ⊢
      rw [Int.sub_mul] at within
      omega
    apply first.comp
    by_cases none : gs = []
    · rw [none]
      exact Paints.nothing
    · apply (ih cells.2 (cx + g.adv * scale)).mono
      intro px py within
      have rest := lineWidth_right (cx + g.adv * scale) scale none
      unfold Rect.Holds at within ⊢
      dsimp only [textBox] at within ⊢
      omega

end InstagramNt40.Font
