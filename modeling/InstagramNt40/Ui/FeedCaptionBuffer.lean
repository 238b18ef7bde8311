import InstagramNt40.Ui.FeedCaptionDraw

/-!
# What the line buffer holds

`draw_line` copies a line into 512 bytes. A line is limited in pixels only: from a width of
767 on there is one that does not fit.
-/
namespace InstagramNt40.Feed

open Crt Loop Raster Font

variable (hangul : HangulData)

/-! ### Lines that are shown whole -/

/-- The lines that are shown whole draw all their bytes. -/
def Rendered (cw : Int) (caption : CString) (expanded : Bool) : Prop :=
  let lines := wrapCaption hangul (some caption) cw
  let visible := visibleLines hangul cw (some caption) expanded
  let truncated := !expanded && captionLinesCollapsed < lines.length
  ∀ i line, i < visible → lines[i]? = some line → ¬(truncated = true ∧ i = visible - 1) →
    lineText (caption.drop line.off) line.len = line.bytes caption ∧
      ∀ s cx y, captionLine hangul s cx y cw caption lines truncated visible i =
        fontDraw hangul s cx y (line.bytes caption) cInk

/-- The greedy lines that are shown whole. -/
def wholeRows (cw : Int) (caption : CString) (expanded : Bool) : List (List Glyph) :=
  let rows := captionRows hangul cw caption
  if expanded then rows.take captionLinesHardCap
  else if rows.length ≤ captionLinesCollapsed then rows
  else rows.take (captionLinesCollapsed - 1)

section Buffer

variable {cw : Int} {caption : CString} {expanded : Bool}

theorem lineText_whole_iff {i : Nat} {line : CapLine}
    (shown : (wrapCaption hangul (some caption) cw)[i]? = some line) :
    lineText (caption.drop line.off) line.len = line.bytes caption ↔
      line.len ≤ lineBufCap - 1 := by
  obtain ⟨len, -⟩ := wrapCaption_line hangul shown
  dsimp only [Option.getD_some] at len
  constructor
  · intro same
    by_contra long
    have size : (line.bytes caption).length = line.len := by
      rw [CapLine.bytes, len, take_firstLine]
      rfl
    rw [← same, lineText, if_pos (by omega), List.length_take] at size
    omega
  · intro short
    rw [lineText_take _ short]
    rfl

/-- What the buffer holds is drawn. -/
theorem rendered_line {truncated : Bool} {visible i : Nat} {line : CapLine}
    (shown : (wrapCaption hangul (some caption) cw)[i]? = some line)
    (whole : ¬(truncated = true ∧ i = visible - 1)) (short : line.len ≤ lineBufCap - 1) :
    lineText (caption.drop line.off) line.len = line.bytes caption ∧
      ∀ s cx y, captionLine hangul s cx y cw caption (wrapCaption hangul (some caption) cw)
        truncated visible i = fontDraw hangul s cx y (line.bytes caption) cInk := by
  constructor
  · exact (lineText_whole_iff hangul shown).mpr short
  · intro s cx y
    have bytes : line.bytes caption = flat (firstLine hangul cw (caption.drop line.off)) := by
      rw [CapLine.bytes, (wrapCaption_line hangul shown).1]
      exact take_firstLine hangul cw _
    rw [bytes]
    exact captionLine_whole hangul shown whole short s cx y

/-- Row `i` is shown whole if line `i` is. -/
theorem wholeRows_getElem? (i : Nat) :
    (wholeRows hangul cw caption expanded)[i]? =
      if i < visibleLines hangul cw (some caption) expanded ∧
          ¬((!expanded && captionLinesCollapsed <
            (wrapCaption hangul (some caption) cw).length) = true ∧
            i = visibleLines hangul cw (some caption) expanded - 1) then
        (captionRows hangul cw caption)[i]?
      else none := by
  unfold visibleLines wholeRows
  dsimp only
  rw [wrapCaption_length]
  generalize captionRows hangul cw caption = rows
  have collapsed : captionLinesCollapsed = 2 := rfl
  have cap : captionLinesHardCap = 60 := rfl
  cases expanded with
  | true =>
    simp only [if_pos, true_or, Bool.not_true, Bool.false_and, Bool.false_eq_true, false_and,
      not_false_eq_true, and_true, List.getElem?_take]
    by_cases inside : i < rows.length
    · congr 1
      rw [eq_iff_iff]
      omega
    · rw [List.getElem?_eq_none (by omega), ite_self, ite_self]
  | false =>
    simp only [Bool.false_eq_true, if_false, false_or, Bool.not_false, Bool.true_and,
      decide_eq_true_eq]
    by_cases few : rows.length ≤ captionLinesCollapsed
    · have all : min captionLinesHardCap rows.length ≤ captionLinesCollapsed := by omega
      rw [if_pos few, if_pos all]
      by_cases inside : i < rows.length
      · rw [if_pos (by omega)]
      · rw [List.getElem?_eq_none (by omega), ite_self]
    · have more : ¬min captionLinesHardCap rows.length ≤ captionLinesCollapsed := by omega
      rw [if_neg few, if_neg more, List.getElem?_take]
      congr 1
      rw [eq_iff_iff]
      omega

/-- The lines are as long as the rows they show. -/
theorem wrapCaption_row (i : Nat) (inside : i < captionLinesHardCap) :
    ((wrapCaption hangul (some caption) cw)[i]?).map CapLine.len =
      ((captionRows hangul cw caption)[i]?).map fun row => (flat row).length := by
  have lens : ((wrapCaption hangul (some caption) cw).map CapLine.len)[i]? = _ :=
    congrArg (·[i]?) (wrapLoop_len hangul cw captionLinesHardCap 0 caption)
  rwa [List.getElem?_map, List.getElem?_map, List.getElem?_take, if_pos inside] at lens

/-- Nothing is lost exactly if no line that is shown whole is longer than the buffer. -/
theorem rendered_iff : Rendered hangul cw caption expanded ↔
    ∀ row ∈ wholeRows hangul cw caption expanded, (flat row).length ≤ lineBufCap - 1 := by
  have most := visibleLines_le hangul cw (some caption) expanded
  constructor
  · intro rendered row member
    obtain ⟨i, found⟩ := List.mem_iff_getElem?.mp member
    rw [wholeRows_getElem?] at found
    obtain ⟨⟨visible, whole⟩, shown⟩ := Option.ite_none_right_eq_some.mp found
    have inside : i < captionLinesHardCap := by omega
    have len : ((wrapCaption hangul (some caption) cw)[i]?).map CapLine.len = _ :=
      wrapCaption_row hangul i inside
    rw [shown, Option.map_some] at len
    obtain ⟨line, there, same⟩ := Option.map_eq_some_iff.mp len
    rw [← same]
    exact (lineText_whole_iff hangul there).mp (rendered i line visible there whole).1
  · intro short i line visible there whole
    have inside : i < captionLinesHardCap := by omega
    have len : ((wrapCaption hangul (some caption) cw)[i]?).map CapLine.len = _ :=
      wrapCaption_row hangul i inside
    rw [there, Option.map_some] at len
    obtain ⟨row, shown, same⟩ := Option.map_eq_some_iff.mp len.symm
    have member : row ∈ wholeRows hangul cw caption expanded := by
      apply List.mem_of_getElem?
      rw [wholeRows_getElem?, if_pos ⟨visible, whole⟩, shown]
    have fits := short row member
    rw [same] at fits
    exact rendered_line hangul there whole fits

/-- A unit has at most four bytes. -/
theorem glyphs_bytes_le {str : CString} {g : Glyph} (unit : g ∈ glyphs hangul str) :
    g.bytes.length ≤ 4 := by
  fun_induction glyphs hangul str with
  | case1 => cases unit
  | case2 => cases unit
  | case3 c r notNul ih =>
    rcases List.mem_cons.mp unit with rfl | later
    · rw [firstGlyph_length]
      by_cases printable : isPrintable c = true
      · rw [glyphAt_printable hangul r printable]
        decide
      · rw [glyphAt_other hangul r printable]
        unfold seqLen utf8SeqLen
        dsimp only
        split_ifs <;> decide
    · exact ih later

/-- Six pixels and four bytes bound each unit of a line. -/
theorem units_bounds {str : CString} {gs : List Glyph} (units : ∀ g ∈ gs, g ∈ glyphs hangul str) :
    6 * (gs.length : Int) ≤ (gs.map Glyph.adv).sum ∧ (flat gs).length ≤ 4 * gs.length := by
  induction gs with
  | nil => exact ⟨Int.le_refl 0, Nat.le_refl 0⟩
  | cons g gs ih =>
    rw [List.forall_mem_cons] at units
    obtain ⟨width, bytes⟩ := ih units.2
    have adv := glyphs_adv_le hangul units.1
    have size := glyphs_bytes_le hangul units.1
    rw [List.map_cons, List.sum_cons, flat_cons, List.length_append, List.length_cons]
    simp only [fontAdv, hangulAdv, hangulW] at adv
    push_cast
    omega

/-- A line of at most 766 pixels has at most 127 units. -/
theorem lineLen_le (limited : 0 ≤ cw) (narrow : cw ≤ 766) (p : CString) :
    lineLen hangul cw p ≤ lineBufCap - 1 := by
  have units : ∀ g ∈ firstLine hangul cw p, g ∈ glyphs hangul p :=
    fun g member => List.mem_of_mem_take member
  have fits : Wrap.Fits Glyph.adv cw (firstLine hangul cw p) := Wrap.fit_fits limited _
  obtain ⟨width, bytes⟩ := units_bounds hangul units
  unfold lineLen lineBufCap
  rcases fits with short | single
  · by_cases none : firstLine hangul cw p = []
    · simp [none]
    · rw [Wrap.width_of_ne none] at short
      omega
  · omega

/-! A long line: characters of four bytes. -/

def fourBytes (n : Nat) : CString := (List.replicate n [0xF0, 0x9F, 0x98, 0x80]).flatten

def fourBytesGlyph : Glyph := ⟨[0xF0, 0x9F, 0x98, 0x80], fontAdv, by decide⟩

theorem glyphs_fourBytes (n : Nat) :
    glyphs hangul (fourBytes n) = List.replicate n fourBytesGlyph := by
  induction n with
  | zero => exact glyphs_nil hangul
  | succ n ih =>
    have valid : utf8SeqValid (0xF0 :: 0x9F :: 0x98 :: 0x80 :: fourBytes n) 4 = true := by
      have marked : (159 : UInt8) &&& 192 = 128 ∧ (152 : UInt8) &&& 192 = 128 ∧
          (128 : UInt8) &&& 192 = 128 := by decide
      simpa [utf8SeqValid, List.range'_succ, byteAt] using marked
    have four : seqLen (0xF0 :: 0x9F :: 0x98 :: 0x80 :: fourBytes n) = 4 := by
      have lead : utf8SeqLen 0xF0 = 4 := by decide
      rw [seqLen, byteAt_cons_zero, lead, if_neg fun both => both.2 valid]
    have unit : glyphAt hangul (0xF0 :: 0x9F :: 0x98 :: 0x80 :: fourBytes n) = (4, fontAdv) := by
      rw [glyphAt_other hangul _ (by decide), hangulAt, four]
      rfl
    have first : firstGlyph hangul (0xF0 :: 0x9F :: 0x98 :: 0x80 :: fourBytes n) =
        fourBytesGlyph := by
      ext1
      · rw [firstGlyph_bytes, unit]
        rfl
      · rw [firstGlyph_adv, unit]
        rfl
    have text : fourBytes (n + 1) = 0xF0 :: 0x9F :: 0x98 :: 0x80 :: fourBytes n := rfl
    rw [text, glyphs_cons hangul (by decide), first, unit, List.replicate_succ, ← ih]
    rfl

/-- 128 of them are one line of 767 pixels and 512 bytes. -/
theorem captionRows_fourBytes (wide : 767 ≤ cw) :
    captionRows hangul cw (fourBytes 128) = [List.replicate 128 fourBytesGlyph] := by
  unfold captionRows
  rw [glyphs_fourBytes]
  have some : List.replicate 128 fourBytesGlyph ≠ [] := by simp
  have inLine : ∀ g ∈ List.replicate 128 fourBytesGlyph, g.isNewline = false := by
    intro g member
    rw [List.eq_of_mem_replicate member]
    rfl
  have fits : Wrap.Fits Glyph.adv cw (List.replicate 128 fourBytesGlyph) := by
    left
    rw [Wrap.width_of_ne some, List.map_replicate, List.sum_replicate]
    have sum : 128 • fourBytesGlyph.adv = 768 := by decide
    omega
  have all := Wrap.le_fitAfter Glyph.positive cw [] (List.replicate 128 fourBytesGlyph) [] inLine
    fits
  rw [List.append_nil] at all
  have whole := List.take_of_length_le all
  have rest := List.drop_of_length_le all
  rw [Wrap.lines_cons _ _ _ some, Wrap.next, Wrap.fit, whole, rest, Wrap.skipBreak,
    Wrap.lines_nil]

theorem flat_fourBytes (n : Nat) : (flat (List.replicate n fourBytesGlyph)).length = 4 * n := by
  induction n with
  | zero => rfl
  | succ n ih =>
    rw [List.replicate_succ, flat_cons, List.length_append, ih]
    simp only [fourBytesGlyph, List.length_cons, List.length_nil]
    omega

theorem not_rendered_fourBytes (wide : 767 ≤ cw) (expanded : Bool) :
    ¬Rendered hangul cw (fourBytes 128) expanded := by
  intro rendered
  have short := (rendered_iff hangul).mp rendered (List.replicate 128 fourBytesGlyph)
  unfold wholeRows at short
  rw [captionRows_fourBytes hangul wide] at short
  have shown : List.replicate 128 fourBytesGlyph ∈ (if expanded = true then
      [List.replicate 128 fourBytesGlyph].take captionLinesHardCap else
      [List.replicate 128 fourBytesGlyph]) := by
    cases expanded <;> exact List.mem_singleton_self _
  have long := short shown
  rw [flat_fourBytes] at long
  exact absurd long (by decide)

end Buffer

theorem not_captionRendered :
    ¬∀ (caption : CString) (expanded : Bool), Rendered ⟨#[], #[]⟩ 772 caption expanded :=
  fun rendered =>
    not_rendered_fourBytes ⟨#[], #[]⟩ (by decide) false (rendered (fourBytes 128) false)

/-- The line buffer loses nothing exactly if no line that is shown whole has more than
511 bytes; whatever the caption, that is so up to a width of 766. -/
theorem captionRendered_iff {cw : Int} (positive : 1 ≤ cw) :
    (∀ caption expanded, Rendered hangul cw caption expanded ↔
      ∀ row ∈ wholeRows hangul cw caption expanded, (flat row).length ≤ 511) ∧
    ((∀ caption expanded, Rendered hangul cw caption expanded) ↔ cw ≤ 766) := by
  constructor
  · intro caption expanded
    exact rendered_iff hangul
  · constructor
    · intro rendered
      by_contra wide
      exact not_rendered_fourBytes hangul (by omega) false (rendered (fourBytes 128) false)
    · intro narrow caption expanded i line visible shown whole
      apply rendered_line hangul shown whole
      rw [(wrapCaption_line hangul shown).1]
      exact lineLen_le hangul (by omega) narrow _

theorem captionRendered_iff_narrow :
    Rendered ⟨#[], #[]⟩ 766 (fourBytes 128) false ∧
      ¬∀ caption expanded, Rendered ⟨#[], #[]⟩ 767 caption expanded :=
  ⟨((captionRendered_iff ⟨#[], #[]⟩ (by decide)).2.mpr (by decide)) (fourBytes 128) false,
    fun all => absurd ((captionRendered_iff ⟨#[], #[]⟩ (by decide)).2.mp all) (by decide)⟩

end InstagramNt40.Feed
