import InstagramNt40.Core.FontMemory
import InstagramNt40.Ui.FeedCaption

/-!
# Drawing a caption block

The text lines of a block below each other: each is drawn in rows of its own and inside
the card, as long as the line buffer takes whole lines.
-/
namespace InstagramNt40.Feed

open Crt Loop Raster Font

variable (hangul : HangulData)

/-! ### The text of a line -/

theorem firstLine_inLine (maxW : Int) (p : CString) :
    ∀ g ∈ firstLine hangul maxW p, g.isNewline = false := Wrap.fit_inLine _ _

/-- The bytes of a first line are a string of these units. -/
theorem glyphs_firstLine (maxW : Int) (p : CString) :
    glyphs hangul (flat (firstLine hangul maxW p)) = firstLine hangul maxW p :=
  glyphs_cut (firstLine_append hangul maxW p)

theorem take_firstLine (maxW : Int) (p : CString) :
    p.take (lineLen hangul maxW p) = flat (firstLine hangul maxW p) := by
  have inText : flat (firstLine hangul maxW p) <+: p := by
    have all := glyphs_flat hangul p
    rw [firstLine_append hangul maxW p, flat_append] at all
    exact (all ▸ List.prefix_append _ _).trans (List.takeWhile_prefix _)
  exact (List.prefix_iff_eq_take.mp inText).symm

theorem firstLine_textInLine (maxW : Int) (p : CString) :
    ∀ g ∈ glyphs hangul (flat (firstLine hangul maxW p)), g.isNewline = false := by
  rw [glyphs_firstLine]
  exact firstLine_inLine hangul maxW p

theorem fontTextWidth_firstLine (maxW : Int) (p : CString) :
    fontTextWidth hangul (flat (firstLine hangul maxW p)) 1 =
      lineWidth (firstLine hangul maxW p) := by
  rw [fontTextWidth_glyphs (firstLine_textInLine hangul maxW p) (Int.le_refl 1),
    glyphs_firstLine, Int.mul_one]

theorem glyphs_adv_le {str : CString} {g : Glyph} (unit : g ∈ glyphs hangul str) :
    g.adv = fontAdv ∨ g.adv = hangulAdv := by
  fun_induction glyphs hangul str with
  | case1 => cases unit
  | case2 => cases unit
  | case3 c r notNul ih =>
    rcases List.mem_cons.mp unit with rfl | later
    · exact glyphAt_adv hangul (c :: r)
    · exact ih later

/-- A line that has room for a Hangul glyph is not too wide. -/
theorem firstLine_width {maxW : Int} (room : hangulW ≤ maxW) (p : CString) :
    fontTextWidth hangul (flat (firstLine hangul maxW p)) 1 ≤ maxW := by
  rw [fontTextWidth_firstLine]
  have positive : 0 ≤ maxW := le_trans (by decide) room
  have fits : Wrap.Fits Glyph.adv maxW (firstLine hangul maxW p) := Wrap.fit_fits positive _
  rcases fits with narrow | single
  · exact narrow
  · cases line : firstLine hangul maxW p with
    | nil => exact positive
    | cons g gs =>
      rw [line, List.length_cons] at single
      have alone : gs = [] := List.length_eq_zero_iff.mp (by omega)
      subst alone
      have unit : g ∈ glyphs hangul p := by
        apply List.mem_of_mem_take
        rw [← firstLine.eq_def, line]
        exact List.mem_cons_self
      have adv := glyphs_adv_le hangul unit
      rw [lineWidth, Wrap.width_of_ne (List.cons_ne_nil g []), List.map_singleton,
        List.sum_singleton]
      simp only [fontAdv, hangulAdv, hangulW] at adv room
      omega

/-- A narrower line is the beginning of a wider one. -/
theorem firstLine_prefix {w w' : Int} (limited : 0 ≤ w) (wider : w ≤ w') (p : CString) :
    firstLine hangul w p <+: firstLine hangul w' p := by
  have fits : Wrap.Fits Glyph.adv w (firstLine hangul w p) := Wrap.fit_fits limited _
  have most := Wrap.le_fitAfter Glyph.positive w' [] (firstLine hangul w p)
    ((glyphs hangul p).drop (Wrap.fit Glyph.adv Glyph.isNewline w (glyphs hangul p)))
    (firstLine_inLine hangul w p) (fits.widen wider)
  rw [← firstLine_append] at most
  apply List.prefix_of_prefix_length_le (List.take_prefix _ _)
    (List.take_prefix _ (glyphs hangul p))
  rw [List.length_take, List.length_take]
  rw [firstLine, List.length_take] at most
  change Wrap.fit Glyph.adv Glyph.isNewline w (glyphs hangul p) ⊓ _ ≤
    Wrap.fit Glyph.adv Glyph.isNewline w' (glyphs hangul p) at most
  omega

/-! ### The label -/

/-- A unit that is no ASCII, of `n` bytes. -/
theorem glyphs_wide {c : UInt8} {r : CString} {n : Nat} (other : ¬isPrintable c = true)
    (notNul : c ≠ 0) (len : seqLen (c :: r) = n) :
    glyphs hangul (c :: r) = firstGlyph hangul (c :: r) :: glyphs hangul ((c :: r).drop n) := by
  rw [glyphs_cons hangul notNul, glyphAt_other hangul r other, len]

theorem moreLabel_bytes :
    moreLabel = [0x20, 0xEB, 0x8D, 0x94, 0xEB, 0xB3, 0xB4, 0xEA, 0xB8, 0xB0] := by decide +kernel

/-- The units of the label: a space and three syllables. -/
theorem glyphs_moreLabel :
    ∃ space a b c, glyphs hangul moreLabel = [space, a, b, c] ∧ space.adv = fontAdv := by
  refine ⟨firstGlyph hangul moreLabel, firstGlyph hangul (moreLabel.drop 1),
    firstGlyph hangul (moreLabel.drop 4), firstGlyph hangul (moreLabel.drop 7), ?_, ?_⟩
  · have first := glyphs_wide hangul (c := 0xEB) (r := [0x8D, 0x94, 0xEB, 0xB3, 0xB4, 0xEA, 0xB8,
      0xB0]) (n := 3) (by decide) (by decide) (by decide)
    have second := glyphs_wide hangul (c := 0xEB) (r := [0xB3, 0xB4, 0xEA, 0xB8, 0xB0]) (n := 3)
      (by decide) (by decide) (by decide)
    have third := glyphs_wide hangul (c := 0xEA) (r := [0xB8, 0xB0]) (n := 3) (by decide)
      (by decide) (by decide)
    rw [moreLabel_bytes, glyphs_cons hangul (by decide), glyphAt_printable hangul _ (by decide)]
    simp only [List.drop_succ_cons, List.drop_zero] at first second third ⊢
    rw [first, second, third, glyphs_nil]
  · rw [moreLabel_bytes, firstGlyph_adv, glyphAt_printable hangul _ (by decide)]

theorem moreLabel_inLine : ∀ g ∈ glyphs hangul moreLabel, g.isNewline = false := by
  apply glyphs_inLine
  rw [moreLabel_bytes]
  decide

theorem fontTextWidth_nonneg (p : CString) : 0 ≤ fontTextWidth hangul p 1 := by
  unfold fontTextWidth
  rw [measure_glyphs, if_neg (by decide), Int.mul_one]
  exact Wrap.width_nonneg Glyph.positive _

theorem fontTextWidth_moreLabel : fontTextWidth hangul moreLabel 1 ≤ 62 := by
  obtain ⟨space, a, b, c, units, narrow⟩ := glyphs_moreLabel hangul
  have wide : ∀ g ∈ [space, a, b, c], g.adv ≤ 19 := by
    intro g unit
    rw [← units] at unit
    rcases glyphs_adv_le hangul unit with adv | adv <;> rw [adv] <;> decide
  rw [fontTextWidth_glyphs (moreLabel_inLine hangul) (Int.le_refl 1), units, lineWidth,
    Wrap.width_of_ne (List.cons_ne_nil _ _)]
  simp only [List.forall_mem_cons] at wide
  simp only [List.map_cons, List.map_nil, List.sum_cons, List.sum_nil]
  simp only [fontAdv] at narrow
  omega

/-- A shortened line leaves room for the label. -/
theorem shortened_width {cw : Int} (wide : 80 ≤ cw) (p : CString) :
    fontTextWidth hangul (flat (firstLine hangul (cw - fontTextWidth hangul moreLabel 1) p)) 1 +
      fontTextWidth hangul moreLabel 1 ≤ cw := by
  have label := fontTextWidth_moreLabel hangul
  have room : (hangulW : Int) ≤ cw - fontTextWidth hangul moreLabel 1 := by
    simp only [hangulW]
    omega
  have narrow := firstLine_width hangul room p
  omega

/-! ### Lines of the block -/

/-- A text line of a block: its rows, and how it is drawn. -/
structure TextLine where
  y : Int
  rows : Int
  draw : Surface → Surface

/-- Line `i` of the caption, from `y` on. -/
def captionTextLine (cx y cw : Int) (caption : Option CString) (expanded : Bool) (i : Nat) :
    TextLine :=
  let lines := wrapCaption hangul caption cw
  ⟨y + i * fontWideLine, hangulH, fun s =>
    captionLine hangul s cx (y + i * fontWideLine) cw (caption.getD []) lines
      (!expanded && captionLinesCollapsed < lines.length) (visibleLines hangul cw caption expanded)
      i⟩

/-- The text lines of a block without comments. -/
def blockLines (cx cy cw : Int) (likes user : CString) (caption : Option CString)
    (expanded : Bool) : List TextLine :=
  ⟨cy, fontH, fun s => fontDraw hangul s cx cy likes cText⟩ ::
    ⟨cy + (fontLine + 1), hangulH, fun s => fontDraw hangul s cx (cy + (fontLine + 1)) user cText⟩ ::
    (List.range (visibleLines hangul cw caption expanded)).map
      (captionTextLine hangul cx (cy + (fontLine + 1) + fontWideLine) cw caption expanded)

theorem captionLines_fold (s : Surface) (cx y cw : Int) (caption : Option CString)
    (expanded : Bool) :
    (captionLines hangul (some s) cx y cw caption expanded).1 =
      some (((List.range (visibleLines hangul cw caption expanded)).map
        (captionTextLine hangul cx y cw caption expanded)).foldl
          (fun t line => line.draw t) s) := by
  unfold captionLines
  have walk : ∀ n : Nat, forLoop n (fun i (st : Option Surface × Int) =>
      (st.1.map fun s => captionLine hangul s cx st.2 cw (caption.getD [])
        (wrapCaption hangul caption cw)
        (!expanded && captionLinesCollapsed < (wrapCaption hangul caption cw).length)
        (visibleLines hangul cw caption expanded) i, st.2 + fontWideLine)) (some s, y) =
      (some (((List.range n).map (captionTextLine hangul cx y cw caption expanded)).foldl
        (fun t line => line.draw t) s), y + n * fontWideLine) := by
    intro n
    induction n with
    | zero => simp
    | succ n ih =>
      rw [forLoop_succ, ih, List.range_succ, List.map_append, List.foldl_append]
      dsimp only [Option.map_some, List.map_cons, List.map_nil, List.foldl_cons, List.foldl_nil]
      congr 1
      push_cast
      ring
  exact congrArg Prod.fst (walk _)

/-- A block is drawn line by line. -/
theorem captionBlock_fold (s : Surface) (cx cy cw : Int) (likes user : CString)
    (caption : Option CString) (expanded : Bool) :
    (captionBlock hangul (some s) cx cy cw likes user caption none expanded).1 =
      some ((blockLines hangul cx cy cw likes user caption expanded).foldl
        (fun t line => line.draw t) s) := by
  unfold captionBlock
  dsimp only [Option.map_some]
  rw [captionLines_fold]
  rfl

/-! ### What a line draws -/

theorem lineText_take (text : CString) {len : Nat} (short : len ≤ lineBufCap - 1) :
    lineText text len = text.take len := by
  rw [lineText, if_neg (by omega)]

/-- A line that the buffer holds is drawn as it was wrapped. -/
theorem lineText_firstLine {maxW : Int} {p : CString}
    (short : lineLen hangul maxW p ≤ lineBufCap - 1) :
    lineText p (lineLen hangul maxW p) = flat (firstLine hangul maxW p) := by
  rw [lineText_take p short, take_firstLine]

theorem fontFitWidth_len (p : CString) (maxW : Int) :
    (fontFitWidth hangul p maxW).2 = lineLen hangul maxW p := by
  rw [fontFitWidth, measure_glyphs]
  rfl

theorem lineLen_mono {w w' : Int} (limited : 0 ≤ w) (wider : w ≤ w') (p : CString) :
    lineLen hangul w p ≤ lineLen hangul w' p := by
  obtain ⟨more, eq⟩ := firstLine_prefix hangul limited wider p
  unfold lineLen
  rw [← eq, flat_append, List.length_append]
  exact Nat.le_add_right _ _

theorem visibleLines_le_total (cw : Int) (caption : Option CString) (expanded : Bool) :
    visibleLines hangul cw caption expanded ≤ (wrapCaption hangul caption cw).length := by
  unfold visibleLines
  dsimp only
  split_ifs <;> omega

/-- A line of a caption that is there. -/
theorem wrapCaption_line {caption : Option CString} {cw : Int} {i : Nat} {line : CapLine}
    (shown : (wrapCaption hangul caption cw)[i]? = some line) :
    line.len = lineLen hangul cw ((caption.getD []).drop line.off) ∧
      ∃ before, PointsTo hangul (caption.getD []) line.off ((caption.getD []).drop line.off)
        before := by
  cases caption with
  | none => cases shown
  | some text => exact wrapLoop_points (.start text) cw _ line (List.mem_of_getElem? shown)

section Card

variable {cw : Int} {caption : Option CString}

/-- A whole line, if the buffer holds it. -/
theorem captionLine_whole {truncated : Bool} {visible i : Nat} {line : CapLine}
    (shown : (wrapCaption hangul caption cw)[i]? = some line)
    (whole : ¬(truncated = true ∧ i = visible - 1)) (short : line.len ≤ lineBufCap - 1)
    (s : Surface) (cx y : Int) :
    captionLine hangul s cx y cw (caption.getD []) (wrapCaption hangul caption cw) truncated visible
        i =
      fontDraw hangul s cx y
        (flat (firstLine hangul cw ((caption.getD []).drop line.off))) cInk := by
  have len := (wrapCaption_line hangul shown).1
  rw [len] at short
  unfold captionLine
  rw [List.getD_eq_getElem?_getD, shown]
  dsimp only [Option.getD_some]
  rw [if_neg whole, len, drawLine, lineText_firstLine hangul short]

/-- The shortened line and the label behind it. -/
theorem captionLine_shortened {visible i : Nat} {line : CapLine} (wide : 80 ≤ cw)
    (shown : (wrapCaption hangul caption cw)[i]? = some line) (last : i = visible - 1)
    (short : line.len ≤ lineBufCap - 1) (s : Surface) (cx y : Int) :
    captionLine hangul s cx y cw (caption.getD []) (wrapCaption hangul caption cw) true visible i =
      fontDraw hangul
        (fontDraw hangul s cx y (flat (firstLine hangul (cw - fontTextWidth hangul moreLabel 1)
          ((caption.getD []).drop line.off))) cInk)
        (cx + fontTextWidth hangul (flat (firstLine hangul (cw - fontTextWidth hangul moreLabel 1)
          ((caption.getD []).drop line.off))) 1)
        y moreLabel cShadow := by
  have len := (wrapCaption_line hangul shown).1
  have label := fontTextWidth_moreLabel hangul
  have positive := fontTextWidth_nonneg hangul moreLabel
  have narrower : cw - fontTextWidth hangul moreLabel 1 ≤ cw := by omega
  have shorter := lineLen_mono hangul (by omega) narrower ((caption.getD []).drop line.off)
  rw [← len] at shorter
  unfold captionLine
  rw [List.getD_eq_getElem?_getD, shown]
  dsimp only [Option.getD_some]
  rw [if_pos ⟨rfl, last⟩, if_neg (by omega), fontFitWidth_len, drawLineWithSuffix,
    lineText_firstLine hangul (by omega)]

end Card

/-! ### A block inside its card -/

section Inside

variable {w h cx cy cw : Int} {likes user : CString} {caption : Option CString} {expanded : Bool}

/-- A text of one line that begins and ends inside the card. -/
theorem fontDraw_paints {x y : Int} {str : CString} {color : UInt32}
    (inLine : ∀ g ∈ glyphs hangul str, g.isNewline = false) (left : cx ≤ x)
    (right : x + fontTextWidth hangul str 1 ≤ cx + cw) :
    Paints w h (Rect.Holds ⟨cx, y, cw, hangulH⟩) fun s => fontDraw hangul s x y str color := by
  apply (fontDrawScaled_paints hangul x y color inLine (Int.le_refl 1)).mono
  intro px py within
  unfold Rect.Holds at within ⊢
  dsimp only at within ⊢
  omega

/-- A text with the label behind it. -/
theorem labelled_paints {y : Int} {str : CString}
    (inLine : ∀ g ∈ glyphs hangul str, g.isNewline = false)
    (fits : fontTextWidth hangul str 1 + fontTextWidth hangul moreLabel 1 ≤ cw) :
    Paints w h (Rect.Holds ⟨cx, y, cw, hangulH⟩) fun s =>
      fontDraw hangul (fontDraw hangul s cx y str cInk) (cx + fontTextWidth hangul str 1) y
        moreLabel cShadow := by
  have positive := fontTextWidth_nonneg hangul str
  have more := fontTextWidth_nonneg hangul moreLabel
  have text : Paints w h (Rect.Holds ⟨cx, y, cw, hangulH⟩) fun s =>
      fontDraw hangul s cx y str cInk :=
    fontDraw_paints hangul inLine (Int.le_refl cx) (by omega)
  have label : Paints w h (Rect.Holds ⟨cx, y, cw, hangulH⟩) fun s =>
      fontDraw hangul s (cx + fontTextWidth hangul str 1) y moreLabel cShadow :=
    fontDraw_paints hangul (moreLabel_inLine hangul) (by omega) (by omega)
  exact text.comp label

theorem captionTextLine_paints (wide : 80 ≤ cw)
    (short : ∀ line ∈ wrapCaption hangul caption cw, line.len ≤ lineBufCap - 1) {y : Int} {i : Nat}
    (visible : i < visibleLines hangul cw caption expanded) :
    Paints w h (Rect.Holds ⟨cx, (captionTextLine hangul cx y cw caption expanded i).y, cw,
        (captionTextLine hangul cx y cw caption expanded i).rows⟩)
      (captionTextLine hangul cx y cw caption expanded i).draw := by
  have inside := visible.trans_le (visibleLines_le_total hangul cw caption expanded)
  have shown := List.getElem?_eq_getElem inside
  have bounded := short _ (List.getElem_mem inside)
  dsimp only [captionTextLine]
  by_cases last : (!expanded && captionLinesCollapsed < (wrapCaption hangul caption cw).length)
      = true ∧ i = visibleLines hangul cw caption expanded - 1
  · rw [last.1]
    simp only [captionLine_shortened hangul wide shown last.2 bounded]
    exact labelled_paints hangul (firstLine_textInLine hangul _ _) (shortened_width hangul wide _)
  · simp only [captionLine_whole hangul shown last bounded]
    have room : (hangulW : Int) ≤ cw := by
      simp only [hangulW]
      omega
    have narrow := firstLine_width hangul room
      ((caption.getD []).drop (wrapCaption hangul caption cw)[i].off)
    apply fontDraw_paints hangul (firstLine_textInLine hangul _ _) (Int.le_refl cx)
    omega

/-- Every text line is drawn in its rows and between the sides of the card. -/
theorem blockLines_paint (wide : 80 ≤ cw) (printable : ∀ c ∈ likes, isPrintable c = true)
    (likesFit : fontTextWidth hangul likes 1 ≤ cw) (userInLine : 0x0A ∉ user)
    (userFits : fontTextWidth hangul user 1 ≤ cw)
    (short : ∀ line ∈ wrapCaption hangul caption cw, line.len ≤ lineBufCap - 1) :
    ∀ line ∈ blockLines hangul cx cy cw likes user caption expanded,
      Paints w h (Rect.Holds ⟨cx, line.y, cw, line.rows⟩) line.draw := by
  unfold blockLines
  rw [List.forall_mem_cons, List.forall_mem_cons]
  refine ⟨?_, ?_, ?_⟩
  · apply (fontDrawScaled_latin hangul cx cy cText printable (Int.le_refl 1)).mono
    intro px py within
    unfold Rect.Holds at within ⊢
    dsimp only at within ⊢
    omega
  · apply fontDraw_paints hangul (glyphs_inLine hangul userInLine) (Int.le_refl cx)
    omega
  · intro line member
    obtain ⟨i, range, rfl⟩ := List.mem_map.mp member
    exact captionTextLine_paints hangul wide short (List.mem_range.mp range)

/-- The rows of the lines follow each other. -/
theorem blockLines_apart :
    (blockLines hangul cx cy cw likes user caption expanded).Pairwise
      fun a b => a.y + a.rows ≤ b.y := by
  unfold blockLines
  rw [List.pairwise_cons, List.pairwise_cons]
  refine ⟨?_, ?_, ?_⟩
  · intro line member
    rcases List.mem_cons.mp member with rfl | later
    · simp [fontH, fontLine]
    · obtain ⟨i, -, rfl⟩ := List.mem_map.mp later
      simp only [captionTextLine, fontH, fontLine, fontWideLine]
      omega
  · intro line member
    obtain ⟨i, -, rfl⟩ := List.mem_map.mp member
    simp only [captionTextLine, hangulH, fontLine, fontWideLine]
    omega
  · apply List.Pairwise.map _ _ List.pairwise_lt_range
    intro i j less
    simp only [captionTextLine, hangulH, fontWideLine]
    omega

/-- All rows lie within the height of the block. -/
theorem blockLines_height (s : Option Surface) :
    ∀ line ∈ blockLines hangul cx cy cw likes user caption expanded, cy ≤ line.y ∧
      line.y + line.rows ≤
        cy + (captionBlock hangul s cx cy cw likes user caption none expanded).2 := by
  rw [captionBlock_height]
  unfold blockLines
  rw [List.forall_mem_cons, List.forall_mem_cons]
  refine ⟨?_, ?_, ?_⟩
  · simp only [fontH, fontLine, fontWideLine, Option.isSome]
    split <;> omega
  · simp only [hangulH, fontLine, fontWideLine, Option.isSome]
    split <;> omega
  · intro line member
    obtain ⟨i, range, rfl⟩ := List.mem_map.mp member
    have less := List.mem_range.mp range
    simp only [captionTextLine, hangulH, fontLine, fontWideLine, Option.isSome]
    split <;> omega

/-- The shortened line: a beginning of the wrapped one, and room for the label. -/
theorem shortened_fits (wide : 80 ≤ cw) {text : CString} {line : CapLine} {i : Nat}
    (shown : (wrapCaption hangul (some text) cw)[i]? = some line) :
    ∃ pre gs hs post, line.Wrapped hangul text cw pre (gs ++ hs) post ∧
      gs = firstLine hangul (cw - fontTextWidth hangul moreLabel 1) (text.drop line.off) ∧
      fontTextWidth hangul (flat gs) 1 + fontTextWidth hangul moreLabel 1 ≤ cw := by
  obtain ⟨len, before, points⟩ := wrapCaption_line hangul shown
  dsimp only [Option.getD_some] at len points
  have label := fontTextWidth_moreLabel hangul
  have positive := fontTextWidth_nonneg hangul moreLabel
  have narrower : cw - fontTextWidth hangul moreLabel 1 ≤ cw := by omega
  obtain ⟨hs, eq⟩ := firstLine_prefix hangul (by omega) narrower (text.drop line.off)
  have wrapped := points.wrapped (show 0 ≤ cw by omega)
  rw [← len, ← eq] at wrapped
  exact ⟨before, _, hs, _, wrapped, rfl, shortened_width hangul wide (text.drop line.off)⟩

end Inside

theorem visibleLines_truncated {cw : Int} {caption : Option CString}
    (more : captionLinesCollapsed < (wrapCaption hangul caption cw).length) :
    visibleLines hangul cw caption false = captionLinesCollapsed := by
  unfold visibleLines
  rw [if_neg]
  simpa using more

/-- The last line of a truncated block. -/
theorem blockLines_last (cx cy : Int) {cw : Int} {likes user text : CString} {line : CapLine}
    (wide : 80 ≤ cw) (more : captionLinesCollapsed < (wrapCaption hangul (some text) cw).length)
    (shown : (wrapCaption hangul (some text) cw)[captionLinesCollapsed - 1]? = some line)
    (short : line.len ≤ lineBufCap - 1) :
    ∃ y, (blockLines hangul cx cy cw likes user (some text) false).getLast? =
      some ⟨y, hangulH, fun s => fontDraw hangul
        (fontDraw hangul s cx y (flat (firstLine hangul (cw - fontTextWidth hangul moreLabel 1)
          (text.drop line.off))) cInk)
        (cx + fontTextWidth hangul (flat (firstLine hangul (cw - fontTextWidth hangul moreLabel 1)
          (text.drop line.off))) 1) y moreLabel cShadow⟩ := by
  have visible := visibleLines_truncated hangul more
  refine ⟨cy + (fontLine + 1) + fontWideLine + 1 * fontWideLine, ?_⟩
  have last : (blockLines hangul cx cy cw likes user (some text) false).getLast? =
      some (captionTextLine hangul cx (cy + (fontLine + 1) + fontWideLine) cw (some text) false
        1) := by
    unfold blockLines
    rw [visible]
    rfl
  rw [last]
  unfold captionTextLine
  have truncated : (!false && decide (captionLinesCollapsed <
      (wrapCaption hangul (some text) cw).length)) = true := by simpa using more
  dsimp only
  rw [truncated, visible]
  congr 2
  funext s
  exact captionLine_shortened hangul wide shown rfl short s cx _

/-- A block that stays inside its card: its text lines have rows of their own, and the
last line of a truncated caption ends with the label before the right side. -/
structure StaysInside (s : Surface) (cx cy cw : Int) (likes user : CString)
    (caption : Option CString) (expanded : Bool) : Prop where
  pixels : ∀ t height,
    captionBlock hangul (some s) cx cy cw likes user caption none expanded = (some t, height) →
    ∀ px py, 0 ≤ px → px < s.stride → 0 ≤ py →
      ¬(cx ≤ px ∧ px < cx + cw ∧ cy ≤ py ∧ py < cy + height) → t.pixel px py = s.pixel px py
  lines : (captionBlock hangul (some s) cx cy cw likes user caption none expanded).1 =
    some ((blockLines hangul cx cy cw likes user caption expanded).foldl
      (fun t line => line.draw t) s)
  rows : ∀ line ∈ blockLines hangul cx cy cw likes user caption expanded,
    Paints s.w s.h (Rect.Holds ⟨cx, line.y, cw, line.rows⟩) line.draw
  apart : (blockLines hangul cx cy cw likes user caption expanded).Pairwise
    fun a b => a.y + a.rows ≤ b.y
  label : expanded = false → captionLinesCollapsed < (wrapCaption hangul caption cw).length →
    ∃ text line pre gs hs post y, caption = some text ∧
      (wrapCaption hangul caption cw)[captionLinesCollapsed - 1]? = some line ∧
      line.Wrapped hangul text cw pre (gs ++ hs) post ∧
      fontTextWidth hangul (flat gs) 1 + fontTextWidth hangul moreLabel 1 ≤ cw ∧
      (blockLines hangul cx cy cw likes user caption expanded).getLast? =
        some ⟨y, hangulH, fun t => fontDraw hangul (fontDraw hangul t cx y (flat gs) cInk)
          (cx + fontTextWidth hangul (flat gs) 1) y moreLabel cShadow⟩

theorem captionBlock_staysInside {s : Surface} (stride : s.w ≤ s.stride) (cx cy : Int) {cw : Int}
    (wide : 80 ≤ cw) {likes user : CString} (printable : ∀ c ∈ likes, isPrintable c = true)
    (likesFit : fontTextWidth hangul likes 1 ≤ cw) (userInLine : 0x0A ∉ user)
    (userFits : fontTextWidth hangul user 1 ≤ cw) (caption : Option CString)
    (short : ∀ line ∈ wrapCaption hangul caption cw, line.len ≤ lineBufCap - 1)
    (expanded : Bool) : StaysInside hangul s cx cy cw likes user caption expanded := by
  have paints : ∀ line ∈ blockLines hangul cx cy cw likes user caption expanded,
      Paints s.w s.h (Rect.Holds ⟨cx, line.y, cw, line.rows⟩) line.draw :=
    blockLines_paint hangul wide printable likesFit userInLine userFits short
  constructor
  · intro t height block px py hx hx' hy out
    have drawn := captionBlock_fold hangul s cx cy cw likes user caption expanded
    rw [block] at drawn
    cases drawn
    have whole : Paints s.w s.h (Rect.Holds ⟨cx, cy, cw, height⟩) fun t =>
        (blockLines hangul cx cy cw likes user caption expanded).foldl
          (fun t line => line.draw t) t := by
      apply Paints.fold
      intro line member
      apply (paints line member).mono
      intro px py within
      have rows := blockLines_height hangul (some s) line member
      rw [block] at rows
      unfold Rect.Holds at within ⊢
      dsimp only at within rows ⊢
      omega
    exact whole.outside rfl rfl stride hx hx' hy out
  · exact captionBlock_fold hangul s cx cy cw likes user caption expanded
  · exact paints
  · exact blockLines_apart hangul
  · rintro rfl more
    cases caption with
    | none => cases more
    | some text =>
      have inside : captionLinesCollapsed - 1 < (wrapCaption hangul (some text) cw).length := by
        omega
      have shown := List.getElem?_eq_getElem inside
      obtain ⟨pre, gs, hs, post, wrapped, eq, fits⟩ := shortened_fits hangul wide shown
      obtain ⟨y, last⟩ := blockLines_last hangul cx cy wide more shown
        (short _ (List.getElem_mem inside))
      rw [← eq] at last
      exact ⟨text, _, pre, gs, hs, post, y, rfl, shown, wrapped, fits, last⟩

theorem captionBlock_staysInside_letters :
    captionLinesCollapsed <
        (wrapCaption ⟨#[], #[]⟩ (some (List.replicate 30 0x61)) 80).length ∧
      StaysInside ⟨#[], #[]⟩ ⟨fun _ => 0, 100, 100, 100⟩ 3 4 80 (formatLikes likesBuf 1204)
        (cstring "jun.photo") (some (List.replicate 30 0x61)) false :=
  ⟨by decide +kernel,
    captionBlock_staysInside ⟨#[], #[]⟩ (by decide) 3 4 (by decide) (by decide +kernel)
      (by decide +kernel) (by decide +kernel) (by decide +kernel) _ (by decide +kernel) false⟩

end InstagramNt40.Feed
