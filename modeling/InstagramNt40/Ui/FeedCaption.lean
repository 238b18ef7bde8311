import InstagramNt40.Core.FontGlyphs
import InstagramNt40.Ui.FeedLayout

/-!
# The lines of a caption

`wrap_caption` cuts the units of a caption into the greedy lines, of which it keeps the
first 60. The ranges follow each other in the bytes, with the newlines left out.
-/
namespace InstagramNt40.Feed

open Crt Loop Raster Font

variable (hangul : HangulData)

/-! ### One line -/

/-- The bytes of the first line of a string. -/
def lineLen (maxW : Int) (p : CString) : Nat := (flat (firstLine hangul maxW p)).length

/-- How far `p` moves on past its first line. -/
def lineStep (maxW : Int) (p : CString) : Nat :=
  lineLen hangul maxW p + if byteAt (p.drop (lineLen hangul maxW p)) 0 = 0x0A then 1 else 0

theorem glyphs_ne_nil (p : CString) : glyphs hangul p ≠ [] ↔ byteAt p 0 ≠ 0 := by
  cases p with
  | nil =>
    rw [glyphs_nil]
    exact ⟨fun some => absurd rfl some, fun some => absurd rfl some⟩
  | cons c r =>
    rw [byteAt_cons_zero]
    by_cases nul : c = 0
    · rw [nul, glyphs_nul]
      exact ⟨fun some => absurd rfl some, fun some => absurd rfl some⟩
    · rw [glyphs_cons hangul nul]
      exact ⟨fun _ => nul, fun _ => List.cons_ne_nil _ _⟩

theorem wrapLoop_end (maxW : Int) (room off : Nat) {p : CString} (done : glyphs hangul p = []) :
    wrapLoop hangul maxW room off p = [] := by
  cases room with
  | zero => rfl
  | succ room =>
    have nul : byteAt p 0 = 0 := by
      by_contra some
      exact (glyphs_ne_nil hangul p).mpr some done
    rw [wrapLoop, if_pos nul]

theorem wrapLoop_line (maxW : Int) (room off : Nat) {p : CString} (some : glyphs hangul p ≠ []) :
    wrapLoop hangul maxW (room + 1) off p =
      ⟨off, lineLen hangul maxW p⟩ ::
        wrapLoop hangul maxW room (off + lineStep hangul maxW p)
          (p.drop (lineStep hangul maxW p)) := by
  have len : (fontFitWidth hangul p maxW).2 = lineLen hangul maxW p := by
    rw [fontFitWidth, measure_glyphs]
    rfl
  rw [wrapLoop, if_neg ((glyphs_ne_nil hangul p).mp some)]
  dsimp only
  rw [len, List.drop_drop, Nat.add_assoc]
  rfl

/-- Skipping a newline skips its unit. -/
theorem glyphs_skip (q : CString) :
    glyphs hangul (q.drop (if byteAt q 0 = 0x0A then 1 else 0)) =
      Wrap.skipBreak Glyph.isNewline (glyphs hangul q) := by
  cases q with
  | nil =>
    rw [List.drop_nil, glyphs_nil]
    rfl
  | cons c r =>
    rw [byteAt_cons_zero]
    by_cases newline : c = 0x0A
    · subst newline
      rw [if_pos rfl, glyphs_cons hangul (by decide), glyphAt_newline, Wrap.skipBreak,
        if_pos ((firstGlyph_isNewline hangul 0x0A r).mpr rfl)]
    · rw [if_neg newline, List.drop_zero]
      by_cases nul : c = 0
      · rw [nul, glyphs_nul]
        rfl
      · have inLine : ¬(firstGlyph hangul (c :: r)).isNewline = true := fun isNewline =>
          newline ((firstGlyph_isNewline hangul c r).mp isNewline)
        rw [glyphs_cons hangul nul, Wrap.skipBreak, if_neg inLine]

theorem firstLine_append (maxW : Int) (p : CString) :
    glyphs hangul p = firstLine hangul maxW p ++
      (glyphs hangul p).drop (Wrap.fit Glyph.adv Glyph.isNewline maxW (glyphs hangul p)) :=
  (List.take_append_drop _ _).symm

/-- The units behind the bytes of a line. -/
theorem glyphs_lineLen (maxW : Int) (p : CString) :
    glyphs hangul (p.drop (lineLen hangul maxW p)) =
      (glyphs hangul p).drop (Wrap.fit Glyph.adv Glyph.isNewline maxW (glyphs hangul p)) :=
  glyphs_drop (firstLine_append hangul maxW p)

/-- The units behind a line and its newline. -/
theorem glyphs_lineStep (maxW : Int) (p : CString) :
    glyphs hangul (p.drop (lineStep hangul maxW p)) =
      Wrap.next Glyph.adv Glyph.isNewline maxW (glyphs hangul p) := by
  have skip := glyphs_skip hangul (p.drop (lineLen hangul maxW p))
  rw [List.drop_drop, glyphs_lineLen] at skip
  exact skip

/-- The greedy lines of a caption. -/
def captionRows (maxW : Int) (p : CString) : List (List Glyph) :=
  Wrap.lines Glyph.adv Glyph.isNewline maxW (glyphs hangul p)

/-- `wrap_caption` keeps the first of the greedy lines. -/
theorem wrapLoop_len (maxW : Int) (room off : Nat) (p : CString) :
    (wrapLoop hangul maxW room off p).map CapLine.len =
      ((captionRows hangul maxW p).take room).map fun line => (flat line).length := by
  induction room generalizing off p with
  | zero => simp [wrapLoop]
  | succ room ih =>
    unfold captionRows
    by_cases done : glyphs hangul p = []
    · rw [wrapLoop_end hangul maxW _ _ done, done, Wrap.lines_nil]
      rfl
    · rw [wrapLoop_line hangul maxW room off done, List.map_cons, ih, captionRows, glyphs_lineStep,
        Wrap.lines_cons _ _ _ done, List.take_succ_cons, List.map_cons]
      rfl

theorem wrapLoop_length (maxW : Int) (room off : Nat) (p : CString) :
    (wrapLoop hangul maxW room off p).length = min room (captionRows hangul maxW p).length := by
  have lens := congrArg List.length (wrapLoop_len hangul maxW room off p)
  rwa [List.length_map, List.length_map, List.length_take] at lens

/-! ### Ranges -/

/-- The bytes of a line. -/
def CapLine.bytes (caption : CString) (line : CapLine) : CString :=
  (caption.drop line.off).take line.len

/-- Where the next line begins: the newline that ended the line is skipped. -/
def CapLine.stop (caption : CString) (line : CapLine) : Nat :=
  line.off + line.len + if byteAt caption (line.off + line.len) = 0x0A then 1 else 0

/-- A line between the units `pre` and `post` of a caption: it fits, and would not with
one unit more. -/
structure CapLine.Wrapped (caption : CString) (maxW : Int) (line : CapLine)
    (pre gs post : List Glyph) : Prop where
  units : glyphs hangul caption = pre ++ gs ++ post
  off : line.off = (flat pre).length
  len : line.len = (flat gs).length
  inLine : ∀ g ∈ gs, g.isNewline = false
  fits : fontTextWidth hangul (flat gs) 1 ≤ maxW ∨ gs.length = 1
  maximal : ∀ g rest, post = g :: rest → g.isNewline = false →
    maxW < fontTextWidth hangul (flat (gs ++ [g])) 1

/-- `p` points into a caption, at a unit. -/
structure PointsTo (caption : CString) (off : Nat) (p : CString) (pre : List Glyph) : Prop where
  rest : p = caption.drop off
  units : glyphs hangul caption = pre ++ glyphs hangul p
  off : off = (flat pre).length

variable {hangul}

/-- The width of a line between other units. -/
theorem fontTextWidth_between {p : CString} {pre gs post : List Glyph}
    (units : glyphs hangul p = pre ++ gs ++ post) (inLine : ∀ g ∈ gs, g.isNewline = false) :
    fontTextWidth hangul (flat gs) 1 = lineWidth gs := by
  rw [List.append_assoc] at units
  have same := glyphs_cut (glyphs_drop units)
  rw [fontTextWidth_glyphs (by rwa [same]) (Int.le_refl 1), same, Int.mul_one]

/-- The units that a line and its newline take. -/
theorem lineStep_units (maxW : Int) (p : CString) :
    ∃ taken, glyphs hangul p = taken ++ glyphs hangul (p.drop (lineStep hangul maxW p)) ∧
      (flat taken).length = lineStep hangul maxW p := by
  have line : glyphs hangul p =
      firstLine hangul maxW p ++ glyphs hangul (p.drop (lineLen hangul maxW p)) := by
    rw [glyphs_lineLen]
    exact firstLine_append hangul maxW p
  unfold lineStep
  cases rest : p.drop (lineLen hangul maxW p) with
  | nil =>
    refine ⟨firstLine hangul maxW p, ?_, rfl⟩
    rw [← List.drop_drop, rest, List.drop_nil, ← rest]
    exact line
  | cons c r =>
    rw [byteAt_cons_zero, ← List.drop_drop, rest]
    rw [rest] at line
    by_cases newline : c = 0x0A
    · subst newline
      refine ⟨firstLine hangul maxW p ++ [firstGlyph hangul (0x0A :: r)], ?_, ?_⟩
      · rw [if_pos rfl, List.append_assoc, line, glyphs_cons hangul (by decide), glyphAt_newline]
        rfl
      · rw [if_pos rfl, flat_append, List.length_append, flat_cons, firstGlyph_bytes,
          glyphAt_newline]
        rfl
    · rw [if_neg newline]
      exact ⟨firstLine hangul maxW p, line, rfl⟩

theorem PointsTo.step {caption p : CString} {off : Nat} {pre : List Glyph}
    (points : PointsTo hangul caption off p pre) (maxW : Int) :
    ∃ pre', PointsTo hangul caption (off + lineStep hangul maxW p)
      (p.drop (lineStep hangul maxW p)) pre' := by
  obtain ⟨taken, split, length⟩ := @lineStep_units hangul maxW p
  refine ⟨pre ++ taken, ?_, ?_, ?_⟩
  · rw [points.rest, List.drop_drop]
  · rw [points.units, List.append_assoc, ← split]
  · rw [flat_append, List.length_append, length, ← points.off]

/-- The first line from there on. -/
theorem PointsTo.wrapped {caption p : CString} {off : Nat} {pre : List Glyph}
    (points : PointsTo hangul caption off p pre) {maxW : Int} (limited : 0 ≤ maxW) :
    CapLine.Wrapped hangul caption maxW ⟨off, lineLen hangul maxW p⟩ pre (firstLine hangul maxW p)
      (glyphs hangul (p.drop (lineLen hangul maxW p))) := by
  have inLine : ∀ g ∈ firstLine hangul maxW p, g.isNewline = false := Wrap.fit_inLine _ _
  have line : glyphs hangul p =
      firstLine hangul maxW p ++ glyphs hangul (p.drop (lineLen hangul maxW p)) := by
    rw [glyphs_lineLen]
    exact firstLine_append hangul maxW p
  have units := points.units
  rw [line, ← List.append_assoc] at units
  constructor
  · exact units
  · exact points.off
  · rfl
  · exact inLine
  · rw [fontTextWidth_between units inLine]
    by_cases none : firstLine hangul maxW p = []
    · left
      rw [none]
      exact limited
    · have some := List.length_pos_iff.mpr none
      have fits : Wrap.Fits Glyph.adv maxW (firstLine hangul maxW p) := Wrap.fit_fits limited _
      rcases fits with narrow | single
      · exact .inl narrow
      · right
        omega
  · intro g rest post more
    rw [post] at units
    have longer : glyphs hangul caption = pre ++ (firstLine hangul maxW p ++ [g]) ++ rest := by
      rw [units, ← List.append_assoc, List.append_assoc _ [g], List.singleton_append]
    rw [fontTextWidth_between longer]
    · rw [glyphs_lineLen] at post
      exact (Wrap.fitAfter_maximal maxW [] (glyphs hangul p) post more).2.2
    · intro h member
      rcases List.mem_append.mp member with old | new
      · exact inLine h old
      · rw [List.mem_singleton.mp new]
        exact more

theorem PointsTo.stop {caption p : CString} {off : Nat} {pre : List Glyph}
    (points : PointsTo hangul caption off p pre) (maxW : Int) :
    CapLine.stop caption ⟨off, lineLen hangul maxW p⟩ = off + lineStep hangul maxW p := by
  have byte : byteAt caption (off + lineLen hangul maxW p) =
      byteAt (p.drop (lineLen hangul maxW p)) 0 := by
    rw [points.rest, List.drop_drop]
    simp [byteAt]
  unfold CapLine.stop lineStep
  dsimp only
  rw [byte, Nat.add_assoc]

/-- No units are left at the end of the string. -/
theorem PointsTo.done {caption p : CString} {off : Nat} {pre : List Glyph}
    (points : PointsTo hangul caption off p pre) (none : glyphs hangul p = []) :
    off = (caption.takeWhile (· != 0)).length := by
  rw [← glyphs_flat hangul caption, points.units, none, List.append_nil]
  exact points.off

theorem PointsTo.start (caption : CString) : PointsTo hangul caption 0 caption [] :=
  ⟨rfl, rfl, rfl⟩

/-! ### All lines -/

section Lines

variable {caption p : CString} {off : Nat} {pre : List Glyph}

/-- The lines that follow a point of the caption, line by line. -/
theorem wrapLoop_cases (points : PointsTo hangul caption off p pre) (maxW : Int) (room : Nat) :
    (glyphs hangul p = [] ∧ wrapLoop hangul maxW (room + 1) off p = []) ∨
      ∃ q pre', PointsTo hangul caption
          (CapLine.stop caption ⟨off, lineLen hangul maxW p⟩) q pre' ∧
        wrapLoop hangul maxW (room + 1) off p =
          ⟨off, lineLen hangul maxW p⟩ ::
            wrapLoop hangul maxW room (CapLine.stop caption ⟨off, lineLen hangul maxW p⟩) q := by
  by_cases done : glyphs hangul p = []
  · exact .inl ⟨done, wrapLoop_end hangul maxW _ _ done⟩
  · obtain ⟨pre', later⟩ := points.step maxW
    rw [points.stop]
    exact .inr ⟨_, pre', later, wrapLoop_line hangul maxW room off done⟩

/-- Every line is the first line of the text at its offset. -/
theorem wrapLoop_points (points : PointsTo hangul caption off p pre) (maxW : Int) (room : Nat) :
    ∀ line ∈ wrapLoop hangul maxW room off p,
      line.len = lineLen hangul maxW (caption.drop line.off) ∧
        ∃ before, PointsTo hangul caption line.off (caption.drop line.off) before := by
  induction room generalizing off p pre with
  | zero => simp [wrapLoop]
  | succ room ih =>
    rcases wrapLoop_cases points maxW room with ⟨-, none⟩ | ⟨q, pre', later, eq⟩
    · simp [none]
    · rw [eq, List.forall_mem_cons]
      have here := points.rest
      subst here
      exact ⟨⟨rfl, pre, points⟩, ih later⟩

theorem wrapLoop_wrapped (points : PointsTo hangul caption off p pre) {maxW : Int}
    (limited : 0 ≤ maxW) (room : Nat) :
    ∀ line ∈ wrapLoop hangul maxW room off p,
      ∃ before gs after, CapLine.Wrapped hangul caption maxW line before gs after := by
  intro line shown
  obtain ⟨len, before, here⟩ := wrapLoop_points points maxW room line shown
  have wrapped := here.wrapped limited
  rw [← len] at wrapped
  exact ⟨_, _, _, wrapped⟩

theorem wrapLoop_head (maxW : Int) (room off : Nat) (p : CString) :
    ∀ line ∈ (wrapLoop hangul maxW room off p).head?, line.off = off := by
  cases room with
  | zero => simp [wrapLoop]
  | succ room =>
    rw [wrapLoop]
    split <;> simp

theorem wrapLoop_chain (points : PointsTo hangul caption off p pre) (maxW : Int) (room : Nat) :
    (wrapLoop hangul maxW room off p).IsChain fun line next => next.off = line.stop caption := by
  induction room generalizing off p pre with
  | zero => exact List.IsChain.nil
  | succ room ih =>
    rcases wrapLoop_cases points maxW room with ⟨-, none⟩ | ⟨q, pre', later, eq⟩
    · rw [none]
      exact List.IsChain.nil
    · rw [eq, List.isChain_cons]
      exact ⟨wrapLoop_head maxW room _ q, ih later⟩

/-- Fewer lines than there is room for end at the end of the string. -/
theorem wrapLoop_covers (points : PointsTo hangul caption off p pre) (maxW : Int) (room : Nat)
    (fewer : (wrapLoop hangul maxW room off p).length < room) :
    ((wrapLoop hangul maxW room off p).getLast?.map (CapLine.stop caption)).getD off =
      (caption.takeWhile (· != 0)).length := by
  induction room generalizing off p pre with
  | zero => exact absurd fewer (Nat.not_lt_zero _)
  | succ room ih =>
    rcases wrapLoop_cases points maxW room with ⟨done, none⟩ | ⟨q, pre', later, eq⟩
    · rw [none]
      exact points.done done
    · rw [eq, List.length_cons] at fewer
      have rest := ih later (Nat.lt_of_succ_lt_succ fewer)
      rw [eq, List.getLast?_cons, ← rest]
      simp [Option.getD_map]

end Lines

variable (hangul)

/-- Lines that take a caption apart: the first begins at 0 and each other one where the
line before ends; with fewer lines than the cap, nothing is left behind the last one. -/
structure TakesApart (caption : CString) (maxW : Int) (lines : List CapLine) : Prop where
  count : lines.length ≤ captionLinesHardCap
  first : ∀ line ∈ lines.head?, line.off = 0
  next : lines.IsChain fun line next => next.off = line.stop caption
  wrapped : ∀ line ∈ lines, ∃ pre gs post, line.Wrapped hangul caption maxW pre gs post
  covered : lines.length < captionLinesHardCap →
    (lines.getLast?.map (CapLine.stop caption)).getD 0 = (caption.takeWhile (· != 0)).length

/-- Wrapping loses nothing and splits no unit. -/
theorem wrapCaption_takesApart (caption : CString) {maxW : Int} (limited : 0 ≤ maxW) :
    TakesApart hangul caption maxW (wrapCaption hangul (some caption) maxW) where
  count := wrapLoop_length_le hangul maxW captionLinesHardCap 0 caption
  first := wrapLoop_head maxW captionLinesHardCap 0 caption
  next := wrapLoop_chain (.start caption) maxW captionLinesHardCap
  wrapped := wrapLoop_wrapped (.start caption) limited captionLinesHardCap
  covered := wrapLoop_covers (.start caption) maxW captionLinesHardCap

theorem wrapCaption_takesApart_newlines :
    TakesApart ⟨#[], #[]⟩ (cstring "a\n\nbc") 10 [⟨0, 1⟩, ⟨2, 0⟩, ⟨3, 1⟩, ⟨4, 1⟩] := by
  have lines : wrapCaption ⟨#[], #[]⟩ (some (cstring "a\n\nbc")) 10 =
      [⟨0, 1⟩, ⟨2, 0⟩, ⟨3, 1⟩, ⟨4, 1⟩] := by decide +kernel
  rw [← lines]
  exact wrapCaption_takesApart ⟨#[], #[]⟩ (cstring "a\n\nbc") (by decide)

/-! ### Wider cards -/

theorem wrapCaption_length (caption : CString) (maxW : Int) :
    (wrapCaption hangul (some caption) maxW).length =
      min captionLinesHardCap (captionRows hangul maxW caption).length :=
  wrapLoop_length hangul maxW captionLinesHardCap 0 caption

theorem wrapCaption_wider {w w' : Int} (limited : 0 ≤ w) (wider : w ≤ w')
    (caption : Option CString) :
    (wrapCaption hangul caption w').length ≤ (wrapCaption hangul caption w).length := by
  cases caption with
  | none => exact Nat.le_refl 0
  | some caption =>
    rw [wrapCaption_length, wrapCaption_length]
    have fewer : (captionRows hangul w' caption).length ≤ (captionRows hangul w caption).length :=
      Wrap.lines_antitone Glyph.positive limited wider (glyphs hangul caption)
    omega

theorem visibleLines_wider {w w' : Int} (limited : 0 ≤ w) (wider : w ≤ w')
    (caption : Option CString) (expanded : Bool) :
    visibleLines hangul w' caption expanded ≤ visibleLines hangul w caption expanded := by
  have fewer := wrapCaption_wider hangul limited wider caption
  unfold visibleLines
  cases expanded with
  | true => simpa using fewer
  | false =>
    simp only [Bool.false_eq_true, false_or]
    split_ifs <;> omega

theorem captionBlock_wider {w w' : Int} (limited : 0 ≤ w) (wider : w ≤ w') (s : Option Surface)
    (cx cy : Int) (likes user : CString) (caption comments : Option CString) (expanded : Bool) :
    (captionBlock hangul s cx cy w' likes user caption comments expanded).2 ≤
      (captionBlock hangul s cx cy w likes user caption comments expanded).2 := by
  rw [captionBlock_height, captionBlock_height]
  have fewer := visibleLines_wider hangul limited wider caption expanded
  simp only [fontWideLine]
  omega

/-- Below the cap no other way to divide the units has fewer lines. -/
theorem wrapCaption_minimal (caption : CString) {maxW : Int} (limited : 0 ≤ maxW)
    {ls : List (List Glyph)}
    (division : Wrap.Division Glyph.adv Glyph.isNewline maxW (glyphs hangul caption) ls) :
    (wrapCaption hangul (some caption) maxW).length ≤ ls.length := by
  rw [wrapCaption_length]
  exact (Nat.min_le_right _ _).trans (Wrap.lines_minimal Glyph.positive limited division)

/-- Widening the window never makes a caption higher, and no division of the caption is
shorter than the one shown. -/
theorem wrapping_monotone {w w' : Int} (limited : 0 ≤ w) (wider : w ≤ w')
    (caption : Option CString) :
    (wrapCaption hangul caption w').length ≤ (wrapCaption hangul caption w).length ∧
      (∀ (s : Option Surface) (cx cy : Int) (likes user : CString) (comments : Option CString)
        (expanded : Bool),
        (captionBlock hangul s cx cy w' likes user caption comments expanded).2 ≤
          (captionBlock hangul s cx cy w likes user caption comments expanded).2) ∧
      ∀ text ls, caption = some text →
        (wrapCaption hangul caption w').length < captionLinesHardCap →
        Wrap.Division Glyph.adv Glyph.isNewline w' (glyphs hangul text) ls →
        (wrapCaption hangul caption w').length ≤ ls.length := by
  refine ⟨wrapCaption_wider hangul limited wider caption, ?_, ?_⟩
  · intro s cx cy likes user comments expanded
    exact captionBlock_wider hangul limited wider s cx cy likes user caption comments expanded
  · rintro text ls rfl - division
    exact wrapCaption_minimal hangul text (limited.trans wider) division

theorem wrapping_monotone_letters :
    (wrapCaption ⟨#[], #[]⟩ (some (cstring "abc")) 11).length = 2 ∧
      (wrapCaption ⟨#[], #[]⟩ (some (cstring "abc")) 11).length ≤
        (wrapCaption ⟨#[], #[]⟩ (some (cstring "abc")) 5).length :=
  ⟨by decide +kernel,
    (wrapping_monotone ⟨#[], #[]⟩ (by decide) (by decide) (some (cstring "abc"))).1⟩

end InstagramNt40.Feed
