import InstagramNt40.Core.Font
import InstagramNt40.Library.Wrap

/-!
# The glyph units of a string

Drawing and measuring both cut a string into units: a character, a UTF-8 sequence, or a
single byte that starts neither. Here it is cut once, and the loop of `measure` becomes
the greedy first line of the units.
-/
namespace InstagramNt40.Font

/-- A unit of a string. -/
@[ext] structure Glyph where
  bytes : List UInt8
  adv : Int
  positive : 1 ≤ adv
  deriving DecidableEq

theorem glyphAt_adv (hangul : HangulData) (s : List UInt8) :
    (glyphAt hangul s).2 = fontAdv ∨ (glyphAt hangul s).2 = hangulAdv := by
  unfold glyphAt
  split
  · exact .inl rfl
  · dsimp only
    split
    · exact .inr rfl
    · exact .inl rfl

theorem glyphAt_adv_pos (hangul : HangulData) (s : List UInt8) : 1 ≤ (glyphAt hangul s).2 := by
  rcases glyphAt_adv hangul s with narrow | wide
  · rw [narrow]
    decide
  · rw [wide]
    decide

/-- The first unit of a string. -/
def firstGlyph (hangul : HangulData) (s : List UInt8) : Glyph :=
  ⟨s.take (glyphAt hangul s).1, (glyphAt hangul s).2, glyphAt_adv_pos hangul s⟩

theorem firstGlyph_bytes (hangul : HangulData) (s : List UInt8) :
    (firstGlyph hangul s).bytes = s.take (glyphAt hangul s).1 := rfl

theorem firstGlyph_adv (hangul : HangulData) (s : List UInt8) :
    (firstGlyph hangul s).adv = (glyphAt hangul s).2 := rfl

/-- The units of a string up to its NUL. -/
def glyphs (hangul : HangulData) (s : List UInt8) : List Glyph :=
  match _h : s with
  | [] => []
  | c :: _ =>
    if c = 0 then [] else firstGlyph hangul s :: glyphs hangul (s.drop (glyphAt hangul s).1)
termination_by s.length
decreasing_by
  have := glyphAt_pos hangul s
  simp_all only [List.length_cons, List.length_drop]
  omega

/-- The bytes of some units. -/
def flat (gs : List Glyph) : List UInt8 := gs.flatMap Glyph.bytes

def Glyph.isNewline (g : Glyph) : Bool := g.bytes == [0x0A]

/-- The width of some units on one line. -/
def lineWidth (gs : List Glyph) : Int := Wrap.width Glyph.adv gs

theorem glyphs_nil (hangul : HangulData) : glyphs hangul [] = [] := by rw [glyphs]

theorem glyphs_cons (hangul : HangulData) {c : UInt8} (notNul : c ≠ 0) (r : List UInt8) :
    glyphs hangul (c :: r) =
      firstGlyph hangul (c :: r) ::
        glyphs hangul ((c :: r).drop (glyphAt hangul (c :: r)).1) := by
  rw [glyphs, if_neg notNul]

theorem glyphs_nul (hangul : HangulData) (r : List UInt8) : glyphs hangul (0 :: r) = [] := by
  rw [glyphs, if_pos rfl]

@[simp] theorem flat_nil : flat [] = [] := rfl

@[simp] theorem flat_cons (g : Glyph) (gs : List Glyph) : flat (g :: gs) = g.bytes ++ flat gs := rfl

@[simp] theorem flat_append (gs hs : List Glyph) : flat (gs ++ hs) = flat gs ++ flat hs :=
  List.flatMap_append

/-! ### Units -/

theorem byteAt_cons_zero (c : UInt8) (r : List UInt8) : byteAt (c :: r) 0 = c := rfl

/-- A valid sequence lies inside the string, its later bytes from `0x80` on. -/
theorem utf8SeqValid_bytes {s : List UInt8} {seqlen i : Nat} (valid : utf8SeqValid s seqlen = true)
    (first : 1 ≤ i) (last : i < seqlen) : i < s.length ∧ 0x80 ≤ byteAt s i := by
  unfold utf8SeqValid at valid
  rw [List.all_eq_true] at valid
  have here := valid i (List.mem_range'_1.mpr ⟨first, by omega⟩)
  simp only [not_or, not_not, decide_eq_true_eq] at here
  obtain ⟨notNul, marked⟩ := here
  constructor
  · by_contra outside
    have past : byteAt s i = 0 := by simp [byteAt, List.getElem?_eq_none (Nat.not_lt.mp outside)]
    exact notNul past
  · -- the top bit is one of the two that are compared
    have top := congrArg UInt8.toNat marked
    rw [UInt8.toNat_and, Nat.and_comm] at top
    by_contra below
    have small : (byteAt s i).toNat < 2 ^ 7 := by
      rw [UInt8.le_iff_toNat_le, Nat.not_le] at below
      exact below
    have masked := Nat.and_lt_two_pow (0xC0 : UInt8).toNat small
    rw [top] at masked
    exact absurd masked (by decide)

/-- A unit lies inside its string, and its later bytes are no ASCII. -/
theorem glyphAt_bytes (hangul : HangulData) {c : UInt8} (r : List UInt8) {i : Nat} (first : 1 ≤ i)
    (last : i < (glyphAt hangul (c :: r)).1) :
    i < (c :: r).length ∧ 0x80 ≤ byteAt (c :: r) i := by
  unfold glyphAt at last
  split at last
  · dsimp only at last
    omega
  · unfold seqLen at last
    dsimp only at last
    split at last
    · omega
    next valid =>
      have long : utf8SeqLen (byteAt (c :: r) 0) > 1 := by omega
      have valid' : utf8SeqValid (c :: r) (utf8SeqLen (byteAt (c :: r) 0)) = true := by
        by_contra wrong
        exact valid ⟨long, wrong⟩
      exact utf8SeqValid_bytes valid' first last

theorem glyphAt_le (hangul : HangulData) (c : UInt8) (r : List UInt8) :
    (glyphAt hangul (c :: r)).1 ≤ (c :: r).length := by
  have positive := glyphAt_pos hangul (c :: r)
  by_cases single : (glyphAt hangul (c :: r)).1 = 1
  · rw [single, List.length_cons]
    omega
  · have inside := glyphAt_bytes hangul (c := c) r (i := (glyphAt hangul (c :: r)).1 - 1)
      (by omega) (by omega)
    omega

/-- A newline is a unit of its own. -/
theorem glyphAt_newline (hangul : HangulData) (r : List UInt8) :
    glyphAt hangul (0x0A :: r) = (1, fontAdv) := by
  have one : utf8SeqLen (byteAt (0x0A :: r) 0) = 1 := by
    rw [byteAt_cons_zero]
    decide
  have single : seqLen (0x0A :: r) = 1 := by
    rw [seqLen, one]
    rfl
  have none : ¬hangulAt hangul (0x0A :: r) ≥ 0 := by
    rw [hangulAt, single, if_neg (by decide)]
    decide
  have control : ¬isPrintable (byteAt (0x0A :: r) 0) = true := by
    rw [byteAt_cons_zero]
    decide
  rw [glyphAt, if_neg control, if_neg none, single]

/-! ### Cutting a string -/

theorem byteAt_append {p : List UInt8} (t : List UInt8) {i : Nat} (inside : i < p.length) :
    byteAt (p ++ t) i = byteAt p i := by
  simp [byteAt, List.getElem?_append_left inside]

theorem byteAt_outside {p : List UInt8} {i : Nat} (outside : p.length ≤ i) : byteAt p i = 0 := by
  simp [byteAt, List.getElem?_eq_none outside]

theorem utf8SeqValid_append {p : List UInt8} (t : List UInt8) {n : Nat} (inside : n ≤ p.length) :
    utf8SeqValid (p ++ t) n = utf8SeqValid p n := by
  unfold utf8SeqValid
  rw [Bool.eq_iff_iff, List.all_eq_true, List.all_eq_true]
  apply forall_congr'
  intro i
  apply imp_congr_right
  intro member
  have bounds := List.mem_range'_1.mp member
  rw [byteAt_append t (by omega)]

/-- Bytes behind a sequence do not change where it ends. -/
theorem seqLen_append {c : UInt8} {r : List UInt8} (t : List UInt8)
    (inside : seqLen (c :: r ++ t) ≤ (c :: r).length) : seqLen (c :: r ++ t) = seqLen (c :: r) := by
  have same : byteAt (c :: r ++ t) 0 = byteAt (c :: r) 0 := rfl
  unfold seqLen at inside ⊢
  dsimp only at inside ⊢
  rw [same] at inside ⊢
  generalize utf8SeqLen (byteAt (c :: r) 0) = n at inside ⊢
  by_cases fits : n ≤ (c :: r).length
  · rw [utf8SeqValid_append t fits]
  · -- the sequence is cut off, so it was not valid before either
    have cut : ¬utf8SeqValid (c :: r) n = true := by
      intro valid
      rw [List.length_cons] at fits
      have last := utf8SeqValid_bytes valid (i := n - 1) (by omega) (by omega)
      rw [List.length_cons] at last
      omega
    have wrong : ¬utf8SeqValid (c :: r ++ t) n = true := by
      intro valid
      rw [if_neg fun both => both.2 valid] at inside
      exact fits inside
    simp only [cut, wrong]

theorem codepoint_append {p : List UInt8} (t : List UInt8) (inside : 3 ≤ p.length) :
    codepoint (p ++ t) = codepoint p := by
  unfold codepoint
  rw [byteAt_append t (by omega), byteAt_append t (by omega), byteAt_append t (by omega)]

theorem hangulAt_append (hangul : HangulData) {c : UInt8} {r : List UInt8} (t : List UInt8)
    (inside : seqLen (c :: r ++ t) ≤ (c :: r).length) :
    hangulAt hangul (c :: r ++ t) = hangulAt hangul (c :: r) := by
  have len := seqLen_append t inside
  rw [len] at inside
  unfold hangulAt
  rw [len]
  by_cases three : seqLen (c :: r) = 3
  · rw [three] at inside
    rw [codepoint_append t inside]
  · rw [if_neg three, if_neg three]

/-- Cutting a string behind its first unit, or later, leaves the unit as it is. -/
theorem glyphAt_append (hangul : HangulData) {c : UInt8} {r : List UInt8} (t : List UInt8)
    (inside : (glyphAt hangul (c :: r ++ t)).1 ≤ (c :: r).length) :
    glyphAt hangul (c :: r ++ t) = glyphAt hangul (c :: r) := by
  have same : byteAt (c :: r ++ t) 0 = byteAt (c :: r) 0 := rfl
  unfold glyphAt at inside ⊢
  rw [same] at inside ⊢
  split at inside
  next printable => rw [if_pos printable, if_pos printable]
  next other =>
    rw [if_neg other, if_neg other, seqLen_append t inside, hangulAt_append hangul t inside]

/-! ### Units and their bytes -/

/-- The first byte of a unit, and the others. -/
theorem firstGlyph_mem {hangul : HangulData} {c b : UInt8} {r : List UInt8}
    (member : b ∈ (firstGlyph hangul (c :: r)).bytes) : b = c ∨ 0x80 ≤ b := by
  obtain ⟨i, found⟩ := List.mem_iff_getElem?.mp member
  have inside := (List.getElem?_eq_some_iff.mp found).1
  simp only [firstGlyph_bytes] at found inside
  rw [List.length_take] at inside
  rw [List.getElem?_take, if_pos (by omega)] at found
  cases i with
  | zero =>
    cases found
    exact .inl rfl
  | succ i =>
    have bounds := glyphAt_bytes hangul (c := c) r (i := i + 1) (by omega) (by omega)
    right
    have same : byteAt (c :: r) (i + 1) = b := by
      rw [byteAt, List.getD_eq_getElem?_getD, found]
      rfl
    rw [← same]
    exact bounds.2

theorem firstGlyph_ne_nul {hangul : HangulData} {c b : UInt8} {r : List UInt8} (notNul : c ≠ 0)
    (member : b ∈ (firstGlyph hangul (c :: r)).bytes) : b ≠ 0 := by
  rcases firstGlyph_mem member with rfl | high
  · exact notNul
  · rintro rfl
    exact absurd high (by decide)

theorem firstGlyph_length (hangul : HangulData) (c : UInt8) (r : List UInt8) :
    (firstGlyph hangul (c :: r)).bytes.length = (glyphAt hangul (c :: r)).1 := by
  rw [firstGlyph_bytes, List.length_take, Nat.min_eq_left (glyphAt_le hangul c r)]

theorem firstGlyph_split (hangul : HangulData) (s : List UInt8) :
    (firstGlyph hangul s).bytes ++ s.drop (glyphAt hangul s).1 = s :=
  List.take_append_drop _ s

/-- A unit is the newline exactly when it begins with it. -/
theorem firstGlyph_isNewline (hangul : HangulData) (c : UInt8) (r : List UInt8) :
    (firstGlyph hangul (c :: r)).isNewline = true ↔ c = 0x0A := by
  unfold Glyph.isNewline
  rw [beq_iff_eq]
  constructor
  · intro newline
    have length := firstGlyph_length hangul c r
    rw [newline] at length
    rw [firstGlyph_bytes, ← length] at newline
    exact (List.cons.inj newline).1
  · rintro rfl
    rw [firstGlyph_bytes, glyphAt_newline]
    rfl

/-- The units hold the bytes of the string. -/
theorem glyphs_flat (hangul : HangulData) (s : List UInt8) :
    flat (glyphs hangul s) = s.takeWhile (· != 0) := by
  fun_induction glyphs hangul s with
  | case1 => rfl
  | case2 => rfl
  | case3 c r notNul ih =>
    have plain : ∀ b ∈ (firstGlyph hangul (c :: r)).bytes, (b != 0) = true := by
      intro b member
      simpa using firstGlyph_ne_nul notNul member
    rw [flat_cons, ih, ← List.takeWhile_append_of_pos plain, firstGlyph_split]

/-- The units taken apart: the string begins with the first one. -/
theorem glyphs_eq_cons {hangul : HangulData} {s : List UInt8} {g : Glyph} {gs : List Glyph}
    (units : glyphs hangul s = g :: gs) :
    ∃ c r, s = c :: r ∧ c ≠ 0 ∧ g = firstGlyph hangul s ∧
      glyphs hangul (s.drop (glyphAt hangul s).1) = gs := by
  cases s with
  | nil =>
    rw [glyphs_nil] at units
    cases units
  | cons c r =>
    by_cases nul : c = 0
    · rw [nul, glyphs_nul] at units
      cases units
    · rw [glyphs_cons hangul nul, List.cons.injEq] at units
      exact ⟨c, r, rfl, nul, units.1.symm, units.2⟩

/-- The units behind a cut are those of the rest of the string. -/
theorem glyphs_drop {hangul : HangulData} {s : List UInt8} {gs post : List Glyph}
    (units : glyphs hangul s = gs ++ post) : glyphs hangul (s.drop (flat gs).length) = post := by
  induction gs generalizing s with
  | nil => exact units
  | cons g gs ih =>
    obtain ⟨c, r, rfl, -, rfl, later⟩ := glyphs_eq_cons units
    have rest := ih later
    rwa [List.drop_drop, ← firstGlyph_length, ← List.length_append] at rest

/-- The units before a cut are those of the string that ends there. -/
theorem glyphs_cut {hangul : HangulData} {s : List UInt8} {gs post : List Glyph}
    (units : glyphs hangul s = gs ++ post) : glyphs hangul (flat gs) = gs := by
  induction gs generalizing s with
  | nil => exact glyphs_nil hangul
  | cons g gs ih =>
    rw [List.cons_append] at units
    obtain ⟨c, r, rfl, notNul, rfl, later⟩ := glyphs_eq_cons units
    have tail := ih later
    -- the bytes of the units before the cut begin the string
    obtain ⟨t, whole⟩ : (firstGlyph hangul (c :: r)).bytes ++ flat gs <+: c :: r := by
      have inRest : flat gs <+: (c :: r).drop (glyphAt hangul (c :: r)).1 := by
        have all := glyphs_flat hangul ((c :: r).drop (glyphAt hangul (c :: r)).1)
        rw [later, flat_append] at all
        exact (all ▸ List.prefix_append _ _).trans (List.takeWhile_prefix _)
      have both := (List.prefix_append_right_inj (firstGlyph hangul (c :: r)).bytes).mpr inRest
      rwa [firstGlyph_split] at both
    obtain ⟨d, first⟩ : ∃ d, (firstGlyph hangul (c :: r)).bytes = c :: d := by
      obtain ⟨n, count⟩ := Nat.exists_eq_add_of_lt (glyphAt_pos hangul (c :: r))
      exact ⟨r.take n, by rw [firstGlyph_bytes, count, Nat.zero_add, List.take_succ_cons]⟩
    have length := firstGlyph_length hangul c r
    rw [first] at whole length
    have same : glyphAt hangul (c :: r) = glyphAt hangul (c :: (d ++ flat gs)) := by
      rw [List.cons_append] at whole
      conv_lhs => rw [← whole]
      apply glyphAt_append
      rw [whole, ← length]
      simp
    have again : firstGlyph hangul (c :: (d ++ flat gs)) = firstGlyph hangul (c :: r) := by
      have bytes : (c :: (d ++ flat gs)).take (c :: d).length = c :: d := by simp
      ext1
      · rw [first, firstGlyph_bytes, ← same, ← length, bytes]
      · rw [firstGlyph_adv, firstGlyph_adv, same]
    have rest : (c :: (d ++ flat gs)).drop (c :: d).length = flat gs := by simp
    rw [flat_cons, first, List.cons_append, glyphs_cons hangul notNul, again, ← same, ← length,
      rest, tail]

theorem mem_glyphs {hangul : HangulData} {s : List UInt8} {g : Glyph} {b : UInt8}
    (unit : g ∈ glyphs hangul s) (member : b ∈ g.bytes) : b ∈ s ∧ b ≠ 0 := by
  have inside : b ∈ flat (glyphs hangul s) := List.mem_flatMap.mpr ⟨g, unit, member⟩
  rw [glyphs_flat] at inside
  constructor
  · exact (List.takeWhile_prefix _).subset inside
  · simpa using List.mem_takeWhile_imp inside

/-- A unit begins with a byte of the string. -/
theorem byteAt_mem_glyphs {hangul : HangulData} {s : List UInt8} {g : Glyph}
    (unit : g ∈ glyphs hangul s) : byteAt g.bytes 0 ∈ s := by
  cases bytes : g.bytes with
  | nil =>
    fun_induction glyphs hangul s with
    | case1 => cases unit
    | case2 => cases unit
    | case3 c r notNul ih =>
      rcases List.mem_cons.mp unit with rfl | later
      · have positive := glyphAt_pos hangul (c :: r)
        rw [← firstGlyph_length, bytes] at positive
        cases positive
      · exact List.mem_of_mem_drop (ih later)
  | cons b rest =>
    rw [byteAt_cons_zero]
    exact (mem_glyphs unit (bytes ▸ List.mem_cons_self)).1

/-- Without the newline in the string there is none among the units. -/
theorem glyphs_inLine (hangul : HangulData) {s : List UInt8} (inLine : 0x0A ∉ s) :
    ∀ g ∈ glyphs hangul s, g.isNewline = false := by
  intro g unit
  by_contra newline
  have bytes : g.bytes = [0x0A] := by simpa [Glyph.isNewline] using newline
  exact inLine (mem_glyphs unit (bytes ▸ List.mem_singleton_self _)).1

/-! ### Measuring units -/

/-- The loop of `measure` takes the units of the greedy line. -/
theorem measureLoop_glyphs (hangul : HangulData) (maxW : Int) (pre : List Glyph) (off : Nat)
    (s : List UInt8) {line : List Glyph}
    (taken : line = (glyphs hangul s).take
      (Wrap.fitAfter Glyph.adv Glyph.isNewline maxW pre (glyphs hangul s))) :
    measureLoop hangul maxW (pre.map Glyph.adv).sum (!pre.isEmpty) off s =
      (((pre ++ line).map Glyph.adv).sum, !(pre ++ line).isEmpty, off + (flat line).length) := by
  subst taken
  fun_induction glyphs hangul s generalizing pre off with
  | case1 => simp [measureLoop]
  | case2 r =>
    rw [measureLoop, if_pos (.inl rfl)]
    simp
  | case3 c r notNul ih =>
    rw [measureLoop, Wrap.fitAfter]
    by_cases newline : c = 0x0A
    · rw [if_pos (.inr newline), if_pos ((firstGlyph_isNewline hangul c r).mpr newline)]
      simp
    have inLine : ¬(firstGlyph hangul (c :: r)).isNewline = true := fun isNewline =>
      newline ((firstGlyph_isNewline hangul c r).mp isNewline)
    have width : Wrap.width Glyph.adv (pre ++ [firstGlyph hangul (c :: r)]) =
        (pre.map Glyph.adv).sum + (glyphAt hangul (c :: r)).2 - 1 := by
      rw [Wrap.width_of_ne (by simp), Wrap.sum_concat]
      rfl
    have any : (!pre.isEmpty) = true ↔ pre ≠ [] := by simp
    rw [if_neg (by simp [notNul, newline]), if_neg inLine, width]
    dsimp only
    by_cases full : maxW ≥ 0 ∧ pre ≠ [] ∧
        (pre.map Glyph.adv).sum + (glyphAt hangul (c :: r)).2 - 1 > maxW
    · rw [if_pos (by rwa [any]), if_pos full]
      simp
    · rw [if_neg (by rwa [any]), if_neg full, List.take_succ_cons, flat_cons, List.length_append,
        firstGlyph_length, ← Nat.add_assoc, List.append_cons]
      have later := ih (pre ++ [firstGlyph hangul (c :: r)]) (off + (glyphAt hangul (c :: r)).1)
      have more : (!(pre ++ [firstGlyph hangul (c :: r)]).isEmpty) = true := by simp
      rw [Wrap.sum_concat, firstGlyph_adv, more] at later
      exact later

/-- The units of the first line of a string. -/
def firstLine (hangul : HangulData) (maxW : Int) (s : List UInt8) : List Glyph :=
  (glyphs hangul s).take (Wrap.fit Glyph.adv Glyph.isNewline maxW (glyphs hangul s))

/-- `measure` measures the first line. -/
theorem measure_glyphs (hangul : HangulData) (maxW : Int) (s : List UInt8) :
    measure hangul s maxW =
      (lineWidth (firstLine hangul maxW s), (flat (firstLine hangul maxW s)).length) := by
  have loop : measureLoop hangul maxW 0 false 0 s =
      (((firstLine hangul maxW s).map Glyph.adv).sum, !(firstLine hangul maxW s).isEmpty,
        0 + (flat (firstLine hangul maxW s)).length) :=
    measureLoop_glyphs hangul maxW [] 0 s rfl
  unfold measure
  rw [loop, Nat.zero_add]
  by_cases none : firstLine hangul maxW s = []
  · rw [none]
    rfl
  · rw [lineWidth, Wrap.width_of_ne none]
    simp [none]

/-- A string without newline is measured as a whole. -/
theorem firstLine_whole {hangul : HangulData} {s : List UInt8}
    (inLine : ∀ g ∈ glyphs hangul s, g.isNewline = false) :
    firstLine hangul (-1) s = glyphs hangul s := by
  rw [firstLine, Wrap.fit, Wrap.fitAfter_unlimited (by decide) _ inLine, List.take_length]

theorem fontTextWidth_glyphs {hangul : HangulData} {s : List UInt8} {scale : Int}
    (inLine : ∀ g ∈ glyphs hangul s, g.isNewline = false) (positive : 1 ≤ scale) :
    fontTextWidth hangul s scale = lineWidth (glyphs hangul s) * scale := by
  unfold fontTextWidth
  rw [measure_glyphs, firstLine_whole inLine, if_neg (by omega)]

end InstagramNt40.Font
