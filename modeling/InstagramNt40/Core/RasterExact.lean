import InstagramNt40.Core.RasterMemory

/-!
# Exactly the visible pixels

A drawing operation changes the pixels of its figure that the surface has, and no other
cell of the buffer. Such operations compose, so that an outline is four lines.
-/
namespace InstagramNt40.Raster

/-- An operation that turns the surface `s` into `t`; `checked` is its run with checked
accesses. The pixels of `area` that exist get the value `paint`, every other cell of the
buffer keeps its own. -/
structure DrawsExactly (s t : Surface) (checked : Option Surface) (area : Int → Int → Prop)
    (paint : Int → Int → UInt32) : Prop where
  safe : checked = some t
  shape : t.shape = s.shape
  inside : ∀ x y, s.Has x y → area x y → t.pixel x y = paint x y
  outside : ∀ cell : Nat, (∀ x y, s.Has x y → area x y → cell ≠ s.offset x y) →
    t.pixels cell = s.pixels cell

namespace DrawsExactly

variable {s t u : Surface} {checked : Option Surface} {area area' : Int → Int → Prop}
  {paint paint' : Int → Int → UInt32}

/-- Nothing to draw. -/
theorem nothing (empty : ∀ x y, ¬area x y) : DrawsExactly s s (some s) area paint where
  safe := rfl
  shape := rfl
  inside := fun x y _ within => absurd within (empty x y)
  outside := fun _ _ => rfl

theorem offset_ne (stride : s.w ≤ s.stride) {x y x' y' : Int} (has : s.Has x y)
    (has' : s.Has x' y') (other : ¬(x = x' ∧ y = y')) : s.offset x y ≠ s.offset x' y' := by
  unfold Surface.Has at has has'
  intro same
  exact other (offset_inj has.1 (by omega) has.2.2.1 has'.1 (by omega) has'.2.2.1 same)

theorem offset_eq (draws : DrawsExactly s t checked area paint) (x y : Int) :
    t.offset x y = s.offset x y := by
  have same : t.stride = s.stride := congrArg (·.2.2) draws.shape
  unfold Surface.offset
  rw [same]

/-- The value of a pixel: drawn or not. -/
theorem pixel (draws : DrawsExactly s t checked area paint) (stride : s.w ≤ s.stride) {x y : Int}
    (has : s.Has x y) : (area x y → t.pixel x y = paint x y) ∧
      (¬area x y → t.pixel x y = s.pixel x y) := by
  refine ⟨draws.inside x y has, ?_⟩
  intro out
  unfold Surface.pixel
  rw [draws.offset_eq]
  apply draws.outside
  intro x' y' has' within
  apply offset_ne stride has has'
  rintro ⟨rfl, rfl⟩
  exact out within

/-- A cell of the buffer is a pixel that is drawn, or as it was. -/
theorem cell_cases (draws : DrawsExactly s t checked area paint) (cell : Nat) :
    (∃ x y, s.Has x y ∧ area x y ∧ cell = s.offset x y ∧ t.pixels cell = paint x y) ∨
      (∀ x y, s.Has x y → area x y → cell ≠ s.offset x y) ∧ t.pixels cell = s.pixels cell := by
  by_cases drawn : ∃ x y, s.Has x y ∧ area x y ∧ cell = s.offset x y
  · obtain ⟨x, y, has, within, rfl⟩ := drawn
    refine .inl ⟨x, y, has, within, rfl, ?_⟩
    have value := draws.inside x y has within
    unfold Surface.pixel at value
    rwa [draws.offset_eq] at value
  · have out : ∀ x y, s.Has x y → area x y → cell ≠ s.offset x y :=
      fun x y has within same => drawn ⟨x, y, has, within, same⟩
    exact .inr ⟨out, draws.outside cell out⟩

/-- The result is determined by what is drawn. -/
theorem unique {checked' : Option Surface} (draws : DrawsExactly s t checked area paint)
    (draws' : DrawsExactly s u checked' area paint')
    (same : ∀ x y, s.Has x y → area x y → paint x y = paint' x y) : t = u := by
  have shape : t.shape = u.shape := draws.shape.trans draws'.shape.symm
  have pixels : t.pixels = u.pixels := by
    funext cell
    rcases draws.cell_cases cell with ⟨x, y, has, within, rfl, value⟩ | ⟨out, kept⟩
    · have value' := draws'.inside x y has within
      unfold Surface.pixel at value'
      rw [draws'.offset_eq] at value'
      rw [value, value', same x y has within]
    · rw [kept, draws'.outside cell out]
  obtain ⟨pixels₁, w₁, h₁, stride₁⟩ := t
  obtain ⟨pixels₂, w₂, h₂, stride₂⟩ := u
  unfold Surface.shape at shape
  simp only [Prod.mk.injEq] at shape
  obtain ⟨rfl, rfl, rfl⟩ := shape
  dsimp only at pixels
  rw [pixels]

/-- Two operations one after the other: the second one covers the first. -/
theorem comp [DecidableRel area'] (next : Surface → Option Surface)
    (first : DrawsExactly s t checked area paint)
    (second : DrawsExactly t u (next t) area' paint') (stride : s.w ≤ s.stride) :
    DrawsExactly s u (checked.bind next) (fun x y => area x y ∨ area' x y)
      (fun x y => if area' x y then paint' x y else paint x y) := by
  have has {x y : Int} : t.Has x y ↔ s.Has x y := Surface.has_congr first.shape
  constructor
  · rw [first.safe, Option.bind_some, second.safe]
  · exact second.shape.trans first.shape
  · intro x y there within
    obtain ⟨drawn, kept⟩ := second.pixel (Surface.stride_congr first.shape stride) (has.mpr there)
    by_cases last : area' x y
    · rw [if_pos last, drawn last]
    · rw [if_neg last, kept last]
      exact first.inside x y there (within.resolve_right last)
  · intro cell out
    have sameStride : t.stride = s.stride := congrArg (·.2.2) first.shape
    rw [second.outside cell, first.outside cell]
    · exact fun x y there within => out x y there (.inl within)
    · intro x y there within
      unfold Surface.offset
      rw [sameStride]
      exact out x y (has.mp there) (.inr within)

/-- The same figure and the same values, said in another way. -/
theorem congr (draws : DrawsExactly s t checked area paint)
    (figure : ∀ x y, area' x y ↔ area x y) (values : ∀ x y, area' x y → paint' x y = paint x y) :
    DrawsExactly s t checked area' paint' where
  safe := draws.safe
  shape := draws.shape
  inside := fun x y has within => by
    rw [values x y within]
    exact draws.inside x y has ((figure x y).mp within)
  outside := fun cell out =>
    draws.outside cell fun x y has within => out x y has ((figure x y).mpr within)

/-- From the rows and columns of the buffer to all of its cells. -/
theorem of_pixel [DecidableRel area] (stride : s.w ≤ s.stride) (safe : checked = some t)
    (shape : t.shape = s.shape) (empty : s.w ≤ 0 → t = s)
    (pixels : ∀ x y, 0 ≤ x → x < s.stride → 0 ≤ y →
      t.pixel x y = if area x y ∧ x < s.w ∧ y < s.h then paint x y else s.pixel x y) :
    DrawsExactly s t checked area paint where
  safe := safe
  shape := shape
  inside := fun x y has within => by
    obtain ⟨hx, hx', hy, hy'⟩ := has
    rw [pixels x y hx (by omega) hy, if_pos ⟨within, hx', hy'⟩]
  outside := fun cell out => by
    rcases Int.lt_or_le 0 s.w with wide | narrow
    · -- the cell is the column `cell % stride` of the row `cell / stride`
      have positive : 0 < s.stride := by omega
      have sameStride : t.stride = s.stride := congrArg (·.2.2) shape
      have place : (cell / s.stride * s.stride + cell % s.stride).toNat = cell := by
        rw [Int.ediv_mul_add_emod, Int.toNat_natCast]
      have here : s.offset (cell % s.stride) (cell / s.stride) = cell := place
      have column := Int.emod_nonneg (cell : Int) positive.ne'
      have row := Int.ediv_nonneg (Int.natCast_nonneg cell) positive.le
      have value := pixels (cell % s.stride) (cell / s.stride) column
        (Int.emod_lt_of_pos _ positive) row
      have undrawn : ¬(area (cell % s.stride) (cell / s.stride) ∧ cell % s.stride < s.w ∧
          cell / s.stride < s.h) := by
        rintro ⟨within, right, below⟩
        exact out _ _ ⟨column, right, row, below⟩ within here.symm
      rw [if_neg undrawn] at value
      unfold Surface.pixel Surface.offset at value
      rwa [sameStride, place] at value
    · rw [empty narrow]

end DrawsExactly

/-! ### Rectangles -/

section Rectangle

variable {s : Surface} (r : Rect) (color : UInt32)

/-- A clipped rectangle lies on the surface. -/
theorem clipRect_has {c : Rect} (clipped : clipRect s r = some c) {x y : Int}
    (inside : c.Holds x y) : s.Has x y := by
  obtain ⟨left, -, top⟩ := clipRect_inside clipped
  have hx : 0 ≤ x := by
    have := inside.1
    omega
  have hy : 0 ≤ y := by
    have := inside.2.2.1
    omega
  obtain ⟨-, right, below⟩ := (clipRect_holds (s := s) hx hy).mpr ⟨c, clipped, inside⟩
  exact ⟨hx, right, hy, below⟩

theorem clipRect_narrow (narrow : s.w ≤ 0) : clipRect s r = none := by
  unfold clipRect
  dsimp only
  rw [if_pos]
  left
  split_ifs <;> omega

theorem surfaceFillRect_safe (stride : s.w ≤ s.stride) :
    Mem.surfaceFillRect s r color = some (surfaceFillRect s r color) := by
  unfold Mem.surfaceFillRect surfaceFillRect
  cases clipped : clipRect s r with
  | none => rfl
  | some c =>
    apply Mem.forRect_eq fun x y t => t.set_shape x y color
    intro x y t inside shape
    have has := (Surface.has_congr shape).mpr (clipRect_has r clipped inside)
    exact Mem.store_eq (Surface.stride_congr shape stride) has color

theorem surfaceBlendRect_safe (stride : s.w ≤ s.stride) :
    Mem.surfaceBlendRect s r color = some (surfaceBlendRect s r color) := by
  unfold Mem.surfaceBlendRect surfaceBlendRect
  cases clipped : clipRect s r with
  | none => rfl
  | some c =>
    apply Mem.forRect_eq fun x y t => t.set_shape x y _
    intro x y t inside shape
    have has := (Surface.has_congr shape).mpr (clipRect_has r clipped inside)
    have within := Surface.stride_congr shape stride
    rw [Mem.load_eq within has, Option.bind_some, Mem.store_eq within has]

theorem surfaceFillRect_draws (stride : s.w ≤ s.stride) :
    DrawsExactly s (surfaceFillRect s r color) (Mem.surfaceFillRect s r color) r.Holds
      fun _ _ => color := by
  apply DrawsExactly.of_pixel stride (surfaceFillRect_safe r color stride)
    (surfaceFillRect_shape s r color)
  · intro narrow
    unfold surfaceFillRect
    rw [clipRect_narrow r narrow]
  · exact fun x y hx hx' hy => surfaceFillRect_pixel r color stride hx hx' hy

theorem surfaceBlendRect_draws (stride : s.w ≤ s.stride) :
    DrawsExactly s (surfaceBlendRect s r color) (Mem.surfaceBlendRect s r color) r.Holds
      fun x y => blendOver (s.pixel x y) color := by
  apply DrawsExactly.of_pixel stride (surfaceBlendRect_safe r color stride)
    (surfaceBlendRect_shape s r color)
  · intro narrow
    unfold surfaceBlendRect
    rw [clipRect_narrow r narrow]
  · exact fun x y hx hx' hy => surfaceBlendRect_pixel r color stride hx hx' hy

end Rectangle

/-! ### Lines and outlines -/

/-- The pixel (`x`, `y`) is on the outline of the rectangle, one pixel wide. -/
def Rect.Outline (r : Rect) (x y : Int) : Prop :=
  r.Holds x y ∧ (x = r.x ∨ x = r.x + r.w - 1 ∨ y = r.y ∨ y = r.y + r.h - 1)

/-- On its bottom row or in its right column. -/
def Rect.BottomRight (r : Rect) (x y : Int) : Prop := x = r.x + r.w - 1 ∨ y = r.y + r.h - 1

instance (r : Rect) : DecidableRel r.Holds := fun x y => inferInstanceAs (Decidable (r.Holds x y))

instance (r : Rect) : DecidableRel r.BottomRight := fun x y => by
  unfold Rect.BottomRight
  infer_instance

section Outline

variable {s : Surface} (r : Rect)

/-- Four lines along the sides, the later ones over the earlier. -/
theorem fourLines_draw (stride : s.w ≤ s.stride) (q₁ q₂ q₃ q₄ : Rect) (c₁ c₂ c₃ c₄ : UInt32) :
    DrawsExactly s
      (surfaceFillRect (surfaceFillRect (surfaceFillRect (surfaceFillRect s q₁ c₁) q₂ c₂) q₃ c₃)
        q₄ c₄)
      (((Mem.surfaceFillRect s q₁ c₁).bind fun s => Mem.surfaceFillRect s q₂ c₂).bind
        (fun s => Mem.surfaceFillRect s q₃ c₃) |>.bind fun s => Mem.surfaceFillRect s q₄ c₄)
      (fun x y => ((q₁.Holds x y ∨ q₂.Holds x y) ∨ q₃.Holds x y) ∨ q₄.Holds x y)
      fun x y => if q₄.Holds x y then c₄ else if q₃.Holds x y then c₃
        else if q₂.Holds x y then c₂ else c₁ := by
  have line (q : Rect) (c : UInt32) {t : Surface} (shape : t.shape = s.shape) :=
    surfaceFillRect_draws q c (Surface.stride_congr shape stride)
  have first := line q₁ c₁ rfl
  have second := first.comp (fun s => Mem.surfaceFillRect s q₂ c₂)
    (line q₂ c₂ first.shape) stride
  have third := second.comp (fun s => Mem.surfaceFillRect s q₃ c₃)
    (line q₃ c₃ second.shape) stride
  exact third.comp (fun s => Mem.surfaceFillRect s q₄ c₄)
    (line q₄ c₄ third.shape) stride

theorem surfaceFrame_draws (color : UInt32) (stride : s.w ≤ s.stride) :
    DrawsExactly s (surfaceFrame s r color) (Mem.surfaceFrame s r color) r.Outline
      fun _ _ => color := by
  unfold surfaceFrame Mem.surfaceFrame
  by_cases empty : r.w ≤ 0 ∨ r.h ≤ 0
  · rw [if_pos empty, if_pos empty]
    apply DrawsExactly.nothing
    unfold Rect.Outline Rect.Holds
    omega
  · rw [if_neg empty, if_neg empty]
    have lines := fourLines_draw stride ⟨r.x, r.y, r.w, 1⟩ ⟨r.x, r.y + r.h - 1, r.w, 1⟩
      ⟨r.x, r.y, 1, r.h⟩ ⟨r.x + r.w - 1, r.y, 1, r.h⟩ color color color color
    rw [Option.bind_assoc, Option.bind_assoc] at lines
    apply lines.congr
    · intro x y
      unfold Rect.Outline Rect.Holds
      dsimp only
      omega
    · intro x y _
      simp only [ite_self]

theorem surfaceBevel_draws (light dark : UInt32) (stride : s.w ≤ s.stride) :
    DrawsExactly s (surfaceBevel s r light dark) (Mem.surfaceBevel s r light dark) r.Outline
      fun x y => if r.BottomRight x y then dark else light := by
  unfold surfaceBevel Mem.surfaceBevel
  by_cases empty : r.w ≤ 0 ∨ r.h ≤ 0
  · rw [if_pos empty, if_pos empty]
    apply DrawsExactly.nothing
    unfold Rect.Outline Rect.Holds
    omega
  · rw [if_neg empty, if_neg empty]
    have lines := fourLines_draw stride ⟨r.x, r.y, r.w, 1⟩ ⟨r.x, r.y, 1, r.h⟩
      ⟨r.x, r.y + r.h - 1, r.w, 1⟩ ⟨r.x + r.w - 1, r.y, 1, r.h⟩ light light dark dark
    rw [Option.bind_assoc, Option.bind_assoc] at lines
    apply lines.congr
    · intro x y
      unfold Rect.Outline Rect.Holds
      dsimp only
      omega
    · -- the dark lines come last, so that the corners they share are dark
      intro x y on
      unfold Rect.Outline at on
      have right : Rect.Holds ⟨r.x + r.w - 1, r.y, 1, r.h⟩ x y ↔ x = r.x + r.w - 1 := by
        unfold Rect.Holds at on ⊢
        dsimp only
        omega
      have bottom : Rect.Holds ⟨r.x, r.y + r.h - 1, r.w, 1⟩ x y ↔ y = r.y + r.h - 1 := by
        unfold Rect.Holds at on ⊢
        dsimp only
        omega
      simp only [right, bottom, ite_self, Rect.BottomRight, ite_or]

end Outline

/-! ### All of them -/

/-- What the drawing operations for rectangles do to the surface `s`. -/
structure DrawsRects (s : Surface) : Prop where
  fillRect : ∀ r color, DrawsExactly s (surfaceFillRect s r color) (Mem.surfaceFillRect s r color)
    r.Holds fun _ _ => color
  blendRect : ∀ r color, DrawsExactly s (surfaceBlendRect s r color)
    (Mem.surfaceBlendRect s r color) r.Holds fun x y => blendOver (s.pixel x y) color
  hline : ∀ x y w color, DrawsExactly s (surfaceHline s x y w color)
    (Mem.surfaceHline s x y w color) (fun px py => x ≤ px ∧ px < x + w ∧ py = y)
    fun _ _ => color
  vline : ∀ x y h color, DrawsExactly s (surfaceVline s x y h color)
    (Mem.surfaceVline s x y h color) (fun px py => px = x ∧ y ≤ py ∧ py < y + h)
    fun _ _ => color
  frame : ∀ r color, DrawsExactly s (surfaceFrame s r color) (Mem.surfaceFrame s r color)
    r.Outline fun _ _ => color
  bevel : ∀ r light dark, DrawsExactly s (surfaceBevel s r light dark)
    (Mem.surfaceBevel s r light dark) r.Outline
    fun x y => if r.BottomRight x y then dark else light

theorem drawsRects (s : Surface) (stride : s.w ≤ s.stride) : DrawsRects s where
  fillRect := fun r color => surfaceFillRect_draws r color stride
  blendRect := fun r color => surfaceBlendRect_draws r color stride
  hline := fun x y w color => by
    apply (surfaceFillRect_draws ⟨x, y, w, 1⟩ color stride).congr
    · intro px py
      unfold Rect.Holds
      dsimp only
      omega
    · exact fun _ _ _ => rfl
  vline := fun x y h color => by
    apply (surfaceFillRect_draws ⟨x, y, 1, h⟩ color stride).congr
    · intro px py
      unfold Rect.Holds
      dsimp only
      omega
    · exact fun _ _ _ => rfl
  frame := fun r color => surfaceFrame_draws r color stride
  bevel := fun r light dark => surfaceBevel_draws r light dark stride

theorem drawsRects_padded : DrawsRects ⟨fun _ => 0, 3, 2, 5⟩ := drawsRects _ (by decide)

end InstagramNt40.Raster
