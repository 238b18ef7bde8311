import InstagramNt40.Core.RasterExact

/-!
# Blits under clipping

The two clippings of `surface_blit` move the origin of the source and of the destination
together, so that what is left of a blit is the pixels that exist on both sides.
`surface_blit_alpha` has a clipping of its own, which agrees with it.
-/
namespace InstagramNt40.Raster

open Loop

namespace BlitPlan

/-- The source pixel that comes to (`x`, `y`). -/
def sourceX (plan : BlitPlan) (x : Int) : Int := plan.sr.x + (x - plan.dx)

def sourceY (plan : BlitPlan) (y : Int) : Int := plan.sr.y + (y - plan.dy)

/-- `plan'` brings the same source pixels to the places of `plan` that satisfy `keep`, and
nothing to the others. -/
structure Cut (plan plan' : BlitPlan) (keep : Int → Int → Prop) : Prop where
  alignedX : plan'.sr.x - plan'.dx = plan.sr.x - plan.dx
  alignedY : plan'.sr.y - plan'.dy = plan.sr.y - plan.dy
  covers : ∀ x y, plan'.Covers x y ↔ plan.Covers x y ∧ keep x y

namespace Cut

variable {plan plan' plan'' : BlitPlan} {keep keep' : Int → Int → Prop}

theorem sourceX (cut : plan.Cut plan' keep) (x : Int) : plan'.sourceX x = plan.sourceX x := by
  have := cut.alignedX
  unfold BlitPlan.sourceX
  omega

theorem sourceY (cut : plan.Cut plan' keep) (y : Int) : plan'.sourceY y = plan.sourceY y := by
  have := cut.alignedY
  unfold BlitPlan.sourceY
  omega

theorem trans (first : plan.Cut plan' keep) (second : plan'.Cut plan'' keep') :
    plan.Cut plan'' fun x y => keep x y ∧ keep' x y where
  alignedX := second.alignedX.trans first.alignedX
  alignedY := second.alignedY.trans first.alignedY
  covers := fun x y => by rw [second.covers, first.covers, and_assoc]

/-- A cut that is only made where it changes something. -/
theorem ite {c : Prop} [Decidable c] (made : c → plan.Cut plan' keep)
    (needless : ¬c → ∀ x y, plan.Covers x y → keep x y) :
    plan.Cut (if c then plan' else plan) keep := by
  by_cases holds : c
  · rw [if_pos holds]
    exact made holds
  · rw [if_neg holds]
    exact ⟨rfl, rfl, fun x y => (and_iff_left_of_imp (needless holds x y)).symm⟩

end Cut

end BlitPlan

/-! ### The two clippings -/

section Clipping

variable (dst src : Surface) (plan : BlitPlan)

/-- The source pixel of the place (`x`, `y`) exists. -/
def BlitPlan.InSource (plan : BlitPlan) (src : Surface) (x y : Int) : Prop :=
  src.Has (plan.sourceX x) (plan.sourceY y)

/-- The source pixel and the place itself exist. -/
def BlitPlan.Visible (plan : BlitPlan) (dst src : Surface) (x y : Int) : Prop :=
  plan.InSource src x y ∧ dst.Has x y

/-- The four adjustments against the bounds of the source. -/
theorem clipSource_cut : ∃ c : BlitPlan,
    clipSource src plan = (if c.sr.w ≤ 0 ∨ c.sr.h ≤ 0 then none else some c) ∧
      plan.Cut c (plan.InSource src) := by
  refine ⟨_, rfl, ?_⟩
  have left (p : BlitPlan) : p.Cut (if p.sr.x < 0 then
      { p with dx := p.dx - p.sr.x, sr := { p.sr with w := p.sr.w + p.sr.x, x := 0 } } else p)
      fun x _ => 0 ≤ p.sourceX x := by
    apply BlitPlan.Cut.ite
    · intro before
      constructor <;> simp only [BlitPlan.Covers, BlitPlan.sourceX] <;> omega
    · simp only [BlitPlan.Covers, BlitPlan.sourceX]
      omega
  have top (p : BlitPlan) : p.Cut (if p.sr.y < 0 then
      { p with dy := p.dy - p.sr.y, sr := { p.sr with h := p.sr.h + p.sr.y, y := 0 } } else p)
      fun _ y => 0 ≤ p.sourceY y := by
    apply BlitPlan.Cut.ite
    · intro above
      constructor <;> simp only [BlitPlan.Covers, BlitPlan.sourceY] <;> omega
    · simp only [BlitPlan.Covers, BlitPlan.sourceY]
      omega
  have right (p : BlitPlan) : p.Cut (if p.sr.x + p.sr.w > src.w then
      { p with sr := { p.sr with w := src.w - p.sr.x } } else p)
      fun x _ => p.sourceX x < src.w := by
    apply BlitPlan.Cut.ite
    · intro behind
      refine ⟨rfl, rfl, ?_⟩
      simp only [BlitPlan.Covers, BlitPlan.sourceX]
      omega
    · simp only [BlitPlan.Covers, BlitPlan.sourceX]
      omega
  have bottom (p : BlitPlan) : p.Cut (if p.sr.y + p.sr.h > src.h then
      { p with sr := { p.sr with h := src.h - p.sr.y } } else p)
      fun _ y => p.sourceY y < src.h := by
    apply BlitPlan.Cut.ite
    · intro below
      refine ⟨rfl, rfl, ?_⟩
      simp only [BlitPlan.Covers, BlitPlan.sourceY]
      omega
    · simp only [BlitPlan.Covers, BlitPlan.sourceY]
      omega
  have first := (left plan).trans (top _)
  have second := first.trans (right _)
  have third := second.trans (bottom _)
  refine ⟨third.alignedX, third.alignedY, ?_⟩
  intro x y
  rw [third.covers, (left plan).sourceY, first.sourceX, second.sourceY]
  unfold BlitPlan.InSource Surface.Has
  apply and_congr_right
  intro _
  omega

/-- The four adjustments against the bounds of the destination. -/
theorem clipDest_cut : ∃ c : BlitPlan,
    clipDest dst plan = (if c.sr.w ≤ 0 ∨ c.sr.h ≤ 0 then none else some c) ∧
      plan.Cut c dst.Has := by
  refine ⟨_, rfl, ?_⟩
  have left (p : BlitPlan) : p.Cut (if p.dx < 0 then
      { p with dx := 0, sr := { p.sr with x := p.sr.x - p.dx, w := p.sr.w + p.dx } } else p)
      fun x _ => 0 ≤ x := by
    apply BlitPlan.Cut.ite
    · intro before
      constructor <;> simp only [BlitPlan.Covers] <;> omega
    · simp only [BlitPlan.Covers]
      omega
  have top (p : BlitPlan) : p.Cut (if p.dy < 0 then
      { p with dy := 0, sr := { p.sr with y := p.sr.y - p.dy, h := p.sr.h + p.dy } } else p)
      fun _ y => 0 ≤ y := by
    apply BlitPlan.Cut.ite
    · intro above
      constructor <;> simp only [BlitPlan.Covers] <;> omega
    · simp only [BlitPlan.Covers]
      omega
  have right (p : BlitPlan) : p.Cut (if p.dx + p.sr.w > dst.w then
      { p with sr := { p.sr with w := dst.w - p.dx } } else p)
      fun x _ => x < dst.w := by
    apply BlitPlan.Cut.ite
    · intro behind
      refine ⟨rfl, rfl, ?_⟩
      simp only [BlitPlan.Covers]
      omega
    · simp only [BlitPlan.Covers]
      omega
  have bottom (p : BlitPlan) : p.Cut (if p.dy + p.sr.h > dst.h then
      { p with sr := { p.sr with h := dst.h - p.dy } } else p)
      fun _ y => y < dst.h := by
    apply BlitPlan.Cut.ite
    · intro below
      refine ⟨rfl, rfl, ?_⟩
      simp only [BlitPlan.Covers]
      omega
    · simp only [BlitPlan.Covers]
      omega
  have all := (((left plan).trans (top _)).trans (right _)).trans (bottom _)
  refine ⟨all.alignedX, all.alignedY, ?_⟩
  intro x y
  rw [all.covers]
  unfold Surface.Has
  apply and_congr_right
  intro _
  omega

end Clipping

/-- What a clipping does to a plan: nothing is left of it, or a cut that is not empty. -/
def BlitPlan.Clips (plan : BlitPlan) (result : Option BlitPlan) (keep : Int → Int → Prop) : Prop :=
  match result with
  | none => ∀ x y, ¬(plan.Covers x y ∧ keep x y)
  | some c => plan.Cut c keep ∧ 0 < c.sr.w ∧ 0 < c.sr.h

namespace BlitPlan.Clips

variable {plan c : BlitPlan} {keep keep' : Int → Int → Prop}

theorem of_cut (cut : plan.Cut c keep) :
    plan.Clips (if c.sr.w ≤ 0 ∨ c.sr.h ≤ 0 then none else some c) keep := by
  by_cases empty : c.sr.w ≤ 0 ∨ c.sr.h ≤ 0
  · rw [if_pos empty]
    intro x y shown
    have covered := (cut.covers x y).mpr shown
    unfold Covers at covered
    omega
  · rw [if_neg empty]
    exact ⟨cut, by omega, by omega⟩

theorem bind {result : Option BlitPlan} {next : BlitPlan → Option BlitPlan}
    (first : plan.Clips result keep) (second : ∀ c : BlitPlan, c.Clips (next c) keep') :
    plan.Clips (result.bind next) fun x y => keep x y ∧ keep' x y := by
  cases result with
  | none =>
    intro x y shown
    exact first x y ⟨shown.1, shown.2.1⟩
  | some c =>
    rw [Option.bind_some]
    have behind := second c
    cases last : next c with
    | none =>
      rw [last] at behind
      intro x y shown
      exact behind x y ⟨(first.1.covers x y).mpr ⟨shown.1, shown.2.1⟩, shown.2.2⟩
    | some c' =>
      rw [last] at behind
      exact ⟨first.1.trans behind.1, behind.2⟩

theorem congr {result : Option BlitPlan} (clips : plan.Clips result keep)
    (same : ∀ x y, plan.Covers x y → (keep x y ↔ keep' x y)) : plan.Clips result keep' := by
  cases result with
  | none =>
    rintro x y ⟨covered, kept⟩
    exact clips x y ⟨covered, (same x y covered).mpr kept⟩
  | some c =>
    obtain ⟨cut, some⟩ := clips
    refine ⟨⟨cut.alignedX, cut.alignedY, ?_⟩, some⟩
    intro x y
    rw [cut.covers]
    exact and_congr_right (same x y)

theorem source (src : Surface) (plan : BlitPlan) :
    plan.Clips (clipSource src plan) (plan.InSource src) := by
  obtain ⟨c, eq, cut⟩ := clipSource_cut src plan
  rw [eq]
  exact of_cut cut

theorem dest (dst : Surface) (plan : BlitPlan) : plan.Clips (clipDest dst plan) dst.Has := by
  obtain ⟨c, eq, cut⟩ := clipDest_cut dst plan
  rw [eq]
  exact of_cut cut

end BlitPlan.Clips

/-! ### What is shown -/

/-- A blit of the rectangle `sr` to (`dx`, `dy`) shows the pixel (`i`, `j`) of the
rectangle: it exists in the source and has a place in the destination. -/
structure Shown (dst : Surface) (dx dy : Int) (src : Surface) (sr : Rect) (i j : Int) : Prop where
  left : 0 ≤ i
  right : i < sr.w
  top : 0 ≤ j
  bottom : j < sr.h
  source : src.Has (sr.x + i) (sr.y + j)
  dest : dst.Has (dx + i) (dy + j)

section Shown

variable {dst src : Surface} {dx dy : Int} {sr : Rect}

theorem shown_iff {x y : Int} : Shown dst dx dy src sr (x - dx) (y - dy) ↔
    BlitPlan.Covers ⟨dx, dy, sr⟩ x y ∧ BlitPlan.Visible ⟨dx, dy, sr⟩ dst src x y := by
  have placeX : dx + (x - dx) = x := by omega
  have placeY : dy + (y - dy) = y := by omega
  unfold BlitPlan.Covers BlitPlan.Visible BlitPlan.InSource BlitPlan.sourceX BlitPlan.sourceY
  constructor
  · rintro ⟨left, right, top, bottom, source, dest⟩
    rw [placeX, placeY] at dest
    dsimp only
    exact ⟨by omega, source, dest⟩
  · rintro ⟨covered, source, dest⟩
    dsimp only at covered
    exact ⟨by omega, by omega, by omega, by omega, source, by rwa [placeX, placeY]⟩

/-- The plan of a blit after both clippings. -/
theorem blitPlan_clips (dst : Surface) (dx dy : Int) (src : Surface) (srcrect : Option Rect) :
    BlitPlan.Clips ⟨dx, dy, srcrect.getD ⟨0, 0, src.w, src.h⟩⟩ (blitPlan dst dx dy src srcrect)
      (BlitPlan.Visible ⟨dx, dy, srcrect.getD ⟨0, 0, src.w, src.h⟩⟩ dst src) :=
  (BlitPlan.Clips.source src _).bind (BlitPlan.Clips.dest dst)

end Shown

/-! ### Copying the rows -/

section Rows

variable {dst src : Surface} {plan c : BlitPlan}

/-- Every pixel of a clipped plan exists on both sides. -/
theorem BlitPlan.Cut.has (cut : plan.Cut c (plan.Visible dst src)) {x y : Int} (hx : 0 ≤ x)
    (hx' : x < c.sr.w) (hy : 0 ≤ y) (hy' : y < c.sr.h) :
    src.Has (c.sr.x + x) (c.sr.y + y) ∧ dst.Has (c.dx + x) (c.dy + y) := by
  have covered : c.Covers (c.dx + x) (c.dy + y) := by
    unfold Covers
    omega
  obtain ⟨-, source, dest⟩ := (cut.covers _ _).mp covered
  unfold InSource at source
  rw [← cut.sourceX, ← cut.sourceY] at source
  unfold BlitPlan.sourceX BlitPlan.sourceY at source
  rw [add_sub_cancel_left, add_sub_cancel_left] at source
  exact ⟨source, dest⟩

theorem BlitPlan.Cut.fits (cut : plan.Cut c (plan.Visible dst src)) (wide : 0 < c.sr.w)
    (tall : 0 < c.sr.h) (dstStride : dst.w ≤ dst.stride) (srcStride : src.w ≤ src.stride) :
    c.Fits src dst := by
  obtain ⟨source, dest⟩ := cut.has (Int.le_refl 0) wide (Int.le_refl 0) tall
  obtain ⟨source', dest'⟩ := cut.has (x := c.sr.w - 1) (by omega) (by omega) (Int.le_refl 0) tall
  unfold Surface.Has at source dest source' dest'
  constructor <;> omega

/-- An operation that draws at the places a clipped plan covers. -/
theorem BlitPlan.Cut.draws (cut : plan.Cut c (plan.Visible dst src)) (wide : 0 < c.sr.w)
    (tall : 0 < c.sr.h) (dstStride : dst.w ≤ dst.stride) {t : Surface} {checked : Option Surface}
    {paint : Int → Int → UInt32} (safe : checked = some t) (shape : t.shape = dst.shape)
    (pixels : ∀ x y, 0 ≤ x → x < dst.stride → 0 ≤ y →
      t.pixel x y = if c.Covers x y then paint x y else dst.pixel x y) :
    DrawsExactly dst t checked c.Covers paint := by
  apply DrawsExactly.of_pixel dstStride safe shape
  · intro narrow
    obtain ⟨-, dest⟩ := cut.has (Int.le_refl 0) wide (Int.le_refl 0) tall
    unfold Surface.Has at dest
    omega
  · intro x y hx hx' hy
    rw [pixels x y hx hx' hy]
    have inside : c.Covers x y → x < dst.w ∧ y < dst.h := by
      intro covered
      obtain ⟨-, -, dest⟩ := (cut.covers x y).mp covered
      exact ⟨dest.2.1, dest.2.2.2⟩
    by_cases covered : c.Covers x y
    · rw [if_pos covered, if_pos ⟨covered, inside covered⟩]
    · rw [if_neg covered, if_neg fun both => covered both.1]

/-- No row of the plan reads or writes outside of the surfaces. -/
theorem blitRow_safe (cut : plan.Cut c (plan.Visible dst src)) (dstStride : dst.w ≤ dst.stride)
    (srcStride : src.w ≤ src.stride) {y : Nat} (row : y < c.sr.h.toNat) {t : Surface}
    (shape : t.shape = dst.shape) : Mem.blitRow c src y t = some (blitRow c src y t) := by
  unfold Mem.blitRow
  apply if_pos
  intro x column
  obtain ⟨source, dest⟩ := cut.has (x := x) (y := y) (by omega) (by omega) (by omega) (by omega)
  have read := Surface.owns_index srcStride source
  have written := Surface.owns_index (Surface.stride_congr shape dstStride)
    ((Surface.has_congr shape).mpr dest)
  unfold Surface.index at read written ⊢
  rw [Int.add_assoc, Int.add_assoc]
  exact ⟨read, written⟩

theorem blitRows_draws (cut : plan.Cut c (plan.Visible dst src)) (wide : 0 < c.sr.w)
    (tall : 0 < c.sr.h) (dstStride : dst.w ≤ dst.stride) (srcStride : src.w ≤ src.stride) :
    DrawsExactly dst (blitRows c src dst)
      (forLoop c.sr.h.toNat (fun y t => t.bind (Mem.blitRow c src y)) (some dst)) c.Covers
      fun x y => src.pixel (plan.sourceX x) (plan.sourceY y) := by
  have fits := cut.fits wide tall dstStride srcStride
  apply cut.draws wide tall dstStride
  · apply forLoop_some (P := fun t => t.shape = dst.shape) rfl
    intro y row t shape
    exact ⟨blitRow_safe cut dstStride srcStride row shape, shape⟩
  · exact forLoop_frame dst fun _ _ => rfl
  · intro x y hx hx' hy
    rw [blitRows_pixel fits hx hx' hy, ← cut.sourceX, ← cut.sourceY]
    rfl

end Rows

/-- The blit with the places that it shows. -/
theorem surfaceBlit_draws (dst : Surface) (dx dy : Int) (src : Surface) (srcrect : Option Rect)
    (dstStride : dst.w ≤ dst.stride) (srcStride : src.w ≤ src.stride) :
    DrawsExactly dst (surfaceBlit dst dx dy src srcrect) (Mem.surfaceBlit dst dx dy src srcrect)
      (fun x y => Shown dst dx dy src (srcrect.getD ⟨0, 0, src.w, src.h⟩) (x - dx) (y - dy))
      fun x y => src.pixel ((srcrect.getD ⟨0, 0, src.w, src.h⟩).x + (x - dx))
        ((srcrect.getD ⟨0, 0, src.w, src.h⟩).y + (y - dy)) := by
  have clips := blitPlan_clips dst dx dy src srcrect
  unfold surfaceBlit Mem.surfaceBlit
  cases found : blitPlan dst dx dy src srcrect with
  | none =>
    rw [found] at clips
    apply DrawsExactly.nothing
    intro x y
    rw [shown_iff]
    exact clips x y
  | some c =>
    rw [found] at clips
    obtain ⟨cut, wide, tall⟩ := clips
    apply (blitRows_draws cut wide tall dstStride srcStride).congr
    · intro x y
      rw [shown_iff, cut.covers]
    · exact fun _ _ _ => rfl

/-! ### The blit -/

/-- The blit of the rectangle `sr` of `src` to (`dx`, `dy`), with `t` as its result and
`checked` as its run with checked accesses. -/
structure BlitsExactly (dst : Surface) (dx dy : Int) (src : Surface) (sr : Rect) (t : Surface)
    (checked : Option Surface) : Prop where
  safe : checked = some t
  shape : t.shape = dst.shape
  copied : ∀ i j, Shown dst dx dy src sr i j →
    t.pixel (dx + i) (dy + j) = src.pixel (sr.x + i) (sr.y + j)
  kept : ∀ cell : Nat,
    (∀ i j, Shown dst dx dy src sr i j → cell ≠ dst.offset (dx + i) (dy + j)) →
      t.pixels cell = dst.pixels cell

theorem surfaceBlit_exact (dst : Surface) (dx dy : Int) (src : Surface) (srcrect : Option Rect)
    (dstStride : dst.w ≤ dst.stride) (srcStride : src.w ≤ src.stride) :
    BlitsExactly dst dx dy src (srcrect.getD ⟨0, 0, src.w, src.h⟩)
      (surfaceBlit dst dx dy src srcrect) (Mem.surfaceBlit dst dx dy src srcrect) := by
  have draws := surfaceBlit_draws dst dx dy src srcrect dstStride srcStride
  refine ⟨draws.safe, draws.shape, ?_, ?_⟩
  · intro i j shown
    have drawn := draws.inside (dx + i) (dy + j) shown.dest
    rw [add_sub_cancel_left, add_sub_cancel_left] at drawn
    exact drawn shown
  · intro cell other
    apply draws.outside
    intro x y _ shown
    have apart := other _ _ shown
    rwa [add_sub_cancel, add_sub_cancel] at apart

theorem surfaceBlit_exact_corner : BlitsExactly ⟨fun _ => 0, 4, 3, 5⟩ (-1) 1
    ⟨fun i => i.toUInt32, 3, 3, 3⟩ ⟨-1, 1, 9, 9⟩
    (surfaceBlit ⟨fun _ => 0, 4, 3, 5⟩ (-1) 1 ⟨fun i => i.toUInt32, 3, 3, 3⟩ (some ⟨-1, 1, 9, 9⟩))
    (Mem.surfaceBlit ⟨fun _ => 0, 4, 3, 5⟩ (-1) 1 ⟨fun i => i.toUInt32, 3, 3, 3⟩
      (some ⟨-1, 1, 9, 9⟩)) :=
  surfaceBlit_exact _ (-1) 1 _ (some ⟨-1, 1, 9, 9⟩) (by decide) (by decide)

end InstagramNt40.Raster
