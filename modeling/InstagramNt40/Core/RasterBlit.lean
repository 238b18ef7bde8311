import InstagramNt40.Core.Raster
import Mathlib.Algebra.Order.Ring.Int

/-!
# What a blit copies

After clipping, `surface_blit` copies a rectangle of the source row by row. Pixel by
pixel: the pixels of the rectangle come from the source, all others stay.
-/
namespace InstagramNt40.Raster

open Loop

/-- A clipped plan: the rectangle lies inside both surfaces. -/
structure BlitPlan.Fits (plan : BlitPlan) (src dst : Surface) : Prop where
  dx : 0 ≤ plan.dx
  dy : 0 ≤ plan.dy
  sx : 0 ≤ plan.sr.x
  sy : 0 ≤ plan.sr.y
  w : 0 ≤ plan.sr.w
  srcW : plan.sr.x + plan.sr.w ≤ src.stride
  dstW : plan.dx + plan.sr.w ≤ dst.stride

/-- The pixel (`x`, `y`) of the destination is in the copied rectangle. -/
def BlitPlan.Covers (plan : BlitPlan) (x y : Int) : Prop :=
  plan.dx ≤ x ∧ x < plan.dx + plan.sr.w ∧ plan.dy ≤ y ∧ y < plan.dy + plan.sr.h

instance (plan : BlitPlan) (x y : Int) : Decidable (plan.Covers x y) := by
  unfold BlitPlan.Covers
  infer_instance

/-- An offset tells its row. -/
theorem row_of_offset {stride x y d r n : Int} (hx : 0 ≤ x) (hx' : x < stride) (hd : 0 ≤ d)
    (hn : d + n ≤ stride) (low : r * stride + d ≤ y * stride + x)
    (high : y * stride + x < r * stride + d + n) : y = r := by
  have positive : 0 < stride := by omega
  have above : y < r + 1 := by
    apply lt_of_mul_lt_mul_right _ (Int.le_of_lt positive)
    rw [Int.add_mul, Int.one_mul]
    omega
  have below : r < y + 1 := by
    apply lt_of_mul_lt_mul_right _ (Int.le_of_lt positive)
    rw [Int.add_mul, Int.one_mul]
    omega
  omega

theorem offset_nonneg {stride x y : Int} (hs : 0 ≤ stride) (hx : 0 ≤ x) (hy : 0 ≤ y) :
    0 ≤ y * stride + x := Int.add_nonneg (Int.mul_nonneg hy hs) hx

/-- One row of a blit changes the pixels of that row only. -/
theorem blitRow_pixel {plan : BlitPlan} {src dst : Surface} (fits : plan.Fits src dst) (n : Nat)
    {t : Surface} (shape : t.shape = dst.shape) {x y : Int} (hx : 0 ≤ x) (hx' : x < dst.stride)
    (hy : 0 ≤ y) :
    (blitRow plan src n t).pixel x y =
      if y = plan.dy + n ∧ plan.dx ≤ x ∧ x < plan.dx + plan.sr.w then
        src.pixel (plan.sr.x + (x - plan.dx)) (plan.sr.y + n)
      else t.pixel x y := by
  have stride : t.stride = dst.stride := congrArg (·.2.2) shape
  have positive : 0 ≤ dst.stride := by omega
  have srcPositive : 0 ≤ src.stride := by
    have := fits.srcW
    have := fits.sx
    have := fits.w
    omega
  have here := offset_nonneg positive hx hy
  have start := offset_nonneg positive fits.dx (Int.add_nonneg fits.dy (Int.natCast_nonneg n))
  have from_ := offset_nonneg srcPositive fits.sx (Int.add_nonneg fits.sy (Int.natCast_nonneg n))
  unfold blitRow Surface.pixel Surface.offset memcpyPixels
  dsimp only
  rw [stride]
  by_cases covered : y = plan.dy + n ∧ plan.dx ≤ x ∧ x < plan.dx + plan.sr.w
  · obtain ⟨rfl, left, right⟩ := covered
    have w := fits.w
    rw [if_pos (by omega), if_pos ⟨rfl, left, right⟩]
    congr 1
    omega
  · rw [if_neg covered, if_neg]
    rintro ⟨low, high⟩
    have w := fits.w
    have row := row_of_offset hx hx' fits.dx fits.dstW
      (show (plan.dy + n) * dst.stride + plan.dx ≤ y * dst.stride + x by omega) (by omega)
    subst row
    exact covered ⟨rfl, by omega, by omega⟩

/-- A whole blit, pixel by pixel. -/
theorem blitRows_pixel {plan : BlitPlan} {src dst : Surface} (fits : plan.Fits src dst)
    {x y : Int} (hx : 0 ≤ x) (hx' : x < dst.stride) (hy : 0 ≤ y) :
    (blitRows plan src dst).pixel x y =
      if plan.Covers x y then src.pixel (plan.sr.x + (x - plan.dx)) (plan.sr.y + (y - plan.dy))
      else dst.pixel x y := by
  -- after `n` rows the pixels of these rows are copied
  have rows : (blitRows plan src dst).shape = dst.shape ∧ (blitRows plan src dst).pixel x y =
      if plan.dx ≤ x ∧ x < plan.dx + plan.sr.w ∧ plan.dy ≤ y ∧ y < plan.dy + plan.sr.h.toNat then
        src.pixel (plan.sr.x + (x - plan.dx)) (plan.sr.y + (y - plan.dy))
      else dst.pixel x y := by
    refine forLoop_invariant (P := fun n (t : Surface) => t.shape = dst.shape ∧ t.pixel x y =
      if plan.dx ≤ x ∧ x < plan.dx + plan.sr.w ∧ plan.dy ≤ y ∧ y < plan.dy + (n : Nat) then
        src.pixel (plan.sr.x + (x - plan.dx)) (plan.sr.y + (y - plan.dy))
      else dst.pixel x y) ⟨rfl, by rw [if_neg (by omega)]⟩ ?_
    rintro n - t ⟨shape, before⟩
    refine ⟨shape, ?_⟩
    rw [blitRow_pixel fits n shape hx hx' hy, before]
    by_cases row : y = plan.dy + n
    · have same : plan.sr.y + (y - plan.dy) = plan.sr.y + n := by omega
      rw [same]
      by_cases column : plan.dx ≤ x ∧ x < plan.dx + plan.sr.w
      · rw [if_pos ⟨row, column⟩, if_pos (by omega)]
      · rw [if_neg (by omega), if_neg (by omega), if_neg (by omega)]
    · rw [if_neg (by omega)]
      congr 1
      rw [eq_iff_iff]
      omega
  rw [rows.2]
  congr 1
  rw [eq_iff_iff]
  unfold BlitPlan.Covers
  omega

end InstagramNt40.Raster
