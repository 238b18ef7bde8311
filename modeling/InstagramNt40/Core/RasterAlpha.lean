import InstagramNt40.Core.RasterClip
import InstagramNt40.Core.RasterDownscale

/-!
# The blit with alpha

`surface_blit_alpha` blends where `surface_blit` copies. A blended channel is the weighted
mean of the two channels, rounded; on an opaque destination nothing becomes transparent.
-/
namespace InstagramNt40.Raster

open Average Loop

/-! ### One pixel -/

theorem inverse_toNat (a : UInt8) : (255 - a.toUInt32).toNat = 255 - a.toNat := by
  have small := a.toNat_lt
  rw [UInt32.toNat_sub_of_le _ _ (UInt32.le_iff_toNat_le.mpr _)]
  · rfl
  · simp
    omega

/-- The 32-bit sum of a blended channel does not overflow and its quotient is a byte. -/
theorem blendWord_toNat (a s d : UInt8) :
    ((s.toUInt32 * a.toUInt32 + d.toUInt32 * (255 - a.toUInt32) + 127) / 255).toUInt8.toNat =
      mix 255 a.toNat s.toNat d.toNat := by
  have ha := a.toNat_lt
  have hs := s.toNat_lt
  have hd := d.toNat_lt
  have first : s.toNat * a.toNat ≤ 255 * 255 := Nat.mul_le_mul (by omega) (by omega)
  have second : d.toNat * (255 - a.toNat) ≤ 255 * 255 := Nat.mul_le_mul (by omega) (by omega)
  have bounded := mix_le (m := 255) (a := a.toNat) s.toNat d.toNat (by decide) (by omega)
  have byte : mix 255 a.toNat s.toNat d.toNat < 2 ^ 8 := by omega
  rw [UInt32.toNat_toUInt8, UInt32.toNat_div, UInt32.toNat_add, UInt32.toNat_add, UInt32.toNat_mul,
    UInt32.toNat_mul, inverse_toNat, UInt8.toNat_toUInt32, UInt8.toNat_toUInt32,
    UInt8.toNat_toUInt32]
  rw [Nat.mod_eq_of_lt (a := s.toNat * a.toNat) (by omega),
    Nat.mod_eq_of_lt (a := d.toNat * (255 - a.toNat)) (by omega),
    Nat.mod_eq_of_lt (a := s.toNat * a.toNat + d.toNat * (255 - a.toNat)) (by omega),
    Nat.mod_eq_of_lt (a := _ + UInt32.toNat 127) (by simp; omega)]
  exact Nat.mod_eq_of_lt byte

theorem alpha_eq {a n : UInt8} : a.toUInt32 = n.toUInt32 ↔ a = n := by
  constructor
  · intro same
    apply UInt8.toNat_inj.mp
    rw [← UInt8.toNat_toUInt32, same, UInt8.toNat_toUInt32]
  · exact congrArg UInt8.toUInt32

/-- A channel of a blended pixel, for every alpha. -/
theorem blendOver_channel (dst src : UInt32) {c : Channel} (color : c ≠ .a) :
    (c.of (blendOver dst src)).toNat =
      mix 255 (rasA src).toNat (c.of src).toNat (c.of dst).toNat := by
  unfold blendOver
  dsimp only
  by_cases zero : (rasA src).toUInt32 = 0
  · have none : rasA src = 0 := alpha_eq.mp zero
    rw [if_pos zero, none]
    exact (mix_none _ _ (by decide)).symm
  rw [if_neg zero]
  by_cases full : (rasA src).toUInt32 = 255
  · have all : rasA src = 255 := alpha_eq.mp full
    rw [if_pos full, all]
    exact (mix_all _ _ (by decide)).symm
  rw [if_neg full, Channel.of_rasArgb]
  cases c with
  | a => exact absurd rfl color
  | r => exact blendWord_toNat (rasA src) (rasR src) (rasR dst)
  | g => exact blendWord_toNat (rasA src) (rasG src) (rasG dst)
  | b => exact blendWord_toNat (rasA src) (rasB src) (rasB dst)

/-- What is blended over an opaque pixel is opaque: the two alphas add up to 255. -/
theorem blendOver_keeps_solid {dst : UInt32} (src : UInt32) (solid : rasA dst = 255) :
    rasA (blendOver dst src) = 255 := by
  have small := (rasA src).toNat_lt
  unfold blendOver
  dsimp only
  by_cases zero : (rasA src).toUInt32 = 0
  · rw [if_pos zero]
    exact solid
  rw [if_neg zero]
  by_cases full : (rasA src).toUInt32 = 255
  · rw [if_pos full]
    exact alpha_eq.mp full
  have sum : (rasA src).toUInt32 +
      ((rasA dst).toUInt32 * (255 - (rasA src).toUInt32) + 127) / 255 = 255 := by
    have remaining : (255 * (255 - (rasA src).toNat) + 127) / 255 = 255 - (rasA src).toNat := by
      omega
    apply UInt32.toNat_inj.mp
    rw [solid, UInt32.toNat_add, UInt32.toNat_div, UInt32.toNat_add, UInt32.toNat_mul,
      inverse_toNat, UInt8.toNat_toUInt32]
    simp only [UInt8.toNat_toUInt32, UInt8.reduceToNat, UInt32.reduceToNat]
    rw [Nat.mod_eq_of_lt (a := 255 * (255 - (rasA src).toNat)) (by omega),
      Nat.mod_eq_of_lt (a := 255 * (255 - (rasA src).toNat) + 127) (by omega), remaining]
    omega
  rw [if_neg full, sum]
  exact Channel.of_rasArgb .a _ _ _ _

theorem blendOver_transparent {src : UInt32} (dst : UInt32) (clear : rasA src = 0) :
    blendOver dst src = dst := if_pos (alpha_eq.mpr clear)

theorem blendOver_solid {src : UInt32} (dst : UInt32) (solid : rasA src = 255) :
    blendOver dst src = src := by
  unfold blendOver
  dsimp only
  rw [solid]
  rfl

/-! ### The pixels of a blit -/

/-- Blending the pixels of a clipped plan, at the places it covers. -/
theorem forRect_shift (dx dy w h : Int) (body : Int → Int → Surface → Surface) (s : Surface) :
    forRect ⟨0, 0, w, h⟩ (fun x y => body (dx + x) (dy + y)) s = forRect ⟨dx, dy, w, h⟩ body s := by
  unfold forRect
  simp only [Int.zero_add]

section Plan

variable {dst src : Surface} {plan c : BlitPlan}

theorem blend_safe (cut : plan.Cut c (plan.Visible dst src)) (dstStride : dst.w ≤ dst.stride)
    (srcStride : src.w ≤ src.stride) :
    Mem.forRect ⟨0, 0, c.sr.w, c.sr.h⟩ (fun x y dst => do
        let d ← Mem.load dst (c.dx + x) (c.dy + y)
        let p ← Mem.load src (c.sr.x + x) (c.sr.y + y)
        Mem.store (c.dx + x) (c.dy + y) (blendOver d p) dst) dst =
      some (forRect ⟨0, 0, c.sr.w, c.sr.h⟩ (fun x y dst =>
        dst.set (c.dx + x) (c.dy + y) (blendOver (dst.pixel (c.dx + x) (c.dy + y))
          (src.pixel (c.sr.x + x) (c.sr.y + y)))) dst) := by
  apply Mem.forRect_eq fun x y t => t.set_shape _ _ _
  intro x y t inside shape
  unfold Rect.Holds at inside
  dsimp only at inside
  obtain ⟨source, dest⟩ := cut.has (x := x) (y := y) (by omega) (by omega) (by omega) (by omega)
  have there := (Surface.has_congr shape).mpr dest
  have within := Surface.stride_congr shape dstStride
  simp only [Mem.load_eq within there, Mem.load_eq srcStride source, Mem.store_eq within there,
    Option.bind_eq_bind, Option.bind_some]

theorem blend_draws (cut : plan.Cut c (plan.Visible dst src)) (wide : 0 < c.sr.w)
    (tall : 0 < c.sr.h) (dstStride : dst.w ≤ dst.stride) (srcStride : src.w ≤ src.stride) :
    DrawsExactly dst
      (forRect ⟨0, 0, c.sr.w, c.sr.h⟩ (fun x y dst =>
        dst.set (c.dx + x) (c.dy + y) (blendOver (dst.pixel (c.dx + x) (c.dy + y))
          (src.pixel (c.sr.x + x) (c.sr.y + y)))) dst)
      (Mem.forRect ⟨0, 0, c.sr.w, c.sr.h⟩ (fun x y dst => do
        let d ← Mem.load dst (c.dx + x) (c.dy + y)
        let p ← Mem.load src (c.sr.x + x) (c.sr.y + y)
        Mem.store (c.dx + x) (c.dy + y) (blendOver d p) dst) dst) c.Covers
      fun x y => blendOver (dst.pixel x y) (src.pixel (plan.sourceX x) (plan.sourceY y)) := by
  have fits := cut.fits wide tall dstStride srcStride
  apply cut.draws wide tall dstStride (blend_safe cut dstStride srcStride)
  · exact forRect_shape (fun x y t => t.set_shape _ _ _) _ dst
  · intro x y hx hx' hy
    -- the source pixel of a place does not depend on the loop counters
    have source : ∀ x y t, Surface.set t (c.dx + x) (c.dy + y)
        (blendOver (t.pixel (c.dx + x) (c.dy + y)) (src.pixel (c.sr.x + x) (c.sr.y + y))) =
        t.set (c.dx + x) (c.dy + y) (blendOver (t.pixel (c.dx + x) (c.dy + y))
          (src.pixel (c.sourceX (c.dx + x)) (c.sourceY (c.dy + y)))) := by
      intro x y t
      unfold BlitPlan.sourceX BlitPlan.sourceY
      rw [add_sub_cancel_left, add_sub_cancel_left]
    simp only [source]
    rw [forRect_shift c.dx c.dy c.sr.w c.sr.h fun x y t =>
        t.set x y (blendOver (t.pixel x y) (src.pixel (c.sourceX x) (c.sourceY y))),
      forRect_pixel (f := fun x y p => blendOver p (src.pixel (c.sourceX x) (c.sourceY y)))
        ⟨c.dx, c.dy, c.sr.w, c.sr.h⟩ fits.dx fits.dstW fits.dy hx hx' hy, cut.sourceX,
      cut.sourceY]
    rfl

end Plan

/-- The clipping against the destination is the whole clipping: all of the source is on it. -/
theorem clipDest_clips (dst : Surface) (dx dy : Int) (src : Surface) :
    BlitPlan.Clips ⟨dx, dy, 0, 0, src.w, src.h⟩ (clipDest dst ⟨dx, dy, 0, 0, src.w, src.h⟩)
      (BlitPlan.Visible ⟨dx, dy, 0, 0, src.w, src.h⟩ dst src) := by
  apply (BlitPlan.Clips.dest dst _).congr
  intro x y covered
  apply (and_iff_right _).symm
  unfold BlitPlan.Covers at covered
  dsimp only at covered
  unfold BlitPlan.InSource BlitPlan.sourceX BlitPlan.sourceY Surface.Has
  dsimp only
  omega

theorem surfaceBlitAlpha_draws (dst : Surface) (dx dy : Int) (src : Surface)
    (dstStride : dst.w ≤ dst.stride) (srcStride : src.w ≤ src.stride) :
    DrawsExactly dst (surfaceBlitAlpha dst dx dy src) (Mem.surfaceBlitAlpha dst dx dy src)
      (fun x y => Shown dst dx dy src ⟨0, 0, src.w, src.h⟩ (x - dx) (y - dy))
      fun x y => blendOver (dst.pixel x y) (src.pixel (x - dx) (y - dy)) := by
  have clips := clipDest_clips dst dx dy src
  unfold surfaceBlitAlpha Mem.surfaceBlitAlpha
  cases found : clipDest dst ⟨dx, dy, 0, 0, src.w, src.h⟩ with
  | none =>
    rw [found] at clips
    apply DrawsExactly.nothing
    intro x y
    rw [shown_iff]
    exact clips x y
  | some c =>
    rw [found] at clips
    obtain ⟨cut, wide, tall⟩ := clips
    apply (blend_draws cut wide tall dstStride srcStride).congr
    · intro x y
      rw [shown_iff, cut.covers]
    · intro x y _
      unfold BlitPlan.sourceX BlitPlan.sourceY
      dsimp only
      rw [Int.zero_add, Int.zero_add]

/-! ### The alpha blit against the opaque one -/

/-- `t` is the result of an alpha blit, `checked` its run with checked accesses. It refines
the opaque blit of all of `src` to the same place. -/
structure RefinesBlit (dst : Surface) (dx dy : Int) (src t : Surface) (checked : Option Surface) :
    Prop where
  safe : checked = some t
  shape : t.shape = dst.shape
  /-- A cell that the opaque blit leaves alone, whatever the source contains, stays. -/
  only : ∀ cell : Nat,
    (∀ content : Nat → UInt32,
      (surfaceBlit dst dx dy { src with pixels := content } none).pixels cell = dst.pixels cell) →
      t.pixels cell = dst.pixels cell
  solid : (∀ i j, src.Has i j → rasA (src.pixel i j) = 255) → t = surfaceBlit dst dx dy src none
  clear : ∀ i j, src.Has i j → dst.Has (dx + i) (dy + j) → rasA (src.pixel i j) = 0 →
    t.pixel (dx + i) (dy + j) = dst.pixel (dx + i) (dy + j)
  staysSolid : ∀ cell : Nat, rasA (dst.pixels cell) = 255 → rasA (t.pixels cell) = 255
  mixed : ∀ i j c, src.Has i j → dst.Has (dx + i) (dy + j) → c ≠ Channel.a →
    let a := (rasA (src.pixel i j)).toNat
    let s := (c.of (src.pixel i j)).toNat
    let d := (c.of (dst.pixel (dx + i) (dy + j))).toNat
    let v := (c.of (t.pixel (dx + i) (dy + j))).toNat
    (v : Int) = round (((s * a + d * (255 - a) : Nat) : Rat) / 255) ∧ min s d ≤ v ∧ v ≤ max s d

theorem shown_all {dst src : Surface} {dx dy i j : Int} :
    Shown dst dx dy src ⟨0, 0, src.w, src.h⟩ i j ↔ src.Has i j ∧ dst.Has (dx + i) (dy + j) := by
  constructor
  · rintro ⟨left, right, top, bottom, -, dest⟩
    exact ⟨⟨left, right, top, bottom⟩, dest⟩
  · rintro ⟨source, dest⟩
    refine ⟨source.1, source.2.1, source.2.2.1, source.2.2.2, ?_, dest⟩
    dsimp only
    rwa [Int.zero_add, Int.zero_add]

theorem surfaceBlitAlpha_refines (dst : Surface) (dx dy : Int) (src : Surface)
    (dstStride : dst.w ≤ dst.stride) (srcStride : src.w ≤ src.stride) :
    RefinesBlit dst dx dy src (surfaceBlitAlpha dst dx dy src)
      (Mem.surfaceBlitAlpha dst dx dy src) := by
  have draws := surfaceBlitAlpha_draws dst dx dy src dstStride srcStride
  have value {i j : Int} (source : src.Has i j) (dest : dst.Has (dx + i) (dy + j)) :
      (surfaceBlitAlpha dst dx dy src).pixel (dx + i) (dy + j) =
        blendOver (dst.pixel (dx + i) (dy + j)) (src.pixel i j) := by
    have drawn := draws.inside (dx + i) (dy + j) dest
    rw [add_sub_cancel_left, add_sub_cancel_left] at drawn
    exact drawn (shown_all.mpr ⟨source, dest⟩)
  refine ⟨draws.safe, draws.shape, ?_, ?_, ?_, ?_, ?_⟩
  · intro cell left
    rcases draws.cell_cases cell with ⟨x, y, has, shown, rfl, -⟩ | ⟨-, kept⟩
    · -- a source with another value everywhere would change the cell
      have blit := surfaceBlit_draws dst dx dy
        { src with pixels := fun _ => dst.pixels (dst.offset x y) + 1 } none dstStride srcStride
      obtain ⟨source, dest⟩ := shown_all.mp shown
      have copied := blit.inside x y has (shown_all.mpr ⟨source, dest⟩)
      unfold Surface.pixel at copied
      rw [blit.offset_eq, left] at copied
      exact absurd copied.symm (by simp)
    · exact kept
  · intro all
    apply draws.unique (surfaceBlit_draws dst dx dy src none dstStride srcStride)
    intro x y _ shown
    rw [blendOver_solid _ (all _ _ (shown_all.mp shown).1), Option.getD_none]
    dsimp only
    rw [Int.zero_add, Int.zero_add]
  · intro i j source dest transparent
    rw [value source dest, blendOver_transparent _ transparent]
  · intro cell before
    rcases draws.cell_cases cell with ⟨x, y, -, -, rfl, drawn⟩ | ⟨-, kept⟩
    · rw [drawn]
      exact blendOver_keeps_solid _ before
    · rw [kept]
      exact before
  · intro i j c source dest color
    dsimp only
    have small := (rasA (src.pixel i j)).toNat_lt
    rw [value source dest, blendOver_channel _ _ color]
    refine ⟨?_, ?_, ?_⟩
    · exact mix_eq_round _ _ 127 rfl
    · exact le_mix _ _ (by decide) (by omega)
    · exact mix_le _ _ (by decide) (by omega)

theorem surfaceBlitAlpha_refines_corner :
    RefinesBlit ⟨fun _ => 0xFF102030, 4, 3, 5⟩ (-1) 1 ⟨fun _ => 0x80FF0040, 3, 3, 3⟩
      (surfaceBlitAlpha ⟨fun _ => 0xFF102030, 4, 3, 5⟩ (-1) 1 ⟨fun _ => 0x80FF0040, 3, 3, 3⟩)
      (Mem.surfaceBlitAlpha ⟨fun _ => 0xFF102030, 4, 3, 5⟩ (-1) 1
        ⟨fun _ => 0x80FF0040, 3, 3, 3⟩) :=
  surfaceBlitAlpha_refines _ (-1) 1 _ (by decide) (by decide)

end InstagramNt40.Raster
