import InstagramNt40.Library.Loop
import InstagramNt40.Pal.Crt
import Mathlib.Logic.Function.Basic

/-!
# core/raster.c

Surfaces and the drawing operations on them. The pixel buffer of a surface is a map
from offsets to pixels; a drawing operation writes at the offsets the code computes.
Coordinates are integers; their sums stay in the range of `int`.
-/
namespace InstagramNt40.Raster

open Crt Loop

/-! ### Pixels -/

def rasArgb (a r g b : UInt8) : UInt32 :=
  (a.toUInt32 <<< 24) ||| (r.toUInt32 <<< 16) ||| (g.toUInt32 <<< 8) ||| b.toUInt32

def rasRgb (r g b : UInt8) : UInt32 := rasArgb 0xFF r g b

def rasA (p : UInt32) : UInt8 := (p >>> 24).toUInt8
def rasR (p : UInt32) : UInt8 := (p >>> 16).toUInt8
def rasG (p : UInt32) : UInt8 := (p >>> 8).toUInt8
def rasB (p : UInt32) : UInt8 := p.toUInt8

/-- Four bytes, taken out of a word and put back in their places. -/
theorem join_bytes (v : BitVec 32) :
    ((v >>> 24).setWidth 8).setWidth 32 <<< 24 ||| ((v >>> 16).setWidth 8).setWidth 32 <<< 16 |||
      ((v >>> 8).setWidth 8).setWidth 32 <<< 8 ||| (v.setWidth 8).setWidth 32 = v := by
  apply BitVec.eq_of_getLsbD_eq
  intro i hi
  simp only [BitVec.getLsbD_or, BitVec.getLsbD_shiftLeft, BitVec.getLsbD_setWidth,
    BitVec.getLsbD_ushiftRight]
  -- bit `i` comes from the byte it lies in
  rcases Nat.lt_or_ge i 8 with first | first
  · simp [first, hi, show i < 16 by omega, show i < 24 by omega]
  rcases Nat.lt_or_ge i 16 with second | second
  · have back : 8 + (i - 8) = i := by omega
    simp [hi, second, Nat.not_lt.mpr first, back, show i < 24 by omega, show i - 8 < 8 by omega,
      show i - 8 < 32 by omega]
  rcases Nat.lt_or_ge i 24 with third | third
  · have back : 16 + (i - 16) = i := by omega
    simp [hi, Nat.not_lt.mpr first, Nat.not_lt.mpr second, third, back,
      show i - 16 < 8 by omega, show ¬i - 8 < 8 by omega, show i - 16 < 32 by omega]
  · have back : 24 + (i - 24) = i := by omega
    simp [hi, Nat.not_lt.mpr first, Nat.not_lt.mpr second, Nat.not_lt.mpr third, back,
      show i - 24 < 8 by omega, show ¬i - 8 < 8 by omega, show ¬i - 16 < 8 by omega,
      show i - 24 < 32 by omega]

/-- A pixel is put together from its channels. -/
theorem rasArgb_channels (p : UInt32) : rasArgb (rasA p) (rasR p) (rasG p) (rasB p) = p := by
  apply UInt32.eq_of_toBitVec_eq
  exact join_bytes p.toBitVec

/-! ### Surfaces -/

/-- `Surface`, without `owns`. `pixels` is the buffer, `stride` pixels a row. -/
structure Surface where
  pixels : Nat → UInt32
  w : Int
  h : Int
  stride : Int

structure Rect where
  x : Int
  y : Int
  w : Int
  h : Int
  deriving DecidableEq, Repr

namespace Surface

/-- The offset of the pixel at (`x`, `y`). -/
def offset (s : Surface) (x y : Int) : Nat := (y * s.stride + x).toNat

def pixel (s : Surface) (x y : Int) : UInt32 := s.pixels (s.offset x y)

def set (s : Surface) (x y : Int) (color : UInt32) : Surface :=
  { s with pixels := Function.update s.pixels (s.offset x y) color }

/-- Everything but the pixels. -/
def shape (s : Surface) : Int × Int × Int := (s.w, s.h, s.stride)

@[simp] theorem set_shape (s : Surface) (x y : Int) (color : UInt32) :
    (s.set x y color).shape = s.shape := rfl

end Surface

/-- `surface_alloc`; `none` is the result -1. -/
def surfaceAlloc (heap : Heap) (w h : Int) : Option Surface :=
  if w ≤ 0 ∨ h ≤ 0 then none
  else if w * h > 1 <<< 28 then none
  else if heap.grants (w.toNat * h.toNat * 4) then some ⟨fun _ => 0, w, h, w⟩
  else none

/-- What is allocated has the size that was asked for, within the limits. -/
theorem surfaceAlloc_size {heap : Heap} {w h : Int} {s : Surface}
    (allocated : surfaceAlloc heap w h = some s) :
    (0 < w ∧ 0 < h ∧ w * h ≤ 1 <<< 28) ∧ s = ⟨fun _ => 0, w, h, w⟩ := by
  unfold surfaceAlloc at allocated
  split_ifs at allocated with empty big granted
  cases allocated
  exact ⟨⟨by omega, by omega, Int.not_lt.mp big⟩, rfl⟩

/-! ### Drawing -/

/-- `clip_rect`; `none` if nothing remains. -/
def clipRect (s : Surface) (r : Rect) : Option Rect :=
  let x0 := if r.x < 0 then 0 else r.x
  let y0 := if r.y < 0 then 0 else r.y
  let x1 := if r.x + r.w > s.w then s.w else r.x + r.w
  let y1 := if r.y + r.h > s.h then s.h else r.y + r.h
  if x1 ≤ x0 ∨ y1 ≤ y0 then none else some ⟨x0, y0, x1 - x0, y1 - y0⟩

/-- The nested loops over the pixels of a rectangle. -/
def forRect (r : Rect) (body : Int → Int → Surface → Surface) (s : Surface) : Surface :=
  forLoop r.h.toNat (fun y s => forLoop r.w.toNat (fun x s => body (r.x + x) (r.y + y) s) s) s

/-- `blend_over`: the pixel `src` over the pixel `dst`. -/
def blendOver (dst src : UInt32) : UInt32 :=
  let sa := (rasA src).toUInt32
  if sa = 0 then dst
  else if sa = 255 then src
  else
    let ia := 255 - sa
    let r := ((rasR src).toUInt32 * sa + (rasR dst).toUInt32 * ia + 127) / 255
    let g := ((rasG src).toUInt32 * sa + (rasG dst).toUInt32 * ia + 127) / 255
    let b := ((rasB src).toUInt32 * sa + (rasB dst).toUInt32 * ia + 127) / 255
    let a := sa + ((rasA dst).toUInt32 * ia + 127) / 255
    let a := if a > 255 then 255 else a
    rasArgb a.toUInt8 r.toUInt8 g.toUInt8 b.toUInt8

def surfaceFill (s : Surface) (color : UInt32) : Surface :=
  forRect ⟨0, 0, s.w, s.h⟩ (fun x y s => s.set x y color) s

def surfaceFillRect (s : Surface) (r : Rect) (color : UInt32) : Surface :=
  match clipRect s r with
  | none => s
  | some r => forRect r (fun x y s => s.set x y color) s

def surfaceBlendRect (s : Surface) (r : Rect) (color : UInt32) : Surface :=
  match clipRect s r with
  | none => s
  | some r => forRect r (fun x y s => s.set x y (blendOver (s.pixel x y) color)) s

def surfaceHline (s : Surface) (x y w : Int) (color : UInt32) : Surface :=
  surfaceFillRect s ⟨x, y, w, 1⟩ color

def surfaceVline (s : Surface) (x y h : Int) (color : UInt32) : Surface :=
  surfaceFillRect s ⟨x, y, 1, h⟩ color

def surfaceFrame (s : Surface) (r : Rect) (color : UInt32) : Surface :=
  if r.w ≤ 0 ∨ r.h ≤ 0 then s
  else
    let s := surfaceHline s r.x r.y r.w color
    let s := surfaceHline s r.x (r.y + r.h - 1) r.w color
    let s := surfaceVline s r.x r.y r.h color
    surfaceVline s (r.x + r.w - 1) r.y r.h color

def surfaceBevel (s : Surface) (r : Rect) (light dark : UInt32) : Surface :=
  if r.w ≤ 0 ∨ r.h ≤ 0 then s
  else
    let s := surfaceHline s r.x r.y r.w light
    let s := surfaceVline s r.x r.y r.h light
    let s := surfaceHline s r.x (r.y + r.h - 1) r.w dark
    surfaceVline s (r.x + r.w - 1) r.y r.h dark

/-! ### Blitting -/

/-- What is left of a blit after clipping: the destination and the source rectangle. -/
structure BlitPlan where
  dx : Int
  dy : Int
  sr : Rect
  deriving DecidableEq, Repr

/-- Clip the source rectangle to the bounds of `src`. -/
def clipSource (src : Surface) (plan : BlitPlan) : Option BlitPlan :=
  let plan := if plan.sr.x < 0 then
    { plan with
      dx := plan.dx - plan.sr.x, sr := { plan.sr with w := plan.sr.w + plan.sr.x, x := 0 } }
    else plan
  let plan := if plan.sr.y < 0 then
    { plan with
      dy := plan.dy - plan.sr.y, sr := { plan.sr with h := plan.sr.h + plan.sr.y, y := 0 } }
    else plan
  let plan := if plan.sr.x + plan.sr.w > src.w then
    { plan with sr := { plan.sr with w := src.w - plan.sr.x } } else plan
  let plan := if plan.sr.y + plan.sr.h > src.h then
    { plan with sr := { plan.sr with h := src.h - plan.sr.y } } else plan
  if plan.sr.w ≤ 0 ∨ plan.sr.h ≤ 0 then none else some plan

/-- Clip against `dst`. -/
def clipDest (dst : Surface) (plan : BlitPlan) : Option BlitPlan :=
  let plan := if plan.dx < 0 then
    { plan with dx := 0, sr := { plan.sr with x := plan.sr.x - plan.dx, w := plan.sr.w + plan.dx } }
    else plan
  let plan := if plan.dy < 0 then
    { plan with dy := 0, sr := { plan.sr with y := plan.sr.y - plan.dy, h := plan.sr.h + plan.dy } }
    else plan
  let plan := if plan.dx + plan.sr.w > dst.w then
    { plan with sr := { plan.sr with w := dst.w - plan.dx } } else plan
  let plan := if plan.dy + plan.sr.h > dst.h then
    { plan with sr := { plan.sr with h := dst.h - plan.dy } } else plan
  if plan.sr.w ≤ 0 ∨ plan.sr.h ≤ 0 then none else some plan

/-- `memcpy` of `n` pixels between two buffers. -/
def memcpyPixels (dst : Nat → UInt32) (d : Nat) (src : Nat → UInt32) (o n : Nat) : Nat → UInt32 :=
  fun i => if d ≤ i ∧ i < d + n then src (o + (i - d)) else dst i

/-- Row `y` of a blit. -/
def blitRow (plan : BlitPlan) (src : Surface) (y : Nat) (dst : Surface) : Surface :=
  let drow := dst.offset plan.dx (plan.dy + y)
  let srow := src.offset plan.sr.x (plan.sr.y + y)
  { dst with pixels := memcpyPixels dst.pixels drow src.pixels srow plan.sr.w.toNat }

/-- The row loop of `surface_blit`. -/
def blitRows (plan : BlitPlan) (src dst : Surface) : Surface :=
  forLoop plan.sr.h.toNat (blitRow plan src) dst

/-- The clipping of `surface_blit`; no rectangle is all of `src`. -/
def blitPlan (dst : Surface) (dx dy : Int) (src : Surface) (srcrect : Option Rect) :
    Option BlitPlan :=
  (clipSource src ⟨dx, dy, srcrect.getD ⟨0, 0, src.w, src.h⟩⟩).bind (clipDest dst)

def surfaceBlit (dst : Surface) (dx dy : Int) (src : Surface) (srcrect : Option Rect) : Surface :=
  match blitPlan dst dx dy src srcrect with
  | none => dst
  | some plan => blitRows plan src dst

/-- `surface_blit_alpha` -/
def surfaceBlitAlpha (dst : Surface) (dx dy : Int) (src : Surface) : Surface :=
  match clipDest dst ⟨dx, dy, 0, 0, src.w, src.h⟩ with
  | none => dst
  | some plan =>
    forRect ⟨0, 0, plan.sr.w, plan.sr.h⟩ (fun x y dst =>
      dst.set (plan.dx + x) (plan.dy + y)
        (blendOver (dst.pixel (plan.dx + x) (plan.dy + y))
          (src.pixel (plan.sr.x + x) (plan.sr.y + y))))
      dst

/-- The sums of the channels over a cell of the source, with the number of pixels. -/
structure CellSum where
  a : UInt32
  r : UInt32
  g : UInt32
  b : UInt32
  n : UInt32
  deriving DecidableEq, Repr

/-- `ar += ras_r(p); …; n++` -/
def CellSum.add (sum : CellSum) (p : UInt32) : CellSum :=
  ⟨sum.a + (rasA p).toUInt32, sum.r + (rasR p).toUInt32, sum.g + (rasG p).toUInt32,
    sum.b + (rasB p).toUInt32, sum.n + 1⟩

/-- The rows or columns of a source of `size` that make cell `d` of `cells`: from the
first of the pair up to the second. -/
def cellRange (d cells size : Int) : Int × Int :=
  let lo := (d * size).tdiv cells
  let hi := ((d + 1) * size).tdiv cells
  let hi := if hi ≤ lo then lo + 1 else hi
  (lo, if hi > size then size else hi)

def cellAverage (src : Surface) (ys xs : Int × Int) : UInt32 :=
  let sum := forLoop (ys.2 - ys.1).toNat (fun sy sum =>
    forLoop (xs.2 - xs.1).toNat (fun sx (sum : CellSum) =>
      sum.add (src.pixel (xs.1 + sx) (ys.1 + sy))) sum) ⟨0, 0, 0, 0, 0⟩
  let n := if sum.n = 0 then 1 else sum.n
  rasArgb (sum.a / n).toUInt8 (sum.r / n).toUInt8 (sum.g / n).toUInt8 (sum.b / n).toUInt8

def surfaceDownscale (dst src : Surface) : Surface :=
  if dst.w ≤ 0 ∨ dst.h ≤ 0 ∨ src.w ≤ 0 ∨ src.h ≤ 0 then dst
  else
    forRect ⟨0, 0, dst.w, dst.h⟩ (fun dx dy s =>
      s.set dx dy (cellAverage src (cellRange dy dst.h src.h) (cellRange dx dst.w src.w))) dst

/-! ### Drawing keeps the shape of the surface -/

theorem forRect_shape {body : Int → Int → Surface → Surface}
    (step : ∀ x y s, (body x y s).shape = s.shape) (r : Rect) (s : Surface) :
    (forRect r body s).shape = s.shape :=
  forLoop_frame s fun _ t => forLoop_frame t fun _ u => step _ _ u

@[simp] theorem surfaceFill_shape (s : Surface) (color : UInt32) :
    (surfaceFill s color).shape = s.shape :=
  forRect_shape (fun x y t => t.set_shape x y color) _ s

@[simp] theorem surfaceFillRect_shape (s : Surface) (r : Rect) (color : UInt32) :
    (surfaceFillRect s r color).shape = s.shape := by
  unfold surfaceFillRect
  split
  · rfl
  · exact forRect_shape (fun x y t => t.set_shape x y color) _ s

@[simp] theorem surfaceBlendRect_shape (s : Surface) (r : Rect) (color : UInt32) :
    (surfaceBlendRect s r color).shape = s.shape := by
  unfold surfaceBlendRect
  split
  · rfl
  · exact forRect_shape (fun x y t => t.set_shape x y _) _ s

@[simp] theorem surfaceHline_shape (s : Surface) (x y w : Int) (color : UInt32) :
    (surfaceHline s x y w color).shape = s.shape := surfaceFillRect_shape s _ color

@[simp] theorem surfaceVline_shape (s : Surface) (x y h : Int) (color : UInt32) :
    (surfaceVline s x y h color).shape = s.shape := surfaceFillRect_shape s _ color

@[simp] theorem surfaceFrame_shape (s : Surface) (r : Rect) (color : UInt32) :
    (surfaceFrame s r color).shape = s.shape := by
  unfold surfaceFrame
  split
  · rfl
  · simp only [surfaceVline_shape, surfaceHline_shape]

@[simp] theorem surfaceBevel_shape (s : Surface) (r : Rect) (light dark : UInt32) :
    (surfaceBevel s r light dark).shape = s.shape := by
  unfold surfaceBevel
  split
  · rfl
  · simp only [surfaceVline_shape, surfaceHline_shape]

@[simp] theorem surfaceBlit_shape (dst : Surface) (dx dy : Int) (src : Surface)
    (srcrect : Option Rect) : (surfaceBlit dst dx dy src srcrect).shape = dst.shape := by
  unfold surfaceBlit
  split
  · rfl
  · exact forLoop_frame dst fun _ _ => rfl

end InstagramNt40.Raster
