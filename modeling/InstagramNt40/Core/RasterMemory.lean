import InstagramNt40.Core.RasterPixel

/-!
# The accesses of the drawing operations

The drawing operations again, with every access of a buffer as a load or a store that
fails unless its index belongs to a pixel of the surface. No access fails, and what an
operation leaves in the buffer is known for every cell of it, the padding included.
-/
namespace InstagramNt40.Raster

open Loop

/-! ### The cells of a surface -/

namespace Surface

/-- The pixel (`x`, `y`) exists. -/
def Has (s : Surface) (x y : Int) : Prop := 0 ≤ x ∧ x < s.w ∧ 0 ≤ y ∧ y < s.h

instance (s : Surface) (x y : Int) : Decidable (s.Has x y) := by
  unfold Has
  infer_instance

/-- The index that the code computes for the pixel (`x`, `y`). -/
def index (s : Surface) (x y : Int) : Int := y * s.stride + x

/-- The index belongs to a pixel: it is not in the padding of a row and not outside. -/
def Owns (s : Surface) (i : Int) : Prop := 0 ≤ i ∧ i % s.stride < s.w ∧ i / s.stride < s.h

instance (s : Surface) (i : Int) : Decidable (s.Owns i) := by
  unfold Owns
  infer_instance

theorem owns_iff {s : Surface} (stride : s.w ≤ s.stride) {i : Int} :
    s.Owns i ↔ ∃ x y, s.Has x y ∧ s.index x y = i := by
  unfold Owns Has index
  constructor
  · rintro ⟨low, column, row⟩
    have wide : 0 < s.stride := by
      rcases Int.lt_or_le 0 s.stride with positive | empty
      · exact positive
      · -- a remainder is not below a width that is not positive
        by_cases zero : s.stride = 0
        · rw [zero, Int.emod_zero] at column
          omega
        · have := Int.emod_nonneg i zero
          omega
    refine ⟨i % s.stride, i / s.stride, ⟨?_, column, ?_, row⟩, ?_⟩
    · exact Int.emod_nonneg i wide.ne'
    · exact Int.ediv_nonneg low wide.le
    · exact Int.ediv_mul_add_emod i s.stride
  · rintro ⟨x, y, ⟨hx, hx', hy, hy'⟩, rfl⟩
    have within : x < s.stride := by omega
    refine ⟨offset_nonneg (by omega) hx hy, ?_, ?_⟩
    · rw [Int.add_comm, Int.add_mul_emod_self_right, Int.emod_eq_of_lt hx within]
      exact hx'
    · rw [Int.add_comm, Int.add_mul_ediv_right _ _ (by omega), Int.ediv_eq_zero_of_lt hx within,
        Int.zero_add]
      exact hy'

theorem owns_index {s : Surface} (stride : s.w ≤ s.stride) {x y : Int} (has : s.Has x y) :
    s.Owns (s.index x y) := (owns_iff stride).mpr ⟨x, y, has, rfl⟩

theorem has_congr {s t : Surface} (shape : t.shape = s.shape) {x y : Int} :
    t.Has x y ↔ s.Has x y := by
  have width : t.w = s.w := congrArg Prod.fst shape
  have height : t.h = s.h := congrArg (·.2.1) shape
  unfold Has
  rw [width, height]

theorem stride_congr {s t : Surface} (shape : t.shape = s.shape) (stride : s.w ≤ s.stride) :
    t.w ≤ t.stride := by
  have width : t.w = s.w := congrArg Prod.fst shape
  have same : t.stride = s.stride := congrArg (·.2.2) shape
  omega

end Surface

/-! ### Checked accesses -/

namespace Mem

/-- A read of the buffer at the pixel (`x`, `y`). -/
def load (s : Surface) (x y : Int) : Option UInt32 :=
  if s.Owns (s.index x y) then some (s.pixel x y) else none

/-- A write of the buffer at the pixel (`x`, `y`). -/
def store (x y : Int) (color : UInt32) (s : Surface) : Option Surface :=
  if s.Owns (s.index x y) then some (s.set x y color) else none

/-- The nested loops over the pixels of a rectangle. -/
def forRect (r : Rect) (body : Int → Int → Surface → Option Surface) (s : Surface) :
    Option Surface :=
  forLoop r.h.toNat (fun y t => t.bind fun t =>
    forLoop r.w.toNat (fun x u => u.bind (body (r.x + x) (r.y + y))) (some t)) (some s)

def surfaceFillRect (s : Surface) (r : Rect) (color : UInt32) : Option Surface :=
  match clipRect s r with
  | none => some s
  | some r => forRect r (fun x y s => store x y color s) s

def surfaceBlendRect (s : Surface) (r : Rect) (color : UInt32) : Option Surface :=
  match clipRect s r with
  | none => some s
  | some r => forRect r (fun x y s => (load s x y).bind fun p => store x y (blendOver p color) s) s

def surfaceHline (s : Surface) (x y w : Int) (color : UInt32) : Option Surface :=
  surfaceFillRect s ⟨x, y, w, 1⟩ color

def surfaceVline (s : Surface) (x y h : Int) (color : UInt32) : Option Surface :=
  surfaceFillRect s ⟨x, y, 1, h⟩ color

def surfaceFrame (s : Surface) (r : Rect) (color : UInt32) : Option Surface :=
  if r.w ≤ 0 ∨ r.h ≤ 0 then some s
  else do
    let s ← surfaceHline s r.x r.y r.w color
    let s ← surfaceHline s r.x (r.y + r.h - 1) r.w color
    let s ← surfaceVline s r.x r.y r.h color
    surfaceVline s (r.x + r.w - 1) r.y r.h color

def surfaceBevel (s : Surface) (r : Rect) (light dark : UInt32) : Option Surface :=
  if r.w ≤ 0 ∨ r.h ≤ 0 then some s
  else do
    let s ← surfaceHline s r.x r.y r.w light
    let s ← surfaceVline s r.x r.y r.h light
    let s ← surfaceHline s r.x (r.y + r.h - 1) r.w dark
    surfaceVline s (r.x + r.w - 1) r.y r.h dark

/-- Row `y` of a blit: `memcpy` reads and writes every index of the row. -/
def blitRow (plan : BlitPlan) (src : Surface) (y : Nat) (dst : Surface) : Option Surface :=
  let drow := dst.index plan.dx (plan.dy + y)
  let srow := src.index plan.sr.x (plan.sr.y + y)
  if ∀ x < plan.sr.w.toNat, src.Owns (srow + x) ∧ dst.Owns (drow + x)
  then some (Raster.blitRow plan src y dst)
  else none

def surfaceBlit (dst : Surface) (dx dy : Int) (src : Surface) (srcrect : Option Rect) :
    Option Surface :=
  match blitPlan dst dx dy src srcrect with
  | none => some dst
  | some plan => forLoop plan.sr.h.toNat (fun y t => t.bind (blitRow plan src y)) (some dst)

def surfaceBlitAlpha (dst : Surface) (dx dy : Int) (src : Surface) : Option Surface :=
  match clipDest dst ⟨dx, dy, 0, 0, src.w, src.h⟩ with
  | none => some dst
  | some plan =>
    forRect ⟨0, 0, plan.sr.w, plan.sr.h⟩ (fun x y dst => do
      let d ← load dst (plan.dx + x) (plan.dy + y)
      let p ← load src (plan.sr.x + x) (plan.sr.y + y)
      store (plan.dx + x) (plan.dy + y) (blendOver d p) dst) dst

theorem load_eq {s : Surface} (stride : s.w ≤ s.stride) {x y : Int} (has : s.Has x y) :
    load s x y = some (s.pixel x y) := if_pos (Surface.owns_index stride has)

theorem store_eq {s : Surface} (stride : s.w ≤ s.stride) {x y : Int} (has : s.Has x y)
    (color : UInt32) : store x y color s = some (s.set x y color) :=
  if_pos (Surface.owns_index stride has)

/-- The loops over a rectangle, when no access in it fails. -/
theorem forRect_eq {r : Rect} {body : Int → Int → Surface → Option Surface}
    {plain : Int → Int → Surface → Surface} {s : Surface}
    (keeps : ∀ x y t, (plain x y t).shape = t.shape)
    (succeeds : ∀ x y t, r.Holds x y → t.shape = s.shape → body x y t = some (plain x y t)) :
    forRect r body s = some (Raster.forRect r plain s) := by
  unfold forRect Raster.forRect
  apply forLoop_some (P := fun t => t.shape = s.shape) rfl
  intro y row t shape
  constructor
  · apply forLoop_some (P := fun t => t.shape = s.shape) shape
    intro x column u same
    have inside : r.Holds (r.x + x) (r.y + y) := by
      unfold Rect.Holds
      omega
    exact ⟨succeeds _ _ u inside same, (keeps _ _ u).trans same⟩
  · exact (forLoop_frame t fun x u => keeps _ _ u).trans shape

end Mem

end InstagramNt40.Raster
