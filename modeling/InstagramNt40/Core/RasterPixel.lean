import InstagramNt40.Core.RasterBlit

/-!
# What a rectangle paints

The rectangle operations map each pixel of the clipped rectangle to a value that depends
on that pixel alone. Sequences of such operations are of the same kind, so that it is
enough to know where they paint.
-/
namespace InstagramNt40.Raster

open Loop

/-- The pixel (`x`, `y`) lies in the rectangle. -/
def Rect.Holds (r : Rect) (x y : Int) : Prop :=
  r.x ≤ x ∧ x < r.x + r.w ∧ r.y ≤ y ∧ y < r.y + r.h

instance (r : Rect) (x y : Int) : Decidable (r.Holds x y) := by
  unfold Rect.Holds
  infer_instance

/-! ### One pixel -/

/-- Different pixels of the buffer have different offsets. -/
theorem offset_inj {stride x y x' y' : Int} (hx : 0 ≤ x) (hx' : x < stride) (hy : 0 ≤ y)
    (gx : 0 ≤ x') (gx' : x' < stride) (gy : 0 ≤ y')
    (same : (y * stride + x).toNat = (y' * stride + x').toNat) : x = x' ∧ y = y' := by
  have positive : 0 ≤ stride := by omega
  have here := offset_nonneg positive hx hy
  have there := offset_nonneg positive gx gy
  have row : y = y' :=
    row_of_offset (d := x') (n := 1) hx hx' gx (by omega) (by omega) (by omega)
  subst row
  exact ⟨by omega, rfl⟩

theorem set_pixel {s : Surface} {x y x' y' : Int} (color : UInt32) (hx : 0 ≤ x)
    (hx' : x < s.stride) (hy : 0 ≤ y) (gx : 0 ≤ x') (gx' : x' < s.stride) (gy : 0 ≤ y') :
    (s.set x y color).pixel x' y' = if x' = x ∧ y' = y then color else s.pixel x' y' := by
  unfold Surface.set Surface.pixel Surface.offset
  dsimp only
  by_cases same : x' = x ∧ y' = y
  · rw [if_pos same, same.1, same.2, Function.update_self]
  · rw [if_neg same, Function.update_of_ne]
    intro offsets
    exact same (offset_inj gx gx' gy hx hx' hy offsets)

/-! ### Rectangles -/

section Rectangle

variable {f : Int → Int → UInt32 → UInt32} {s : Surface} {x y : Int}

/-- A row of a rectangle, up to column `n`. -/
theorem rowLoop_pixel (left row : Int) (n : Nat) (hl : 0 ≤ left) (hw : left + n ≤ s.stride)
    (hr : 0 ≤ row) (hx : 0 ≤ x) (hx' : x < s.stride) (hy : 0 ≤ y) :
    (forLoop n (fun i t => t.set (left + i) row (f (left + i) row (t.pixel (left + i) row)))
        s).pixel x y =
      if y = row ∧ left ≤ x ∧ x < left + n then f x y (s.pixel x y) else s.pixel x y := by
  induction n with
  | zero => rw [forLoop_zero, if_neg (by omega)]
  | succ n ih =>
    push_cast at hw ⊢
    have before := ih (by omega)
    have shape : (forLoop n (fun i t =>
        t.set (left + i) row (f (left + i) row (t.pixel (left + i) row))) s).shape = s.shape :=
      forLoop_frame s fun i t => t.set_shape _ _ _
    have stride := congrArg (·.2.2) shape
    dsimp only [Surface.shape] at stride
    rw [forLoop_succ, set_pixel _ (by omega) (by omega) hr hx (by omega) hy]
    by_cases here : x = left + n ∧ y = row
    · obtain ⟨column, same⟩ := here
      rw [if_pos ⟨column, same⟩, ← column]
      subst same
      rw [before, if_neg (by omega), if_pos (by omega)]
    · rw [if_neg here, before]
      congr 1
      rw [eq_iff_iff]
      omega

/-- A loop that sets the pixels of a rectangle. -/
theorem forRect_pixel (r : Rect) (hl : 0 ≤ r.x) (hw : r.x + r.w ≤ s.stride) (ht : 0 ≤ r.y)
    (hx : 0 ≤ x) (hx' : x < s.stride) (hy : 0 ≤ y) :
    (forRect r (fun x y t => t.set x y (f x y (t.pixel x y))) s).pixel x y =
      if r.Holds x y then f x y (s.pixel x y) else s.pixel x y := by
  unfold forRect
  by_cases wide : 0 ≤ r.w
  · have rows : ∀ n : Nat, (forLoop n (fun j t => forLoop r.w.toNat
        (fun i t => t.set (r.x + i) (r.y + j)
          (f (r.x + i) (r.y + j) (t.pixel (r.x + i) (r.y + j)))) t) s).pixel x y =
        if r.x ≤ x ∧ x < r.x + r.w ∧ r.y ≤ y ∧ y < r.y + n then f x y (s.pixel x y)
        else s.pixel x y := by
      intro n
      induction n with
      | zero => rw [forLoop_zero, if_neg (by omega)]
      | succ n ih =>
        have shape : (forLoop n (fun j t => forLoop r.w.toNat (fun i t =>
            t.set (r.x + i) (r.y + j) (f (r.x + i) (r.y + j) (t.pixel (r.x + i) (r.y + j)))) t)
              s).shape = s.shape :=
          forLoop_frame s fun j t => forLoop_frame t fun i u => u.set_shape _ _ _
        have stride := congrArg (·.2.2) shape
        dsimp only [Surface.shape] at stride
        rw [forLoop_succ, rowLoop_pixel r.x (r.y + n) r.w.toNat hl (by omega) (by omega) hx
          (by omega) hy, ih]
        push_cast
        by_cases here : y = r.y + n ∧ r.x ≤ x ∧ x < r.x + r.w.toNat
        · rw [if_pos here, if_neg (by omega), if_pos (by omega)]
        · rw [if_neg here]
          congr 1
          rw [eq_iff_iff]
          omega
    rw [rows]
    congr 1
    rw [eq_iff_iff]
    unfold Rect.Holds
    omega
  · -- a negative width has no pixels
    have none : r.w.toNat = 0 := by omega
    rw [none, if_neg (by unfold Rect.Holds; omega)]
    exact congrArg (Surface.pixel · x y) (forLoop_frame (f := id) s fun _ _ => rfl)

/-- Clipping leaves the pixels on the surface. -/
theorem clipRect_holds {r : Rect} (hx : 0 ≤ x) (hy : 0 ≤ y) :
    (r.Holds x y ∧ x < s.w ∧ y < s.h) ↔ ∃ c ∈ clipRect s r, c.Holds x y := by
  unfold clipRect Rect.Holds
  dsimp only
  split_ifs <;> simp only [reduceCtorEq, Option.mem_def, Option.some.injEq, false_and, exists_false,
    exists_eq_left', iff_false] <;> omega

theorem clipRect_inside {r c : Rect} (clipped : clipRect s r = some c) :
    0 ≤ c.x ∧ c.x + c.w ≤ s.w ∧ 0 ≤ c.y := by
  unfold clipRect at clipped
  dsimp only at clipped
  obtain ⟨-, remains⟩ := Option.ite_none_left_eq_some.mp clipped
  cases remains
  dsimp only
  split_ifs <;> omega

/-- The pixels of a clipped rectangle. -/
theorem clippedRect_pixel (r : Rect) (stride : s.w ≤ s.stride) (hx : 0 ≤ x) (hx' : x < s.stride)
    (hy : 0 ≤ y) :
    (match clipRect s r with
      | none => s
      | some c => forRect c (fun x y t => t.set x y (f x y (t.pixel x y))) s).pixel x y =
      if r.Holds x y ∧ x < s.w ∧ y < s.h then f x y (s.pixel x y) else s.pixel x y := by
  have visible := clipRect_holds (s := s) (r := r) hx hy
  cases clipped : clipRect s r with
  | none =>
    rw [if_neg]
    intro inside
    obtain ⟨c, found, -⟩ := visible.mp inside
    rw [clipped] at found
    cases found
  | some c =>
    obtain ⟨left, right, top⟩ := clipRect_inside clipped
    dsimp only
    rw [forRect_pixel c left (by omega) top hx hx' hy]
    congr 1
    rw [eq_iff_iff, visible, clipped]
    simp

end Rectangle

theorem surfaceFillRect_pixel {s : Surface} (r : Rect) (color : UInt32) {x y : Int}
    (stride : s.w ≤ s.stride) (hx : 0 ≤ x) (hx' : x < s.stride) (hy : 0 ≤ y) :
    (surfaceFillRect s r color).pixel x y =
      if r.Holds x y ∧ x < s.w ∧ y < s.h then color else s.pixel x y :=
  clippedRect_pixel (f := fun _ _ _ => color) r stride hx hx' hy

theorem surfaceBlendRect_pixel {s : Surface} (r : Rect) (color : UInt32) {x y : Int}
    (stride : s.w ≤ s.stride) (hx : 0 ≤ x) (hx' : x < s.stride) (hy : 0 ≤ y) :
    (surfaceBlendRect s r color).pixel x y =
      if r.Holds x y ∧ x < s.w ∧ y < s.h then blendOver (s.pixel x y) color else s.pixel x y :=
  clippedRect_pixel (f := fun _ _ p => blendOver p color) r stride hx hx' hy

theorem surfaceFill_pixel {s : Surface} (color : UInt32) {x y : Int} (stride : s.w ≤ s.stride)
    (hx : 0 ≤ x) (hx' : x < s.stride) (hy : 0 ≤ y) :
    (surfaceFill s color).pixel x y = if x < s.w ∧ y < s.h then color else s.pixel x y := by
  unfold surfaceFill
  rw [forRect_pixel (f := fun _ _ _ => color) ⟨0, 0, s.w, s.h⟩ (Int.le_refl 0)
    (by dsimp only; omega) (Int.le_refl 0) hx hx' hy]
  congr 1
  rw [eq_iff_iff]
  unfold Rect.Holds
  dsimp only
  omega

/-! ### Painting -/

/-- On surfaces of a size, `op` maps each pixel to a value that depends on that pixel
alone, and keeps the pixels outside of `area`. -/
def Paints (w h : Int) (area : Int → Int → Prop) (op : Surface → Surface) : Prop :=
  ∃ paint : Int → Int → UInt32 → UInt32,
    (∀ x y p, ¬area x y → paint x y p = p) ∧
      ∀ s : Surface, s.w = w → s.h = h → w ≤ s.stride →
        (op s).shape = s.shape ∧ ∀ x y, 0 ≤ x → x < s.stride → 0 ≤ y →
          (op s).pixel x y = paint x y (s.pixel x y)

namespace Paints

variable {w h : Int} {area area' : Int → Int → Prop} {op op' : Surface → Surface}

theorem nothing : Paints w h area id :=
  ⟨fun _ _ p => p, fun _ _ _ _ => rfl, fun _ _ _ _ => ⟨rfl, fun _ _ _ _ _ => rfl⟩⟩

theorem mono (paints : Paints w h area op) (wider : ∀ x y, area x y → area' x y) :
    Paints w h area' op := by
  obtain ⟨paint, outside, inside⟩ := paints
  exact ⟨paint, fun x y p out => outside x y p fun within => out (wider x y within), inside⟩

theorem comp (first : Paints w h area op) (second : Paints w h area op') :
    Paints w h area fun s => op' (op s) := by
  obtain ⟨paint, outside, inside⟩ := first
  obtain ⟨paint', outside', inside'⟩ := second
  refine ⟨fun x y p => paint' x y (paint x y p), ?_, ?_⟩
  · intro x y p out
    dsimp only
    rw [outside x y p out, outside' x y p out]
  · intro s sameW sameH stride
    obtain ⟨shape, pixels⟩ := inside s sameW sameH stride
    have keptW : (op s).w = s.w := congrArg Prod.fst shape
    have keptH : (op s).h = s.h := congrArg (·.2.1) shape
    have keptStride : (op s).stride = s.stride := congrArg (·.2.2) shape
    obtain ⟨shape', pixels'⟩ := inside' (op s) (keptW.trans sameW) (keptH.trans sameH)
      (keptStride ▸ stride)
    refine ⟨shape'.trans shape, ?_⟩
    intro x y hx hx' hy
    rw [pixels' x y hx (keptStride ▸ hx') hy, pixels x y hx hx' hy]

theorem ite {c : Prop} [Decidable c] (yes : c → Paints w h area op)
    (no : ¬c → Paints w h area op') : Paints w h area fun s => if c then op s else op' s := by
  by_cases holds : c
  · simpa only [if_pos holds] using yes holds
  · simpa only [if_neg holds] using no holds

theorem loop {n : Nat} {body : Nat → Surface → Surface}
    (step : ∀ i < n, Paints w h area (body i)) : Paints w h area (forLoop n body) := by
  induction n with
  | zero => exact nothing
  | succ n ih =>
    have before := ih fun i less => step i (Nat.lt_succ_of_lt less)
    exact before.comp (step n (Nat.lt_succ_self n))

theorem fold {α : Type} {draw : α → Surface → Surface} {items : List α}
    (step : ∀ a ∈ items, Paints w h area (draw a)) :
    Paints w h area fun s => items.foldl (fun t a => draw a t) s := by
  induction items with
  | nil => exact nothing
  | cons a items ih =>
    rw [List.forall_mem_cons] at step
    exact step.1.comp (ih step.2)

/-- The operation changes nothing outside of the area. -/
theorem outside (paints : Paints w h area op) {s : Surface} (sameW : s.w = w) (sameH : s.h = h)
    (stride : w ≤ s.stride) {x y : Int} (hx : 0 ≤ x) (hx' : x < s.stride) (hy : 0 ≤ y)
    (out : ¬area x y) : (op s).pixel x y = s.pixel x y := by
  obtain ⟨paint, outside, inside⟩ := paints
  rw [(inside s sameW sameH stride).2 x y hx hx' hy, outside x y _ out]

theorem fillRect (r : Rect) (color : UInt32) :
    Paints w h r.Holds fun s => surfaceFillRect s r color := by
  refine ⟨fun x y p => if r.Holds x y ∧ x < w ∧ y < h then color else p, ?_, ?_⟩
  · intro x y p out
    exact if_neg fun visible => out visible.1
  · rintro s rfl rfl stride
    exact ⟨surfaceFillRect_shape s r color,
      fun x y hx hx' hy => surfaceFillRect_pixel r color stride hx hx' hy⟩

theorem blendRect (r : Rect) (color : UInt32) :
    Paints w h r.Holds fun s => surfaceBlendRect s r color := by
  refine ⟨fun x y p => if r.Holds x y ∧ x < w ∧ y < h then blendOver p color else p, ?_, ?_⟩
  · intro x y p out
    exact if_neg fun visible => out visible.1
  · rintro s rfl rfl stride
    exact ⟨surfaceBlendRect_shape s r color,
      fun x y hx hx' hy => surfaceBlendRect_pixel r color stride hx hx' hy⟩

/-- A frame paints inside its rectangle. -/
theorem frame (r : Rect) (color : UInt32) :
    Paints w h r.Holds fun s => surfaceFrame s r color := by
  unfold surfaceFrame
  apply ite
  · intro _
    exact nothing
  · intro some
    have line (q : Rect) (inside : r.x ≤ q.x ∧ q.x + q.w ≤ r.x + r.w ∧ r.y ≤ q.y ∧
        q.y + q.h ≤ r.y + r.h) : Paints w h r.Holds fun s => surfaceFillRect s q color := by
      apply (fillRect q color).mono
      intro x y within
      unfold Rect.Holds at within ⊢
      omega
    have top := line ⟨r.x, r.y, r.w, 1⟩ (by dsimp only; omega)
    have bottom := line ⟨r.x, r.y + r.h - 1, r.w, 1⟩ (by dsimp only; omega)
    have left := line ⟨r.x, r.y, 1, r.h⟩ (by dsimp only; omega)
    have right := line ⟨r.x + r.w - 1, r.y, 1, r.h⟩ (by dsimp only; omega)
    exact ((top.comp bottom).comp left).comp right

end Paints

/-! ### Drawing that ignores what was there -/

structure Surface.Sized (w h : Int) (s : Surface) : Prop where
  width : s.w = w
  height : s.h = h
  stride : w ≤ s.stride

/-- On surfaces of a size, `op` leaves a pixel (`x`, `y`) that does not depend on the
surface. -/
def Overwrites (w h x y : Int) (op : Surface → Surface) : Prop :=
  ∀ s t : Surface, s.Sized w h → t.Sized w h → (op s).pixel x y = (op t).pixel x y

section Overwriting

variable {w h x y : Int} {area : Int → Int → Prop} {op op' : Surface → Surface} {s : Surface}

theorem Surface.Sized.of_shape {t : Surface} (sized : s.Sized w h) (same : t.shape = s.shape) :
    t.Sized w h := by
  have stride : t.stride = s.stride := congrArg (·.2.2) same
  exact ⟨(congrArg Prod.fst same).trans sized.width, (congrArg (·.2.1) same).trans sized.height,
    stride ▸ sized.stride⟩

/-- On surfaces of the size, what an operation reads of it is fixed. -/
theorem Paints.congr (op' : Surface → Surface) (same : ∀ s : Surface, s.Sized w h → op s = op' s)
    (paints : Paints w h area op') : Paints w h area op := by
  obtain ⟨paint, outside, inside⟩ := paints
  refine ⟨paint, outside, ?_⟩
  intro s width height stride
  rw [same s ⟨width, height, stride⟩]
  exact inside s width height stride

theorem Overwrites.fillRect {r : Rect} (color : UInt32) (inside : r.Holds x y) (hx : 0 ≤ x)
    (hx' : x < w) (hy : 0 ≤ y) (hy' : y < h) :
    Overwrites w h x y fun s => surfaceFillRect s r color := by
  have filled {s : Surface} (sized : s.Sized w h) :
      (surfaceFillRect s r color).pixel x y = color := by
    obtain ⟨rfl, rfl, stride⟩ := sized
    rw [surfaceFillRect_pixel r color stride hx (by omega) hy, if_pos ⟨inside, hx', hy'⟩]
  intro s t first second
  exact (filled first).trans (filled second).symm

theorem Overwrites.congr (op' : Surface → Surface)
    (same : ∀ s : Surface, s.Sized w h → op s = op' s) (overwrites : Overwrites w h x y op') :
    Overwrites w h x y op := by
  intro s t first second
  rw [same s first, same t second]
  exact overwrites s t first second

/-- Earlier drawing does not matter. -/
theorem Overwrites.before (overwrites : Overwrites w h x y op')
    (keeps : ∀ s, (op s).shape = s.shape) : Overwrites w h x y fun s => op' (op s) :=
  fun s t sized sized' =>
    overwrites (op s) (op t) (sized.of_shape (keeps s)) (sized'.of_shape (keeps t))

/-- Later drawing maps the same pixel to the same. -/
theorem Overwrites.after (overwrites : Overwrites w h x y op)
    (keeps : ∀ s, (op s).shape = s.shape) (later : Paints w h area op') (hx : 0 ≤ x) (hx' : x < w)
    (hy : 0 ≤ y) : Overwrites w h x y fun s => op' (op s) := by
  obtain ⟨paint, -, inside⟩ := later
  have painted {s : Surface} (sized : s.Sized w h) :
      (op' (op s)).pixel x y = paint x y ((op s).pixel x y) := by
    obtain ⟨width, height, stride⟩ := sized.of_shape (keeps s)
    exact (inside (op s) width height stride).2 x y hx (by omega) hy
  intro s t sized sized'
  dsimp only
  rw [painted sized, painted sized', overwrites s t sized sized']

end Overwriting

end InstagramNt40.Raster
