import InstagramNt40.Img.QoiMemory

/-!
# The buffer of `qoi_encode`

The encoder again, with every byte stored into a buffer that has room for it, at a position
that an `int` can count. A pixel may take six bytes, one of them for the run before it; but
then the pixels of that run took none.
-/
namespace InstagramNt40.Qoi

open Scanner Crt Loop Raster

namespace Mem

/-- `out[p++] = b;` in a buffer of `cap` bytes, of which `p` are written. -/
def putByte (cap : Int) (e : Encoder) (b : UInt8) : Option Encoder := do
  let p : Int := e.out.length
  let _ ← int (p + 1)
  if p < cap then some (e.put [b]) else none

def put (cap : Int) (e : Encoder) (bytes : List UInt8) : Option Encoder :=
  bytes.foldlM (putByte cap) e

/-- `out[p++] = QOI_OP_RUN | (run - 1); run = 0;` -/
def endRun (cap : Int) (e : Encoder) : Option Encoder := do
  let e ← put cap e [qoiOpRun ||| UInt8.ofNat (e.run - 1)]
  pure { e with run := 0 }

/-- The body of the loops. -/
def encodePixel (cap : Int) (last : Bool) (px : Rgba) (e : Encoder) : Option Encoder := do
  if px = e.prev then
    let e := { e with run := e.run + 1 }
    if e.run = 62 ∨ last then endRun cap e else pure e
  else
    let e ← (if e.run > 0 then endRun cap e else pure e)
    let e ← (if e.index (qoiHash px) = px then put cap e [UInt8.ofNat (qoiHash px)]
      else put cap { e with index := e.index.store px } (literalChunk e.prev px))
    pure { e with prev := px }

/-- The first `x` pixels of the row `y`. -/
def encodeRow (cap : Int) (s : Surface) (y x : Nat) (e : Encoder) : Option Encoder :=
  forLoop x (fun x e => e.bind (encodePixel cap (pixelItem s x y).1 (pixelItem s x y).2)) (some e)

/-- The first `y` rows. -/
def encodeRows (cap : Int) (s : Surface) (y : Nat) (e : Encoder) : Option Encoder :=
  forLoop y (fun y e => e.bind (encodeRow cap s y s.w.toNat)) (some e)

/-- The header. -/
def encodeHeader (cap : Int) (s : Surface) : Option Encoder :=
  put cap ⟨[], fun _ => .zero, .black, 0⟩ (qoiHeader s.w s.h)

/-- The state before the pixel (`x`, `y`). -/
def encodedTo (cap : Int) (s : Surface) (y x : Nat) : Option Encoder := do
  let e ← encodeHeader cap s
  let e ← encodeRows cap s y e
  encodeRow cap s y x e

/-- `qoi_encode`; the inner `none` is the result `NULL`. A `long` is as wide as an `int`. -/
def qoiEncode (heap : Heap) (s : Surface) : Option (Option (List UInt8)) := do
  if s.w ≤ 0 ∨ s.h ≤ 0 then pure none
  else
    let n ← int (s.w * s.h)
    let cap ← int (n * 5 + 14 + 8)
    if ¬heap.grants cap.toNat then pure none
    else
      let e ← encodeHeader cap s
      let e ← encodeRows cap s s.h.toNat e
      let e ← put cap e qoiEnd
      pure (some e.out)

end Mem

/-! ### The room for a pixel -/

theorem literalChunk_length (prev px : Rgba) : (literalChunk prev px).length ≤ 5 := by
  unfold literalChunk
  dsimp only
  split_ifs <;> simp

theorem pixelChunk_length (e : Encoder) (px : Rgba) : (pixelChunk e px).length ≤ 5 := by
  unfold pixelChunk
  split_ifs
  · exact Nat.succ_le_succ (Nat.zero_le 4)
  · exact literalChunk_length e.prev px

theorem runChunk_length (e : Encoder) : (runChunk e).length ≤ e.run := by
  unfold runChunk
  split_ifs with pending
  · exact pending
  · exact Nat.zero_le _

/-- After `k` pixels: those of the pending run have not been written, and each of the others
has taken five bytes at most. -/
structure Within (k : Nat) (e : Encoder) : Prop where
  pending : e.run ≤ k
  room : e.out.length + 5 * e.run ≤ 14 + 5 * k

theorem Within.encodePixel {k : Nat} {e : Encoder} (within : Within k e) (last : Bool) (px : Rgba) :
    Within (k + 1) (encodePixel last px e) := by
  obtain ⟨pending, room⟩ := within
  by_cases same : px = e.prev
  · -- a run that ends takes a byte for all of its pixels
    by_cases full : e.run + 1 = 62 ∨ last
    · rw [encodePixel_ends same full]
      refine ⟨Nat.zero_le _, ?_⟩
      dsimp only
      rw [List.length_append, List.length_singleton]
      omega
    · rw [encodePixel_goesOn same full]
      exact ⟨Nat.succ_le_succ pending, by dsimp only; omega⟩
  · -- the byte of the run is paid for by a pixel of the run
    have run := runChunk_length e
    have chunk := pixelChunk_length e px
    rw [encodePixel_new same]
    refine ⟨Nat.zero_le _, ?_⟩
    dsimp only
    rw [List.length_append, List.length_append]
    omega

/-! ### The checked encoder -/

namespace Mem

section Fits

variable {cap : Int} (small : cap < 2 ^ 31)

include small

theorem put_fits {e : Encoder} {bytes : List UInt8}
    (fits : ((e.put bytes).out.length : Int) ≤ cap) : put cap e bytes = some (e.put bytes) := by
  induction bytes generalizing e with
  | nil => simp [put, Encoder.put]
  | cons b bytes ih =>
    have joined : (e.put [b]).put bytes = e.put (b :: bytes) := by
      simp [Encoder.put]
    have size : (e.put (b :: bytes)).out.length = e.out.length + (bytes.length + 1) :=
      List.length_append
    have first : putByte cap e b = some (e.put [b]) := by
      unfold putByte
      dsimp only
      rw [int_small (by omega) (by omega), Option.bind_eq_bind, Option.bind_some, if_pos (by omega)]
    have others := ih (e := e.put [b]) (by rw [joined]; exact fits)
    rw [put, List.foldlM_cons, first, Option.bind_eq_bind, Option.bind_some, ← joined]
    exact others

theorem endRun_fits {e : Encoder} (fits : (e.endRun.out.length : Int) ≤ cap) :
    endRun cap e = some e.endRun := by
  rw [endRun, put_fits small fits]
  rfl

theorem encodePixel_fits {last : Bool} {px : Rgba} {e : Encoder}
    (fits : ((Qoi.encodePixel last px e).out.length : Int) ≤ cap) :
    encodePixel cap last px e = some (Qoi.encodePixel last px e) := by
  unfold encodePixel
  unfold Qoi.encodePixel at fits ⊢
  by_cases same : px = e.prev
  · rw [if_pos same] at fits ⊢
    rw [if_pos same]
    dsimp only at fits ⊢
    by_cases full : e.run + 1 = 62 ∨ last
    · rw [if_pos full] at fits ⊢
      rw [if_pos full]
      exact endRun_fits small fits
    · rw [if_neg full, if_neg full]
      rfl
  rw [if_neg same] at fits ⊢
  rw [if_neg same]
  dsimp only at fits ⊢
  -- the run is written before the chunk, so it fits if that does
  generalize ended : (if e.run > 0 then e.endRun else e) = e' at fits ⊢
  have grown (bytes : List UInt8) : e'.out.length ≤ (e'.put bytes).out.length := by
    rw [Encoder.put, List.length_append]
    exact Nat.le_add_right _ _
  have run (room : (e'.out.length : Int) ≤ cap) :
      (if e.run > 0 then endRun cap e else pure e) = some e' := by
    by_cases pending : e.run > 0
    · rw [if_pos pending] at ended ⊢
      subst ended
      exact endRun_fits small room
    · rw [if_neg pending] at ended ⊢
      subst ended
      rfl
  by_cases stored : e'.index (qoiHash px) = px
  · rw [if_pos stored] at fits ⊢
    have := grown [UInt8.ofNat (qoiHash px)]
    rw [run (by omega), Option.bind_eq_bind, Option.bind_some, if_pos stored, put_fits small fits]
    rfl
  · rw [if_neg stored] at fits ⊢
    dsimp only at fits
    have := grown (literalChunk e'.prev px)
    have chunk := @put_fits cap small { e' with index := e'.index.store px }
      (literalChunk e'.prev px) fits
    rw [run (by omega), Option.bind_eq_bind, Option.bind_some, if_neg stored, chunk]
    rfl

/-- One pixel, with room for five bytes more. -/
theorem encodePixel_within {k : Nat} {e : Encoder} (within : Within k e)
    (room : 14 + 5 * ((k : Int) + 1) ≤ cap) (last : Bool) (px : Rgba) :
    ∃ e', encodePixel cap last px e = some e' ∧ e' = Qoi.encodePixel last px e ∧
      Within (k + 1) e' := by
  have next := within.encodePixel last px
  have := next.room
  exact ⟨_, encodePixel_fits small (by omega), rfl, next⟩

variable {s : Surface}

/-- The first `x` pixels of a row after `y` rows. -/
theorem encodeRow_within {y x : Nat} {e : Encoder} (within : Within (y * s.w.toNat) e)
    (room : 14 + 5 * ((y * s.w.toNat + x : Nat) : Int) ≤ cap) :
    ∃ e', encodeRow cap s y x e = some e' ∧
      e' = forLoop x (fun x e => Qoi.encodePixel (pixelItem s x y).1 (pixelItem s x y).2 e) e ∧
      Within (y * s.w.toNat + x) e' := by
  unfold encodeRow
  refine forLoop_succeeds (P := fun i t => t = forLoop i (fun x e =>
    Qoi.encodePixel (pixelItem s x y).1 (pixelItem s x y).2 e) e ∧
    Within (y * s.w.toNat + i) t) ⟨rfl, within⟩ ?_
  rintro i less t ⟨same, before⟩
  obtain ⟨u, run, equal, after⟩ := encodePixel_within small before (by omega) (pixelItem s i y).1
    (pixelItem s i y).2
  refine ⟨u, run, ?_, after⟩
  rw [equal, same, forLoop_succ]

theorem encodeRows_within {y : Nat} {e : Encoder} (within : Within 0 e)
    (room : 14 + 5 * ((y * s.w.toNat : Nat) : Int) ≤ cap) :
    ∃ e', encodeRows cap s y e = some e' ∧
      e' = forLoop y (fun y e => forLoop s.w.toNat (fun x e =>
        Qoi.encodePixel (pixelItem s x y).1 (pixelItem s x y).2 e) e) e ∧
      Within (y * s.w.toNat) e' := by
  unfold encodeRows
  refine forLoop_succeeds (P := fun i t => t = forLoop i (fun y e => forLoop s.w.toNat (fun x e =>
    Qoi.encodePixel (pixelItem s x y).1 (pixelItem s x y).2 e) e) e ∧
    Within (i * s.w.toNat) t) ⟨rfl, by rwa [Nat.zero_mul]⟩ ?_
  rintro i less t ⟨same, before⟩
  have rows : (i + 1) * s.w.toNat ≤ y * s.w.toNat := Nat.mul_le_mul_right _ less
  rw [Nat.succ_mul] at rows
  obtain ⟨u, run, equal, after⟩ := encodeRow_within small (x := s.w.toNat) before (by omega)
  refine ⟨u, run, ?_, by rwa [Nat.succ_mul]⟩
  rw [equal, same, forLoop_succ]

theorem encodeHeader_within (room : 14 ≤ cap) :
    encodeHeader cap s = some ⟨qoiHeader s.w s.h, fun _ => .zero, .black, 0⟩ ∧
      Within 0 ⟨qoiHeader s.w s.h, fun _ => .zero, .black, 0⟩ :=
  ⟨put_fits small room, le_refl 0, le_refl 14⟩

end Fits

/-- The capacity of the buffer. -/
def capacity (s : Surface) : Int := s.w * s.h * 5 + 14 + 8

variable {s : Surface}

theorem capacity_eq (hw : 0 < s.w) (hh : 0 < s.h) :
    capacity s = 5 * ((s.h.toNat * s.w.toNat : Nat) : Int) + 22 := by
  rw [capacity, Nat.cast_mul, Int.toNat_of_nonneg hw.le, Int.toNat_of_nonneg hh.le,
    Int.mul_comm s.h]
  omega

/-- The pixels before (`x`, `y`) fit five bytes each. -/
theorem encodedTo_within (small : capacity s < 2 ^ 31) (hw : 0 < s.w) {y x : Nat}
    (hy : (y : Int) < s.h) (hx : (x : Int) ≤ s.w) :
    ∃ e, encodedTo (capacity s) s y x = some e ∧ Within (y * s.w.toNat + x) e ∧
      (e.out.length : Int) ≤ capacity s := by
  have cap := capacity_eq hw (by omega)
  have rows : (y + 1) * s.w.toNat ≤ s.h.toNat * s.w.toNat := Nat.mul_le_mul_right _ (by omega)
  rw [Nat.succ_mul] at rows
  obtain ⟨header, start⟩ := encodeHeader_within (s := s) small (by omega)
  obtain ⟨e, above, -, within⟩ := encodeRows_within small (s := s) (y := y) start (by omega)
  obtain ⟨e', row, -, within'⟩ := encodeRow_within small (x := x) within (by omega)
  have room := within'.room
  refine ⟨e', ?_, within', by omega⟩
  rw [encodedTo, header, Option.bind_eq_bind, Option.bind_some, above, Option.bind_some, row]

/-- Nothing is written outside of the buffer, and what is returned is what the encoder over
lists returns. -/
theorem qoiEncode_eq (heap : Heap) (hw : 0 < s.w) (hh : 0 < s.h) (small : capacity s < 2 ^ 31) :
    qoiEncode heap s = some (Qoi.qoiEncode heap s) ∧
      ∀ data, Qoi.qoiEncode heap s = some data → (data.length : Int) ≤ capacity s := by
  have cap := capacity_eq hw hh
  obtain ⟨header, start⟩ := encodeHeader_within (s := s) small (by omega)
  obtain ⟨e, rows, equal, within⟩ :=
    encodeRows_within small (s := s) (y := s.h.toNat) start (by omega)
  have room := within.room
  have ending : qoiEnd.length = 8 := rfl
  have fits : ((e.put qoiEnd).out.length : Int) ≤ capacity s := by
    rw [Encoder.put, List.length_append, ending]
    omega
  -- the sizes that the code computes are no more than the capacity
  have positive : ¬(s.w ≤ 0 ∨ s.h ≤ 0) := by omega
  have product : 0 < s.w * s.h := Int.mul_pos hw hh
  have count : int (s.w * s.h) = some (s.w * s.h) :=
    int_small product.le (by rw [capacity] at small; omega)
  have size : int (s.w * s.h * 5 + 14 + 8) = some (capacity s) := int_small (by omega) small
  unfold qoiEncode Qoi.qoiEncode
  rw [if_neg positive, if_neg positive, count, Option.bind_eq_bind, Option.bind_some, size,
    Option.bind_some]
  have whole : encodePixels s ⟨qoiHeader s.w s.h, fun _ => .zero, .black, 0⟩ = e := equal.symm
  rw [whole]
  by_cases granted : heap.grants (capacity s).toNat
  · have granted' : heap.grants (s.w * s.h * 5 + 14 + 8).toNat := granted
    rw [if_neg (not_not.mpr granted), if_neg (not_not.mpr granted'), header, Option.bind_eq_bind,
      Option.bind_some, rows, Option.bind_some, put_fits small fits]
    refine ⟨rfl, ?_⟩
    rintro _ ⟨⟩
    exact fits
  · have refused : ¬heap.grants (s.w * s.h * 5 + 14 + 8).toNat := granted
    rw [if_pos granted, if_pos refused]
    refine ⟨rfl, fun _ encoded => ?_⟩
    cases encoded

end Mem

open Mem in
/-- The encoder does not outgrow its buffer: before each pixel the position is bounded by five
bytes for each pixel that is not in the pending run. -/
theorem qoiEncode_bounded (s : Surface) (hw : 0 < s.w) (hh : 0 < s.h) (small : s.w * s.h ≤ 2 ^ 28) :
    capacity s = 5 * (s.w * s.h) + 22 ∧ capacity s < 2 ^ 31 ∧
      (∀ y x : Nat, (y : Int) < s.h → (x : Int) ≤ s.w →
        ∃ e, encodedTo (capacity s) s y x = some e ∧ (e.run : Int) ≤ y * s.w + x ∧
          (e.out.length : Int) ≤ 14 + 5 * (y * s.w + x - e.run) ∧ e.out.length < 2 ^ 31) ∧
      ∀ heap, Mem.qoiEncode heap s = some (qoiEncode heap s) ∧
        ∀ data, qoiEncode heap s = some data →
          (data.length : Int) ≤ 5 * (s.w * s.h) + 22 ∧ data.length < 2 ^ 31 := by
  have cap : capacity s = 5 * (s.w * s.h) + 22 := by
    rw [capacity]
    omega
  have fits : capacity s < 2 ^ 31 := by omega
  refine ⟨cap, fits, fun y x hy hx => ?_, fun heap => ?_⟩
  · obtain ⟨e, run, ⟨pending, room⟩, inside⟩ := encodedTo_within fits hw hy hx
    have row : (y : Int) * s.w = (y * s.w.toNat : Nat) := by
      rw [Nat.cast_mul, Int.toNat_of_nonneg hw.le]
    exact ⟨e, run, by omega, by omega, by omega⟩
  · obtain ⟨run, size⟩ := qoiEncode_eq heap hw hh fits
    refine ⟨run, fun data encoded => ?_⟩
    have := size data encoded
    omega

open Mem in
/-- A pixel of its own colour after one of the initial black: a byte for the run, and five. -/
theorem qoiEncode_bounded_two :
    capacity ⟨fun i => if i = 0 then 0xFF000000 else 0x80FF0201, 2, 1, 2⟩ < 2 ^ 31 ∧
      ∃ e, encodedTo 32 ⟨fun i => if i = 0 then 0xFF000000 else 0x80FF0201, 2, 1, 2⟩ 0 2 = some e ∧
        (e.run : Int) ≤ 2 ∧ (e.out.length : Int) ≤ 14 + 5 * (2 - e.run) := by
  obtain ⟨-, fits, before, -⟩ := qoiEncode_bounded
    ⟨fun i => if i = 0 then 0xFF000000 else 0x80FF0201, 2, 1, 2⟩ (by decide) (by decide) (by decide)
  obtain ⟨e, run, pending, room, -⟩ := before 0 2 (by decide) (by decide)
  exact ⟨fits, e, run, pending, room⟩

end InstagramNt40.Qoi
