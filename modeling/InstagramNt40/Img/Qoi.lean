import InstagramNt40.Core.Raster
import InstagramNt40.Library.Scanner

/-!
# img/qoi.c

The QOI codec. The encoder appends to its buffer; the decoder reads its input by
index and writes the pixels of the surface one after the other.
-/
namespace InstagramNt40.Qoi

open Scanner Crt Loop Raster

def qoiOpDiff : UInt8 := 0x40
def qoiOpLuma : UInt8 := 0x80
def qoiOpRun : UInt8 := 0xC0
def qoiOpRgb : UInt8 := 0xFE
def qoiOpRgba : UInt8 := 0xFF
def qoiMask2 : UInt8 := 0xC0

/-- The channels of a pixel. -/
structure Rgba where
  r : UInt8
  g : UInt8
  b : UInt8
  a : UInt8
  deriving DecidableEq, Repr

def Rgba.ofPixel (p : UInt32) : Rgba := ⟨rasR p, rasG p, rasB p, rasA p⟩

def Rgba.pixel (c : Rgba) : UInt32 := rasArgb c.a c.r c.g c.b

/-- The pixel before the first one. -/
def Rgba.black : Rgba := ⟨0, 0, 0, 255⟩

/-- What `memset` leaves in a slot of the index. -/
def Rgba.zero : Rgba := ⟨0, 0, 0, 0⟩

/-- `QOI_HASH` -/
def qoiHash (c : Rgba) : Fin 64 :=
  Fin.ofNat 64 (c.r.toNat * 3 + c.g.toNat * 5 + c.b.toNat * 7 + c.a.toNat * 11)

/-- The 64 slots of seen pixels. -/
abbrev Index : Type := Fin 64 → Rgba

def Index.store (index : Index) (c : Rgba) : Index := Function.update index (qoiHash c) c

theorem Index.store_self (index : Index) (c : Rgba) : index.store c (qoiHash c) = c :=
  Function.update_self _ _ _

theorem Index.store_of_ne {k : Fin 64} {c : Rgba} (other : k ≠ qoiHash c) (index : Index) :
    index.store c k = index k :=
  Function.update_of_ne other _ _

/-! ### The encoder -/

/-- The state of `qoi_encode` between two pixels. -/
structure Encoder where
  out : List UInt8
  index : Index
  prev : Rgba
  run : Nat

/-- Append to the buffer. -/
def Encoder.put (e : Encoder) (bytes : List UInt8) : Encoder := { e with out := e.out ++ bytes }

/-- `out[p++] = QOI_OP_RUN | (run - 1); run = 0;` -/
def Encoder.endRun (e : Encoder) : Encoder :=
  { e.put [qoiOpRun ||| UInt8.ofNat (e.run - 1)] with run := 0 }

/-- The chunk for a pixel of which the index has no copy. `Int8` is `signed char`. -/
def literalChunk (prev px : Rgba) : List UInt8 :=
  if px.a = prev.a then
    let vr := (px.r - prev.r).toInt8
    let vg := (px.g - prev.g).toInt8
    let vb := (px.b - prev.b).toInt8
    let vgr := vr - vg
    let vgb := vb - vg
    if vr > -3 ∧ vr < 2 ∧ vg > -3 ∧ vg < 2 ∧ vb > -3 ∧ vb < 2 then
      [qoiOpDiff ||| ((vr + 2).toUInt8 <<< 4) ||| ((vg + 2).toUInt8 <<< 2) ||| (vb + 2).toUInt8]
    else if vgr > -9 ∧ vgr < 8 ∧ vg > -33 ∧ vg < 32 ∧ vgb > -9 ∧ vgb < 8 then
      [qoiOpLuma ||| (vg + 32).toUInt8, ((vgr + 8).toUInt8 <<< 4) ||| (vgb + 8).toUInt8]
    else [qoiOpRgb, px.r, px.g, px.b]
  else [qoiOpRgba, px.r, px.g, px.b, px.a]

/-- The body of the loops of `qoi_encode`; `last` tells that it is at the last pixel. -/
def encodePixel (last : Bool) (px : Rgba) (e : Encoder) : Encoder :=
  if px = e.prev then
    let e := { e with run := e.run + 1 }
    -- a run chunk holds at most 62
    if e.run = 62 ∨ last then e.endRun else e
  else
    let e := if e.run > 0 then e.endRun else e
    let e :=
      if e.index (qoiHash px) = px then e.put [UInt8.ofNat (qoiHash px)]
      else { e.put (literalChunk e.prev px) with index := e.index.store px }
    { e with prev := px }

/-- `put32` -/
def put32 (v : UInt32) : List UInt8 :=
  [(v >>> 24).toUInt8, (v >>> 16).toUInt8, (v >>> 8).toUInt8, v.toUInt8]

/-- The header: `"qoif"`, the size, four channels and the colour space. -/
def qoiHeader (w h : Int) : List UInt8 :=
  [0x71, 0x6F, 0x69, 0x66] ++ put32 (UInt32.ofInt w) ++ put32 (UInt32.ofInt h) ++ [4, 0]

/-- The end marker. -/
def qoiEnd : List UInt8 := [0, 0, 0, 0, 0, 0, 0, 1]

/-- The pixel at (`x`, `y`), with whether it is the last one. -/
def pixelItem (s : Surface) (x y : Nat) : Bool × Rgba :=
  (y = s.h - 1 ∧ x = s.w - 1, Rgba.ofPixel (s.pixel x y))

/-- The loops over rows and columns. -/
def encodePixels (s : Surface) (e : Encoder) : Encoder :=
  forLoop s.h.toNat (fun y e =>
    forLoop s.w.toNat (fun x e =>
      encodePixel (pixelItem s x y).1 (pixelItem s x y).2 e) e) e

/-- `qoi_encode`; `none` is the result `NULL`. -/
def qoiEncode (heap : Heap) (s : Surface) : Option (List UInt8) :=
  if s.w ≤ 0 ∨ s.h ≤ 0 then none
  else if ¬heap.grants (s.w * s.h * 5 + 14 + 8).toNat then none
  else
    let e := encodePixels s ⟨qoiHeader s.w s.h, fun _ => .zero, .black, 0⟩
    some (e.out ++ qoiEnd)

/-! ### The decoder -/

/-- The state of `qoi_decode` between two pixels, without its position. -/
structure Decoder where
  index : Index
  px : Rgba
  run : Nat

/-- `p[pos++]` -/
def nextByte : Scan UInt8 := do
  let b ← deref (← cursor)
  advance 1
  pure b

/-- `pos + n > len` -/
def short (n : Nat) : Scan Bool := do pure ((← cursor) + n > (← limit))

/-- The pixel and the run that a chunk gives; `none` is the `break` on missing bytes. -/
def readChunk (d : Decoder) (op : UInt8) : Scan (Option (Rgba × Nat)) := do
  if op = qoiOpRgb then
    if ← short 3 then pure none
    else
      let r ← nextByte
      let g ← nextByte
      let b ← nextByte
      pure (some (⟨r, g, b, d.px.a⟩, 0))
  else if op = qoiOpRgba then
    if ← short 4 then pure none
    else
      let r ← nextByte
      let g ← nextByte
      let b ← nextByte
      let a ← nextByte
      pure (some (⟨r, g, b, a⟩, 0))
  else if op &&& qoiMask2 = 0 then
    pure (some (d.index (Fin.ofNat 64 (op &&& 63).toNat), 0))
  else if op &&& qoiMask2 = qoiOpDiff then
    let r := d.px.r + (((op >>> 4) &&& 3) - 2)
    let g := d.px.g + (((op >>> 2) &&& 3) - 2)
    let b := d.px.b + ((op &&& 3) - 2)
    pure (some (⟨r, g, b, d.px.a⟩, 0))
  else if op &&& qoiMask2 = qoiOpLuma then
    if ← short 1 then pure none
    else
      let b2 ← nextByte
      let vg := (op &&& 63) - 32
      let r := d.px.r + (vg + ((b2 >>> 4) &&& 15) - 8)
      let g := d.px.g + vg
      let b := d.px.b + (vg + (b2 &&& 15) - 8)
      pure (some (⟨r, g, b, d.px.a⟩, 0))
  else pure (some (d.px, (op &&& 63).toNat))

/-- One pixel of the loop. At the end of the input the last pixel goes on. -/
def decodePixel (d : Decoder) : Scan (Option Decoder) := do
  if d.run > 0 then pure (some { d with run := d.run - 1 })
  else
    match ← peek with
    -- no byte is left: the pixel is repeated
    | none => pure (some d)
    | some _ =>
      let op ← nextByte
      match ← readChunk d op with
      | none => pure none
      | some (px, run) => pure (some ⟨d.index.store px, px, run⟩)

/-- The loop over the pixels: `n` are left to decode, the next at offset `i`. -/
def decodeLoop : Nat → Nat → Decoder → Surface → Scan Surface
  | 0, _, _, s => pure s
  | n + 1, i, d, s => do
    match ← decodePixel d with
    | none => pure s
    | some d => decodeLoop n (i + 1) d { s with pixels := Function.update s.pixels i d.px.pixel }

/-- A big-endian number. -/
def get32 (i : Nat) : Scan UInt32 := do
  let b0 ← deref i
  let b1 ← deref (i + 1)
  let b2 ← deref (i + 2)
  let b3 ← deref (i + 3)
  pure ((b0.toUInt32 <<< 24) ||| (b1.toUInt32 <<< 16) ||| (b2.toUInt32 <<< 8) ||| b3.toUInt32)

/-- `qoi_decode` on the bytes of the file; the null outcome is the result -1. -/
def qoiDecode (heap : Heap) : Scan Surface := do
  if (← limit) < 14 + 8 then fail
  else if (← deref 0) ≠ 0x71 ∨ (← deref 1) ≠ 0x6F ∨ (← deref 2) ≠ 0x69 ∨ (← deref 3) ≠ 0x66 then
    fail
  else
    let w ← get32 4
    let h ← get32 8
    if w = 0 ∨ h = 0 ∨ w > 20000 ∨ h > 20000 then fail
    else
      match surfaceAlloc heap w.toNat h.toNat with
      | none => fail
      | some s => do
        seek 14
        decodeLoop (w.toNat * h.toNat) 0 ⟨fun _ => .zero, .black, 0⟩ s

end InstagramNt40.Qoi
