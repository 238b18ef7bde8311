import InstagramNt40.Img.QoiRoundTrip

/-!
# The accesses of `qoi_decode`

The decoder again, with every access checked: an index outside of the file, of the 64 slots
or of the allocated pixels, and a sum that an `int` cannot hold, is the result `none`. It
never is, and the decoder is the one over the bytes of the file.
-/
namespace InstagramNt40.Qoi

open Scanner Crt Loop Raster

namespace Mem

/-- What an `int` holds. -/
def int (v : Int) : Option Int := if -2 ^ 31 ≤ v ∧ v < 2 ^ 31 then some v else none

/-- `p[i]` in a file of `len` bytes. -/
def byte (p : Nat → UInt8) (len i : Int) : Option UInt8 :=
  if 0 ≤ i ∧ i < len then some (p i.toNat) else none

/-- `QOI_HASH` -/
def hash (c : Rgba) : Nat :=
  (c.r.toNat * 3 + c.g.toNat * 5 + c.b.toNat * 7 + c.a.toNat * 11) &&& 63

def storeSlot (index : List Rgba) (i : Nat) (c : Rgba) : Option (List Rgba) :=
  if i < index.length then some (index.set i c) else none

/-- `out->pixels[i] = v` in a block of `w * h` pixels. -/
def storePixel (s : Surface) (i : Int) (v : UInt32) : Option Surface :=
  if 0 ≤ i ∧ i < s.w * s.h then
    some { s with pixels := Function.update s.pixels i.toNat v }
  else none

/-- The variables of the loop. -/
structure State where
  index : List Rgba
  px : Rgba
  pos : Int
  run : Nat

section Code

variable (p : Nat → UInt8) (len : Int)

/-- The `if` over the chunks, behind the byte `op`; the inner `none` is the `break`. -/
def readChunk (st : State) (op : UInt8) : Option (Option State) := do
  if op = qoiOpRgb then
    if (← int (st.pos + 3)) > len then pure none
    else
      let r ← byte p len st.pos
      let g ← byte p len (st.pos + 1)
      let b ← byte p len (st.pos + 2)
      pure (some { st with px := ⟨r, g, b, st.px.a⟩, pos := st.pos + 3 })
  else if op = qoiOpRgba then
    if (← int (st.pos + 4)) > len then pure none
    else
      let r ← byte p len st.pos
      let g ← byte p len (st.pos + 1)
      let b ← byte p len (st.pos + 2)
      let a ← byte p len (st.pos + 3)
      pure (some { st with px := ⟨r, g, b, a⟩, pos := st.pos + 4 })
  else if op &&& qoiMask2 = 0 then
    let px ← st.index[(op &&& 63).toNat]?
    pure (some { st with px := px })
  else if op &&& qoiMask2 = qoiOpDiff then
    let r := st.px.r + (((op >>> 4) &&& 3) - 2)
    let g := st.px.g + (((op >>> 2) &&& 3) - 2)
    let b := st.px.b + ((op &&& 3) - 2)
    pure (some { st with px := ⟨r, g, b, st.px.a⟩ })
  else if op &&& qoiMask2 = qoiOpLuma then
    if st.pos ≥ len then pure none
    else
      let b2 ← byte p len st.pos
      let vg := (op &&& 63) - 32
      let r := st.px.r + (vg + ((b2 >>> 4) &&& 15) - 8)
      let g := st.px.g + vg
      let b := st.px.b + (vg + (b2 &&& 15) - 8)
      pure (some { st with px := ⟨r, g, b, st.px.a⟩, pos := st.pos + 1 })
  else pure (some { st with run := (op &&& 63).toNat })

/-- The body of the loop, up to the store of the pixel. -/
def decodePixel (st : State) : Option (Option State) := do
  if st.run > 0 then pure (some { st with run := st.run - 1 })
  else if st.pos < len then
    let op ← byte p len st.pos
    let pos ← int (st.pos + 1)
    match ← readChunk p len { st with pos := pos } op with
    | none => pure none
    | some st => do
      let index ← storeSlot st.index (hash st.px) st.px
      pure (some { st with index := index })
  -- no byte is left: the pixel is repeated
  else pure (some st)

/-- The loop over the pixels: `n` are left, the next at index `i`. -/
def decodeLoop : Nat → Int → State → Surface → Option Surface
  | 0, _, _, s => pure s
  | n + 1, i, st, s => do
    match ← decodePixel p len st with
    -- the pixels from here on stay as they were allocated
    | none => pure s
    | some st => do
      let s ← storePixel s i st.px.pixel
      decodeLoop n (i + 1) st s

def get32 (i : Int) : Option UInt32 := do
  let b0 ← byte p len i
  let b1 ← byte p len (i + 1)
  let b2 ← byte p len (i + 2)
  let b3 ← byte p len (i + 3)
  pure ((b0.toUInt32 <<< 24) ||| (b1.toUInt32 <<< 16) ||| (b2.toUInt32 <<< 8) ||| b3.toUInt32)

end Code

/-- `qoi_decode`: the result and the surface `out` afterwards. The file is the memory from
`data` on, if that is not `NULL`. -/
def qoiDecode (heap : Heap) (data : Option (Nat → UInt8)) (len : Int) (out : Surface) :
    Option (Int × Surface) := do
  match data with
  | none => pure (-1, out)
  | some p =>
    if len < 14 + 8 then pure (-1, out)
    else if (← byte p len 0) ≠ 0x71 ∨ (← byte p len 1) ≠ 0x6F ∨ (← byte p len 2) ≠ 0x69 ∨
        (← byte p len 3) ≠ 0x66 then pure (-1, out)
    else
      let w ← get32 p len 4
      let h ← get32 p len 8
      if w = 0 ∨ h = 0 ∨ w > 20000 ∨ h > 20000 then pure (-1, out)
      else
        match surfaceAlloc heap w.toNat h.toNat with
        | none => pure (-1, out)
        | some s => do
          let s ← decodeLoop p len (w.toNat * h.toNat) 0
            ⟨List.replicate 64 .zero, .black, 14, 0⟩ s
          pure (0, s)

/-! ### In step with the scanner -/

/-- The bytes of the file. -/
def file (p : Nat → UInt8) (len : Int) : List UInt8 := (List.range len.toNat).map p

theorem file_length (p : Nat → UInt8) (len : Int) : (file p len).length = len.toNat := by
  rw [file, List.length_map, List.length_range]

theorem file_get {p : Nat → UInt8} {len : Int} {i : Nat} (inside : i < len.toNat) :
    (file p len)[i]? = some (p i) := by
  rw [file, List.getElem?_map, List.getElem?_range inside]
  rfl

theorem hash_eq (c : Rgba) : hash c = qoiHash c :=
  Nat.and_two_pow_sub_one_eq_mod _ 6

theorem int_small {v : Int} (low : 0 ≤ v) (high : v < 2 ^ 31) : int v = some v :=
  if_pos ⟨by omega, high⟩

theorem byte_inside {p : Nat → UInt8} {len : Int} {i : Nat} (inside : i < len.toNat) :
    byte p len i = some (p i) := by
  have bounds : (0 : Int) ≤ i ∧ (i : Int) < len := by omega
  rw [byte, if_pos bounds, Int.toNat_natCast]

/-- The variables of the loop are those of the scanner, and its cursor. -/
structure Tracks (st : State) (d : Decoder) (x : Cursor) : Prop where
  pos : st.pos = x.pos
  px : st.px = d.px
  run : st.run = d.run
  length : st.index.length = 64
  slots : ∀ k : Fin 64, st.index[k.val]? = some (d.index k)

/-- The pixel is stored in its slot. -/
theorem Tracks.store {st : State} {d : Decoder} {x : Cursor} (tracks : Tracks st d x) :
    ∃ index, storeSlot st.index (hash st.px) st.px = some index ∧
      Tracks { st with index := index } { d with index := d.index.store d.px } x := by
  have inside : (qoiHash d.px).val < st.index.length := by
    rw [tracks.length]
    exact (qoiHash d.px).isLt
  rw [hash_eq, tracks.px, storeSlot, if_pos inside]
  refine ⟨_, rfl, tracks.pos, rfl, tracks.run, ?_, fun k => ?_⟩
  · exact (List.length_set ..).trans tracks.length
  · dsimp only
    by_cases here : k = qoiHash d.px
    · rw [here, List.getElem?_set_self inside, Index.store_self]
    · have other : (qoiHash d.px).val ≠ k.val := fun same => here (Fin.ext same.symm)
      rw [List.getElem?_set_ne other, Index.store_of_ne here, tracks.slots]

section Step

variable {p : Nat → UInt8} {len : Int} {x : Cursor}

theorem rest_file (inside : x.pos < len.toNat) :
    ∃ r, rest (file p len) x = p x.pos :: r := by
  have there : x.pos < (file p len).length := by rwa [file_length]
  have here := file_get (p := p) inside
  rw [List.getElem?_eq_getElem there] at here
  exact ⟨_, by rw [rest, List.drop_eq_getElem_cons there, Option.some.inj here]⟩

theorem nextByte_file (inside : x.pos < len.toNat) :
    nextByte (file p len) x = .ok (p x.pos) (x.forward 1) := by
  obtain ⟨r, left⟩ := rest_file (p := p) inside
  exact run_nextByte left

theorem short_file (n : Nat) :
    short n (file p len) x = .ok (decide (x.pos + n > len.toNat)) x := by
  rw [← file_length p len]
  rfl

theorem nextByte_forward (k : Nat) (less : x.pos + k < len.toNat) :
    nextByte (file p len) (x.forward k) = .ok (p (x.pos + k)) (x.forward (k + 1)) := by
  rw [nextByte_file less, Cursor.forward_forward]
  rfl

/-- The scanner and the checked code give the same pixel and run, from at most four bytes. -/
def Agrees (p : Nat → UInt8) (len : Int) (x : Cursor) (st : State)
    (scan : Scan (Option (Rgba × Nat))) (code : Option (Option State)) : Prop :=
  ∃ res n, scan (file p len) x = .ok res (x.forward n) ∧ n ≤ 4 ∧ x.pos + n ≤ len.toNat ∧
    code = some (res.map fun c => { st with px := c.1, pos := st.pos + n, run := c.2 })

/-- A chunk of `n` more bytes: both stop if the file ends before them. -/
theorem Agrees.of_short {st : State} {scan : Scan (Option (Rgba × Nat))}
    {code : Option (Option State)} (n : Nat) (inside : x.pos ≤ len.toNat)
    (stops : len.toNat < x.pos + n → code = some none)
    (whole : x.pos + n ≤ len.toNat → Agrees p len x st scan code) :
    Agrees p len x st (do if ← short n then pure none else scan) code := by
  by_cases missing : len.toNat < x.pos + n
  · refine ⟨none, 0, ?_, by omega, inside, stops missing⟩
    rw [bind_ok (short_file n), decide_eq_true missing]
    rfl
  · obtain ⟨res, k, scanned, read⟩ := whole (Nat.le_of_not_lt missing)
    refine ⟨res, k, ?_, read⟩
    rw [bind_ok (short_file n), decide_eq_false missing, if_neg Bool.false_ne_true]
    exact scanned

/-- A chunk that is its first byte alone. -/
theorem Agrees.of_pure {st : State} {px : Rgba} {run : Nat} {code : Option (Option State)}
    (inside : x.pos ≤ len.toNat) (read : code = some (some { st with px := px, run := run })) :
    Agrees p len x st (pure (some (px, run))) code :=
  ⟨some (px, run), 0, rfl, by omega, inside, by rw [read]; simp⟩

section Chunks

variable {index : List Rgba} {d : Decoder} {op : UInt8}

theorem rgb_agrees (inside : x.pos ≤ len.toNat) (small : x.pos + 4 < 2 ^ 31)
    (rgb : op = qoiOpRgb) :
    Agrees p len x ⟨index, d.px, x.pos, 0⟩ (Qoi.readChunk d op)
      (readChunk p len ⟨index, d.px, x.pos, 0⟩ op) := by
  have fits : int ((x.pos : Int) + 3) = some ((x.pos : Int) + 3) :=
    int_small (by omega) (by omega)
  unfold Qoi.readChunk readChunk
  dsimp only
  rw [if_pos rgb, if_pos rgb, fits, Option.bind_eq_bind, Option.bind_some]
  refine .of_short 3 inside (fun missing => if_pos (by omega)) fun whole => ?_
  have second : byte p len (x.pos + 1) = some (p (x.pos + 1)) :=
    byte_inside (show x.pos + 1 < len.toNat by omega)
  have third : byte p len (x.pos + 2) = some (p (x.pos + 2)) :=
    byte_inside (show x.pos + 2 < len.toNat by omega)
  refine ⟨some (⟨p x.pos, p (x.pos + 1), p (x.pos + 2), d.px.a⟩, 0), 3, ?_, by omega, whole, ?_⟩
  · rw [bind_ok (nextByte_file (by omega)), bind_ok (nextByte_forward 1 (by omega)),
      bind_ok (nextByte_forward 2 (by omega))]
    rfl
  · rw [if_neg (by omega), byte_inside (by omega), second, third]
    rfl

theorem rgba_agrees (inside : x.pos ≤ len.toNat) (small : x.pos + 4 < 2 ^ 31)
    (rgba : op = qoiOpRgba) :
    Agrees p len x ⟨index, d.px, x.pos, 0⟩ (Qoi.readChunk d op)
      (readChunk p len ⟨index, d.px, x.pos, 0⟩ op) := by
  have rgb : op ≠ qoiOpRgb := by
    rw [rgba]
    decide
  have fits : int ((x.pos : Int) + 4) = some ((x.pos : Int) + 4) :=
    int_small (by omega) (by omega)
  unfold Qoi.readChunk readChunk
  dsimp only
  rw [if_neg rgb, if_neg rgb, if_pos rgba, if_pos rgba, fits, Option.bind_eq_bind,
    Option.bind_some]
  refine .of_short 4 inside (fun missing => if_pos (by omega)) fun whole => ?_
  have second : byte p len (x.pos + 1) = some (p (x.pos + 1)) :=
    byte_inside (show x.pos + 1 < len.toNat by omega)
  have third : byte p len (x.pos + 2) = some (p (x.pos + 2)) :=
    byte_inside (show x.pos + 2 < len.toNat by omega)
  have fourth : byte p len (x.pos + 3) = some (p (x.pos + 3)) :=
    byte_inside (show x.pos + 3 < len.toNat by omega)
  refine ⟨some (⟨p x.pos, p (x.pos + 1), p (x.pos + 2), p (x.pos + 3)⟩, 0), 4, ?_, by omega,
    whole, ?_⟩
  · rw [bind_ok (nextByte_file (by omega)), bind_ok (nextByte_forward 1 (by omega)),
      bind_ok (nextByte_forward 2 (by omega)), bind_ok (nextByte_forward 3 (by omega))]
    rfl
  · rw [if_neg (by omega), byte_inside (by omega), second, third, fourth]
    rfl

/-- The low six bits name one of the 64 slots. -/
theorem slot_agrees (slots : ∀ k : Fin 64, index[k.val]? = some (d.index k))
    (inside : x.pos ≤ len.toNat) (rgb : op ≠ qoiOpRgb) (rgba : op ≠ qoiOpRgba)
    (slot : op &&& qoiMask2 = 0) :
    Agrees p len x ⟨index, d.px, x.pos, 0⟩ (Qoi.readChunk d op)
      (readChunk p len ⟨index, d.px, x.pos, 0⟩ op) := by
  have below : (op &&& 63).toNat < 64 := by
    rw [UInt8.toNat_and]
    exact Nat.lt_succ_of_le Nat.and_le_right
  have found := slots (Fin.ofNat 64 (op &&& 63).toNat)
  rw [Fin.val_ofNat, Nat.mod_eq_of_lt below] at found
  rw [Qoi.readChunk, readChunk, if_neg rgb, if_neg rgb, if_neg rgba, if_neg rgba, if_pos slot,
    if_pos slot]
  refine .of_pure inside ?_
  dsimp only
  rw [found]
  rfl

theorem luma_agrees (inside : x.pos ≤ len.toNat) (rgb : op ≠ qoiOpRgb) (rgba : op ≠ qoiOpRgba)
    (luma : op &&& qoiMask2 = qoiOpLuma) :
    Agrees p len x ⟨index, d.px, x.pos, 0⟩ (Qoi.readChunk d op)
      (readChunk p len ⟨index, d.px, x.pos, 0⟩ op) := by
  have slot : op &&& qoiMask2 ≠ 0 := by
    rw [luma]
    decide
  have diff : op &&& qoiMask2 ≠ qoiOpDiff := by
    rw [luma]
    decide
  rw [Qoi.readChunk, readChunk, if_neg rgb, if_neg rgb, if_neg rgba, if_neg rgba, if_neg slot,
    if_neg slot, if_neg diff, if_neg diff, if_pos luma, if_pos luma]
  refine .of_short 1 inside (fun missing => if_pos (by dsimp only; omega)) fun whole => ?_
  rw [if_neg (by dsimp only; omega)]
  dsimp only
  rw [byte_inside (by omega)]
  exact ⟨_, 1, bind_ok (nextByte_file (by omega)), by omega, whole, rfl⟩

end Chunks

/-- The `if` over the chunks, one case for each kind. -/
theorem readChunk_agrees {st : State} {d : Decoder} (tracks : Tracks st d x) (idle : d.run = 0)
    (inside : x.pos ≤ len.toNat) (small : x.pos + 4 < 2 ^ 31) (op : UInt8) :
    Agrees p len x st (Qoi.readChunk d op) (readChunk p len st op) := by
  obtain ⟨index, px, pos, run⟩ := st
  obtain rfl : pos = x.pos := tracks.pos
  obtain rfl : px = d.px := tracks.px
  obtain rfl : run = 0 := tracks.run.trans idle
  by_cases rgb : op = qoiOpRgb
  · exact rgb_agrees inside small rgb
  by_cases rgba : op = qoiOpRgba
  · exact rgba_agrees inside small rgba
  by_cases slot : op &&& qoiMask2 = 0
  · exact slot_agrees tracks.slots inside rgb rgba slot
  by_cases luma : op &&& qoiMask2 = qoiOpLuma
  · exact luma_agrees inside rgb rgba luma
  rw [Qoi.readChunk, readChunk, if_neg rgb, if_neg rgb, if_neg rgba, if_neg rgba, if_neg slot,
    if_neg slot]
  by_cases diff : op &&& qoiMask2 = qoiOpDiff
  · rw [if_pos diff, if_pos diff]
    exact .of_pure inside rfl
  · rw [if_neg diff, if_neg diff, if_neg luma, if_neg luma]
    exact .of_pure inside rfl

/-- One pixel: both stop at missing bytes, or both go on in step. -/
theorem decodePixel_agrees {st : State} {d : Decoder} (tracks : Tracks st d x)
    (inside : x.pos ≤ len.toNat) (small : x.pos + 5 < 2 ^ 31) :
    ∃ n, x.pos + n ≤ len.toNat ∧ n ≤ 5 ∧
      (Qoi.decodePixel d (file p len) x = .ok none (x.forward n) ∧
        decodePixel p len st = some none ∨
      ∃ st' d', Qoi.decodePixel d (file p len) x = .ok (some d') (x.forward n) ∧
        decodePixel p len st = some (some st') ∧ Tracks st' d' (x.forward n)) := by
  obtain ⟨index, px, pos, run⟩ := st
  obtain rfl : pos = x.pos := tracks.pos
  obtain rfl : px = d.px := tracks.px
  obtain rfl : run = d.run := tracks.run
  unfold Qoi.decodePixel decodePixel
  dsimp only
  by_cases running : d.run > 0
  · rw [if_pos running, if_pos running]
    exact ⟨0, inside, by omega, .inr ⟨_, _, rfl, rfl, rfl, rfl, rfl, tracks.length,
      tracks.slots⟩⟩
  rw [if_neg running, if_neg running]
  by_cases more : x.pos < len.toNat
  · obtain ⟨r, left⟩ := rest_file (p := p) more
    rw [bind_ok (run_peek_cons left), if_pos (by omega), byte_inside more,
      Option.bind_eq_bind, Option.bind_some, int_small (by omega) (by omega), Option.bind_eq_bind,
      Option.bind_some]
    dsimp only
    rw [bind_ok (nextByte_file more)]
    -- behind its first byte a chunk has at most four more
    have tracks' : Tracks ⟨index, d.px, (x.pos : Int) + 1, d.run⟩ d (x.forward 1) :=
      ⟨rfl, rfl, rfl, tracks.length, tracks.slots⟩
    have inside' : (x.forward 1).pos ≤ len.toNat := more
    obtain ⟨res, n, scanned, few, within, read⟩ := readChunk_agrees (p := p) tracks' (by omega)
      inside' (by rw [Cursor.forward_pos]; omega) (p x.pos)
    simp only [Cursor.forward_pos, Cursor.forward_forward] at scanned within
    refine ⟨1 + n, by omega, by omega, ?_⟩
    rw [bind_ok scanned, read, Option.bind_eq_bind, Option.bind_some]
    cases res with
    | none => exact .inl ⟨rfl, rfl⟩
    | some c =>
      -- both store the pixel in the same slot
      obtain ⟨px, run⟩ := c
      right
      have read' : Tracks ⟨index, px, (x.pos : Int) + 1 + n, run⟩
          { d with px := px, run := run } (x.forward (1 + n)) :=
        ⟨by simp; omega, rfl, rfl, tracks.length, tracks.slots⟩
      obtain ⟨index, stored, tracks''⟩ := read'.store
      refine ⟨_, _, rfl, ?_, tracks''⟩
      dsimp only [Option.map_some] at stored ⊢
      rw [stored]
      rfl
  · -- at the end of the file the pixel is repeated
    have left : rest (file p len) x = [] := List.drop_eq_nil_of_le (by rw [file_length]; omega)
    rw [bind_ok (run_peek_nil left), if_neg (by omega)]
    exact ⟨0, inside, by omega, .inr ⟨_, _, rfl, rfl, tracks⟩⟩

/-- The loop: at most five bytes are read for a pixel, so `pos` stays an `int`, and as many
pixels are left as there are after the index. -/
theorem decodeLoop_agrees (n i : Nat) {st : State} {d : Decoder} (tracks : Tracks st d x)
    (inside : x.pos ≤ len.toNat) (read : x.pos ≤ 14 + 5 * i) (few : i + n ≤ 2 ^ 28) {s : Surface}
    (size : s.w * s.h = (i + n : Nat)) :
    ∃ t y, Qoi.decodeLoop n i d s (file p len) x = .ok t y ∧
      decodeLoop p len n i st s = some t ∧ t.shape = s.shape := by
  induction n generalizing i st d s x with
  | zero => exact ⟨s, x, rfl, rfl, rfl⟩
  | succ n ih =>
    obtain ⟨k, within, five, stops | ⟨st', d', scanned, run, tracks'⟩⟩ :=
      decodePixel_agrees (p := p) tracks inside (by omega)
    · -- the `break`
      refine ⟨s, x.forward k, ?_, ?_, rfl⟩
      · rw [Qoi.decodeLoop, bind_ok stops.1]
        rfl
      · rw [decodeLoop, stops.2]
        rfl
    · -- the index counts the pixels before this one, so it is below `w * h`
      have owned : (0 : Int) ≤ i ∧ (i : Int) < s.w * s.h := by omega
      have stored : storePixel s i st'.px.pixel =
          some { s with pixels := Function.update s.pixels i d'.px.pixel } := by
        rw [storePixel, if_pos owned, tracks'.px, Int.toNat_natCast]
      have inside' : (x.forward k).pos ≤ len.toNat := within
      obtain ⟨t, y, scanned', run', shape⟩ := ih (i + 1) tracks' inside'
        (by rw [Cursor.forward_pos]; omega) (by omega)
        (s := { s with pixels := Function.update s.pixels i d'.px.pixel })
        (by rw [size]; congr 1; omega)
      refine ⟨t, y, ?_, ?_, shape⟩
      · rw [Qoi.decodeLoop, bind_ok scanned]
        exact scanned'
      · rw [decodeLoop, run, Option.bind_eq_bind, Option.bind_some]
        dsimp only
        rw [stored, Option.bind_eq_bind, Option.bind_some]
        exact run'

end Step

/-! ### The whole decoder -/

/-- The big-endian number at `i`. -/
def word (p : Nat → UInt8) (i : Nat) : UInt32 :=
  ((p i).toUInt32 <<< 24) ||| ((p (i + 1)).toUInt32 <<< 16) ||| ((p (i + 2)).toUInt32 <<< 8) |||
    (p (i + 3)).toUInt32

/-- The file is too short, has another magic or a bad size, or there is no memory for it. -/
def Rejected (heap : Heap) (p : Nat → UInt8) (len : Int) : Prop :=
  len < 22 ∨ (p 0 ≠ 0x71 ∨ p 1 ≠ 0x6F ∨ p 2 ≠ 0x69 ∨ p 3 ≠ 0x66) ∨
    (word p 4 = 0 ∨ word p 8 = 0 ∨ word p 4 > 20000 ∨ word p 8 > 20000) ∨
    surfaceAlloc heap (word p 4).toNat (word p 8).toNat = none

section Header

variable {p : Nat → UInt8} {len : Int} {i : Nat}

theorem get32_eq (inside : i + 3 < len.toNat) : get32 p len i = some (word p i) := by
  have inside₁ : i + 1 < len.toNat := by omega
  have inside₂ : i + 2 < len.toNat := by omega
  have second : byte p len (i + 1) = some (p (i + 1)) := byte_inside inside₁
  have third : byte p len (i + 2) = some (p (i + 2)) := byte_inside inside₂
  have fourth : byte p len (i + 3) = some (p (i + 3)) := byte_inside inside
  rw [get32, byte_inside (by omega), second, third, fourth]
  rfl

theorem get32_file (inside : i + 3 < len.toNat) (x : Cursor) :
    Qoi.get32 i (file p len) x = .ok (word p i) x := by
  unfold Qoi.get32
  rw [bind_ok (run_deref x (file_get (by omega))), bind_ok (run_deref x (file_get (by omega))),
    bind_ok (run_deref x (file_get (by omega))), bind_ok (run_deref x (file_get inside))]
  rfl

end Header

/-- No access is outside. The decoder gives up and leaves `out` alone exactly if the file is
rejected, else it is the one over the bytes of the file. -/
theorem qoiDecode_cases (heap : Heap) (p : Nat → UInt8) (len : Int) (out : Surface) :
    Rejected heap p len ∧ qoiDecode heap (some p) len out = some (-1, out) ∧
        Qoi.qoiDecode heap (file p len) ⟨0, 0, 0⟩ = .null ∨
      ¬Rejected heap p len ∧ ∃ t y, qoiDecode heap (some p) len out = some (0, t) ∧
        Qoi.qoiDecode heap (file p len) ⟨0, 0, 0⟩ = .ok t y ∧ t.w = (word p 4).toNat ∧
        t.h = (word p 8).toNat := by
  unfold qoiDecode Qoi.qoiDecode Rejected
  dsimp only
  rw [bind_ok (run_limit _ _), file_length]
  -- the reasons to give up, in the order of the code
  by_cases short : len < 22
  · left
    refine ⟨.inl short, if_pos (by omega), ?_⟩
    rw [if_pos (by omega)]
    rfl
  have long : 22 ≤ len.toNat := by omega
  have b0 : byte p len 0 = some (p 0) := byte_inside (show 0 < len.toNat by omega)
  have b1 : byte p len 1 = some (p 1) := byte_inside (show 1 < len.toNat by omega)
  have b2 : byte p len 2 = some (p 2) := byte_inside (show 2 < len.toNat by omega)
  have b3 : byte p len 3 = some (p 3) := byte_inside (show 3 < len.toNat by omega)
  rw [if_neg (by omega), b0, b1, b2, b3, if_neg (by omega),
    bind_ok (run_deref _ (file_get (i := 0) (by omega))),
    bind_ok (run_deref _ (file_get (i := 1) (by omega))),
    bind_ok (run_deref _ (file_get (i := 2) (by omega))),
    bind_ok (run_deref _ (file_get (i := 3) (by omega)))]
  simp only [Option.bind_eq_bind, Option.bind_some]
  by_cases magic : p 0 ≠ 0x71 ∨ p 1 ≠ 0x6F ∨ p 2 ≠ 0x69 ∨ p 3 ≠ 0x66
  · left
    refine ⟨.inr (.inl magic), if_pos magic, ?_⟩
    rw [if_pos magic]
    rfl
  have w : get32 p len 4 = some (word p 4) := get32_eq (show 4 + 3 < len.toNat by omega)
  have h : get32 p len 8 = some (word p 8) := get32_eq (show 8 + 3 < len.toNat by omega)
  rw [if_neg magic, if_neg magic, w, h, bind_ok (get32_file (by omega) _),
    bind_ok (get32_file (by omega) _)]
  simp only [Option.bind_some]
  by_cases dims : word p 4 = 0 ∨ word p 8 = 0 ∨ word p 4 > 20000 ∨ word p 8 > 20000
  · left
    refine ⟨.inr (.inr (.inl dims)), if_pos dims, ?_⟩
    rw [if_pos dims]
    rfl
  rw [if_neg dims, if_neg dims]
  cases alloc : surfaceAlloc heap (word p 4).toNat (word p 8).toNat with
  | none => exact .inl ⟨.inr (.inr (.inr rfl)), rfl, rfl⟩
  | some s =>
    right
    obtain ⟨⟨-, -, small⟩, rfl⟩ := surfaceAlloc_size alloc
    -- the limit of `surface_alloc` bounds the bytes that the loop can read
    have few : 0 + (word p 4).toNat * (word p 8).toNat ≤ 2 ^ 28 := by
      rw [Nat.zero_add]
      exact_mod_cast small
    have start : Tracks ⟨List.replicate 64 .zero, .black, 14, 0⟩ ⟨fun _ => .zero, .black, 0⟩
        ⟨14, 0, 0⟩ := ⟨rfl, rfl, rfl, List.length_replicate,
          fun k => by rw [List.getElem?_replicate, if_pos k.isLt]⟩
    have inside : (⟨14, 0, 0⟩ : Cursor).pos ≤ len.toNat := by dsimp only; omega
    obtain ⟨t, y, scanned, run, shape⟩ := decodeLoop_agrees (p := p) _ 0 start inside (by decide) few
      (s := ⟨fun _ => 0, (word p 4).toNat, (word p 8).toNat, (word p 4).toNat⟩) (by simp)
    refine ⟨?_, t, y, ?_, ?_, congrArg Prod.fst shape, congrArg (·.2.1) shape⟩
    · rintro (h | h | h | h)
      · exact short h
      · exact magic h
      · exact dims h
      · cases h
    · dsimp only
      rw [show (0 : Int) = ((0 : Nat) : Int) from rfl, run]
      rfl
    · dsimp only
      rw [bind_ok (run_seek (Nat.zero_le _) (by rw [file_length]; omega))]
      exact scanned

end Mem

open Mem in
/-- For every file the decoder returns 0 or -1 with no access outside of the file, the slots
and the pixels. It returns -1 exactly if the file is rejected, and then leaves `out` alone. -/
theorem qoiDecode_safe (heap : Heap) (p : Nat → UInt8) (len : Int) (out : Surface) :
    ∃ r out', Mem.qoiDecode heap (some p) len out = some (r, out') ∧ (r = 0 ∨ r = -1) ∧
      (r = -1 ↔ Rejected heap p len) ∧ (r = -1 → out' = out) := by
  rcases qoiDecode_cases heap p len out with ⟨rejected, run, -⟩ | ⟨accepted, t, y, run, -⟩
  · exact ⟨-1, out, run, .inr rfl, iff_of_true rfl rejected, fun _ => rfl⟩
  · exact ⟨0, t, run, .inl rfl, iff_of_false (by decide) accepted, fun h => absurd h (by decide)⟩

end InstagramNt40.Qoi
