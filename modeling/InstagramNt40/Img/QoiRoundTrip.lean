import InstagramNt40.Img.Qoi

/-!
# QOI is lossless

What `qoi_encode` writes `qoi_decode` reads back. The two keep different copies of
the index: the decoder also stores the pixel of a run, so its slot of the initial
black pixel may be filled where the encoder's is not.
-/
namespace InstagramNt40.Qoi

open Scanner Crt Loop Raster

/-! ### Bytes -/

theorem exists_fin {n : Nat} {v : UInt8} (below : v.toNat < n) : ∃ k : Fin n, v = UInt8.ofNat k :=
  ⟨⟨v.toNat, below⟩, by simp⟩

/-- A difference that a chunk can hold, shifted by `c`, fits the bits it has there: two
for `QOI_OP_DIFF`, six and four for `QOI_OP_LUMA`. -/
theorem shifted_lt {v : UInt8} {lo c : Int8} {n : Nat}
    (field : (lo, c, n) ∈ [((-3 : Int8), (2 : Int8), 4), (-33, 32, 64), (-9, 8, 16)])
    (low : v.toInt8 > lo) (high : v.toInt8 < c) : (v.toInt8 + c).toUInt8.toNat < n := by
  -- one check of all bytes for each kind of field
  have all : ∀ f ∈ [((-3 : Int8), (2 : Int8), 4), (-33, 32, 64), (-9, 8, 16)], ∀ k : Fin 256,
      (UInt8.ofNat k).toInt8 > f.1 → (UInt8.ofNat k).toInt8 < f.2.1 →
        ((UInt8.ofNat k).toInt8 + f.2.1).toUInt8.toNat < f.2.2 := by decide +kernel
  obtain ⟨k, rfl⟩ := exists_fin v.toNat_lt
  exact all _ field k low high

theorem diff_fields (x y z : Fin 4) :
    let op := qoiOpDiff ||| (UInt8.ofNat x <<< 4) ||| (UInt8.ofNat y <<< 2) ||| UInt8.ofNat z
    op ≠ qoiOpRgb ∧ op ≠ qoiOpRgba ∧ op &&& qoiMask2 = qoiOpDiff ∧
      (op >>> 4) &&& 3 = UInt8.ofNat x ∧ (op >>> 2) &&& 3 = UInt8.ofNat y ∧
      op &&& 3 = UInt8.ofNat z := by
  revert x y z
  decide +kernel

theorem luma_fields (x : Fin 64) :
    let op := qoiOpLuma ||| UInt8.ofNat x
    op ≠ qoiOpRgb ∧ op ≠ qoiOpRgba ∧ op &&& qoiMask2 = qoiOpLuma ∧
      op &&& 63 = UInt8.ofNat x := by
  revert x
  decide

theorem lumaRest_fields (x y : Fin 16) :
    let b2 := (UInt8.ofNat x <<< 4) ||| UInt8.ofNat y
    (b2 >>> 4) &&& 15 = UInt8.ofNat x ∧ b2 &&& 15 = UInt8.ofNat y := by
  revert x y
  decide +kernel

theorem index_fields (k : Fin 64) :
    UInt8.ofNat k ≠ qoiOpRgb ∧ UInt8.ofNat k ≠ qoiOpRgba ∧ UInt8.ofNat k &&& qoiMask2 = 0 ∧
      Fin.ofNat 64 (UInt8.ofNat k &&& 63).toNat = k := by
  revert k
  decide

theorem run_fields (n : Fin 62) :
    let op := qoiOpRun ||| UInt8.ofNat n
    op ≠ qoiOpRgb ∧ op ≠ qoiOpRgba ∧ op &&& qoiMask2 = qoiOpRun ∧ (op &&& 63).toNat = n := by
  revert n
  decide

/-! ### Reading chunks -/

theorem run_nextByte {text r : List UInt8} {x : Cursor} {b : UInt8} (left : rest text x = b :: r) :
    nextByte text x = .ok b (x.forward 1) := by
  unfold nextByte
  have here : text[x.pos]? = some b := (rest_cons left).1
  rw [bind_ok (run_cursor text x), bind_ok (run_deref x here),
    bind_ok (run_advance_one left)]
  rfl

/-- The bytes asked for are there. -/
theorem run_short {text s post : List UInt8} {x : Cursor} (left : rest text x = s ++ post)
    (some : s ≠ []) : short s.length text x = .ok false x := by
  have positive := List.length_pos_iff.mpr some
  have size := congrArg List.length left
  rw [rest_length, List.length_append] at size
  unfold short
  rw [bind_ok (run_cursor text x), bind_ok (run_limit text x), run_pure]
  congr 1
  rw [decide_eq_false_iff_not]
  omega

theorem shifted_toUInt8 (v : UInt8) (c : Int8) : (v.toInt8 + c).toUInt8 = v + c.toUInt8 := by simp

/-- A channel is restored from its difference, as a chunk shifts it. -/
theorem add_shifted (p v : UInt8) (c : Int8) :
    p + (((v - p).toInt8 + c).toUInt8 - c.toUInt8) = v := by
  rw [shifted_toUInt8]
  grind

theorem add_diff (p v : UInt8) : p + (((v - p).toInt8 + 2).toUInt8 - 2) = v := add_shifted p v 2

theorem add_luma (p v : UInt8) : p + (((v - p).toInt8 + 32).toUInt8 - 32) = v :=
  add_shifted p v 32

/-- A channel is restored from the green difference and its difference to that one. -/
theorem add_lumaRest (p v g : UInt8) :
    p + ((g.toInt8 + 32).toUInt8 - 32 + ((v - p).toInt8 - g.toInt8 + 8).toUInt8 - 8) = v := by
  have green : (32 : Int8).toUInt8 = 32 := rfl
  have shift : (8 : Int8).toUInt8 = 8 := rfl
  rw [← UInt8.toInt8_sub, shifted_toUInt8, shifted_toUInt8, green, shift]
  grind

variable {text post : List UInt8} {x : Cursor}

/-- A difference chunk restores the three colours. -/
theorem readChunk_diff (d : Decoder) (r g b : UInt8)
    (range : (r - d.px.r).toInt8 > -3 ∧ (r - d.px.r).toInt8 < 2 ∧ (g - d.px.g).toInt8 > -3 ∧
      (g - d.px.g).toInt8 < 2 ∧ (b - d.px.b).toInt8 > -3 ∧ (b - d.px.b).toInt8 < 2) :
    readChunk d (qoiOpDiff ||| (((r - d.px.r).toInt8 + 2).toUInt8 <<< 4) |||
        (((g - d.px.g).toInt8 + 2).toUInt8 <<< 2) ||| ((b - d.px.b).toInt8 + 2).toUInt8) text x =
      .ok (some (⟨r, g, b, d.px.a⟩, 0)) x := by
  obtain ⟨vr, vr', vg, vg', vb, vb'⟩ := range
  obtain ⟨i, hi⟩ := exists_fin (shifted_lt (n := 4) (by simp) vr vr')
  obtain ⟨j, hj⟩ := exists_fin (shifted_lt (n := 4) (by simp) vg vg')
  obtain ⟨k, hk⟩ := exists_fin (shifted_lt (n := 4) (by simp) vb vb')
  obtain ⟨notRgb, notRgba, mask, red, green, blue⟩ := diff_fields i j k
  rw [hi, hj, hk]
  unfold readChunk
  rw [if_neg notRgb, if_neg notRgba, mask, if_neg (by decide), if_pos rfl, red, green, blue, ← hi,
    ← hj, ← hk, add_diff, add_diff, add_diff]
  rfl

/-- So does a luma chunk, red and blue from their differences to the green difference. -/
theorem readChunk_luma (d : Decoder) (r g b : UInt8)
    (range : (r - d.px.r).toInt8 - (g - d.px.g).toInt8 > -9 ∧
      (r - d.px.r).toInt8 - (g - d.px.g).toInt8 < 8 ∧ (g - d.px.g).toInt8 > -33 ∧
      (g - d.px.g).toInt8 < 32 ∧ (b - d.px.b).toInt8 - (g - d.px.g).toInt8 > -9 ∧
      (b - d.px.b).toInt8 - (g - d.px.g).toInt8 < 8)
    (left : rest text x =
      ((((r - d.px.r).toInt8 - (g - d.px.g).toInt8 + 8).toUInt8 <<< 4) |||
        ((b - d.px.b).toInt8 - (g - d.px.g).toInt8 + 8).toUInt8) :: post) :
    readChunk d (qoiOpLuma ||| ((g - d.px.g).toInt8 + 32).toUInt8) text x =
      .ok (some (⟨r, g, b, d.px.a⟩, 0)) (x.forward 1) := by
  obtain ⟨vgr, vgr', vg, vg', vgb, vgb'⟩ := range
  -- a difference of differences wraps like the difference of the bytes
  rw [← UInt8.toInt8_sub] at vgr vgr' vgb vgb'
  obtain ⟨i, hi⟩ := exists_fin (shifted_lt (n := 64) (by simp) vg vg')
  obtain ⟨j, hj⟩ := exists_fin (shifted_lt (n := 16) (by simp) vgr vgr')
  obtain ⟨k, hk⟩ := exists_fin (shifted_lt (n := 16) (by simp) vgb vgb')
  rw [UInt8.toInt8_sub] at hj hk
  obtain ⟨notRgb, notRgba, mask, green⟩ := luma_fields i
  obtain ⟨red, blue⟩ := lumaRest_fields j k
  rw [hj, hk] at left
  rw [hi]
  have there : short 1 text x = .ok false x := run_short left (List.cons_ne_nil _ [])
  unfold readChunk
  rw [if_neg notRgb, if_neg notRgba, mask, if_neg (by decide), if_neg (by decide), if_pos rfl,
    bind_ok there, if_neg (by decide), bind_ok (run_nextByte left)]
  rw [green, red, blue, ← hi, ← hj, ← hk, add_luma, add_lumaRest, add_lumaRest]
  rfl

theorem readChunk_rgb (d : Decoder) {r g b : UInt8} (left : rest text x = r :: g :: b :: post) :
    readChunk d qoiOpRgb text x = .ok (some (⟨r, g, b, d.px.a⟩, 0)) (x.forward 3) := by
  have there : short 3 text x = .ok false x :=
    @run_short text [r, g, b] post x left (List.cons_ne_nil _ _)
  unfold readChunk
  rw [if_pos rfl, bind_ok there, if_neg (by decide), bind_ok (run_nextByte left),
    bind_ok (run_nextByte (rest_forward_one left)),
    bind_ok (run_nextByte (rest_forward_one (rest_forward_one left)))]
  rfl

theorem readChunk_rgba (d : Decoder) {px : Rgba}
    (left : rest text x = px.r :: px.g :: px.b :: px.a :: post) :
    readChunk d qoiOpRgba text x = .ok (some (px, 0)) (x.forward 4) := by
  have there : short 4 text x = .ok false x :=
    @run_short text [px.r, px.g, px.b, px.a] post x left (List.cons_ne_nil _ _)
  unfold readChunk
  rw [if_neg (by decide), if_pos rfl, bind_ok there, if_neg (by decide),
    bind_ok (run_nextByte left), bind_ok (run_nextByte (rest_forward_one left)),
    bind_ok (run_nextByte (rest_forward_one (rest_forward_one left))),
    bind_ok (run_nextByte (rest_forward_one (rest_forward_one (rest_forward_one left))))]
  rfl

/-- A literal chunk gives its pixel. -/
theorem readChunk_literal {d : Decoder} {px : Rgba} {op : UInt8} {more : List UInt8}
    (chunk : literalChunk d.px px = op :: more) (left : rest text x = more ++ post) :
    readChunk d op text x = .ok (some (px, 0)) (x.forward more.length) := by
  unfold literalChunk at chunk
  -- the cases are the branches of the encoder, in its order
  split at chunk
  next sameAlpha =>
    have same : px = ⟨px.r, px.g, px.b, d.px.a⟩ := by rw [← sameAlpha]
    dsimp only at chunk
    rw [same]
    split at chunk
    next range =>
      cases chunk
      exact readChunk_diff d px.r px.g px.b range
    next =>
      split at chunk
      next range =>
        cases chunk
        exact readChunk_luma d px.r px.g px.b range left
      next =>
        cases chunk
        exact readChunk_rgb d left
  next =>
    cases chunk
    exact readChunk_rgba d left

/-- An index chunk gives the pixel in its slot. -/
theorem readChunk_index (d : Decoder) (k : Fin 64) :
    readChunk d (UInt8.ofNat k) text x = .ok (some (d.index k, 0)) x := by
  obtain ⟨notRgb, notRgba, mask, slot⟩ := index_fields k
  unfold readChunk
  rw [if_neg notRgb, if_neg notRgba, if_pos mask, slot, run_pure]

/-- A run chunk repeats the pixel. -/
theorem readChunk_run (d : Decoder) {n : Nat} (short : n < 62) :
    readChunk d (qoiOpRun ||| UInt8.ofNat n) text x = .ok (some (d.px, n)) x := by
  obtain ⟨notRgb, notRgba, mask, length⟩ := run_fields ⟨n, short⟩
  unfold readChunk
  rw [if_neg notRgb, if_neg notRgba, mask, if_neg (by decide), if_neg (by decide),
    if_neg (by decide), length, run_pure]

/-- A pixel that starts a chunk. -/
theorem decodePixel_chunk {d : Decoder} (idle : d.run = 0) {op : UInt8} {r : List UInt8}
    (left : rest text x = op :: r) {px : Rgba} {run : Nat} {y : Cursor}
    (read : readChunk d op text (x.forward 1) = .ok (some (px, run)) y) :
    decodePixel d text x = .ok (some ⟨d.index.store px, px, run⟩) y := by
  have notRunning : ¬d.run > 0 := by omega
  unfold decodePixel
  rw [if_neg notRunning, bind_ok (run_peek_cons left)]
  dsimp only
  rw [bind_ok (run_nextByte left), bind_ok read]
  rfl

/-! ### The pixels of a surface -/

/-- The surface after writing pixels from offset `i` on. -/
def writePixels (i : Nat) : List Rgba → Surface → Surface
  | [], s => s
  | c :: cs, s => writePixels (i + 1) cs { s with pixels := Function.update s.pixels i c.pixel }

theorem writePixels_append (i : Nat) (cs ds : List Rgba) (s : Surface) :
    writePixels i (cs ++ ds) s = writePixels (i + cs.length) ds (writePixels i cs s) := by
  induction cs generalizing i s with
  | nil => rfl
  | cons c cs ih =>
    simp only [List.cons_append, writePixels, ih, List.length_cons]
    congr 1
    omega

theorem writePixels_shape (i : Nat) (cs : List Rgba) (s : Surface) :
    (writePixels i cs s).shape = s.shape := by
  induction cs generalizing i s with
  | nil => rfl
  | cons c cs ih => exact ih (i + 1) _

theorem writePixels_before {i j : Nat} (cs : List Rgba) (s : Surface) (before : j < i) :
    (writePixels i cs s).pixels j = s.pixels j := by
  induction cs generalizing i s with
  | nil => rfl
  | cons c cs ih =>
    rw [writePixels, ih _ (by omega)]
    exact Function.update_of_ne (by omega) _ _

theorem writePixels_get {i j : Nat} {cs : List Rgba} {c : Rgba} (s : Surface)
    (there : cs[j]? = some c) : (writePixels i cs s).pixels (i + j) = c.pixel := by
  induction cs generalizing i j s with
  | nil => cases there
  | cons d cs ih =>
    cases j with
    | zero =>
      cases there
      rw [writePixels, writePixels_before _ _ (by omega)]
      exact Function.update_self i _ _
    | succ j =>
      have next := ih (i := i + 1) { s with pixels := Function.update s.pixels i d.pixel } there
      rwa [Nat.add_assoc, Nat.add_comm 1] at next

/-- While a run goes on its pixel is written. -/
theorem decodeLoop_running (n i : Nat) (d : Decoder) (s : Surface) :
    decodeLoop (d.run + n) i d s text x =
      decodeLoop n (i + d.run) { d with run := 0 } (writePixels i (List.replicate d.run d.px) s)
        text x := by
  obtain ⟨index, px, run⟩ := d
  dsimp only
  induction run generalizing i s with
  | zero => simp [writePixels]
  | succ run ih =>
    have next : decodePixel ⟨index, px, run + 1⟩ text x = .ok (some ⟨index, px, run⟩) x := by
      rw [decodePixel, if_pos (Nat.succ_pos run), run_pure]
      rfl
    rw [Nat.succ_add, decodeLoop, bind_ok next]
    dsimp only
    rw [ih, Nat.add_assoc, Nat.add_comm 1]
    rfl

/-- A run chunk of `k + 1` pixels. -/
theorem decodeLoop_run {d : Decoder} (idle : d.run = 0) {k : Nat} (short : k < 62) {r : List UInt8}
    (left : rest text x = (qoiOpRun ||| UInt8.ofNat k) :: r) (n i : Nat) (s : Surface) :
    decodeLoop (k + 1 + n) i d s text x =
      decodeLoop n (i + (k + 1)) { d with index := d.index.store d.px }
        (writePixels i (List.replicate (k + 1) d.px) s) text (x.forward 1) := by
  have first := decodePixel_chunk idle left (readChunk_run d short)
  have count : k + 1 + n = k + n + 1 := by omega
  rw [count, decodeLoop, bind_ok first]
  dsimp only
  rw [decodeLoop_running n (i + 1) ⟨d.index.store d.px, d.px, k⟩, ← idle, Nat.add_assoc,
    Nat.add_comm 1]
  rfl

/-- A chunk of one pixel. -/
theorem decodeLoop_chunk {d : Decoder} (idle : d.run = 0) {op : UInt8} {r : List UInt8}
    (left : rest text x = op :: r) {px : Rgba} {y : Cursor}
    (read : readChunk d op text (x.forward 1) = .ok (some (px, 0)) y) (n i : Nat) (s : Surface) :
    decodeLoop (n + 1) i d s text x =
      decodeLoop n (i + 1) ⟨d.index.store px, px, 0⟩ (writePixels i [px] s) text y := by
  rw [decodeLoop, bind_ok (decodePixel_chunk idle left read)]
  rfl

/-! ### The encoder and the decoder in step -/

/-- The decoder follows the encoder, with the run of the encoder still to come. A slot
differs only where the encoder has not stored the initial black pixel. -/
structure Follows (e : Encoder) (d : Decoder) : Prop where
  px : d.px = e.prev
  idle : d.run = 0
  index : ∀ k, e.index k = d.index k ∨ k = qoiHash .black ∧ e.index k = .zero
  seen : e.index (qoiHash e.prev) = e.prev ∨
    e.prev = .black ∧ e.index (qoiHash .black) = .zero

theorem hash_zero : qoiHash .zero ≠ qoiHash .black := by decide

/-- A pixel that the encoder finds in its index the decoder finds there too. -/
theorem Follows.found {e : Encoder} {d : Decoder} (h : Follows e d) {px : Rgba}
    (stored : e.index (qoiHash px) = px) : d.index (qoiHash px) = px := by
  rcases h.index (qoiHash px) with same | ⟨slot, empty⟩
  · rw [← same, stored]
  · -- the empty slot of black holds no pixel of its own hash
    rw [stored] at empty
    rw [empty] at slot
    exact absurd slot hash_zero

/-- After its run chunk the decoder has stored the pixel of the run. -/
theorem Follows.afterRun {e : Encoder} {d : Decoder} (h : Follows e d) (out : List UInt8) :
    Follows { e with out := out, run := 0 } { d with index := d.index.store d.px } where
  px := h.px
  idle := h.idle
  seen := h.seen
  index k := by
    dsimp only
    rw [h.px]
    by_cases here : k = qoiHash e.prev
    · subst here
      -- the slot of the run: filled on both sides, or black only in the decoder
      rw [Index.store_self]
      rcases h.seen with stored | ⟨black, empty⟩
      · exact .inl stored
      · rw [black]
        exact .inr ⟨rfl, empty⟩
    · rw [Index.store_of_ne here]
      exact h.index k

/-- After a chunk of one pixel both have it in its slot. -/
theorem Follows.afterPixel {e : Encoder} {d : Decoder} (h : Follows e d) (out : List UInt8)
    {px : Rgba} {index : Index} (stored : index = e.index.store px) :
    Follows { e with out := out, index := index, prev := px, run := 0 }
      ⟨d.index.store px, px, 0⟩ where
  px := rfl
  idle := rfl
  seen := by
    left
    rw [stored]
    exact Index.store_self _ _
  index k := by
    dsimp only
    rw [stored]
    by_cases here : k = qoiHash px
    · subst here
      left
      rw [Index.store_self, Index.store_self]
    · rw [Index.store_of_ne here, Index.store_of_ne here]
      exact h.index k

/-- The chunk for a run that ends before a new pixel. -/
def runChunk (e : Encoder) : List UInt8 :=
  if e.run > 0 then [qoiOpRun ||| UInt8.ofNat (e.run - 1)] else []

/-- The chunk for a new pixel. -/
def pixelChunk (e : Encoder) (px : Rgba) : List UInt8 :=
  if e.index (qoiHash px) = px then [UInt8.ofNat (qoiHash px)] else literalChunk e.prev px

/-- A pixel that repeats the last one, with the run going on. -/
theorem encodePixel_goesOn {last : Bool} {px : Rgba} {e : Encoder} (same : px = e.prev)
    (more : ¬(e.run + 1 = 62 ∨ last)) : encodePixel last px e = { e with run := e.run + 1 } := by
  rw [encodePixel, if_pos same]
  exact if_neg more

/-- A pixel that repeats the last one and ends the run. -/
theorem encodePixel_ends {last : Bool} {px : Rgba} {e : Encoder} (same : px = e.prev)
    (full : e.run + 1 = 62 ∨ last) :
    encodePixel last px e =
      { e with out := e.out ++ [qoiOpRun ||| UInt8.ofNat e.run], run := 0 } := by
  rw [encodePixel, if_pos same]
  exact if_pos full

theorem store_eq_self {index : Index} {px : Rgba} (stored : index (qoiHash px) = px) :
    index.store px = index :=
  Function.update_eq_self_iff.mpr stored.symm

theorem endRun_pending (e : Encoder) :
    (if e.run > 0 then e.endRun else e) = { e with out := e.out ++ runChunk e, run := 0 } := by
  unfold runChunk
  by_cases pending : e.run > 0
  · rw [if_pos pending, if_pos pending]
    rfl
  · have none : e.run = 0 := by omega
    rw [if_neg pending, if_neg pending, List.append_nil, ← none]

/-- A pixel that differs from the last one. -/
theorem encodePixel_new {last : Bool} {px : Rgba} {e : Encoder} (differs : px ≠ e.prev) :
    encodePixel last px e =
      { out := e.out ++ (runChunk e ++ pixelChunk e px), index := e.index.store px, prev := px,
        run := 0 } := by
  simp only [encodePixel, if_neg differs, endRun_pending]
  unfold pixelChunk
  by_cases stored : e.index (qoiHash px) = px
  · simp only [if_pos stored, store_eq_self stored, Encoder.put, List.append_assoc]
  · simp only [if_neg stored, Encoder.put, List.append_assoc]

/-- The bytes that the body of the loops appends. -/
def stepBytes (last : Bool) (px : Rgba) (e : Encoder) : List UInt8 :=
  if px = e.prev then
    if e.run + 1 = 62 ∨ last then [qoiOpRun ||| UInt8.ofNat e.run] else []
  else runChunk e ++ pixelChunk e px

theorem encodePixel_out (last : Bool) (px : Rgba) (e : Encoder) :
    (encodePixel last px e).out = e.out ++ stepBytes last px e := by
  unfold stepBytes
  by_cases same : px = e.prev
  · rw [if_pos same]
    by_cases full : e.run + 1 = 62 ∨ last
    · rw [if_pos full, encodePixel_ends same full]
    · rw [if_neg full, encodePixel_goesOn same full, List.append_nil]
  · rw [if_neg same, encodePixel_new same]

/-- The encoder after some more pixels, each with whether it is the last one. -/
def encodeItems (e : Encoder) (items : List (Bool × Rgba)) : Encoder :=
  items.foldl (fun e item => encodePixel item.1 item.2 e) e

/-- The bytes it appends for them. -/
def itemsBytes : Encoder → List (Bool × Rgba) → List UInt8
  | _, [] => []
  | e, item :: items =>
    stepBytes item.1 item.2 e ++ itemsBytes (encodePixel item.1 item.2 e) items

theorem encodeItems_out (e : Encoder) (items : List (Bool × Rgba)) :
    (encodeItems e items).out = e.out ++ itemsBytes e items := by
  induction items generalizing e with
  | nil => simp [encodeItems, itemsBytes]
  | cons item items ih =>
    have next := ih (encodePixel item.1 item.2 e)
    rw [encodePixel_out, List.append_assoc] at next
    exact next

/-- Only the last item is marked as the last. -/
def LastMarked : List (Bool × Rgba) → Prop
  | [] => True
  | [item] => item.1 = true
  | item :: items => item.1 = false ∧ LastMarked items

/-- The chunk of a new pixel is read back. -/
theorem Follows.read {e : Encoder} {d : Decoder} (h : Follows e d) (px : Rgba) :
    ∃ op more, pixelChunk e px = op :: more ∧ ∀ text x post, rest text x = more ++ post →
      readChunk d op text x = .ok (some (px, 0)) (x.forward more.length) := by
  unfold pixelChunk
  by_cases stored : e.index (qoiHash px) = px
  · rw [if_pos stored]
    refine ⟨_, _, rfl, fun text x post _ => ?_⟩
    rw [readChunk_index, h.found stored]
    rfl
  · rw [if_neg stored]
    obtain ⟨op, more, chunk⟩ : ∃ op more, literalChunk e.prev px = op :: more := by
      unfold literalChunk
      dsimp only
      split_ifs <;> exact ⟨_, _, rfl⟩
    refine ⟨op, more, chunk, fun text x post left => ?_⟩
    rw [← h.px] at chunk
    exact readChunk_literal chunk left

/-- The decoder reads the pending run of the encoder, if there is one. -/
theorem decodeLoop_pending {e : Encoder} {d : Decoder} (follows : Follows e d)
    (bounded : e.run < 62) {text r : List UInt8} {x : Cursor}
    (left : rest text x = runChunk e ++ r) (n i : Nat) (s : Surface) :
    ∃ d' y, decodeLoop (e.run + n) i d s text x =
        decodeLoop n (i + e.run) d' (writePixels i (List.replicate e.run e.prev) s) text y ∧
      Follows { e with run := 0 } d' ∧ rest text y = r := by
  unfold runChunk at left
  by_cases pending : e.run > 0
  · rw [if_pos pending] at left
    have count : e.run - 1 + 1 = e.run := by omega
    have run := decodeLoop_run follows.idle (by omega) left n i s
    rw [count, follows.px] at run
    have after := follows.afterRun e.out
    rw [follows.px] at after
    exact ⟨_, _, run, after, rest_forward_one left⟩
  · have idle : e.run = 0 := by omega
    rw [if_neg pending] at left
    refine ⟨d, x, ?_, ⟨follows.px, follows.idle, follows.index, follows.seen⟩, left⟩
    rw [idle, Nat.zero_add]
    rfl

/-- From states in step the decoder reads the pending run of the encoder and then the
items, whatever comes after their bytes. -/
theorem decodeLoop_items (items : List (Bool × Rgba)) (marked : LastMarked items) (e : Encoder)
    (d : Decoder) (follows : Follows e d) (bounded : e.run < 62)
    (pending : e.run = 0 ∨ items ≠ []) (i : Nat) (s : Surface) (x : Cursor) (post : List UInt8)
    (left : rest text x = itemsBytes e items ++ post) :
    ∃ y, decodeLoop (e.run + items.length) i d s text x =
      .ok (writePixels i (List.replicate e.run e.prev ++ items.map Prod.snd) s) y := by
  induction items generalizing e d i s x with
  | nil =>
    have idle : e.run = 0 := by simpa using pending
    rw [idle]
    exact ⟨x, rfl⟩
  | cons item items ih =>
    obtain ⟨last, px⟩ := item
    have marked' : LastMarked items := by
      cases items with
      | nil => trivial
      | cons => exact marked.2
    rw [itemsBytes, List.append_assoc] at left
    unfold stepBytes at left
    dsimp only at left
    by_cases same : px = e.prev
    · rw [if_pos same] at left
      have joined : List.replicate e.run e.prev ++ ((last, px) :: items).map Prod.snd =
          List.replicate (e.run + 1) e.prev ++ items.map Prod.snd := by
        rw [List.map_cons, List.replicate_succ', same, List.append_assoc]
        rfl
      rw [joined]
      by_cases full : e.run + 1 = 62 ∨ last
      · -- the run ends here and its chunk is written
        rw [if_pos full, encodePixel_ends same full] at left
        obtain ⟨y, done⟩ := ih marked' _ _ (follows.afterRun _) (Nat.zero_lt_succ _) (.inl rfl)
          (i + (e.run + 1)) (writePixels i (List.replicate (e.run + 1) e.prev) s) (x.forward 1)
          (rest_forward_one left)
        refine ⟨y, ?_⟩
        rw [List.length_cons, Nat.add_comm items.length, ← Nat.add_assoc,
          decodeLoop_run follows.idle (by omega) left, follows.px, writePixels_append,
          List.length_replicate]
        rw [follows.px] at done
        simpa using done
      · -- the run goes on, so another pixel follows
        rw [if_neg full, encodePixel_goesOn same full] at left
        have more : items ≠ [] := by
          rintro rfl
          exact full (.inr marked)
        obtain ⟨y, done⟩ := ih marked' { e with run := e.run + 1 } d
          ⟨follows.px, follows.idle, follows.index, follows.seen⟩ (by dsimp only; omega)
          (.inr more) i s x left
        refine ⟨y, ?_⟩
        rw [List.length_cons, Nat.add_comm items.length, ← Nat.add_assoc]
        exact done
    · -- the pending run is written before the chunk of the new pixel
      rw [if_neg same, encodePixel_new same, List.append_assoc] at left
      obtain ⟨d', x', run, follows', left'⟩ :=
        decodeLoop_pending follows bounded left (((last, px) :: items).length) i s
      obtain ⟨op, more, chunk, read⟩ := follows'.read px
      have chunk' : pixelChunk e px = op :: more := chunk
      rw [chunk', List.cons_append] at left'
      have left'' := rest_forward_one left'
      obtain ⟨y, done⟩ := ih marked' _ _ (follows'.afterPixel _ rfl) (Nat.zero_lt_succ _) (.inl rfl)
        (i + e.run + 1)
        (writePixels (i + e.run) [px] (writePixels i (List.replicate e.run e.prev) s)) _
        (rest_forward left'')
      refine ⟨y, ?_⟩
      rw [run, List.length_cons,
        decodeLoop_chunk follows'.idle left' (read text _ _ left''), writePixels_append,
        List.length_replicate]
      simp only [Nat.zero_add, List.replicate_zero, List.nil_append] at done
      exact done

/-! ### Whole surfaces -/

/-- The pixels of a surface in the order of the loops. -/
def surfaceItems (s : Surface) : List (Bool × Rgba) :=
  rowMajor s.w.toNat s.h.toNat (pixelItem s)

theorem encodePixels_eq (s : Surface) (e : Encoder) :
    encodePixels s e = encodeItems e (surfaceItems s) :=
  forLoop_rows (fun e (item : Bool × Rgba) => encodePixel item.1 item.2 e) (pixelItem s) s.w.toNat
    s.h.toNat e

theorem lastMarked_append {items : List (Bool × Rgba)} (earlier : ∀ item ∈ items, item.1 = false)
    {item : Bool × Rgba} (last : item.1 = true) : LastMarked (items ++ [item]) := by
  induction items with
  | nil => exact last
  | cons first items ih =>
    have more : ∃ second rest, items ++ [item] = second :: rest :=
      List.exists_cons_of_ne_nil (by simp)
    have next := ih fun other member => earlier other (List.mem_cons_of_mem first member)
    obtain ⟨second, rest, eq⟩ := more
    rw [List.cons_append, eq]
    rw [eq] at next
    exact ⟨earlier first (by simp), next⟩

/-- The loops mark the last pixel and no other. -/
theorem surfaceItems_marked {s : Surface} (hw : 0 < s.w) (hh : 0 < s.h) :
    LastMarked (surfaceItems s) := by
  obtain ⟨w, eqW⟩ : ∃ w : Nat, s.w = (w + 1 : Nat) := ⟨(s.w - 1).toNat, by omega⟩
  obtain ⟨h, eqH⟩ : ∃ h : Nat, s.h = (h + 1 : Nat) := ⟨(s.h - 1).toNat, by omega⟩
  have sizeW : s.w.toNat = w + 1 := by omega
  have sizeH : s.h.toNat = h + 1 := by omega
  unfold surfaceItems
  rw [sizeW, sizeH, rowMajor_succ, List.range_succ, List.map_append, ← List.append_assoc]
  -- the last pixel is the last one of the last row
  apply lastMarked_append
  · intro item member
    simp only [pixelItem, rowMajor, List.mem_append, List.mem_flatMap, List.mem_map,
      List.mem_range] at member
    rcases member with ⟨y, hy, x, hx, rfl⟩ | ⟨x, hx, rfl⟩
    · rw [decide_eq_false_iff_not]
      omega
    · rw [decide_eq_false_iff_not]
      omega
  · simp only [pixelItem, decide_eq_true_eq]
    omega

theorem ofPixel_pixel (p : UInt32) : (Rgba.ofPixel p).pixel = p := rasArgb_channels p

/-- A big-endian number in the header. -/
theorem run_get32 {text : List UInt8} {i : Nat} {v : UInt32} (x : Cursor)
    (bytes : (text.drop i).take 4 = put32 v) : get32 i text x = .ok v x := by
  have there (j : Nat) (inside : j < 4) : text[i + j]? = (put32 v)[j]? := by
    rw [← bytes, List.getElem?_take, if_pos inside, List.getElem?_drop]
  unfold get32
  rw [bind_ok (run_deref x (i := i) (there 0 (by decide))),
    bind_ok (run_deref x (there 1 (by decide))), bind_ok (run_deref x (there 2 (by decide))),
    bind_ok (run_deref x (there 3 (by decide)))]
  exact congrArg (Outcome.ok · x) (rasArgb_channels v)

theorem toNat_ofInt {n : Int} (low : 0 ≤ n) (high : n < 2 ^ 32) :
    (UInt32.ofInt n).toNat = n.toNat := by
  rw [UInt32.ofInt, UInt32.toNat_ofNat']
  omega

/-- A size within the limits is allocated. -/
theorem surfaceAlloc_some {heap : Heap} {w h : Int} (hw : 1 ≤ w) (hh : 1 ≤ h)
    (small : w * h ≤ 2 ^ 28) (granted : heap.grants (w.toNat * h.toNat * 4) = true) :
    surfaceAlloc heap w h = some ⟨fun _ => 0, w, h, w⟩ := by
  have positive : ¬(w ≤ 0 ∨ h ≤ 0) := by omega
  have below : ¬w * h > 1 <<< 28 := Int.not_lt.mpr small
  rw [surfaceAlloc, if_neg positive, if_neg below, if_pos granted]

/-- The header is accepted and the pixels are decoded from byte 14 on. -/
theorem qoiDecode_header {heap : Heap} {w h : Int} (hw : 1 ≤ w) (hw' : w ≤ 20000) (hh : 1 ≤ h)
    (hh' : h ≤ 20000) (small : w * h ≤ 2 ^ 28)
    (granted : heap.grants (w.toNat * h.toNat * 4) = true) (body : List UInt8)
    (long : 8 ≤ body.length) :
    qoiDecode heap (qoiHeader w h ++ body) ⟨0, 0, 0⟩ =
      decodeLoop (w.toNat * h.toNat) 0 ⟨fun _ => .zero, .black, 0⟩ ⟨fun _ => 0, w, h, w⟩
        (qoiHeader w h ++ body) ⟨14, 0, 0⟩ := by
  have header : (qoiHeader w h).length = 14 := rfl
  have size : (qoiHeader w h ++ body).length = 14 + body.length := by
    rw [List.length_append, header]
  have sizeW := toNat_ofInt (n := w) (by omega) (by omega)
  have sizeH := toNat_ofInt (n := h) (by omega) (by omega)
  -- the limits of the header are those of the statement
  have accepted : ¬(UInt32.ofInt w = 0 ∨ UInt32.ofInt h = 0 ∨ UInt32.ofInt w > 20000 ∨
      UInt32.ofInt h > 20000) := by
    rw [← UInt32.toNat_inj, ← UInt32.toNat_inj, gt_iff_lt, gt_iff_lt, UInt32.lt_iff_toNat_lt,
      UInt32.lt_iff_toNat_lt, sizeW, sizeH]
    simp only [UInt32.reduceToNat]
    omega
  have castW : ((UInt32.ofInt w).toNat : Int) = w := by omega
  have castH : ((UInt32.ofInt h).toNat : Int) = h := by omega
  unfold qoiDecode
  rw [bind_ok (run_limit _ _), if_neg (by omega),
    bind_ok (run_deref _ (i := 0) rfl), bind_ok (run_deref _ (i := 1) rfl),
    bind_ok (run_deref _ (i := 2) rfl), bind_ok (run_deref _ (i := 3) rfl), if_neg (by decide),
    bind_ok (run_get32 (v := UInt32.ofInt w) _ rfl),
    bind_ok (run_get32 (v := UInt32.ofInt h) _ rfl), if_neg accepted, castW, castH,
    surfaceAlloc_some hw hh small granted]
  dsimp only
  rw [bind_ok (run_seek (Nat.zero_le _) (by omega)), sizeW, sizeH]

/-- The pixel at (`i`, `j`) of a surface written without gaps. -/
theorem writePixels_pixel {w h i j : Int} (hi : 0 ≤ i) (hw : 0 ≤ w) (hj : 0 ≤ j) {cs : List Rgba}
    {c : Rgba} (there : cs[j.toNat * w.toNat + i.toNat]? = some c) :
    (writePixels 0 cs ⟨fun _ => 0, w, h, w⟩).pixel i j = c.pixel := by
  have stride : (writePixels 0 cs ⟨fun _ => 0, w, h, w⟩).stride = w :=
    congrArg (·.2.2) (writePixels_shape 0 cs ⟨fun _ => 0, w, h, w⟩)
  have offset : (j * w + i).toNat = 0 + (j.toNat * w.toNat + i.toNat) := by
    obtain ⟨j, rfl⟩ := Int.eq_ofNat_of_zero_le hj
    obtain ⟨i, rfl⟩ := Int.eq_ofNat_of_zero_le hi
    obtain ⟨w, rfl⟩ := Int.eq_ofNat_of_zero_le hw
    rw [Nat.zero_add]
    norm_cast
  rw [Surface.pixel, Surface.offset, stride, offset]
  exact writePixels_get _ there

/-- What `qoi_encode` makes of a surface `qoi_decode` turns back into a surface of the
same size and pixels. -/
theorem qoiDecode_qoiEncode (heap : Heap) (s : Surface) (hw : 1 ≤ s.w) (hw' : s.w ≤ 20000)
    (hh : 1 ≤ s.h) (hh' : s.h ≤ 20000) (small : s.w * s.h ≤ 2 ^ 28)
    (buffer : heap.grants (s.w * s.h * 5 + 14 + 8).toNat = true)
    (pixels : heap.grants (s.w.toNat * s.h.toNat * 4) = true) :
    ∃ data t y, qoiEncode heap s = some data ∧ qoiDecode heap data ⟨0, 0, 0⟩ = .ok t y ∧
      t.w = s.w ∧ t.h = s.h ∧
      ∀ i j, 0 ≤ i → i < s.w → 0 ≤ j → j < s.h → t.pixel i j = s.pixel i j := by
  -- both start with an empty index and black before the first pixel
  let start : Encoder := ⟨qoiHeader s.w s.h, fun _ => .zero, .black, 0⟩
  let bytes := itemsBytes start (surfaceItems s)
  have encoded : qoiEncode heap s = some (qoiHeader s.w s.h ++ (bytes ++ qoiEnd)) := by
    have positive : ¬(s.w ≤ 0 ∨ s.h ≤ 0) := by omega
    rw [qoiEncode, if_neg positive, if_neg (by simp [buffer])]
    dsimp only
    rw [encodePixels_eq, encodeItems_out, List.append_assoc]
  have follows : Follows start ⟨fun _ => .zero, .black, 0⟩ :=
    ⟨rfl, rfl, fun _ => .inl rfl, .inr ⟨rfl, rfl⟩⟩
  have left : rest (qoiHeader s.w s.h ++ (bytes ++ qoiEnd)) ⟨14, 0, 0⟩ = bytes ++ qoiEnd :=
    @List.drop_left _ (qoiHeader s.w s.h) _
  obtain ⟨y, decoded⟩ := decodeLoop_items (surfaceItems s) (surfaceItems_marked hw hh) start _
    follows (Nat.zero_lt_succ _) (.inl rfl) 0 ⟨fun _ => 0, s.w, s.h, s.w⟩ _ _ left
  have count : start.run + (surfaceItems s).length = s.w.toNat * s.h.toNat := by
    rw [surfaceItems, rowMajor_length, Nat.mul_comm]
    exact Nat.zero_add _
  rw [count] at decoded
  have long : 8 ≤ (bytes ++ qoiEnd).length := by
    rw [List.length_append]
    exact Nat.le_add_left _ _
  have header := qoiDecode_header hw hw' hh hh' small pixels (bytes ++ qoiEnd) long
  refine ⟨_, _, y, encoded, header.trans decoded, ?_, ?_, ?_⟩
  · exact congrArg Prod.fst (writePixels_shape 0 _ _)
  · exact congrArg (·.2.1) (writePixels_shape 0 _ _)
  intro i j hi hi' hj hj'
  have item := rowMajor_getElem? (pixelItem s) (show i.toNat < s.w.toNat by omega)
    (show j.toNat < s.h.toNat by omega)
  have there : ((surfaceItems s).map Prod.snd)[j.toNat * s.w.toNat + i.toNat]? =
      some (Rgba.ofPixel (s.pixel i j)) := by
    rw [List.getElem?_map, surfaceItems, item]
    simp only [pixelItem, Option.map_some, Int.toNat_of_nonneg hi, Int.toNat_of_nonneg hj]
  rw [← ofPixel_pixel (s.pixel i j)]
  exact writePixels_pixel hi (by omega) hj there

/-- A surface of four pixels in rows of three: two of the initial black and two others. -/
theorem qoiDecode_qoiEncode_four :
    ∃ data t y,
      qoiEncode .roomy ⟨fun i => if i < 3 then 0xFF000000 else 0x80FF0201, 2, 2, 3⟩ = some data ∧
      qoiDecode .roomy data ⟨0, 0, 0⟩ = .ok t y ∧ t.w = 2 ∧ t.pixel 1 1 = 0x80FF0201 := by
  obtain ⟨data, t, y, encoded, decoded, w, -, same⟩ := qoiDecode_qoiEncode .roomy
    ⟨fun i => if i < 3 then 0xFF000000 else 0x80FF0201, 2, 2, 3⟩ (by decide) (by decide)
    (by decide) (by decide) (by decide) (by decide) (by decide)
  exact ⟨data, t, y, encoded, decoded, w,
    (same 1 1 (by decide) (by decide) (by decide) (by decide)).trans (by decide)⟩

end InstagramNt40.Qoi
