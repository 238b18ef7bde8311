import InstagramNt40.Img.QoiMemory
import InstagramNt40.Library.OwnedScanner
import InstagramNt40.Pal.Alloc

/-!
# The heap of the decoders

`surface_alloc`, `qoi_decode` and `jpeg_decode` with their allocations. The JPEG decoder
itself is a vendored library; what it makes of some data is a parameter.
-/
namespace InstagramNt40.PhotoHeap

open Ownership Alloc Crt Loop Raster Scanner

/-- A surface that owns its pixels. -/
structure Photo where
  block : Block
  surface : Surface

def surfaceAlloc (w h : Int) : Proc (Option Photo) :=
  if w ≤ 0 ∨ h ≤ 0 then pure none
  else if w * h > 1 <<< 28 then pure none
  else do
    match ← mallocSize (w.toNat * h.toNat * 4) with
    | none => pure none
    | some block => pure (some ⟨block, ⟨fun _ => 0, w, h, w⟩⟩)

/-! ### img/qoi.c -/

/-- `qoi_decode` up to the allocation: the size of the picture. -/
def qoiSize : Scan (UInt32 × UInt32) := do
  if (← limit) < 14 + 8 then fail
  else if (← deref 0) ≠ 0x71 ∨ (← deref 1) ≠ 0x6F ∨ (← deref 2) ≠ 0x69 ∨ (← deref 3) ≠ 0x66 then
    fail
  else
    let w ← Qoi.get32 4
    let h ← Qoi.get32 8
    if w = 0 ∨ h = 0 ∨ w > 20000 ∨ h > 20000 then fail
    else pure (w, h)

/-- The rest of it, over the surface `s`. -/
def qoiPixels (w h : UInt32) (s : Surface) : Scan Surface := do
  seek 14
  Qoi.decodeLoop (w.toNat * h.toNat) 0 ⟨fun _ => .zero, .black, 0⟩ s

def qoiDecodeFrom (text : List UInt8) (x : Cursor) : Proc (Option (Photo × Cursor)) := do
  match ← scan qoiSize text x with
  | none => pure none
  | some ((w, h), x) =>
    match ← surfaceAlloc w.toNat h.toNat with
    | none => pure none
    | some photo =>
      match ← scan (qoiPixels w h photo.surface) text x with
      -- once there is a surface nothing fails any more
      | none => fault
      | some (s, y) => do
        touch photo.block
        pure (some (⟨photo.block, s⟩, y))

def qoiDecode (data : Buf) : Proc (Option Photo) := do
  touch data.block
  let decoded ← qoiDecodeFrom data.bytes ⟨0, 0, 0⟩
  pure (decoded.map Prod.fst)

/-! ### img/jpeg.c -/

/-- A picture of the library: four bytes a pixel, row by row. -/
structure Decoded where
  w : Nat
  h : Nat
  bytes : List UInt8
  size : bytes.length = 4 * (w * h)

section jpeg

variable (stbi : List UInt8 → Option Decoded)

/-- `stbi_load_from_memory`, asked for four channels. -/
def stbiLoadFromMemory (data : Buf) : Proc (Option (Block × Decoded)) := do
  touch data.block
  match stbi data.bytes with
  | none => pure none
  | some img =>
    match ← malloc with
    | none => pure none
    | some pixels => pure (some (pixels, img))

/-- A round of the inner loop, over the offset of `src` and the surface. -/
def repackPixel (bytes : List UInt8) (y x : Nat) (st : Nat × Surface) :
    Option (Nat × Surface) := do
  let a ← bytes[st.1 + 3]?
  let r ← bytes[st.1]?
  let g ← bytes[st.1 + 1]?
  let b ← bytes[st.1 + 2]?
  let s ← Qoi.Mem.storePixel st.2 (y * st.2.stride + x) (rasArgb a r g b)
  pure (st.1 + 4, s)

/-- A round of the outer loop. -/
def repackRow (img : Decoded) (y : Nat) (st : Nat × Surface) : Option (Nat × Surface) :=
  forLoop img.w (fun x st => st.bind (repackPixel img.bytes y x)) (some st)

def repack (img : Decoded) (s : Surface) : Option (Nat × Surface) :=
  forLoop img.h (fun y st => st.bind (repackRow img y)) (some (0, s))

def jpegDecode (data : Buf) : Proc (Option Photo) := do
  match ← stbiLoadFromMemory stbi data with
  | none => pure none
  | some (pixels, img) =>
    match ← surfaceAlloc img.w img.h with
    | none => do
      release pixels
      pure none
    | some photo => do
      touch pixels
      touch photo.block
      match repack img photo.surface with
      | none => fault
      | some (_, s) => do
        release pixels
        pure (some ⟨photo.block, s⟩)

end jpeg

/-! ### The picture -/

/-- The pixel made of the four bytes from `4 * i` on. -/
def Decoded.pixel (img : Decoded) (i : Nat) : UInt32 :=
  rasArgb (img.bytes.getD (4 * i + 3) 0) (img.bytes.getD (4 * i) 0)
    (img.bytes.getD (4 * i + 1) 0) (img.bytes.getD (4 * i + 2) 0)

/-- The surface with the first `k` pixels of the picture. -/
def Decoded.upTo (img : Decoded) (k : Nat) : Surface :=
  ⟨fun i => if i < k then img.pixel i else 0, img.w, img.h, img.w⟩

def Decoded.surface (img : Decoded) : Surface := img.upTo (img.w * img.h)

theorem Decoded.byte_inside (img : Decoded) {k j : Nat} (inside : k < img.w * img.h)
    (small : j < 4) : img.bytes[4 * k + j]? = some (img.bytes.getD (4 * k + j) 0) := by
  have size := img.size
  have bound : 4 * k + j < img.bytes.length := by omega
  rw [List.getD_eq_getElem?_getD, List.getElem?_eq_getElem bound]
  rfl

/-- A round reads the next four bytes and writes the next pixel. -/
theorem repackPixel_next (img : Decoded) {x y k : Nat} (at_k : k = y * img.w + x)
    (inside : k < img.w * img.h) :
    repackPixel img.bytes y x (4 * k, img.upTo k) = some (4 * (k + 1), img.upTo (k + 1)) := by
  have byte (j : Nat) (small : j < 4) := img.byte_inside inside small
  have place : ((y : Int) * (img.upTo k).stride + x) = (k : Int) := by
    rw [at_k]
    simp [Decoded.upTo]
  have room : (0 : Int) ≤ k ∧ (k : Int) < (img.upTo k).w * (img.upTo k).h := by
    refine ⟨Int.natCast_nonneg k, ?_⟩
    dsimp only [Decoded.upTo]
    exact_mod_cast inside
  have stored : Qoi.Mem.storePixel (img.upTo k) k (img.pixel k) = some (img.upTo (k + 1)) := by
    unfold Qoi.Mem.storePixel
    rw [if_pos room]
    simp only [Decoded.upTo, Int.toNat_natCast, Option.some.injEq, Surface.mk.injEq, and_true]
    funext i
    by_cases here : i = k
    · subst here
      simp
    · rw [Function.update_of_ne here]
      have : i < k + 1 ↔ i < k := by omega
      simp [this]
  unfold repackPixel
  rw [byte 3 (by decide), byte 1 (by decide), byte 2 (by decide)]
  have first := byte 0 (by decide)
  rw [Nat.add_zero] at first
  simp only [first, place, Option.bind_eq_bind, Option.bind_some]
  rw [← Decoded.pixel, stored]
  rfl

theorem Decoded.row_inside (img : Decoded) {x y : Nat} (left : x < img.w) (low : y < img.h) :
    y * img.w + x < img.w * img.h := by
  calc
    y * img.w + x < y * img.w + img.w := by omega
    _ = img.w * (y + 1) := by ring
    _ ≤ img.w * img.h := Nat.mul_le_mul_left _ low

theorem repackRow_next (img : Decoded) {y : Nat} (low : y < img.h) :
    repackRow img y (4 * (y * img.w), img.upTo (y * img.w)) =
      some (4 * ((y + 1) * img.w), img.upTo ((y + 1) * img.w)) := by
  have step : ∀ x < img.w, ∀ st, st = (4 * (y * img.w + x), img.upTo (y * img.w + x)) →
      ∃ st', repackPixel img.bytes y x st = some st' ∧
        st' = (4 * (y * img.w + (x + 1)), img.upTo (y * img.w + (x + 1))) := by
    rintro x left _ rfl
    exact ⟨_, repackPixel_next img rfl (img.row_inside left low), rfl⟩
  obtain ⟨st, run, rfl⟩ := forLoop_succeeds
    (P := fun x st => st = (4 * (y * img.w + x), img.upTo (y * img.w + x))) rfl step
  rw [repackRow, Nat.succ_mul y img.w]
  exact run

/-- The loops read each byte of the picture once and write each pixel once. -/
theorem repack_eq (img : Decoded) :
    repack img ⟨fun _ => 0, img.w, img.h, img.w⟩ = some (4 * (img.w * img.h), img.surface) := by
  have blank : (⟨fun _ => 0, img.w, img.h, img.w⟩ : Surface) = img.upTo 0 := by
    simp [Decoded.upTo]
  have step : ∀ y < img.h, ∀ st, st = (4 * (y * img.w), img.upTo (y * img.w)) →
      ∃ st', repackRow img y st = some st' ∧
        st' = (4 * ((y + 1) * img.w), img.upTo ((y + 1) * img.w)) := by
    rintro y low _ rfl
    exact ⟨_, repackRow_next img low, rfl⟩
  obtain ⟨st, run, rfl⟩ := forLoop_succeeds
    (P := fun y st => st = (4 * (y * img.w), img.upTo (y * img.w)))
    (s := (0, img.upTo 0)) (by simp) step
  rw [blank, repack, run, Nat.mul_comm img.h img.w]
  rfl

/-! ### What the decoders own -/

def heldPhoto (o : Option Photo) : Multiset Block := owned (o.map Photo.block)

theorem surfaceAlloc_spec (w h : Int) :
    Triple 0 (surfaceAlloc w h) heldPhoto fun r o => match o with
      | some photo => r = false ∧ Raster.surfaceAlloc .roomy w h = some photo.surface
      | none => r = true ∨ Raster.surfaceAlloc .roomy w h = none := by
  unfold surfaceAlloc Raster.surfaceAlloc
  split_ifs with empty big granted
  · exact .pure rfl (Or.inr rfl)
  · exact .pure rfl (Or.inr rfl)
  · refine (mallocSize_spec _).call (F := 0) rfl fun o r answer => ?_
    obtain ⟨rfl, -⟩ := answer
    cases o with
    | none => exact .pure rfl (Or.inl rfl)
    | some block => exact .pure rfl ⟨rfl, rfl⟩
  · refine (mallocSize_spec _).call (F := 0) rfl fun o r answer => ?_
    obtain ⟨rfl, small⟩ := answer
    cases o with
    | none => exact .pure rfl (Or.inl rfl)
    | some block => exact absurd (decide_eq_true (small rfl)) granted

theorem qoiDecode_eq :
    Qoi.qoiDecode .roomy = qoiSize >>= fun size =>
      match Raster.surfaceAlloc .roomy size.1.toNat size.2.toNat with
      | none => fail
      | some s => qoiPixels size.1 size.2 s := by
  unfold Qoi.qoiDecode qoiSize
  simp only [Scan.bind_assoc, Scan.ite_bind, Scan.fail_bind, Scan.pure_bind]
  rfl

theorem certain_nextByte : Certain Qoi.nextByte :=
  certain_cursor.bind fun i => (certain_deref i).bind fun b =>
    (certain_advance 1).bind fun _ => certain_pure b

theorem certain_short (n : Nat) : Certain (Qoi.short n) :=
  certain_cursor.bind fun _ => certain_limit.bind fun _ => certain_pure _

theorem certain_readChunk (d : Qoi.Decoder) (op : UInt8) : Certain (Qoi.readChunk d op) := by
  unfold Qoi.readChunk
  split_ifs
  · refine (certain_short 3).bind fun gone => ?_
    split_ifs
    · exact certain_pure _
    · exact certain_nextByte.bind fun _ => certain_nextByte.bind fun _ =>
        certain_nextByte.bind fun _ => certain_pure _
  · refine (certain_short 4).bind fun gone => ?_
    split_ifs
    · exact certain_pure _
    · exact certain_nextByte.bind fun _ => certain_nextByte.bind fun _ =>
        certain_nextByte.bind fun _ => certain_nextByte.bind fun _ => certain_pure _
  · exact certain_pure _
  · exact certain_pure _
  · refine (certain_short 1).bind fun gone => ?_
    split_ifs
    · exact certain_pure _
    · exact certain_nextByte.bind fun _ => certain_pure _
  · exact certain_pure _

theorem certain_decodePixel (d : Qoi.Decoder) : Certain (Qoi.decodePixel d) := by
  unfold Qoi.decodePixel
  split_ifs
  · exact certain_pure _
  · refine certain_peek.bind fun next => ?_
    cases next with
    | none => exact certain_pure _
    | some _ =>
      refine certain_nextByte.bind fun op => (certain_readChunk d op).bind fun chunk => ?_
      cases chunk <;> exact certain_pure _

theorem certain_decodeLoop (n i : Nat) (d : Qoi.Decoder) (s : Surface) :
    Certain (Qoi.decodeLoop n i d s) := by
  induction n generalizing i d s with
  | zero => exact certain_pure s
  | succ n ih =>
    unfold Qoi.decodeLoop
    refine (certain_decodePixel d).bind fun decoded => ?_
    cases decoded with
    | none => exact certain_pure s
    | some d => exact ih _ _ _

theorem certain_qoiPixels (w h : UInt32) (s : Surface) : Certain (qoiPixels w h s) :=
  (certain_seek 14).bind fun _ => certain_decodeLoop _ _ _ _

theorem qoiDecodeFrom_implements (text : List UInt8) (x : Cursor) :
    Implements text x (Qoi.qoiDecode .roomy) 0 (qoiDecodeFrom text x)
      (fun photo => {photo.block}) fun photo s => s = photo.surface := by
  rw [qoiDecode_eq]
  refine .scan (fun size y _ => ?_) (.none rfl)
  obtain ⟨w, h⟩ := size
  refine .step (surfaceAlloc_spec w.toNat h.toNat) (F := 0) rfl (fun o made => ?_)
    fun o refused => ?_
  · cases o with
    | none =>
      have none := made.resolve_left (by decide)
      dsimp only
      rw [none]
      exact .null rfl (.none rfl)
    | some photo =>
      have allocated := made.2
      dsimp only
      rw [allocated]
      refine .surely (certain_qoiPixels w h photo.surface) fun s z => ?_
      refine .step (Triple.touch photo.block) (F := 0) (add_zero _).symm (fun _ _ => ?_)
        fun _ refused => absurd refused (by decide)
      exact .ok rfl rfl (add_zero _)
  · cases o with
    | none => exact .none rfl
    | some photo => exact absurd refused.1 (by decide)

theorem qoiDecode_returns (text : List UInt8) :
    Safe text ⟨0, 0, 0⟩ (Qoi.qoiDecode .roomy) fun _ _ => True := by
  have whole : Qoi.Mem.file (fun i => text.getD i 0) text.length = text := by
    refine List.ext_getElem (by simp [Qoi.Mem.file_length]) fun i low high => ?_
    simp [Qoi.Mem.file, List.getD_eq_getElem?_getD, List.getElem?_eq_getElem high]
  obtain ⟨-, -, run⟩ | ⟨-, s, y, -, run, -⟩ := Qoi.Mem.qoiDecode_cases .roomy
    (fun i => text.getD i 0) text.length ⟨fun _ => 0, 0, 0, 0⟩
  · rw [whole] at run
    simp [Safe, run]
  · rw [whole] at run
    simp [Safe, run]

theorem qoiDecode_spec (data : Buf) :
    Triple {data.block} (qoiDecode data) (fun o => heldPhoto o + {data.block}) fun r o =>
      match o with
      | some photo => r = false ∧
        ∃ y, Qoi.qoiDecode .roomy data.bytes ⟨0, 0, 0⟩ = .ok photo.surface y
      | none => r = true ∨ Qoi.qoiDecode .roomy data.bytes ⟨0, 0, 0⟩ = .null := by
  unfold qoiDecode
  refine (Triple.touch data.block).quiet (F := 0) (add_zero _).symm fun _ => ?_
  refine (qoiDecodeFrom_implements data.bytes ⟨0, 0, 0⟩ (qoiDecode_returns _)).call
    (F := {data.block}) (by simp) fun o r agrees => ?_
  cases o with
  | none => exact .pure rfl (by simpa [Agrees] using agrees)
  | some result =>
    obtain ⟨photo, y⟩ := result
    obtain ⟨rfl, s, run, rfl⟩ := agrees
    exact .pure rfl ⟨rfl, y, run⟩

/-- Whatever is refused, `jpeg_decode` gives the buffer of the library back; a surface has
the pixels of the picture. -/
theorem jpegDecode_spec (stbi : List UInt8 → Option Decoded) (data : Buf) :
    Triple {data.block} (jpegDecode stbi data) (fun o => heldPhoto o + {data.block}) fun r o =>
      match o with
      | some photo => r = false ∧ ∃ img, stbi data.bytes = some img ∧
        Raster.surfaceAlloc .roomy img.w img.h = some ⟨fun _ => 0, img.w, img.h, img.w⟩ ∧
        photo.surface = img.surface
      | none => r = true ∨ ∀ img, stbi data.bytes = some img →
        Raster.surfaceAlloc .roomy img.w img.h = none := by
  unfold jpegDecode stbiLoadFromMemory
  rw [Prog.bind_assoc]
  refine (Triple.touch data.block).quiet (F := 0) (add_zero _).symm fun _ => ?_
  cases decodes : stbi data.bytes with
  | none =>
    simp only [Prog.pure_bind]
    exact .pure (zero_add _).symm (Or.inr nofun)
  | some img =>
    simp only [Prog.bind_assoc]
    refine .request (fun pixels => ?_) ?_
    · simp only [Prog.pure_bind]
      refine (surfaceAlloc_spec img.w img.h).call (zero_add _).symm fun o r made => ?_
      cases o with
      | none =>
        refine (Triple.release pixels).quiet (F := {data.block}) (by simp [heldPhoto]) fun _ => ?_
        refine .pure rfl (made.imp (fun refused => by rw [refused]; rfl) fun none img' same => ?_)
        cases same
        exact none
      | some photo =>
        obtain ⟨rfl, allocated⟩ := made
        have blank := (surfaceAlloc_size allocated).2
        refine (Triple.borrow (n := pixels) (by simp)).quiet (F := 0) (add_zero _).symm
          fun _ => ?_
        rw [add_zero]
        refine (Triple.borrow (n := photo.block) (by simp [heldPhoto])).quiet (F := 0)
          (add_zero _).symm fun _ => ?_
        rw [blank, repack_eq]
        refine (Triple.release pixels).quiet (F := {photo.block} + {data.block})
          (by simp only [heldPhoto, Option.map_some, owned_some]; abel) fun _ => ?_
        refine .pure (by simp [heldPhoto]) ⟨rfl, img, rfl, ?_, rfl⟩
        rw [allocated, blank]
    · simp only [Prog.pure_bind]
      exact .pure (by simp [heldPhoto]) (Or.inl trivial)

/-- A pixel inside the picture. -/
theorem Decoded.surface_pixel (img : Decoded) {x y : Nat} (left : x < img.w) (low : y < img.h) :
    ∃ r g b a, img.bytes[4 * (y * img.w + x)]? = some r ∧
      img.bytes[4 * (y * img.w + x) + 1]? = some g ∧
      img.bytes[4 * (y * img.w + x) + 2]? = some b ∧
      img.bytes[4 * (y * img.w + x) + 3]? = some a ∧
      img.surface.pixel x y = rasArgb a r g b := by
  have inside := img.row_inside left low
  have offset : img.surface.offset x y = y * img.w + x := by
    have place : (y : Int) * (img.w : Int) + (x : Int) = ((y * img.w + x : Nat) : Int) := by
      push_cast
      rfl
    rw [Surface.offset, Decoded.surface, Decoded.upTo]
    dsimp only
    rw [place, Int.toNat_natCast]
  refine ⟨_, _, _, _, img.byte_inside (j := 0) inside (by decide),
    img.byte_inside inside (by decide), img.byte_inside inside (by decide),
    img.byte_inside inside (by decide), ?_⟩
  rw [Surface.pixel, offset, Decoded.surface, Decoded.upTo]
  dsimp only
  rw [if_pos inside]
  rfl

/-- Whatever the library makes of the data and whatever is refused, nothing outside of the two
buffers is accessed and the library's is given back. A surface has the size of the picture
and in each pixel the four bytes that the picture has there; there is none if something was
refused or there is no picture of a size that `surface_alloc` takes. -/
theorem jpegDecode_repacks (stbi : List UInt8 → Option Decoded) (data : Buf) (w : World Kind)
    (there : data.block ∈ w.live) :
    ∃ o w' refused, jpegDecode stbi data w = .ok o w' refused ∧
      match o with
      | none => w'.live = w.live ∧ (refused = true ∨ ∀ img, stbi data.bytes = some img →
          Raster.surfaceAlloc .roomy img.w img.h = none)
      | some photo => w'.live = {photo.block} + w.live ∧ refused = false ∧
        ∃ img, stbi data.bytes = some img ∧ photo.surface.shape = (↑img.w, ↑img.h, ↑img.w) ∧
          ∀ x < img.w, ∀ y < img.h, ∃ r g b a,
            img.bytes[4 * (y * img.w + x)]? = some r ∧
            img.bytes[4 * (y * img.w + x) + 1]? = some g ∧
            img.bytes[4 * (y * img.w + x) + 2]? = some b ∧
            img.bytes[4 * (y * img.w + x) + 3]? = some a ∧
            photo.surface.pixel x y = rasArgb a r g b := by
  obtain ⟨others, split⟩ := Multiset.exists_cons_of_mem there
  obtain ⟨o, w', refused, runs, live, holds⟩ :=
    jpegDecode_spec stbi data w others (by rw [split, Multiset.singleton_add])
  refine ⟨o, w', refused, runs, ?_⟩
  have kept : w'.live = heldPhoto o + w.live := by
    rw [live, split, add_assoc, Multiset.singleton_add]
  cases o with
  | none => exact ⟨by simpa [heldPhoto] using kept, holds⟩
  | some photo =>
    obtain ⟨calm, img, decodes, -, same⟩ := holds
    refine ⟨kept, calm, img, decodes, by rw [same]; rfl, fun x left y low => ?_⟩
    rw [same]
    exact img.surface_pixel left low

/-- A row of a red and a green pixel above one of a blue and a half clear one. -/
def fourPixels : Decoded where
  w := 2
  h := 2
  bytes := [255, 0, 0, 255, 0, 255, 0, 255, 0, 0, 255, 255, 1, 2, 3, 128]
  size := rfl

theorem jpegDecode_repacks_four :
    plenty.name .block ∈ (plenty.granted .block).live ∧
    ∃ o w' refused, jpegDecode (fun _ => some fourPixels) ⟨plenty.name .block, []⟩
        (plenty.granted .block) = .ok o w' refused ∧
      ∀ photo, o = some photo →
        photo.surface.pixel 0 0 = 0xFFFF0000 ∧ photo.surface.pixel 1 0 = 0xFF00FF00 ∧
        photo.surface.pixel 0 1 = 0xFF0000FF ∧ photo.surface.pixel 1 1 = 0x80010203 := by
  have there : plenty.name .block ∈ (plenty.granted .block).live := by
    simp [World.granted]
  obtain ⟨o, w', refused, runs, holds⟩ := jpegDecode_repacks
    (fun _ => some fourPixels) ⟨plenty.name .block, []⟩ _ there
  refine ⟨there, o, w', refused, runs, ?_⟩
  rintro photo rfl
  obtain ⟨-, -, img, decodes, -, pixels⟩ := holds
  cases decodes
  -- each pixel is made of the four bytes it has in the picture
  have made (x y : Nat) (left : x < 2) (low : y < 2) {r g b a : UInt8}
      (red : fourPixels.bytes[4 * (y * 2 + x)]? = some r)
      (green : fourPixels.bytes[4 * (y * 2 + x) + 1]? = some g)
      (blue : fourPixels.bytes[4 * (y * 2 + x) + 2]? = some b)
      (alpha : fourPixels.bytes[4 * (y * 2 + x) + 3]? = some a) :
      photo.surface.pixel x y = rasArgb a r g b := by
    obtain ⟨r', g', b', a', red', green', blue', alpha', pixel⟩ := pixels x left y low
    cases red.symm.trans red'
    cases green.symm.trans green'
    cases blue.symm.trans blue'
    cases alpha.symm.trans alpha'
    exact pixel
  exact ⟨made 0 0 (by decide) (by decide) rfl rfl rfl rfl,
    made 1 0 (by decide) (by decide) rfl rfl rfl rfl,
    made 0 1 (by decide) (by decide) rfl rfl rfl rfl,
    made 1 1 (by decide) (by decide) rfl rfl rfl rfl⟩

end InstagramNt40.PhotoHeap
