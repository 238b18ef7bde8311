import InstagramNt40.Img.QoiMemory

/-!
# Truncated files

A file that is cut behind its first 22 bytes is not rejected: where bytes are missing the
decoder repeats the last pixel or leaves the others blank, and returns 0.
-/
namespace InstagramNt40.Qoi

open Scanner Crt Loop Raster Mem

/-- The memory that holds a file. -/
def held (data : List UInt8) (i : Nat) : UInt8 := data.getD i 0

/-- A file is a header and some more. -/
theorem qoiEncode_header {heap : Heap} {s : Surface} {data : List UInt8}
    (encoded : qoiEncode heap s = some data) :
    0 < s.w ∧ 0 < s.h ∧ ∃ body, data = qoiHeader s.w s.h ++ body := by
  unfold qoiEncode at encoded
  by_cases empty : s.w ≤ 0 ∨ s.h ≤ 0
  · rw [if_pos empty] at encoded
    cases encoded
  · rw [if_neg empty] at encoded
    by_cases refused : ¬heap.grants (s.w * s.h * 5 + 14 + 8).toNat
    · rw [if_pos refused] at encoded
      cases encoded
    · rw [if_neg refused] at encoded
      dsimp only at encoded
      rw [encodePixels_eq, encodeItems_out, List.append_assoc] at encoded
      exact ⟨by omega, by omega, _, (Option.some.inj encoded).symm⟩

/-- A size in the header is within the limits exactly if that of the surface is. -/
theorem size_bad {n : Int} (low : 0 < n) (high : n < 2 ^ 31) :
    (UInt32.ofInt n = 0 ∨ UInt32.ofInt n > 20000) ↔ 20000 < n := by
  have size := toNat_ofInt (n := n) low.le (by omega)
  rw [← UInt32.toNat_inj, gt_iff_lt, UInt32.lt_iff_toNat_lt, size]
  simp only [UInt32.reduceToNat]
  omega

theorem surfaceAlloc_none {heap : Heap} {w h : Int} (hw : 0 < w) (hh : 0 < h) :
    surfaceAlloc heap w h = none ↔
      2 ^ 28 < w * h ∨ heap.grants (w.toNat * h.toNat * 4) = false := by
  have positive : ¬(w ≤ 0 ∨ h ≤ 0) := by omega
  have limit : (1 <<< 28 : Int) = 2 ^ 28 := by decide
  rw [surfaceAlloc, if_neg positive, limit]
  by_cases big : w * h > 2 ^ 28
  · rw [if_pos big]
    exact iff_of_true rfl (.inl big)
  · rw [if_neg big]
    cases granted : heap.grants (w.toNat * h.toNat * 4) with
    | true => exact iff_of_false (by simp) (by simp; omega)
    | false => exact iff_of_true rfl (.inr rfl)

/-- What is accepted of a file depends on its header alone. -/
theorem rejected_iff {heap : Heap} {w h : Int} (body : List UInt8) (n : Int) (hw : 0 < w)
    (hw' : w < 2 ^ 31) (hh : 0 < h) (hh' : h < 2 ^ 31) :
    Rejected heap (held (qoiHeader w h ++ body)) n ↔
      n < 22 ∨ 20000 < w ∨ 20000 < h ∨ 2 ^ 28 < w * h ∨
        heap.grants (w.toNat * h.toNat * 4) = false := by
  have width : word (held (qoiHeader w h ++ body)) 4 = UInt32.ofInt w := rasArgb_channels _
  have height : word (held (qoiHeader w h ++ body)) 8 = UInt32.ofInt h := rasArgb_channels _
  have sizeW := toNat_ofInt (n := w) hw.le (by omega)
  have sizeH := toNat_ofInt (n := h) hh.le (by omega)
  have castW : ((UInt32.ofInt w).toNat : Int) = w := by omega
  have castH : ((UInt32.ofInt h).toNat : Int) = h := by omega
  have magic : ¬(held (qoiHeader w h ++ body) 0 ≠ 0x71 ∨ held (qoiHeader w h ++ body) 1 ≠ 0x6F ∨
      held (qoiHeader w h ++ body) 2 ≠ 0x69 ∨ held (qoiHeader w h ++ body) 3 ≠ 0x66) := by
    rintro (h | h | h | h) <;> exact h rfl
  -- the magic is there, so only the length and the size are left
  unfold Rejected
  rw [width, height, castW, castH, surfaceAlloc_none hw hh, ← size_bad hw hw', ← size_bad hh hh',
    or_iff_right (a := _ ∨ _) magic]
  tauto

/-- Wherever a file is cut, it is rejected exactly if less than 22 bytes are left, or its size
is refused. -/
theorem qoiDecode_cut_iff (heap heap' : Heap) (s out : Surface) (data : List UInt8) (n : Nat)
    (hw : s.w < 2 ^ 31) (hh : s.h < 2 ^ 31) (encoded : qoiEncode heap s = some data) :
    Mem.qoiDecode heap' (some (held data)) n out = some (-1, out) ↔
      n < 22 ∨ 20000 < s.w ∨ 20000 < s.h ∨ 2 ^ 28 < s.w * s.h ∨
        heap'.grants (s.w.toNat * s.h.toNat * 4) = false := by
  obtain ⟨positiveW, positiveH, body, rfl⟩ := qoiEncode_header encoded
  have limits := @rejected_iff heap' _ _ body n positiveW hw positiveH hh
  rw [Nat.cast_lt_ofNat] at limits
  rw [← limits]
  rcases qoiDecode_cases heap' (held (qoiHeader s.w s.h ++ body)) n out with
    ⟨rejected, run, -⟩ | ⟨accepted, t, y, run, -⟩
  · exact iff_of_true run rejected
  · refine iff_of_false (fun gaveUp => ?_) accepted
    rw [run] at gaveUp
    cases gaveUp

/-- Three pixels whose alphas differ, so that each takes five bytes. -/
def threeAlphas : Surface := ⟨fun i => UInt32.ofNat (i + 1) <<< 24, 3, 1, 3⟩

theorem qoiDecode_cut_short :
    Mem.qoiDecode .roomy (some (held ((qoiEncode .roomy threeAlphas).getD []))) 21 threeAlphas =
      some (-1, threeAlphas) :=
  (qoiDecode_cut_iff .roomy .roomy threeAlphas threeAlphas _ 21 (by decide) (by decide) rfl).mpr
    (.inl (by decide))

/-- Of 37 bytes the first 22 end within the second pixel. It is left blank, and so is the
third. -/
theorem not_qoiDecode_cut : ¬∀ (heap : Heap) (s out : Surface) (data : List UInt8) (n : Nat),
    qoiEncode heap s = some data → n + 8 < data.length →
      Mem.qoiDecode heap (some (held data)) n out = some (-1, out) := by
  intro all
  have result := all .roomy threeAlphas threeAlphas ((qoiEncode .roomy threeAlphas).getD []) 22 rfl
    (by decide)
  -- the run returns 0, with the second pixel blank
  have blank : ((Mem.qoiDecode .roomy (some (held ((qoiEncode .roomy threeAlphas).getD []))) 22
      threeAlphas).map fun r => (r.1, r.2.pixel 1 0)) = some (0, 0) := by decide
  rw [show (22 : Int) = ((22 : Nat) : Int) from rfl, result] at blank
  exact absurd blank (by decide)

end InstagramNt40.Qoi
