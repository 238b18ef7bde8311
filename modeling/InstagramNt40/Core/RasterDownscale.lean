import InstagramNt40.Core.RasterPixel
import InstagramNt40.Library.Average

/-!
# surface_downscale

Each pixel of the destination is the average over a cell of the source. The cells lie in
the source and tile it; the averages are the means of the channels as long as the 32-bit
sums hold them.
-/
namespace InstagramNt40.Raster

open Average Loop

/-! ### Channels -/

inductive Channel where
  | a
  | r
  | g
  | b
  deriving DecidableEq, Repr

/-- The channel of a pixel. -/
def Channel.of : Channel → UInt32 → UInt8
  | a => rasA
  | r => rasR
  | g => rasG
  | b => rasB

/-- The sum over a channel. -/
def CellSum.channel (sum : CellSum) : Channel → UInt32
  | .a => sum.a
  | .r => sum.r
  | .g => sum.g
  | .b => sum.b

theorem rasArgb_toNat (a r g b : UInt8) :
    (rasArgb a r g b).toNat =
      a.toNat * 2 ^ 24 + (r.toNat * 2 ^ 16 + (g.toNat * 2 ^ 8 + b.toNat)) := by
  have ha := a.toNat_lt
  have hr := r.toNat_lt
  have hg := g.toNat_lt
  have hb := b.toNat_lt
  have word {n : Nat} (small : n < 2 ^ 32) : n % 2 ^ 32 = n := Nat.mod_eq_of_lt small
  unfold rasArgb
  simp only [UInt32.toNat_or, UInt32.toNat_shiftLeft, UInt8.toNat_toUInt32, UInt32.reduceToNat,
    Nat.or_assoc, Nat.reduceMod]
  rw [word (by rw [Nat.shiftLeft_eq]; omega), word (by rw [Nat.shiftLeft_eq]; omega),
    word (by rw [Nat.shiftLeft_eq]; omega)]
  -- each byte is added above the ones below it
  rw [← Nat.shiftLeft_add_eq_or_of_lt hb,
    ← Nat.shiftLeft_add_eq_or_of_lt (i := 16) (by rw [Nat.shiftLeft_eq]; omega),
    ← Nat.shiftLeft_add_eq_or_of_lt (i := 24) (by simp only [Nat.shiftLeft_eq]; omega)]
  simp only [Nat.shiftLeft_eq]

/-- A channel of a pixel that is put together from four. -/
theorem Channel.of_rasArgb (c : Channel) (a r g b : UInt8) :
    c.of (rasArgb a r g b) =
      match c with
      | .a => a
      | .r => r
      | .g => g
      | .b => b := by
  have ha := a.toNat_lt
  have hr := r.toNat_lt
  have hg := g.toNat_lt
  have hb := b.toNat_lt
  apply UInt8.toNat_inj.mp
  cases c <;>
    simp [Channel.of, rasA, rasR, rasG, rasB, Nat.shiftRight_eq_div_pow, rasArgb_toNat] <;> omega

/-! ### The cells -/

/-- The cell of the pixel (`dx`, `dy`) of the destination. -/
def cellRect (dst src : Surface) (dx dy : Int) : Rect :=
  let ys := cellRange dy dst.h src.h
  let xs := cellRange dx dst.w src.w
  ⟨xs.1, ys.1, xs.2 - xs.1, ys.2 - ys.1⟩

section Range

variable {d cells size : Int}

theorem cellRange_fst (hs : 0 < size) (hd : 0 ≤ d) :
    (cellRange d cells size).1 = d * size / cells :=
  Int.tdiv_eq_ediv_of_nonneg (Int.mul_nonneg hd hs.le)

/-- A cell is not empty and lies in the source. -/
theorem cellRange_inside (hc : 0 < cells) (hs : 0 < size) (hd : 0 ≤ d) (hd' : d < cells) :
    0 ≤ (cellRange d cells size).1 ∧
      (cellRange d cells size).1 < (cellRange d cells size).2 ∧
      (cellRange d cells size).2 ≤ size := by
  have start : (cellRange d cells size).1 = d * size / cells := cellRange_fst hs hd
  have first : 0 ≤ d * size / cells := Int.ediv_nonneg (Int.mul_nonneg hd hs.le) hc.le
  have last : d * size / cells < size := by
    apply Int.ediv_lt_of_lt_mul hc
    rw [Int.mul_comm size cells]
    exact Int.mul_lt_mul_of_pos_right hd' hs
  have stop : (cellRange d cells size).2 =
      if (if ((d + 1) * size).tdiv cells ≤ (cellRange d cells size).1
          then (cellRange d cells size).1 + 1 else ((d + 1) * size).tdiv cells) > size
        then size
        else if ((d + 1) * size).tdiv cells ≤ (cellRange d cells size).1
          then (cellRange d cells size).1 + 1 else ((d + 1) * size).tdiv cells := rfl
  rw [start] at stop ⊢
  rw [stop]
  split_ifs <;> omega

/-- With no more cells than rows the two corrections of the source do not apply. -/
theorem cellRange_snd (hc : 0 < cells) (fewer : cells ≤ size) (hd : 0 ≤ d) (hd' : d < cells) :
    (cellRange d cells size).2 = (d + 1) * size / cells := by
  have hs : 0 < size := by omega
  have start : (cellRange d cells size).1 = d * size / cells := cellRange_fst hs hd
  have stop : ((d + 1) * size).tdiv cells = (d + 1) * size / cells :=
    Int.tdiv_eq_ediv_of_nonneg (Int.mul_nonneg (by omega) hs.le)
  have longer : d * size / cells + 1 ≤ (d + 1) * size / cells := by
    rw [← Int.add_mul_ediv_right _ _ hc.ne', Int.one_mul, Int.add_mul, Int.one_mul]
    exact Int.ediv_le_ediv hc (by omega)
  have within : (d + 1) * size / cells ≤ size := by
    apply Int.ediv_le_of_le_mul hc
    rw [Int.mul_comm size cells]
    exact Int.mul_le_mul_of_nonneg_right (by omega) hs.le
  unfold cellRange at start ⊢
  dsimp only at start ⊢
  rw [start, stop, if_neg (by omega), if_neg (by omega)]

/-- Which cell a row or column lies in. -/
theorem cellRange_holds_iff {i : Int} (hc : 0 < cells) (fewer : cells ≤ size) (hd : 0 ≤ d)
    (hd' : d < cells) :
    (cellRange d cells size).1 ≤ i ∧ i < (cellRange d cells size).2 ↔
      d = ((i + 1) * cells - 1) / size := by
  have hs : 0 < size := by omega
  rw [cellRange_fst hs hd, cellRange_snd hc fewer hd hd']
  have lower : d * size / cells ≤ i ↔ d * size < (i + 1) * cells := by
    rw [← Int.lt_add_one_iff, Int.ediv_lt_iff_lt_mul hc]
  have upper : i < (d + 1) * size / cells ↔ (i + 1) * cells ≤ (d + 1) * size := by
    rw [← Int.add_one_le_iff, Int.le_ediv_iff_mul_le hc]
  have quotient : d = ((i + 1) * cells - 1) / size ↔
      d * size ≤ (i + 1) * cells - 1 ∧ (i + 1) * cells - 1 < (d + 1) * size := by
    rw [← Int.le_ediv_iff_mul_le hs, ← Int.ediv_lt_iff_lt_mul hs]
    omega
  rw [lower, upper, quotient]
  omega

/-- That cell is one of them. -/
theorem cell_inside {i : Int} (hc : 0 < cells) (hs : 0 < size) (hi : 0 ≤ i) (hi' : i < size) :
    0 ≤ ((i + 1) * cells - 1) / size ∧ ((i + 1) * cells - 1) / size < cells := by
  have some : cells ≤ (i + 1) * cells := by
    rw [Int.add_mul, Int.one_mul]
    have := Int.mul_nonneg hi hc.le
    omega
  constructor
  · exact Int.ediv_nonneg (by omega) hs.le
  · apply Int.ediv_lt_of_lt_mul hs
    have most : (i + 1) * cells ≤ size * cells := Int.mul_le_mul_of_nonneg_right (by omega) hc.le
    rw [Int.mul_comm size cells] at most
    omega

/-- With as many cells as rows each row is a cell. -/
theorem cellRange_self (hs : 0 < size) (hd : 0 ≤ d) (hd' : d < size) :
    cellRange d size size = (d, d + 1) := by
  apply Prod.ext
  · rw [cellRange_fst hs hd]
    exact Int.mul_ediv_cancel d hs.ne'
  · rw [cellRange_snd hs (Int.le_refl size) hd hd']
    exact Int.mul_ediv_cancel (d + 1) hs.ne'

end Range

/-! ### The sums over a cell -/

/-- What the loops over a cell leave in the sums. -/
def cellSum (src : Surface) (ys xs : Int × Int) : CellSum :=
  forLoop (ys.2 - ys.1).toNat (fun sy sum =>
    forLoop (xs.2 - xs.1).toNat (fun sx (sum : CellSum) =>
      sum.add (src.pixel (xs.1 + sx) (ys.1 + sy))) sum) ⟨0, 0, 0, 0, 0⟩

/-- The number the sums are divided by. -/
def CellSum.divisor (sum : CellSum) : UInt32 := if sum.n = 0 then 1 else sum.n

theorem CellSum.divisor_pos (sum : CellSum) : sum.divisor ≠ 0 := by
  unfold CellSum.divisor
  split
  · decide
  · assumption

theorem CellSum.divisor_eq {sum : CellSum} (counted : sum.n ≠ 0) : sum.divisor = sum.n :=
  if_neg counted

theorem cellAverage_channel (src : Surface) (ys xs : Int × Int) (c : Channel) :
    c.of (cellAverage src ys xs) =
      ((cellSum src ys xs).channel c / (cellSum src ys xs).divisor).toUInt8 := by
  have average : cellAverage src ys xs =
      let sum := cellSum src ys xs
      rasArgb (sum.a / sum.divisor).toUInt8 (sum.r / sum.divisor).toUInt8
        (sum.g / sum.divisor).toUInt8 (sum.b / sum.divisor).toUInt8 := rfl
  rw [average, Channel.of_rasArgb]
  cases c <;> rfl

/-- The pixels of a rectangle, row by row. -/
def rectPixels (src : Surface) (r : Rect) : List UInt32 :=
  rowMajor r.w.toNat r.h.toNat fun x y => src.pixel (r.x + x) (r.y + y)

/-- The exact sum of a channel over a rectangle. -/
def channelSum (src : Surface) (r : Rect) (c : Channel) : Nat :=
  ∑ y ∈ Finset.range r.h.toNat, ∑ x ∈ Finset.range r.w.toNat,
    (c.of (src.pixel (r.x + x) (r.y + y))).toNat

theorem channelSum_eq (src : Surface) (r : Rect) (c : Channel) :
    channelSum src r c = ((rectPixels src r).map fun p => (c.of p).toNat).sum :=
  (sum_rowMajor _ _ _ fun p => (c.of p).toNat).symm

theorem rectPixels_length (src : Surface) (r : Rect) :
    (rectPixels src r).length = r.h.toNat * r.w.toNat := rowMajor_length _ _ _

/-- The pixels of the list stand in the rectangle. -/
theorem mem_rectPixels {src : Surface} {r : Rect} {p : UInt32} (member : p ∈ rectPixels src r) :
    ∃ x y, r.Holds x y ∧ src.pixel x y = p := by
  unfold rectPixels rowMajor at member
  obtain ⟨y, hy, row⟩ := List.mem_flatMap.mp member
  obtain ⟨x, hx, rfl⟩ := List.mem_map.mp row
  rw [List.mem_range] at hx hy
  refine ⟨r.x + x, r.y + y, ?_, rfl⟩
  unfold Rect.Holds
  omega

/-- One pixel adds its channels and counts. -/
theorem CellSum.foldl_add (l : List UInt32) (sum : CellSum) (c : Channel) :
    (l.foldl CellSum.add sum).channel c = wordSum c.of l (sum.channel c) ∧
      (l.foldl CellSum.add sum).n = wordSum (fun _ => 1) l sum.n := by
  induction l generalizing sum with
  | nil => exact ⟨rfl, rfl⟩
  | cons p l ih =>
    obtain ⟨channel, count⟩ := ih (sum.add p)
    rw [List.foldl_cons, channel, count]
    exact ⟨by cases c <;> rfl, rfl⟩

variable (dst src : Surface) (dx dy : Int)

theorem cellSum_eq : cellSum src (cellRange dy dst.h src.h) (cellRange dx dst.w src.w) =
    (rectPixels src (cellRect dst src dx dy)).foldl CellSum.add ⟨0, 0, 0, 0, 0⟩ :=
  forLoop_rows CellSum.add _ _ _ _

/-- The sums are the exact ones modulo 2 ^ 32. -/
theorem cellSum_channel (c : Channel) :
    ((cellSum src (cellRange dy dst.h src.h) (cellRange dx dst.w src.w)).channel c).toNat =
      channelSum src (cellRect dst src dx dy) c % 2 ^ 32 := by
  have zero : (⟨0, 0, 0, 0, 0⟩ : CellSum).channel c = 0 := by cases c <;> rfl
  rw [cellSum_eq, (CellSum.foldl_add _ _ c).1, zero, wordSum_toNat, channelSum_eq,
    UInt32.toNat_zero, Nat.zero_add]

theorem cellSum_count :
    (cellSum src (cellRange dy dst.h src.h) (cellRange dx dst.w src.w)).n.toNat =
      (cellRect dst src dx dy).h.toNat * (cellRect dst src dx dy).w.toNat % 2 ^ 32 := by
  rw [cellSum_eq, (CellSum.foldl_add _ _ .a).2, wordSum_toNat, ← rectPixels_length src]
  simp

/-- Each channel adds at most 255 a pixel. -/
theorem channelSum_le (r : Rect) (c : Channel) :
    channelSum src r c ≤ r.h.toNat * r.w.toNat * 255 := by
  rw [channelSum_eq, ← rectPixels_length src]
  exact sum_bytes_le c.of _

/-! ### The pixels of the destination -/

section Cell

variable {dst src : Surface} {dx dy : Int}

/-- The number of pixels of a cell. -/
theorem cell_count {r : Rect} (hw : 0 ≤ r.w) (hh : 0 ≤ r.h) :
    ((r.h.toNat * r.w.toNat : Nat) : Int) = r.w * r.h := by
  push_cast
  rw [Int.toNat_of_nonneg hw, Int.toNat_of_nonneg hh, Int.mul_comm]

theorem cellRect_inside (srcW : 0 < src.w) (srcH : 0 < src.h) (hx : 0 ≤ dx) (hx' : dx < dst.w)
    (hy : 0 ≤ dy) (hy' : dy < dst.h) :
    (0 ≤ (cellRect dst src dx dy).x ∧ 0 < (cellRect dst src dx dy).w ∧
        (cellRect dst src dx dy).x + (cellRect dst src dx dy).w ≤ src.w) ∧
      0 ≤ (cellRect dst src dx dy).y ∧ 0 < (cellRect dst src dx dy).h ∧
        (cellRect dst src dx dy).y + (cellRect dst src dx dy).h ≤ src.h := by
  have columns := cellRange_inside (by omega) srcW hx hx'
  have rows := cellRange_inside (by omega) srcH hy hy'
  unfold cellRect
  dsimp only
  omega

theorem surfaceDownscale_pixel (srcW : 0 < src.w) (srcH : 0 < src.h) (stride : dst.w ≤ dst.stride)
    (hx : 0 ≤ dx) (hx' : dx < dst.w) (hy : 0 ≤ dy) (hy' : dy < dst.h) :
    (surfaceDownscale dst src).pixel dx dy =
      cellAverage src (cellRange dy dst.h src.h) (cellRange dx dst.w src.w) := by
  unfold surfaceDownscale
  rw [if_neg (by omega), forRect_pixel
    (f := fun x y _ => cellAverage src (cellRange y dst.h src.h) (cellRange x dst.w src.w))
    _ (Int.le_refl 0) (by dsimp only; omega) (Int.le_refl 0) hx (by omega) hy]
  apply if_pos
  unfold Rect.Holds
  dsimp only
  omega

/-- A channel is the mean over the cell, if its sum and the count fit. -/
theorem surfaceDownscale_mean (srcW : 0 < src.w) (srcH : 0 < src.h) (stride : dst.w ≤ dst.stride)
    (hx : 0 ≤ dx) (hx' : dx < dst.w) (hy : 0 ≤ dy) (hy' : dy < dst.h) (c : Channel)
    (fits : channelSum src (cellRect dst src dx dy) c < 2 ^ 32)
    (few : (cellRect dst src dx dy).w * (cellRect dst src dx dy).h < 2 ^ 32) :
    (c.of ((surfaceDownscale dst src).pixel dx dy)).toNat =
      mean ((rectPixels src (cellRect dst src dx dy)).map fun p => (c.of p).toNat) := by
  obtain ⟨⟨-, wide, -⟩, -, high, -⟩ := cellRect_inside srcW srcH hx hx' hy hy'
  have area := cell_count wide.le high.le
  have positive := Int.mul_pos wide high
  have sums := cellSum_channel dst src dx dy c
  have count := cellSum_count dst src dx dy
  have bound := channelSum_le src (cellRect dst src dx dy) c
  rw [Nat.mod_eq_of_lt fits] at sums
  rw [Nat.mod_eq_of_lt (by omega)] at count
  have counted : (cellSum src (cellRange dy dst.h src.h) (cellRange dx dst.w src.w)).n ≠ 0 := by
    intro zero
    rw [zero, UInt32.toNat_zero] at count
    omega
  have byte : channelSum src (cellRect dst src dx dy) c /
      ((cellRect dst src dx dy).h.toNat * (cellRect dst src dx dy).w.toNat) < 2 ^ 8 := by
    apply Nat.div_lt_of_lt_mul
    omega
  rw [surfaceDownscale_pixel srcW srcH stride hx hx' hy hy', cellAverage_channel,
    CellSum.divisor_eq counted, UInt32.toNat_toUInt8, UInt32.toNat_div, sums, count,
    Nat.mod_eq_of_lt byte, channelSum_eq]
  unfold mean
  rw [List.length_map, rectPixels_length]

/-- A pixel is known by its channels. -/
theorem Channel.ext {p q : UInt32} (same : ∀ c : Channel, c.of p = c.of q) : p = q := by
  rw [← rasArgb_channels p, ← rasArgb_channels q]
  congr 1
  · exact same .a
  · exact same .r
  · exact same .g
  · exact same .b

/-- In a source of less than 2 ^ 32 pixels the count does not wrap. -/
theorem cellSum_count_exact (srcW : 0 < src.w) (srcH : 0 < src.h)
    (hx : 0 ≤ dx) (hx' : dx < dst.w) (hy : 0 ≤ dy) (hy' : dy < dst.h)
    (small : src.w * src.h < 2 ^ 32) :
    ((cellSum src (cellRange dy dst.h src.h) (cellRange dx dst.w src.w)).n.toNat : Int) =
      (cellRect dst src dx dy).w * (cellRect dst src dx dy).h := by
  obtain ⟨⟨left, wide, right⟩, top, high, bottom⟩ := cellRect_inside srcW srcH hx hx' hy hy'
  have area := cell_count wide.le high.le
  have part : (cellRect dst src dx dy).w * (cellRect dst src dx dy).h ≤ src.w * src.h :=
    Int.mul_le_mul (by omega) (by omega) high.le srcW.le
  rw [cellSum_count, Nat.mod_eq_of_lt (by omega), area]

/-- With no more cells than pixels on both axes, each pixel is in one cell. -/
theorem cellRect_unique (dstW : 0 < dst.w) (dstH : 0 < dst.h) (narrower : dst.w ≤ src.w)
    (lower : dst.h ≤ src.h) {sx sy : Int} (hx : 0 ≤ sx) (hx' : sx < src.w) (hy : 0 ≤ sy)
    (hy' : sy < src.h) :
    ∃! cell : Int × Int, (0 ≤ cell.1 ∧ cell.1 < dst.w ∧ 0 ≤ cell.2 ∧ cell.2 < dst.h) ∧
      (cellRect dst src cell.1 cell.2).Holds sx sy := by
  have holds {x y : Int} (gx : 0 ≤ x) (gx' : x < dst.w) (gy : 0 ≤ y) (gy' : y < dst.h) :
      (cellRect dst src x y).Holds sx sy ↔
        x = ((sx + 1) * dst.w - 1) / src.w ∧ y = ((sy + 1) * dst.h - 1) / src.h := by
    rw [← cellRange_holds_iff dstW narrower gx gx', ← cellRange_holds_iff dstH lower gy gy']
    unfold Rect.Holds cellRect
    dsimp only
    omega
  obtain ⟨column, column'⟩ := cell_inside dstW (by omega) hx hx'
  obtain ⟨row, row'⟩ := cell_inside dstH (by omega) hy hy'
  refine ⟨(((sx + 1) * dst.w - 1) / src.w, ((sy + 1) * dst.h - 1) / src.h), ?_, ?_⟩
  · exact ⟨⟨column, column', row, row'⟩, (holds column column' row row').mpr ⟨rfl, rfl⟩⟩
  · rintro ⟨x, y⟩ ⟨⟨gx, gx', gy, gy'⟩, inside⟩
    obtain ⟨sameX, sameY⟩ := (holds gx gx' gy gy').mp inside
    exact Prod.ext sameX sameY

end Cell

/-- A cell of at most 16843009 pixels is averaged without an overflow. -/
theorem channelSum_fits {src : Surface} {r : Rect} (hw : 0 ≤ r.w) (hh : 0 ≤ r.h)
    (few : r.w * r.h ≤ 16843009) (c : Channel) : channelSum src r c < 2 ^ 32 := by
  have area := cell_count hw hh
  have bound := channelSum_le src r c
  omega

section Pixel

variable {dst src : Surface} {dx dy : Int}

/-- A channel lies between two of its cell. -/
theorem surfaceDownscale_between (srcW : 0 < src.w) (srcH : 0 < src.h)
    (stride : dst.w ≤ dst.stride) (hx : 0 ≤ dx) (hx' : dx < dst.w) (hy : 0 ≤ dy)
    (hy' : dy < dst.h)
    (few : (cellRect dst src dx dy).w * (cellRect dst src dx dy).h ≤ 16843009) (c : Channel) :
    (∃ x y, (cellRect dst src dx dy).Holds x y ∧
        c.of (src.pixel x y) ≤ c.of ((surfaceDownscale dst src).pixel dx dy)) ∧
      ∃ x y, (cellRect dst src dx dy).Holds x y ∧
        c.of ((surfaceDownscale dst src).pixel dx dy) ≤ c.of (src.pixel x y) := by
  obtain ⟨⟨-, wide, -⟩, -, high, -⟩ := cellRect_inside srcW srcH hx hx' hy hy'
  have average := surfaceDownscale_mean srcW srcH stride hx hx' hy hy' c
    (channelSum_fits wide.le high.le few c) (by omega)
  have nonempty : ((rectPixels src (cellRect dst src dx dy)).map fun p => (c.of p).toNat) ≠ [] := by
    have area := cell_count wide.le high.le
    have positive := Int.mul_pos wide high
    rw [← List.length_pos_iff, List.length_map, rectPixels_length]
    omega
  constructor
  · obtain ⟨n, member, below⟩ := exists_le_mean nonempty
    obtain ⟨p, inCell, rfl⟩ := List.mem_map.mp member
    obtain ⟨x, y, inside, rfl⟩ := mem_rectPixels inCell
    exact ⟨x, y, inside, UInt8.le_iff_toNat_le.mpr (average ▸ below)⟩
  · obtain ⟨n, member, above⟩ := exists_mean_le nonempty
    obtain ⟨p, inCell, rfl⟩ := List.mem_map.mp member
    obtain ⟨x, y, inside, rfl⟩ := mem_rectPixels inCell
    exact ⟨x, y, inside, UInt8.le_iff_toNat_le.mpr (average ▸ above)⟩

/-- With equal sizes each pixel is copied. -/
theorem surfaceDownscale_copy (stride : dst.w ≤ dst.stride) (sameW : dst.w = src.w)
    (sameH : dst.h = src.h) (hx : 0 ≤ dx) (hx' : dx < dst.w) (hy : 0 ≤ dy) (hy' : dy < dst.h) :
    (surfaceDownscale dst src).pixel dx dy = src.pixel dx dy := by
  have one (z : Int) : z + 1 - z = 1 := by omega
  have single : cellRect dst src dx dy = ⟨dx, dy, 1, 1⟩ := by
    unfold cellRect
    rw [sameW, sameH, cellRange_self (by omega) hx (by omega),
      cellRange_self (by omega) hy (by omega)]
    dsimp only
    rw [one, one]
  apply Channel.ext
  intro c
  have few : (cellRect dst src dx dy).w * (cellRect dst src dx dy).h ≤ 16843009 := by
    rw [single]
    dsimp only
    decide
  -- both bounds are the only pixel of the cell
  obtain ⟨⟨x, y, inside, below⟩, x', y', inside', above⟩ :=
    surfaceDownscale_between (by omega) (by omega) stride hx hx' hy hy' few c
  rw [single] at inside inside'
  unfold Rect.Holds at inside inside'
  dsimp only at inside inside'
  obtain ⟨rfl, rfl⟩ : x = dx ∧ y = dy := by omega
  obtain ⟨rfl, rfl⟩ : x' = x ∧ y' = y := by omega
  exact UInt8.le_antisymm above below

end Pixel

/-- The cells are not empty, lie in the source and tile it, equal sizes copy, and each
channel lies between two of its cell. -/
theorem surfaceDownscale_tiles {dst src : Surface} (dstW : 0 < dst.w) (dstH : 0 < dst.h)
    (srcW : 0 < src.w) (srcH : 0 < src.h) (stride : dst.w ≤ dst.stride) :
    (∀ dx dy, 0 ≤ dx → dx < dst.w → 0 ≤ dy → dy < dst.h →
      (0 ≤ (cellRect dst src dx dy).x ∧ 0 < (cellRect dst src dx dy).w ∧
        (cellRect dst src dx dy).x + (cellRect dst src dx dy).w ≤ src.w) ∧
      (0 ≤ (cellRect dst src dx dy).y ∧ 0 < (cellRect dst src dx dy).h ∧
        (cellRect dst src dx dy).y + (cellRect dst src dx dy).h ≤ src.h) ∧
      (cellSum src (cellRange dy dst.h src.h) (cellRange dx dst.w src.w)).divisor ≠ 0 ∧
      (src.w * src.h < 2 ^ 32 →
        ((cellSum src (cellRange dy dst.h src.h) (cellRange dx dst.w src.w)).n.toNat : Int) =
          (cellRect dst src dx dy).w * (cellRect dst src dx dy).h)) ∧
    (dst.w ≤ src.w → dst.h ≤ src.h → ∀ sx sy, 0 ≤ sx → sx < src.w → 0 ≤ sy → sy < src.h →
      ∃! cell : Int × Int, (0 ≤ cell.1 ∧ cell.1 < dst.w ∧ 0 ≤ cell.2 ∧ cell.2 < dst.h) ∧
        (cellRect dst src cell.1 cell.2).Holds sx sy) ∧
    (dst.w = src.w → dst.h = src.h → ∀ x y, 0 ≤ x → x < dst.w → 0 ≤ y → y < dst.h →
      (surfaceDownscale dst src).pixel x y = src.pixel x y) ∧
    ∀ dx dy, 0 ≤ dx → dx < dst.w → 0 ≤ dy → dy < dst.h →
      (cellRect dst src dx dy).w * (cellRect dst src dx dy).h ≤ 16843009 → ∀ c : Channel,
        (∃ x y, (cellRect dst src dx dy).Holds x y ∧
          c.of (src.pixel x y) ≤ c.of ((surfaceDownscale dst src).pixel dx dy)) ∧
        ∃ x y, (cellRect dst src dx dy).Holds x y ∧
          c.of ((surfaceDownscale dst src).pixel dx dy) ≤ c.of (src.pixel x y) := by
  refine ⟨?_, ?_, ?_, ?_⟩
  · intro dx dy hx hx' hy hy'
    obtain ⟨columns, rows⟩ := cellRect_inside srcW srcH hx hx' hy hy'
    exact ⟨columns, rows, CellSum.divisor_pos _, cellSum_count_exact srcW srcH hx hx' hy hy'⟩
  · intro narrower lower sx sy hx hx' hy hy'
    exact cellRect_unique dstW dstH narrower lower hx hx' hy hy'
  · intro sameW sameH x y hx hx' hy hy'
    exact surfaceDownscale_copy stride sameW sameH hx hx' hy hy'
  · intro dx dy hx hx' hy hy' few c
    exact surfaceDownscale_between srcW srcH stride hx hx' hy hy' few c

/-- Four by four pixels in two by two cells: the pixel (3, 1) is in one of them. -/
theorem surfaceDownscale_tiles_four :
    ∃! cell : Int × Int, (0 ≤ cell.1 ∧ cell.1 < 2 ∧ 0 ≤ cell.2 ∧ cell.2 < 2) ∧
      (cellRect ⟨fun _ => 0, 2, 2, 2⟩ ⟨fun i => i.toUInt32, 4, 4, 4⟩ cell.1 cell.2).Holds 3 1 :=
  (@surfaceDownscale_tiles ⟨fun _ => 0, 2, 2, 2⟩ ⟨fun i => i.toUInt32, 4, 4, 4⟩
    (by decide) (by decide) (by decide) (by decide) (by decide)).2.1 (by decide) (by decide) 3 1
    (by decide) (by decide) (by decide) (by decide)

/-! ### Large cells -/

/-- The sums over every cell are exact, and every channel is the floor of the mean. -/
def ExactAverages (dst src : Surface) : Prop :=
  ∀ dx dy, 0 ≤ dx → dx < dst.w → 0 ≤ dy → dy < dst.h → ∀ c : Channel,
    ((cellSum src (cellRange dy dst.h src.h) (cellRange dx dst.w src.w)).channel c).toNat =
        channelSum src (cellRect dst src dx dy) c ∧
      (c.of ((surfaceDownscale dst src).pixel dx dy)).toNat =
        channelSum src (cellRect dst src dx dy) c /
          ((cellRect dst src dx dy).w * (cellRect dst src dx dy).h).toNat

theorem exactAverages_iff {dst src : Surface} (srcW : 0 < src.w) (srcH : 0 < src.h)
    (admitted : src.w * src.h ≤ 1 <<< 28) (stride : dst.w ≤ dst.stride) :
    ExactAverages dst src ↔ ∀ dx dy, 0 ≤ dx → dx < dst.w → 0 ≤ dy → dy < dst.h →
      ∀ c : Channel, channelSum src (cellRect dst src dx dy) c < 2 ^ 32 := by
  constructor
  · intro exact dx dy hx hx' hy hy' c
    rw [← (exact dx dy hx hx' hy hy' c).1]
    exact UInt32.toNat_lt _
  · intro fits dx dy hx hx' hy hy' c
    have fits := fits dx dy hx hx' hy hy' c
    obtain ⟨⟨left, wide, right⟩, top, high, bottom⟩ := cellRect_inside srcW srcH hx hx' hy hy'
    have part : (cellRect dst src dx dy).w * (cellRect dst src dx dy).h ≤ src.w * src.h :=
      Int.mul_le_mul (by omega) (by omega) high.le srcW.le
    have area := cell_count wide.le high.le
    rw [cellSum_channel, Nat.mod_eq_of_lt fits,
      surfaceDownscale_mean srcW srcH stride hx hx' hy hy' c fits (by omega), ← area,
      Int.toNat_natCast, channelSum_eq, ← rectPixels_length src]
    refine ⟨rfl, ?_⟩
    unfold mean
    rw [List.length_map]

/-- White pixels have the largest sums. -/
theorem white_channelSum {src : Surface} (white : ∀ i, src.pixels i = 0xFFFFFFFF) (r : Rect)
    (c : Channel) : channelSum src r c = r.h.toNat * r.w.toNat * 255 := by
  have channel (x y : Int) : (c.of (src.pixel x y)).toNat = 255 := by
    have pixel : src.pixel x y = 0xFFFFFFFF := white _
    rw [pixel]
    cases c <;> decide
  unfold channelSum
  simp only [channel, Finset.sum_const, Finset.card_range, smul_eq_mul]
  exact (Nat.mul_assoc _ _ _).symm

/-- For a source the allocator admits the sums of the channels have to fit into 32 bits.
They do for all pixels exactly if no cell has more than 16843009 pixels. -/
theorem surfaceDownscale_exact_iff {heap : Crt.Heap} {w h : Int} {src : Surface}
    (allocated : surfaceAlloc heap w h = some src) {dst : Surface}
    (stride : dst.w ≤ dst.stride) :
    (∀ pixels, ExactAverages dst { src with pixels := pixels } ↔
      ∀ dx dy, 0 ≤ dx → dx < dst.w → 0 ≤ dy → dy < dst.h → ∀ c : Channel,
        channelSum { src with pixels := pixels } (cellRect dst src dx dy) c < 2 ^ 32) ∧
    ((∀ pixels, ExactAverages dst { src with pixels := pixels }) ↔
      ∀ dx dy, 0 ≤ dx → dx < dst.w → 0 ≤ dy → dy < dst.h →
        (cellRect dst src dx dy).w * (cellRect dst src dx dy).h ≤ 16843009) := by
  obtain ⟨limits, blank⟩ := surfaceAlloc_size allocated
  obtain ⟨srcW, srcH, admitted⟩ : 0 < src.w ∧ 0 < src.h ∧ src.w * src.h ≤ 1 <<< 28 := by
    rw [blank]
    exact limits
  have fits (pixels : Nat → UInt32) :=
    @exactAverages_iff dst { src with pixels := pixels } srcW srcH admitted stride
  refine ⟨fits, ?_, ?_⟩
  · -- white pixels are the worst case
    intro exact dx dy hx hx' hy hy'
    obtain ⟨⟨-, wide, -⟩, -, high, -⟩ := cellRect_inside srcW srcH hx hx' hy hy'
    have sum := (fits _).mp (exact fun _ => 0xFFFFFFFF) dx dy hx hx' hy hy' .r
    rw [white_channelSum fun _ => rfl] at sum
    have area := cell_count wide.le high.le
    have same : cellRect dst { src with pixels := fun _ => 0xFFFFFFFF } dx dy =
        cellRect dst src dx dy := rfl
    rw [same] at sum
    omega
  · intro few pixels
    rw [fits]
    intro dx dy hx hx' hy hy' c
    obtain ⟨⟨-, wide, -⟩, -, high, -⟩ := cellRect_inside srcW srcH hx hx' hy hy'
    exact channelSum_fits wide.le high.le (few dx dy hx hx' hy hy') c

/-- The cells of four by four pixels in two by two are small. -/
theorem surfaceDownscale_exact_four :
    ExactAverages ⟨fun _ => 0, 2, 2, 2⟩ ⟨fun i => i.toUInt32, 4, 4, 4⟩ := by
  apply (@surfaceDownscale_exact_iff Crt.Heap.roomy 4 4 ⟨fun _ => 0, 4, 4, 4⟩ rfl _
    (by decide)).2.mpr
  intro dx dy hx hx' hy hy'
  dsimp only at hx' hy'
  obtain rfl | rfl : dx = 0 ∨ dx = 1 := by omega
  all_goals obtain rfl | rfl : dy = 0 ∨ dy = 1 := by omega
  all_goals decide

/-- A white source of 8192 by 4096 pixels becomes gray. -/
theorem surfaceDownscale_overflow :
    (surfaceAlloc Crt.Heap.roomy 8192 4096).isSome = true ∧
    ¬ExactAverages ⟨fun _ => 0, 1, 1, 1⟩ ⟨fun _ => 0xFFFFFFFF, 8192, 4096, 8192⟩ ∧
    (surfaceDownscale ⟨fun _ => 0, 1, 1, 1⟩ ⟨fun _ => 0xFFFFFFFF, 8192, 4096, 8192⟩).pixel 0 0 =
      0x7F7F7F7F := by
  have cell : cellRect ⟨fun _ => 0, 1, 1, 1⟩ ⟨fun _ => 0xFFFFFFFF, 8192, 4096, 8192⟩ 0 0 =
      ⟨0, 0, 8192, 4096⟩ := by decide
  have worst (c : Channel) := @white_channelSum ⟨fun _ => 0xFFFFFFFF, 8192, 4096, 8192⟩
    (fun _ => rfl) ⟨0, 0, 8192, 4096⟩ c
  refine ⟨by decide, ?_, ?_⟩
  · rw [exactAverages_iff (by decide) (by decide) (by decide) (by decide)]
    intro fits
    have sum := fits 0 0 (by decide) (by decide) (by decide) (by decide) .r
    rw [cell, worst] at sum
    revert sum
    decide
  · apply Channel.ext
    intro c
    have sums := cellSum_channel ⟨fun _ => 0, 1, 1, 1⟩
      ⟨fun _ => 0xFFFFFFFF, 8192, 4096, 8192⟩ 0 0 c
    have count := cellSum_count ⟨fun _ => 0, 1, 1, 1⟩
      ⟨fun _ => 0xFFFFFFFF, 8192, 4096, 8192⟩ 0 0
    rw [cell, worst] at sums
    rw [cell] at count
    have counted : (cellSum ⟨fun _ => 0xFFFFFFFF, 8192, 4096, 8192⟩ (cellRange 0 1 4096)
        (cellRange 0 1 8192)).n ≠ 0 := by
      intro zero
      rw [zero] at count
      revert count
      decide
    rw [surfaceDownscale_pixel (by decide) (by decide) (by decide) (by decide) (by decide)
      (by decide) (by decide), cellAverage_channel, CellSum.divisor_eq counted]
    apply UInt8.toNat_inj.mp
    rw [UInt32.toNat_toUInt8, UInt32.toNat_div, sums, count]
    cases c <;> decide

end InstagramNt40.Raster
