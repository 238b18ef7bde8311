import InstagramNt40.Core.RasterBlit
import InstagramNt40.Ui.FeedLayout

/-!
# What is on the screen

Filling the content surface keeps its size, so that the blit of `draw_scrollable` is the
same for every feed of that height: each row of the viewport shows one row of the content.
-/
namespace InstagramNt40.Feed

open Crt Loop Raster Font

variable (heap : Heap) (hangul : HangulData)

/-! ### Drawing a card keeps the shape of the content -/

@[simp] theorem panelRaised_shape (s : Surface) (r : Rect) : (panelRaised s r).shape = s.shape := by
  simp [panelRaised]

@[simp] theorem panelSunken_shape (s : Surface) (r : Rect) : (panelSunken s r).shape = s.shape := by
  simp [panelSunken]

@[simp] theorem gradientV_shape (s : Surface) (r : Rect) (top bot : UInt32) :
    (gradientV s r top bot).shape = s.shape := by
  unfold gradientV
  split
  · rfl
  · exact forLoop_frame s fun y t => surfaceHline_shape t _ _ _ _

theorem drawHeader_shape (s : Surface) (cx cy cw : Int) (p : PostView) :
    (drawHeader hangul s cx cy cw p).shape = s.shape := by
  unfold drawHeader
  apply (forLoop_frame _ fun i t => surfaceFillRect_shape t _ _).trans
  split <;> simp

theorem drawPhoto_shape (s : Surface) (well : Rect) (p : PostView) :
    (drawPhoto heap s well p).shape = s.shape := by
  unfold drawPhoto
  dsimp only
  split
  · split
    · split <;> simp
    · simp
  · simp

theorem drawActions_shape (s : Surface) (cx iy cw : Int) (p : PostView) :
    (drawActions s cx iy cw p).shape = s.shape := by
  simp [drawActions]

theorem captionLine_shape (s : Surface) (cx y cw : Int) (caption : CString)
    (lines : List CapLine) (truncated : Bool) (visible i : Nat) :
    (captionLine hangul s cx y cw caption lines truncated visible i).shape = s.shape := by
  unfold captionLine drawLineWithSuffix drawLine
  dsimp only
  split <;> simp

/-- Drawing on the surface there is, if it keeps its shape, keeps the shape. -/
theorem map_shape {s : Option Surface} {draw : Surface → Surface}
    (same : ∀ t, (draw t).shape = t.shape) :
    (s.map draw).map Surface.shape = s.map Surface.shape := by
  rw [Option.map_map]
  exact congrArg (Option.map · s) (funext same)

theorem captionLines_shape (s : Option Surface) (cx y cw : Int) (caption : Option CString)
    (expanded : Bool) :
    (captionLines hangul s cx y cw caption expanded).1.map Surface.shape = s.map Surface.shape :=
  forLoop_frame (f := fun (st : Option Surface × Int) => st.1.map Surface.shape) (s, y) fun _ _ =>
    map_shape fun t => captionLine_shape hangul t _ _ _ _ _ _ _ _

theorem captionBlock_shape (s : Surface) (cx cy cw : Int) (likes user : CString)
    (caption comments : Option CString) (expanded : Bool) :
    ((captionBlock hangul (some s) cx cy cw likes user caption comments expanded).1.getD s).shape =
      s.shape := by
  have block : (captionBlock hangul (some s) cx cy cw likes user caption comments
      expanded).1.map Surface.shape = some s.shape := by
    have text (u : Surface) (y : Int) (str : CString) (color : UInt32) :=
      fontDraw_shape hangul u cx y str color
    -- every text keeps the shape, with or without comments
    cases comments with
    | none =>
      apply (captionLines_shape hangul _ cx _ cw caption expanded).trans
      rw [map_shape fun t => text t _ _ _, map_shape fun t => text t _ _ _, Option.map_some]
    | some comments =>
      apply (map_shape fun t => text t _ _ _).trans
      rw [captionLines_shape, map_shape fun t => text t _ _ _, map_shape fun t => text t _ _ _,
        Option.map_some]
  cases drawn : (captionBlock hangul (some s) cx cy cw likes user caption comments expanded).1 with
  | none =>
    rw [drawn] at block
    cases block
  | some t =>
    rw [drawn] at block
    exact Option.some.inj block

theorem drawPost_shape (s : Surface) (x y w : Int) (p : PostView) :
    (drawPost heap hangul s x y w p).1.shape = s.shape := by
  unfold drawPost drawPostCard
  dsimp only
  rw [captionBlock_shape, drawActions_shape, drawPhoto_shape, drawHeader_shape, panelRaised_shape]

theorem drawChrome_shape (fb : Surface) : (drawChrome hangul fb).shape = fb.shape := by
  unfold drawChrome
  dsimp only
  apply (forLoop_frame _ fun i t => surfaceFrame_shape t _ _).trans
  simp

theorem drawScrollable_shape (fb : Surface) (scrollY contentH : Int)
    (fillContent : Surface → Surface) :
    (drawScrollable heap hangul fb scrollY contentH fillContent).shape = fb.shape := by
  unfold drawScrollable
  dsimp only
  rw [drawChrome_shape]
  split
  · split <;> simp
  · exact surfaceFill_shape fb cFace

theorem fillRealPosts_shape (data : FeedData) (content : Surface) :
    (fillRealPosts heap hangul data content).shape = content.shape := by
  have walk (w : Int) (posts : List FeedPost) (st : Surface × Int) :
      (posts.foldl (fillStep heap hangul w) st).1.shape = st.1.shape := by
    induction posts generalizing st with
    | nil => rfl
    | cons fp posts ih => exact (ih _).trans (drawPost_shape heap hangul _ _ _ _ _)
  exact (walk _ _ _).trans (surfaceFill_shape content cFace)

/-! ### The viewport -/

/-- The row of the content that `draw_scrollable` blits to row `y` of the framebuffer. -/
def blittedRow (fb : Surface) (scrollY contentH : Int) (fillContent : Surface → Surface)
    (y : Int) : Option Int :=
  let fb := surfaceFill fb cFace
  let viewH := fb.h - barH - navH
  if viewH > 0 then
    match contentSurface heap fb contentH fillContent with
    | none => none
    | some content =>
      match blitPlan fb 0 barH content
        (some ⟨0, clampScroll contentH viewH scrollY, fb.w, viewH⟩) with
      | none => none
      | some plan =>
        if plan.dy ≤ y ∧ y < plan.dy + plan.sr.h then some (plan.sr.y + (y - plan.dy)) else none
  else none

theorem surfaceFill_h (s : Surface) (color : UInt32) : (surfaceFill s color).h = s.h :=
  congrArg (·.2.1) (surfaceFill_shape s color)

/-- Within the scroll range the clamp changes nothing. -/
theorem clampScroll_inside {contentH viewH scrollY : Int} (low : 0 ≤ scrollY)
    (high : scrollY ≤ max 0 (contentH - viewH)) : clampScroll contentH viewH scrollY = scrollY := by
  unfold clampScroll
  dsimp only
  split_ifs <;> omega

/-- The blit of the content: as wide as the framebuffer, as high as the viewport or what
is left of the content. -/
theorem blitPlan_viewport {fb content : Surface} {scrollY viewH : Int} (wide : 1 ≤ fb.w)
    (view : viewH = fb.h - barH - navH) (tall : 0 < viewH) (sameW : content.w = fb.w)
    (low : 0 ≤ scrollY) (high : scrollY < content.h) :
    blitPlan fb 0 barH content (some ⟨0, scrollY, fb.w, viewH⟩) =
      some ⟨0, barH, ⟨0, scrollY, fb.w, min viewH (content.h - scrollY)⟩⟩ := by
  have bar : barH = 30 := rfl
  have nav : navH = 28 := rfl
  have down : ¬scrollY < 0 := by omega
  have notWider : ¬fb.w > content.w := by omega
  -- the source rectangle is cut at the end of the content only
  have source : clipSource content ⟨0, barH, ⟨0, scrollY, fb.w, viewH⟩⟩ =
      some ⟨0, barH, ⟨0, scrollY, fb.w, min viewH (content.h - scrollY)⟩⟩ := by
    unfold clipSource
    by_cases longer : scrollY + viewH > content.h
    · have rows : min viewH (content.h - scrollY) = content.h - scrollY := by omega
      have some : ¬(fb.w ≤ 0 ∨ content.h - scrollY ≤ 0) := by omega
      simp only [lt_irrefl, if_false, if_neg down, zero_add, if_neg notWider, if_pos longer,
        if_neg some, rows]
    · have rows : min viewH (content.h - scrollY) = viewH := by omega
      have some : ¬(fb.w ≤ 0 ∨ viewH ≤ 0) := by omega
      simp only [lt_irrefl, if_false, if_neg down, zero_add, if_neg notWider, if_neg longer,
        if_neg some, rows]
  unfold blitPlan
  rw [Option.getD_some, source, Option.bind_some]
  -- what remains lies inside the framebuffer
  have below : ¬barH < 0 := by omega
  have inside : ¬barH + min viewH (content.h - scrollY) > fb.h := by omega
  have some : ¬(fb.w ≤ 0 ∨ min viewH (content.h - scrollY) ≤ 0) := by omega
  simp only [clipDest, lt_irrefl, if_false, if_neg below, zero_add, gt_iff_lt, if_neg inside,
    if_neg some]

/-- So it is on the framebuffer after it has been filled. -/
theorem blitPlan_filled {fb content : Surface} {scrollY : Int} (wide : 1 ≤ fb.w)
    (tall : barH + navH < fb.h) (sameW : content.w = fb.w) (low : 0 ≤ scrollY)
    (high : scrollY < content.h) :
    blitPlan (surfaceFill fb cFace) 0 barH content
        (some ⟨0, scrollY, fb.w, fb.h - barH - navH⟩) =
      some ⟨0, barH, ⟨0, scrollY, fb.w, min (fb.h - barH - navH) (content.h - scrollY)⟩⟩ := by
  rw [← surfaceFill_w fb cFace] at wide sameW ⊢
  exact blitPlan_viewport wide (by rw [surfaceFill_h]) (by omega) sameW low high

/-- The blit of the content onto the filled framebuffer: the viewport shows the content from
the scroll offset on, and below it the fill. -/
theorem viewportBlit_pixel {fb content : Surface} {scrollY x y : Int} (stride : fb.w ≤ fb.stride)
    (wide : 1 ≤ fb.w) (tall : barH + navH < fb.h) (sameW : content.w = fb.w)
    (sameStride : content.stride = fb.w) (low : 0 ≤ scrollY) (high : scrollY < content.h)
    (hx : 0 ≤ x) (hx' : x < fb.w) (below : barH ≤ y) (above : y < fb.h - navH) :
    (surfaceBlit (surfaceFill fb cFace) 0 barH content
        (some ⟨0, scrollY, fb.w, fb.h - barH - navH⟩)).pixel x y =
      if y - barH + scrollY < content.h then content.pixel x (y - barH + scrollY)
      else (surfaceFill fb cFace).pixel x y := by
  have bar : barH = 30 := rfl
  have fillStride : (surfaceFill fb cFace).stride = fb.stride :=
    congrArg (·.2.2) (surfaceFill_shape fb cFace)
  have plan := blitPlan_filled wide tall sameW low high
  unfold surfaceBlit
  rw [plan]
  dsimp only
  -- the plan lies inside both surfaces and covers the rows that the content reaches
  have fits : BlitPlan.Fits ⟨0, barH, ⟨0, scrollY, fb.w,
      min (fb.h - barH - navH) (content.h - scrollY)⟩⟩ content (surfaceFill fb cFace) := by
    constructor <;> dsimp only <;> omega
  have covers : BlitPlan.Covers ⟨0, barH, ⟨0, scrollY, fb.w,
      min (fb.h - barH - navH) (content.h - scrollY)⟩⟩ x y ↔ y - barH + scrollY < content.h := by
    unfold BlitPlan.Covers
    dsimp only
    omega
  rw [blitRows_pixel fits hx (by omega) (by omega)]
  by_cases shown : y - barH + scrollY < content.h
  · rw [if_pos (covers.mpr shown), if_pos shown]
    dsimp only
    congr 1
    · omega
    · omega
  · rw [if_neg (fun covered => shown (covers.mp covered)), if_neg shown]

/-- The content surface has the width of the framebuffer and the height of the content. -/
theorem contentSurface_size {fb : Surface} {contentH : Int} (positive : 0 < contentH)
    {fillContent : Surface → Surface} (keeps : ∀ s, (fillContent s).shape = s.shape)
    {content : Surface} (drawn : contentSurface heap fb contentH fillContent = some content) :
    content.w = fb.w ∧ content.h = contentH ∧ content.stride = fb.w := by
  unfold contentSurface at drawn
  rw [if_pos positive] at drawn
  obtain ⟨blank, allocated, rfl⟩ := Option.map_eq_some_iff.mp drawn
  have shape := keeps blank
  obtain ⟨-, rfl⟩ := surfaceAlloc_size allocated
  exact ⟨congrArg Prod.fst shape, congrArg (·.2.1) shape, congrArg (·.2.2) shape⟩

section Viewport

variable {fb : Surface} {scrollY contentH : Int} {fillContent : Surface → Surface}

/-- A row of the viewport shows the content row at the scroll offset, as far as there is
content; nothing else is blitted. -/
theorem blittedRow_eq (wide : 1 ≤ fb.w) (tall : barH + navH < fb.h) (positive : 0 < contentH)
    (keeps : ∀ s, (fillContent s).shape = s.shape) (low : 0 ≤ scrollY)
    (high : scrollY ≤ max 0 (contentH - (fb.h - barH - navH))) (y : Int) :
    blittedRow heap fb scrollY contentH fillContent y =
      if (contentSurface heap fb contentH fillContent).isSome ∧ barH ≤ y ∧ y < fb.h - navH ∧
          y - barH + scrollY < contentH then
        some (y - barH + scrollY)
      else none := by
  have sameSurface : contentSurface heap (surfaceFill fb cFace) contentH fillContent =
      contentSurface heap fb contentH fillContent := by
    rw [contentSurface, surfaceFill_w]
    rfl
  unfold blittedRow
  dsimp only
  rw [surfaceFill_w, surfaceFill_h, sameSurface, if_pos (show fb.h - barH - navH > 0 by omega)]
  cases drawn : contentSurface heap fb contentH fillContent with
  | none => simp
  | some content =>
    obtain ⟨sameW, sameH, -⟩ := contentSurface_size heap positive keeps drawn
    have plan := blitPlan_filled wide tall sameW low (by omega)
    dsimp only
    rw [clampScroll_inside low high, plan, sameH]
    dsimp only [Option.isSome]
    by_cases shown : barH ≤ y ∧ y < fb.h - navH ∧ y - barH + scrollY < contentH
    · rw [if_pos (by omega), if_pos ⟨rfl, shown⟩]
      congr 1
      omega
    · rw [if_neg (by omega), if_neg fun all => shown all.2]

/-- The pixels of a blitted row are those of the content row. -/
theorem blittedRow_pixel (stride : fb.w ≤ fb.stride) (wide : 1 ≤ fb.w)
    (tall : barH + navH < fb.h) (positive : 0 < contentH)
    (keeps : ∀ s, (fillContent s).shape = s.shape) (low : 0 ≤ scrollY)
    (high : scrollY ≤ max 0 (contentH - (fb.h - barH - navH))) {content : Surface}
    (drawn : contentSurface heap fb contentH fillContent = some content) {x y row : Int}
    (blitted : blittedRow heap fb scrollY contentH fillContent y = some row) (hx : 0 ≤ x)
    (hx' : x < fb.w) :
    (surfaceBlit (surfaceFill fb cFace) 0 barH content
      (some ⟨0, scrollY, fb.w, fb.h - barH - navH⟩)).pixel x y = content.pixel x row := by
  obtain ⟨sameW, sameH, sameStride⟩ := contentSurface_size heap positive keeps drawn
  rw [blittedRow_eq heap wide tall positive keeps low high, drawn] at blitted
  split_ifs at blitted with shown
  obtain ⟨-, below, above, inside⟩ := shown
  cases blitted
  rw [viewportBlit_pixel stride wide tall sameW sameStride low (by omega) hx hx' below above,
    if_pos (by omega)]

end Viewport

end InstagramNt40.Feed
