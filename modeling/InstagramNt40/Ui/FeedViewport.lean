import InstagramNt40.Core.FontMemory
import InstagramNt40.Ui.FeedClick

/-!
# The viewport and the bars

The rows between the bars are a window onto the content. The bars are drawn over
everything, so that no pixel of theirs depends on the feed.
-/
namespace InstagramNt40.Feed

open Crt Loop Raster Font

variable (heap : Heap) (hangul : HangulData)

/-- The scroll offset, moved into the range of the content. -/
def clampedScroll (data : FeedData) (fb : Surface) (scrollY : Int) : Int :=
  max 0 (min scrollY (maxScroll hangul data fb))

/-- The surface that `ui_feed_render_real` draws the posts on. -/
def realContent (data : FeedData) (fb : Surface) : Option Surface :=
  contentSurface heap fb (uiFeedContentHeightReal hangul fb.w data)
    (fillRealPosts heap hangul data)

/-- Between the bars, the content from the scroll offset on, and the face colour below. -/
def ShowsContent (data : FeedData) (fb : Surface) (scrollY : Int) : Prop :=
  ∀ content, realContent heap hangul data fb = some content →
    ∀ x y, 0 ≤ x → x < fb.w → barH + 1 ≤ y → y < fb.h - navH →
      (uiFeedRenderReal heap hangul data fb scrollY).pixel x y =
        if y - barH + clampedScroll hangul data fb scrollY < content.h then
          content.pixel x (y - barH + clampedScroll hangul data fb scrollY)
        else cFace

/-- The rows of the app bar, with the line below it, and of the navigation bar. -/
def InBars (h y : Int) : Prop := y ≤ barH ∨ h - navH ≤ y

/-- Two screens have the same bars. -/
def SameBars (w h : Int) (s t : Surface) : Prop :=
  ∀ x y, 0 ≤ x → x < w → 0 ≤ y → y < h → InBars h y → s.pixel x y = t.pixel x y

/-! ### The bars -/

def drawName (fb : Surface) : Surface :=
  fontDrawScaled hangul fb 10 8 (cstring "Instagram") cWhite 2

def drawMessages (fb : Surface) : Surface := surfaceFrame fb ⟨fb.w - 26, 8, 16, 14⟩ cWhite

/-- The first half of `draw_chrome`. -/
def drawAppBar (fb : Surface) : Surface :=
  let fb := surfaceFillRect fb ⟨0, 0, fb.w, barH⟩ cIgBlue
  let fb := surfaceHline fb 0 barH fb.w cDark
  drawMessages (drawName hangul fb)

/-- The loop of `draw_chrome`, in a navigation bar from row `y` on. -/
def drawIcons (y : Int) (fb : Surface) : Surface :=
  forLoop 5 (fun i fb =>
    let ix := fb.w.tdiv 5 * i + (fb.w.tdiv 5).tdiv 2 - 8
    surfaceFrame fb ⟨ix, y + 8, 16, 14⟩ (if i = 0 then cIgBlue else cInk)) fb

/-- What `draw_chrome` draws onto the navigation bar. -/
def drawNavIcons (y : Int) (fb : Surface) : Surface :=
  let fb := surfaceHline fb 0 y fb.w cHilight
  let fb := surfaceHline fb 0 (y + 1) fb.w cShadow
  drawIcons y fb

theorem drawChrome_bars (fb : Surface) : drawChrome hangul fb =
    drawNavIcons ((drawAppBar hangul fb).h - navH) (surfaceFillRect (drawAppBar hangul fb)
      ⟨0, (drawAppBar hangul fb).h - navH, (drawAppBar hangul fb).w, navH⟩ cFace) := rfl

section Bars

variable {w h : Int}

/-- A filled band from edge to edge. -/
theorem paints_band (y rows : Int) (color : UInt32) :
    Paints w h (fun _ row => y ≤ row ∧ row < y + rows) fun s =>
      surfaceFillRect s ⟨0, y, s.w, rows⟩ color := by
  apply Paints.congr (fun s => surfaceFillRect s ⟨0, y, w, rows⟩ color)
  · intro s sized
    rw [sized.width]
  · apply (Paints.fillRect _ color).mono
    intro px py within
    exact within.2.2

theorem overwrites_band {x row : Int} (y rows : Int) (color : UInt32) (hx : 0 ≤ x) (hx' : x < w)
    (visible : 0 ≤ row ∧ row < h) (inside : y ≤ row ∧ row < y + rows) :
    Overwrites w h x row fun s => surfaceFillRect s ⟨0, y, s.w, rows⟩ color := by
  apply Overwrites.congr (fun s => surfaceFillRect s ⟨0, y, w, rows⟩ color)
  · intro s sized
    rw [sized.width]
  · apply Overwrites.fillRect color _ hx hx' visible.1 visible.2
    unfold Rect.Holds
    dsimp only
    omega

/-- An icon of a bar, its place given by the width. -/
theorem paints_icon (left : Int → Int) (y : Int) (color : UInt32) :
    Paints w h (fun _ row => y ≤ row ∧ row < y + 14) fun s =>
      surfaceFrame s ⟨left s.w, y, 16, 14⟩ color := by
  apply Paints.congr (fun s => surfaceFrame s ⟨left w, y, 16, 14⟩ color)
  · intro s sized
    rw [sized.width]
  · apply (Paints.frame _ color).mono
    intro px py within
    exact within.2.2

theorem paints_title :
    Paints w h (fun _ row => 8 ≤ row ∧ row < 22) fun s => drawMessages (drawName hangul s) := by
  have printable : ∀ c ∈ cstring "Instagram", isPrintable c = true := by decide +kernel
  have name : Paints w h (fun _ row => 8 ≤ row ∧ row < 22) (drawName hangul) := by
    apply (fontDrawScaled_latin hangul 10 8 cWhite printable (by decide)).mono
    intro px py within
    exact within.2.2
  have messages : Paints w h (fun _ row => 8 ≤ row ∧ row < 22) drawMessages :=
    (paints_icon (· - 26) 8 cWhite).mono fun _ _ within => by omega
  exact name.comp messages

theorem paints_navIcons (y : Int) :
    Paints w h (fun _ row => y ≤ row ∧ row < y + navH) (drawNavIcons y) := by
  have nav : navH = 28 := rfl
  have light : Paints w h (fun _ row => y ≤ row ∧ row < y + navH) fun s =>
      surfaceHline s 0 y s.w cHilight :=
    (paints_band y 1 cHilight).mono fun _ _ within => by omega
  have dark : Paints w h (fun _ row => y ≤ row ∧ row < y + navH) fun s =>
      surfaceHline s 0 (y + 1) s.w cShadow :=
    (paints_band (y + 1) 1 cShadow).mono fun _ _ within => by omega
  have icons : Paints w h (fun _ row => y ≤ row ∧ row < y + navH) (drawIcons y) := by
    apply Paints.loop
    intro i _
    have icon := paints_icon (w := w) (h := h)
      (fun w => w.tdiv 5 * i + (w.tdiv 5).tdiv 2 - 8) (y + 8) (if i = 0 then cIgBlue else cInk)
    apply icon.mono
    intro _ row within
    omega
  have lines := light.comp dark
  have all := lines.comp icons
  exact all

theorem paints_appBar : Paints w h (fun _ row => row ≤ barH) (drawAppBar hangul) := by
  have bar : barH = 30 := rfl
  have band : Paints w h (fun _ row => row ≤ barH) fun s =>
      surfaceFillRect s ⟨0, 0, s.w, barH⟩ cIgBlue :=
    (paints_band 0 barH cIgBlue).mono fun _ _ within => by omega
  have line : Paints w h (fun _ row => row ≤ barH) fun s => surfaceHline s 0 barH s.w cDark :=
    (paints_band barH 1 cDark).mono fun _ _ within => by omega
  have title : Paints w h (fun _ row => row ≤ barH) fun s => drawMessages (drawName hangul s) :=
    (paints_title hangul).mono fun _ _ within => by omega
  exact (band.comp line).comp title

theorem drawAppBar_shape (fb : Surface) : (drawAppBar hangul fb).shape = fb.shape := by
  simp [drawAppBar, drawMessages, drawName]

/-- `draw_chrome` on surfaces of height `h`. -/
theorem drawChrome_eq {fb : Surface} (sized : fb.Sized w h) : drawChrome hangul fb =
    drawNavIcons (h - navH) (surfaceFillRect (drawAppBar hangul fb)
      ⟨0, h - navH, (drawAppBar hangul fb).w, navH⟩ cFace) := by
  have height := (sized.of_shape (drawAppBar_shape hangul fb)).height
  rw [drawChrome_bars, height]

theorem paints_chrome : Paints w h (fun _ y => InBars h y) (drawChrome hangul) := by
  have appBar : Paints w h (fun _ y => InBars h y) (drawAppBar hangul) :=
    (paints_appBar hangul).mono fun _ _ within => .inl within
  have navBar : Paints w h (fun _ y => InBars h y) fun s =>
      surfaceFillRect s ⟨0, h - navH, s.w, navH⟩ cFace :=
    (paints_band (h - navH) navH cFace).mono fun _ _ within => .inr within.1
  have icons : Paints w h (fun _ y => InBars h y) (drawNavIcons (h - navH)) :=
    (paints_navIcons (h - navH)).mono fun _ _ within => .inr within.1
  have bars := appBar.comp navBar
  have all := bars.comp icons
  exact Paints.congr _ (fun s sized => drawChrome_eq hangul sized) all

/-- The blue band covers the app bar, and the dark line the row below it. -/
theorem appBar_overwrites {x y : Int} (hx : 0 ≤ x) (hx' : x < w) (hy : 0 ≤ y) (hy' : y < h)
    (inside : y ≤ barH) : Overwrites w h x y (drawAppBar hangul) := by
  have blue (s : Surface) : (surfaceFillRect s ⟨0, 0, s.w, barH⟩ cIgBlue).shape = s.shape :=
    surfaceFillRect_shape s _ _
  have bands : Overwrites w h x y fun s =>
      surfaceHline (surfaceFillRect s ⟨0, 0, s.w, barH⟩ cIgBlue) 0 barH
        (surfaceFillRect s ⟨0, 0, s.w, barH⟩ cIgBlue).w cDark := by
    rcases Int.lt_or_eq_of_le inside with above | last
    · exact (overwrites_band 0 barH cIgBlue hx hx' ⟨hy, hy'⟩ (by omega)).after blue
        (paints_band barH 1 cDark) hx hx' hy
    · exact (overwrites_band barH 1 cDark hx hx' ⟨hy, hy'⟩ (by omega)).before blue
  have all := bands.after (fun s => by simp) (paints_title hangul) hx hx' hy
  exact all

/-- Whatever was there, a pixel of the bars is covered first. -/
theorem chrome_overwrites {x y : Int} (hx : 0 ≤ x) (hx' : x < w) (hy : 0 ≤ y) (hy' : y < h)
    (bars : InBars h y) : Overwrites w h x y (drawChrome hangul) := by
  have bar : barH = 30 := rfl
  have nav : navH = 28 := rfl
  have appBar := drawAppBar_shape hangul
  have face : Overwrites w h x y fun s =>
      surfaceFillRect (drawAppBar hangul s) ⟨0, h - navH, (drawAppBar hangul s).w, navH⟩ cFace := by
    rcases bars with above | below
    · exact (appBar_overwrites hangul hx hx' hy hy' above).after appBar
        (paints_band (h - navH) navH cFace) hx hx' hy
    · exact (overwrites_band (h - navH) navH cFace hx hx' ⟨hy, hy'⟩ (by omega)).before appBar
  apply Overwrites.congr _ fun s sized => drawChrome_eq hangul sized
  apply face.after _ (paints_navIcons (h - navH)) hx hx' hy
  intro s
  rw [surfaceFillRect_shape, appBar]

end Bars

/-! ### The viewport -/

/-- What `draw_scrollable` has drawn before the bars. -/
def drawView (fb : Surface) (scrollY contentH : Int) (fillContent : Surface → Surface) :
    Surface :=
  let fb := surfaceFill fb cFace
  let viewH := fb.h - barH - navH
  if viewH > 0 then
    match contentSurface heap fb contentH fillContent with
    | some content =>
      surfaceBlit fb 0 barH content (some ⟨0, clampScroll contentH viewH scrollY, fb.w, viewH⟩)
    | none => fb
  else fb

theorem drawScrollable_view (fb : Surface) (scrollY contentH : Int)
    (fillContent : Surface → Surface) :
    drawScrollable heap hangul fb scrollY contentH fillContent =
      drawChrome hangul (drawView heap fb scrollY contentH fillContent) := rfl

theorem drawView_shape (fb : Surface) (scrollY contentH : Int)
    (fillContent : Surface → Surface) :
    (drawView heap fb scrollY contentH fillContent).shape = fb.shape := by
  unfold drawView
  dsimp only
  split
  · split <;> simp
  · exact surfaceFill_shape fb cFace

theorem clampScroll_eq (contentH viewH scrollY : Int) :
    clampScroll contentH viewH scrollY = max 0 (min scrollY (max 0 (contentH - viewH))) := by
  unfold clampScroll
  dsimp only
  split_ifs <;> omega

section View

variable {fb content : Surface} {scrollY contentH : Int} {fillContent : Surface → Surface}

/-- The blit covers the rows of the viewport as far as there is content; below it the fill
remains. -/
theorem drawView_pixel (stride : fb.w ≤ fb.stride) (wide : 1 ≤ fb.w)
    (tall : barH + navH < fb.h) (positive : 0 < contentH)
    (keeps : ∀ s, (fillContent s).shape = s.shape)
    (drawn : contentSurface heap fb contentH fillContent = some content) {x y s : Int}
    (clamped : clampScroll contentH (fb.h - barH - navH) scrollY = s) (hx : 0 ≤ x)
    (hx' : x < fb.w) (below : barH ≤ y) (above : y < fb.h - navH) :
    (drawView heap fb scrollY contentH fillContent).pixel x y =
      if y - barH + s < content.h then content.pixel x (y - barH + s) else cFace := by
  have bar : barH = 30 := rfl
  have nav : navH = 28 := rfl
  obtain ⟨sameW, sameH, sameStride⟩ := contentSurface_size heap positive keeps drawn
  have range : 0 ≤ s ∧ s < content.h := by
    rw [clampScroll_eq] at clamped
    omega
  have sameSurface : contentSurface heap (surfaceFill fb cFace) contentH fillContent =
      some content := by
    rw [← drawn, contentSurface, surfaceFill_w]
    rfl
  have fill : (surfaceFill fb cFace).pixel x y = cFace := by
    rw [surfaceFill_pixel cFace stride hx (by omega) (by omega), if_pos (by omega)]
  unfold drawView
  dsimp only
  rw [surfaceFill_h, surfaceFill_w, if_pos (by omega), sameSurface, clamped]
  dsimp only
  rw [viewportBlit_pixel stride wide tall sameW sameStride range.1 range.2 hx hx' below above, fill]

end View

/-! ### The two laws -/

section Window

variable {hangul} {data : FeedData} {fb : Surface}

theorem realContent_wide {content : Surface}
    (drawn : realContent heap hangul data fb = some content) : 1 ≤ fb.w := by
  unfold realContent contentSurface at drawn
  obtain ⟨blank, allocated, -⟩ := Option.map_eq_some_iff.mp drawn
  exact (surfaceAlloc_size allocated).1.1

theorem showsContent (stride : fb.w ≤ fb.stride) (scrollY : Int) :
    ShowsContent heap hangul data fb scrollY := by
  have bar : barH = 30 := rfl
  have nav : navH = 28 := rfl
  intro content drawn x y hx hx' below above
  have wide := realContent_wide heap drawn
  have tall : barH + navH < fb.h := by omega
  have view := drawView_pixel heap stride wide tall (uiFeedContentHeightReal_pos hangul wide data)
    (fillRealPosts_shape heap hangul data) drawn (clampScroll_eq _ _ scrollY) hx hx' (by omega)
    above
  have sized : (drawView heap fb scrollY (uiFeedContentHeightReal hangul fb.w data)
      (fillRealPosts heap hangul data)).Sized fb.w fb.h :=
    Surface.Sized.of_shape ⟨rfl, rfl, stride⟩ (drawView_shape heap fb scrollY _ _)
  -- the bars leave these rows alone
  have bars := (paints_chrome hangul).outside sized.width sized.height sized.stride hx
    (by have := sized.stride; omega) (by omega) (show ¬InBars fb.h y by unfold InBars; omega)
  rw [uiFeedRenderReal, drawScrollable_view, bars]
  exact view

/-- Whatever the feeds and the scroll offsets are, two windows of a size have the same
bars. -/
theorem sameBars {heap' : Heap} {data' : FeedData} {fb' : Surface} (stride : fb.w ≤ fb.stride)
    (stride' : fb'.w ≤ fb'.stride) (sameW : fb'.w = fb.w) (sameH : fb'.h = fb.h)
    (scrollY scrollY' : Int) :
    SameBars fb.w fb.h (uiFeedRenderReal heap hangul data fb scrollY)
      (uiFeedRenderReal heap' hangul data' fb' scrollY') := by
  intro x y hx hx' hy hy' bars
  have first : (drawView heap fb scrollY (uiFeedContentHeightReal hangul fb.w data)
      (fillRealPosts heap hangul data)).Sized fb.w fb.h :=
    Surface.Sized.of_shape ⟨rfl, rfl, stride⟩ (drawView_shape heap fb scrollY _ _)
  have second : (drawView heap' fb' scrollY' (uiFeedContentHeightReal hangul fb'.w data')
      (fillRealPosts heap' hangul data')).Sized fb.w fb.h :=
    Surface.Sized.of_shape ⟨sameW, sameH, sameW ▸ stride'⟩ (drawView_shape heap' fb' scrollY' _ _)
  rw [uiFeedRenderReal, uiFeedRenderReal, drawScrollable_view, drawScrollable_view]
  have covered := chrome_overwrites hangul hx hx' hy hy' bars
  exact covered _ _ first second

/-- The viewport is a window onto the content, and nothing of a feed shows in the bars. -/
theorem viewport_window {heap' : Heap} {data' : FeedData} {fb' : Surface}
    (stride : fb.w ≤ fb.stride) (stride' : fb'.w ≤ fb'.stride) (sameW : fb'.w = fb.w)
    (sameH : fb'.h = fb.h) (scrollY scrollY' : Int) :
    ShowsContent heap hangul data fb scrollY ∧
      SameBars fb.w fb.h (uiFeedRenderReal heap hangul data fb scrollY)
        (uiFeedRenderReal heap' hangul data' fb' scrollY') :=
  ⟨showsContent heap stride scrollY, sameBars heap stride stride' sameW sameH scrollY scrollY'⟩

end Window

/-- Two posts scrolled by 100 pixels, and no posts scrolled too far. -/
theorem viewport_window_posts :
    (realContent .roomy ⟨#[], #[]⟩ twoPosts windowFb).isSome ∧
      ShowsContent .roomy ⟨#[], #[]⟩ twoPosts windowFb 100 ∧
      SameBars windowFb.w windowFb.h (uiFeedRenderReal .roomy ⟨#[], #[]⟩ twoPosts windowFb 100)
        (uiFeedRenderReal .roomy ⟨#[], #[]⟩ ⟨[]⟩ windowFb (-5)) := by
  have allocated : (realContent .roomy ⟨#[], #[]⟩ twoPosts windowFb).isSome := by
    unfold realContent contentSurface
    rw [Option.isSome_map]
    decide +kernel
  have stride : windowFb.w ≤ windowFb.stride := by decide
  exact ⟨allocated, viewport_window .roomy stride stride rfl rfl 100 (-5)⟩

end InstagramNt40.Feed
