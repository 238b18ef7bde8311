import InstagramNt40.Pal.Window
import InstagramNt40.Ui.FeedRender

/-!
# ui/main.c

The two feeds that the window is opened with, and the scroll offset: the window keeps it,
the scrollbar shows it, and drawing and clicks both get it.
-/
namespace InstagramNt40.Main

open Crt Raster Font Feed

variable (heap : Heap) (hangul : HangulData)

/-! ### The two feeds -/

theorem uiFeedClickReal_zero (x y scrollY width : Int) (data : FeedData)
    (missed : (uiFeedClickReal hangul x y scrollY width data).1 = 0) :
    (uiFeedClickReal hangul x y scrollY width data).2 = data := by
  unfold uiFeedClickReal at missed ⊢
  dsimp only at missed ⊢
  split at missed
  next above => rw [if_pos above]
  next below =>
    rw [if_neg below]
    -- a hit returns 1
    split at missed
    · cases missed
    · rfl

/-- The call of `pal_run_window` with the real feed. -/
def realApp : Window.App FeedData where
  chromeH := uiFeedChromeHeight
  render data fb scrollY := uiFeedRenderReal heap hangul data fb scrollY
  contentHeight := some (uiFeedContentHeightReal hangul)
  click := some (uiFeedClickReal hangul)
  render_shape _ fb _ := drawScrollable_shape heap hangul fb _ _ _
  click_zero := by
    rintro f eq x y scrollY width data missed
    cases eq
    exact uiFeedClickReal_zero hangul x y scrollY width data missed

/-- The call of `pal_run_window` with the demo feed. -/
def mockApp : Window.App FeedImages where
  chromeH := uiFeedChromeHeight
  render imgs fb scrollY := uiFeedRender heap hangul (some imgs) fb scrollY
  contentHeight := some fun width _ => uiFeedContentHeight hangul width
  click := none
  render_shape _ fb _ := drawScrollable_shape heap hangul fb _ _ _
  click_zero := nofun

/-! ### The scroll offset -/

/-- The offset lies in the scroll range; the scrollbar shows it while the viewport has a
row; and the next message draws or clicks with it, where `draw_scrollable`, which is
given the content height `contentH`, clamps nothing. -/
structure ScrollAgrees {U : Type} (shows : Window.ScrollInfo → Int) (app : Window.App U)
    (contentH : Int → U → Int) (pw : Window.PalWindow U) : Prop where
  low : 0 ≤ pw.scrollY
  high : pw.scrollY ≤ Window.maxScroll app pw
  shown : app.chromeH < pw.h → shows pw.bar = pw.scrollY
  drawn : ∀ msg fb scrollY, .render fb scrollY ∈ (Window.wndproc app pw msg).2 →
    scrollY = pw.scrollY ∧ (app.chromeH < pw.h →
      clampScroll (contentH fb.w pw.user) (fb.h - barH - navH) scrollY = scrollY)
  clicked : ∀ msg x y scrollY width, .click x y scrollY width ∈ (Window.wndproc app pw msg).2 →
    scrollY = pw.scrollY

theorem scrollAgrees_of_inv {U : Type} {app : Window.App U} {contentH : Int → U → Int}
    {shows : Window.ScrollInfo → Int} (inRange : Window.ShowsInRange shows)
    {pw : Window.PalWindow U} (inv : Window.Inv app pw) (chrome : app.chromeH = uiFeedChromeHeight)
    (scrolls : app.contentHeight = some contentH) : ScrollAgrees shows app contentH pw := by
  constructor
  · exact inv.low
  · exact inv.high
  · exact inv.shown inRange scrolls
  · intro msg fb scrollY made
    obtain ⟨same, sameW, sameH⟩ := inv.calls msg made
    refine ⟨same, fun tall => clampScroll_inside ?_ ?_⟩
    · rw [same]
      exact inv.low
    · -- the framebuffer has the size of the window, so both clamps have the same range
      have high := inv.high
      unfold Window.maxScroll at high
      rw [scrolls] at high
      dsimp only at high
      rw [chrome] at high tall
      unfold uiFeedChromeHeight at high tall
      rw [same, sameW, sameH]
      split_ifs at high <;> omega
  · intro msg x y scrollY width made
    exact (inv.calls msg made).1

/-- In every run of messages, with either feed, the offset is kept in its range, shown by a
scrollbar that shows what is in its range, and used as it is. -/
theorem run_scrollAgrees (shows : Window.ScrollInfo → Int) (inRange : Window.ShowsInRange shows) :
    (∀ (data : FeedData) (created : Bool) (w h : Int) (msgs : List Window.Msg),
      ScrollAgrees shows (realApp heap hangul) (uiFeedContentHeightReal hangul)
        (Window.run (realApp heap hangul)
          (Window.create (realApp heap hangul) data created w h) msgs)) ∧
    ∀ (imgs : FeedImages) (created : Bool) (w h : Int) (msgs : List Window.Msg),
      ScrollAgrees shows (mockApp heap hangul) (fun width _ => uiFeedContentHeight hangul width)
        (Window.run (mockApp heap hangul)
          (Window.create (mockApp heap hangul) imgs created w h) msgs) := by
  constructor
  · intro data created w h msgs
    exact scrollAgrees_of_inv inRange
      (Window.run_inv (Window.create_inv _ data created w h) msgs) rfl rfl
  · intro imgs created w h msgs
    exact scrollAgrees_of_inv inRange
      (Window.run_inv (Window.create_inv _ imgs created w h) msgs) rfl rfl

/-- The position that the range and the page leave nearest to the one that was passed. -/
def nearest (si : Window.ScrollInfo) : Int :=
  max 0 (min si.nPos (si.nMax - max (min si.nPage (si.nMax + 1) - 1) 0))

theorem nearest_inRange : Window.ShowsInRange nearest := by
  intro si _ low high
  unfold nearest
  omega

/-- The demo feed, scrolled to its end, and then the window is made smaller. -/
theorem run_scrollAgrees_nearest :
    ScrollAgrees nearest (mockApp .roomy ⟨#[], #[]⟩)
      (fun width _ => uiFeedContentHeight ⟨#[], #[]⟩ width)
      (Window.run (mockApp .roomy ⟨#[], #[]⟩)
        (Window.create (mockApp .roomy ⟨#[], #[]⟩) ⟨fun _ => none⟩ true 340 600)
        [.keyDown 0x23, .size true 200 300]) :=
  (run_scrollAgrees .roomy ⟨#[], #[]⟩ nearest nearest_inRange).2 ⟨fun _ => none⟩ true 340
    600 [.keyDown 0x23, .size true 200 300]

end InstagramNt40.Main
