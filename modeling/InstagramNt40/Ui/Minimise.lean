import InstagramNt40.Ui.FeedClick
import InstagramNt40.Ui.Main

/-!
# Minimising the window

A minimised window is sent a size of 0 x 0, and `WM_SIZE` takes it for a size like any
other: the offset is clamped to the content of a window that is one pixel wide.
-/
namespace InstagramNt40.Main

open Crt Raster Font Feed

variable (heap : Heap) (hangul : HangulData)

/-- A window of one pixel has no viewport: it could be scrolled by the whole content. -/
theorem scrollRange_pixel {U : Type} {app : Window.App U} {contentH : Int → U → Int} (user : U)
    (chrome : app.chromeH = uiFeedChromeHeight) (scrolls : app.contentHeight = some contentH)
    (positive : 0 < contentH 1 user) : Window.scrollRange app user 1 1 = contentH 1 user := by
  have bars : app.chromeH = 58 := chrome
  unfold Window.scrollRange Window.maxScroll
  rw [scrolls]
  dsimp only
  rw [bars]
  split_ifs <;> omega

/-- When minimising and restoring leaves the offset alone. `hidden` and `shown` tell
whether the two backbuffers are created. -/
structure MinimiseExact {U : Type} (app : Window.App U) (contentH : Int → U → Int)
    (pw : Window.PalWindow U) : Prop where
  /-- The backbuffer has the size of the client area. -/
  restored : ∀ (hidden shown : Bool) (w h : UInt16),
    pw.w = max 1 (w.toNat : Int) → pw.h = max 1 (h.toNat : Int) →
      ((Window.minimiseRestore app hidden shown w h pw).scrollY = pw.scrollY ↔
        hidden = false ∨ pw.scrollY ≤ contentH 1 pw.user)
  /-- The last backbuffer was not created, or the window comes back with another size. -/
  resized : ∀ (hidden shown : Bool) (w h : UInt16),
    (Window.minimiseRestore app hidden shown w h pw).scrollY = pw.scrollY ↔
      (hidden = false ∨ pw.scrollY ≤ contentH 1 pw.user) ∧
        (shown = false ∨ pw.scrollY ≤
          Window.scrollRange app pw.user (max 1 (w.toNat : Int)) (max 1 (h.toNat : Int)))

theorem minimiseExact_of_inv {U : Type} {app : Window.App U} {contentH : Int → U → Int}
    {pw : Window.PalWindow U} (inv : Window.Inv app pw) (chrome : app.chromeH = uiFeedChromeHeight)
    (scrolls : app.contentHeight = some contentH) (positive : ∀ user, 0 < contentH 1 user) :
    MinimiseExact app contentH pw := by
  have pixel := scrollRange_pixel pw.user chrome scrolls (positive pw.user)
  constructor
  · intro hidden shown w h sameW sameH
    rw [Window.minimiseRestore_keeps_iff inv, pixel, ← sameW, ← sameH, ← Window.maxScroll_eq]
    -- the window had this size before
    exact and_iff_left (.inr inv.high)
  · intro hidden shown w h
    rw [Window.minimiseRestore_keeps_iff inv, pixel]

/-- In every run of messages, with either feed: the offset survives being minimised exactly
if it is within the content of a window that is one pixel wide. -/
theorem run_minimiseExact :
    (∀ (data : FeedData) (created : Bool) (w h : Int) (msgs : List Window.Msg),
      MinimiseExact (realApp heap hangul) (uiFeedContentHeightReal hangul)
        (Window.run (realApp heap hangul)
          (Window.create (realApp heap hangul) data created w h) msgs)) ∧
    ∀ (imgs : FeedImages) (created : Bool) (w h : Int) (msgs : List Window.Msg),
      MinimiseExact (mockApp heap hangul) (fun width _ => uiFeedContentHeight hangul width)
        (Window.run (mockApp heap hangul)
          (Window.create (mockApp heap hangul) imgs created w h) msgs) := by
  constructor
  · intro data created w h msgs
    exact minimiseExact_of_inv (Window.run_inv (Window.create_inv _ data created w h) msgs) rfl rfl
      fun user => uiFeedContentHeightReal_pos hangul (by decide) user
  · intro imgs created w h msgs
    exact minimiseExact_of_inv (Window.run_inv (Window.create_inv _ imgs created w h) msgs) rfl rfl
      fun _ => uiFeedContentHeight_pos hangul (by decide)

/-- The window with two posts, scrolled to the end. -/
def scrolledDown : Window.PalWindow FeedData :=
  Window.run (realApp .roomy ⟨#[], #[]⟩)
    (Window.create (realApp .roomy ⟨#[], #[]⟩) twoPosts true 340 600) [.keyDown 0x23]

/-- Minimised and restored, it is no longer where it was. -/
theorem not_minimise_kept : scrolledDown.w = 340 ∧ scrolledDown.h = 600 ∧
    (Window.minimiseRestore (realApp .roomy ⟨#[], #[]⟩) true true 340 600 scrolledDown).scrollY ≠
      scrolledDown.scrollY := by
  decide +kernel

end InstagramNt40.Main
