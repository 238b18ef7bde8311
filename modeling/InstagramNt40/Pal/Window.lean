import InstagramNt40.Core.Raster

/-!
# pal/pal_win32.c

The window procedure: a step on the state of the window for each message, with the calls
of the callbacks that it makes. The scrollbar is the system's: the window keeps what it has
passed for it, and what the scrollbar shows then is a parameter.
-/
namespace InstagramNt40.Window

open Raster

/-! ### The scrollbar -/

/-- What was last passed for the scrollbar, by `SetScrollInfo` or, the position alone, by
`SetScrollPos`. `nMin` is always 0. -/
structure ScrollInfo where
  nMax : Int
  nPage : Int
  nPos : Int
  deriving DecidableEq, Repr

/-- A scrollbar checks the range: a page is at most as large as the range, and a position
leaves room for the page. A position in the range is shown as it is. -/
def ShowsInRange (shows : ScrollInfo → Int) : Prop :=
  ∀ si, 0 ≤ si.nMax → 0 ≤ si.nPos →
    si.nPos ≤ si.nMax - max (min si.nPage (si.nMax + 1) - 1) 0 → shows si = si.nPos

/-! ### The window -/

/-- The arguments of `pal_run_window`; `U` is what `user` points to. A callback draws on a
surface without replacing it, and a click that returns 0 has changed nothing. -/
structure App (U : Type) where
  chromeH : Int
  render : U → Surface → Int → Surface
  contentHeight : Option (Int → U → Int)
  click : Option (Int → Int → Int → Int → U → Int × U)
  render_shape : ∀ user fb scrollY, (render user fb scrollY).shape = fb.shape
  click_zero : ∀ f, click = some f → ∀ x y scrollY width user,
    (f x y scrollY width user).1 = 0 → (f x y scrollY width user).2 = user

/-- `PalWindow`, with what its window has passed for the scrollbar. `fb` is there while
`fb.pixels` is. -/
structure PalWindow (U : Type) where
  user : U
  fb : Option Surface
  w : Int
  h : Int
  scrollY : Int
  bar : ScrollInfo

/-- A call of a callback. -/
inductive Call where
  | render (fb : Surface) (scrollY : Int)
  | click (x y scrollY width : Int)

variable {U : Type} (app : App U)

/-- `create_backbuffer`; `created` tells whether the DIB section is. Its pixels are new. -/
def createBackbuffer (created : Bool) (w h : Int) (pw : PalWindow U) : PalWindow U :=
  let w := if w < 1 then 1 else w
  let h := if h < 1 then 1 else h
  if created then { pw with fb := some ⟨fun _ => 0, w, h, w⟩, w := w, h := h }
  -- a failed creation keeps the old size
  else { pw with fb := none }

/-- `paint` -/
def paint (pw : PalWindow U) : PalWindow U × List Call :=
  match pw.fb with
  | none => (pw, [])
  | some fb =>
    ({ pw with fb := some (app.render pw.user fb pw.scrollY) }, [.render fb pw.scrollY])

/-- `max_scroll` -/
def maxScroll (pw : PalWindow U) : Int :=
  match app.contentHeight with
  | none => 0
  | some contentHeight =>
    let content := contentHeight pw.w pw.user
    let view := pw.h - app.chromeH
    let view := if view < 0 then 0 else view
    let m := content - view
    if m > 0 then m else 0

/-- The clamp to a scroll range. -/
def clampTo (m y : Int) : Int :=
  let y := if y > m then m else y
  if y < 0 then 0 else y

/-- `sync_scrollbar` -/
def syncScrollbar (pw : PalWindow U) : PalWindow U :=
  match app.contentHeight with
  | none => pw
  | some contentHeight =>
    let content := contentHeight pw.w pw.user
    let view := pw.h - app.chromeH
    let view := if view < 1 then 1 else view
    let scrollY := clampTo (maxScroll app pw) pw.scrollY
    { pw with
      scrollY := scrollY
      bar := ⟨if content > 0 then content - 1 else 0, view, scrollY⟩ }

/-- Go to `y`, clamped, and pass it to the scrollbar if that moves anything. -/
def scrollTo (y : Int) (pw : PalWindow U) : PalWindow U :=
  let y := clampTo (maxScroll app pw) y
  if y = pw.scrollY then pw else { pw with scrollY := y, bar := { pw.bar with nPos := y } }

/-- `scroll_by` -/
def scrollBy (delta : Int) (pw : PalWindow U) : PalWindow U :=
  scrollTo app (pw.scrollY + delta) pw

/-! ### Messages -/

/-- The messages of `wndproc`, with what it reads of their parameters and asks the system
for. -/
inductive Msg where
  | size (created : Bool) (w h : UInt16)
  | vscroll (code : UInt16) (trackPos : Int)
  | keyDown (key : Nat)
  | mouseWheel (delta : Int16)
  | lButtonDown (x y : Int16)
  | eraseBkgnd
  | paint
  | destroy
  | other

/-- The page of the keyboard and the scrollbar. -/
def pageStep (pw : PalWindow U) : Int :=
  let page := pw.h - app.chromeH - 20
  if page < 40 then 40 else page

/-- Where `WM_VSCROLL` goes: line, page, thumb, top or bottom. -/
def vscrollTarget (code : UInt16) (trackPos : Int) (pw : PalWindow U) : Int :=
  if code = 0 then pw.scrollY - 40
  else if code = 1 then pw.scrollY + 40
  else if code = 2 then pw.scrollY - pageStep app pw
  else if code = 3 then pw.scrollY + pageStep app pw
  else if code = 6 then 0
  else if code = 7 then maxScroll app pw
  else if code = 5 ∨ code = 4 then trackPos
  else pw.scrollY

/-- `WM_KEYDOWN`: up, down, page up, page down, home and end. -/
def keyDown (key : Nat) (pw : PalWindow U) : PalWindow U :=
  if key = 0x26 then scrollBy app (-40) pw
  else if key = 0x28 then scrollBy app 40 pw
  else if key = 0x21 then scrollBy app (-pageStep app pw) pw
  else if key = 0x22 then scrollBy app (pageStep app pw) pw
  else if key = 0x24 then scrollBy app (-(1 <<< 30)) pw
  else if key = 0x23 then scrollBy app (1 <<< 30) pw
  else pw

/-- `WM_LBUTTONDOWN` -/
def lButtonDown (x y : Int) (pw : PalWindow U) : PalWindow U × List Call :=
  match app.click with
  | none => (pw, [])
  | some click =>
    let clicked := click x y pw.scrollY pw.w pw.user
    let pw' := { pw with user := clicked.2 }
    (if clicked.1 ≠ 0 then syncScrollbar app pw' else pw', [.click x y pw.scrollY pw.w])

/-- `wndproc` after `WM_CREATE`, with the calls it makes. -/
def wndproc (pw : PalWindow U) : Msg → PalWindow U × List Call
  | .size created w h =>
    (syncScrollbar app (createBackbuffer created w.toNat h.toNat pw), [])
  | .vscroll code trackPos => (scrollTo app (vscrollTarget app code trackPos pw) pw, [])
  | .keyDown key => (keyDown app key pw, [])
  | .mouseWheel delta => (scrollBy app (-(delta.toInt.tdiv 120) * 48) pw, [])
  | .lButtonDown x y => lButtonDown app x.toInt y.toInt pw
  | .eraseBkgnd => (pw, [])
  | .paint => paint app pw
  | .destroy => ({ pw with fb := none }, [])
  | .other => (pw, [])

/-- The window after `WM_CREATE` with a client area of `w` x `h`. -/
def create (user : U) (created : Bool) (w h : Int) : PalWindow U :=
  syncScrollbar app (createBackbuffer created w h ⟨user, none, 0, 0, 0, ⟨0, 0, 0⟩⟩)

/-- The window after some messages. -/
def run (pw : PalWindow U) (msgs : List Msg) : PalWindow U :=
  msgs.foldl (fun pw msg => (wndproc app pw msg).1) pw

/-! ### The invariant -/

/-- What is passed for a content height, a view and an offset. -/
def passed (content view scrollY : Int) : ScrollInfo :=
  ⟨if content > 0 then content - 1 else 0, if view < 1 then 1 else view, scrollY⟩

/-- The offset lies in the scroll range, it is passed to the scrollbar, and the framebuffer
has the size of the window. -/
structure Inv (pw : PalWindow U) : Prop where
  low : 0 ≤ pw.scrollY
  high : pw.scrollY ≤ maxScroll app pw
  bar : ∀ contentHeight, app.contentHeight = some contentHeight →
    pw.bar = passed (contentHeight pw.w pw.user) (pw.h - app.chromeH) pw.scrollY
  fb : ∀ fb, pw.fb = some fb → fb.w = pw.w ∧ fb.h = pw.h

variable {app} {pw : PalWindow U}

theorem maxScroll_nonneg (app : App U) (pw : PalWindow U) : 0 ≤ maxScroll app pw := by
  unfold maxScroll
  split
  · exact Int.le_refl 0
  · dsimp only
    split <;> omega

theorem clampTo_nonneg {m : Int} (positive : 0 ≤ m) (y : Int) : 0 ≤ clampTo m y := by
  unfold clampTo
  dsimp only
  split_ifs <;> omega

theorem clampTo_le {m : Int} (positive : 0 ≤ m) (y : Int) : clampTo m y ≤ m := by
  unfold clampTo
  dsimp only
  split_ifs <;> omega

/-- After syncing everything is as it should be, whatever the size and the content have
become. A window that does not scroll stays where it is. -/
theorem syncScrollbar_inv (fb : ∀ fb, pw.fb = some fb → fb.w = pw.w ∧ fb.h = pw.h)
    (still : app.contentHeight = none → pw.scrollY = 0) : Inv app (syncScrollbar app pw) := by
  unfold syncScrollbar
  cases content : app.contentHeight with
  | none =>
    -- nothing is synced without a content height
    have zero := still content
    have none : maxScroll app pw = 0 := by rw [maxScroll, content]
    refine ⟨by rw [zero], by rw [zero, none], fun f some => ?_, fb⟩
    rw [content] at some
    cases some
  | some contentHeight =>
    have positive := maxScroll_nonneg app pw
    constructor
    · exact clampTo_nonneg positive pw.scrollY
    · -- the range does not depend on the offset
      exact clampTo_le positive pw.scrollY
    · intro f same
      rw [content] at same
      cases same
      rfl
    · exact fb

/-- Scrolling anywhere keeps the invariant. -/
theorem scrollTo_inv (inv : Inv app pw) (y : Int) : Inv app (scrollTo app y pw) := by
  have positive := maxScroll_nonneg app pw
  unfold scrollTo
  dsimp only
  split
  · exact inv
  · constructor
    · exact clampTo_nonneg positive y
    · -- the range does not depend on the offset
      exact clampTo_le positive y
    · intro contentHeight some
      dsimp only
      rw [inv.bar contentHeight some]
      rfl
    · exact inv.fb

theorem keyDown_inv (inv : Inv app pw) (key : Nat) : Inv app (keyDown app key pw) := by
  unfold keyDown scrollBy
  split_ifs <;> first | exact scrollTo_inv inv _ | exact inv

/-- Without a content height the offset is always 0. -/
theorem Inv.still (inv : Inv app pw) (none : app.contentHeight = none) : pw.scrollY = 0 := by
  have high := inv.high
  rw [maxScroll, none] at high
  exact Int.le_antisymm high inv.low

theorem createBackbuffer_fb (created : Bool) (w h : Int) (fb : Surface)
    (there : (createBackbuffer created w h pw).fb = some fb) :
    fb.w = (createBackbuffer created w h pw).w ∧ fb.h = (createBackbuffer created w h pw).h := by
  cases created with
  | false => cases there
  | true =>
    cases there
    exact ⟨rfl, rfl⟩

theorem createBackbuffer_scrollY (created : Bool) (w h : Int) :
    (createBackbuffer created w h pw).scrollY = pw.scrollY := by
  cases created <;> rfl

/-- Resizing, with or without success. -/
theorem resize_inv (created : Bool) (w h : Int)
    (still : app.contentHeight = none → pw.scrollY = 0) :
    Inv app (syncScrollbar app (createBackbuffer created w h pw)) :=
  syncScrollbar_inv (createBackbuffer_fb created w h) fun none => by
    rw [createBackbuffer_scrollY, still none]

/-- A click: the callback changes the content only if the scrollbar is synced then. -/
theorem lButtonDown_inv (inv : Inv app pw) (x y : Int) : Inv app (lButtonDown app x y pw).1 := by
  unfold lButtonDown
  cases clicks : app.click with
  | none => exact inv
  | some click =>
    dsimp only
    split
    next hit => exact syncScrollbar_inv inv.fb inv.still
    next missed =>
      -- nothing was hit: the content is the old one
      rw [app.click_zero click clicks _ _ _ _ _ (by simpa using missed)]
      exact inv

theorem paint_inv (inv : Inv app pw) : Inv app (paint app pw).1 := by
  unfold paint
  cases there : pw.fb with
  | none => exact inv
  | some fb =>
    refine ⟨inv.low, inv.high, inv.bar, fun fb' eq => ?_⟩
    cases eq
    have shape := app.render_shape pw.user fb pw.scrollY
    obtain ⟨sameW, sameH⟩ := inv.fb fb there
    exact ⟨(congrArg Prod.fst shape).trans sameW, (congrArg (·.2.1) shape).trans sameH⟩

/-- Each message keeps the invariant. -/
theorem wndproc_inv (inv : Inv app pw) (msg : Msg) : Inv app (wndproc app pw msg).1 := by
  cases msg with
  | size created w h => exact resize_inv created _ _ inv.still
  | vscroll code trackPos => exact scrollTo_inv inv _
  | keyDown key => exact keyDown_inv inv key
  | mouseWheel delta => exact scrollTo_inv inv _
  | lButtonDown x y => exact lButtonDown_inv inv _ _
  | eraseBkgnd => exact inv
  | paint => exact paint_inv inv
  | destroy => exact ⟨inv.low, inv.high, inv.bar, nofun⟩
  | other => exact inv

theorem create_inv (app : App U) (user : U) (created : Bool) (w h : Int) :
    Inv app (create app user created w h) :=
  resize_inv created w h fun _ => rfl

/-- Every run of messages keeps it. -/
theorem run_inv (inv : Inv app pw) (msgs : List Msg) : Inv app (run app pw msgs) := by
  induction msgs generalizing pw with
  | nil => exact inv
  | cons msg msgs ih => exact ih (wndproc_inv inv msg)

/-! ### What follows from it -/

/-- While the viewport has a row, the scrollbar shows the offset. -/
theorem Inv.shown (inv : Inv app pw) {shows : ScrollInfo → Int} (inRange : ShowsInRange shows)
    {contentHeight : Int → U → Int} (scrolls : app.contentHeight = some contentHeight)
    (tall : app.chromeH < pw.h) : shows pw.bar = pw.scrollY := by
  have low := inv.low
  have high := inv.high
  rw [inv.bar contentHeight scrolls]
  unfold maxScroll at high
  rw [scrolls] at high
  dsimp only at high
  -- the page of the scrollbar is the viewport, so that it has the same range
  apply inRange
  · unfold passed
    dsimp only
    split_ifs <;> omega
  · exact low
  · unfold passed
    dsimp only
    split_ifs at high ⊢ <;> omega

/-- The callbacks are given the stored offset, and the framebuffer is as large as the
window. -/
theorem Inv.calls (inv : Inv app pw) (msg : Msg) {call : Call}
    (made : call ∈ (wndproc app pw msg).2) :
    match call with
    | .render fb scrollY => scrollY = pw.scrollY ∧ fb.w = pw.w ∧ fb.h = pw.h
    | .click _ _ scrollY width => scrollY = pw.scrollY ∧ width = pw.w := by
  cases msg with
  | lButtonDown x y =>
    simp only [wndproc, lButtonDown] at made
    split at made
    · cases made
    · rw [List.mem_singleton] at made
      subst made
      exact ⟨rfl, rfl⟩
  | paint =>
    simp only [wndproc, paint] at made
    split at made
    · cases made
    next fb there =>
      rw [List.mem_singleton] at made
      subst made
      exact ⟨rfl, inv.fb fb there⟩
  -- the other messages call nothing
  | _ => cases made

/-! ### Minimising -/

/-- The scroll range of a window with a backbuffer of the given size. -/
def scrollRange (app : App U) (user : U) (w h : Int) : Int :=
  maxScroll app ⟨user, none, w, h, 0, ⟨0, 0, 0⟩⟩

theorem maxScroll_eq (app : App U) (pw : PalWindow U) :
    maxScroll app pw = scrollRange app pw.user pw.w pw.h := rfl

theorem clampTo_eq_min {m y : Int} (positive : 0 ≤ m) (low : 0 ≤ y) : clampTo m y = min y m := by
  unfold clampTo
  dsimp only
  split_ifs <;> omega

theorem syncScrollbar_user (app : App U) (pw : PalWindow U) :
    (syncScrollbar app pw).user = pw.user := by
  unfold syncScrollbar
  split <;> rfl

theorem syncScrollbar_w (app : App U) (pw : PalWindow U) : (syncScrollbar app pw).w = pw.w := by
  unfold syncScrollbar
  split <;> rfl

theorem syncScrollbar_h (app : App U) (pw : PalWindow U) : (syncScrollbar app pw).h = pw.h := by
  unfold syncScrollbar
  split <;> rfl

/-- Syncing brings the offset into the scroll range. -/
theorem syncScrollbar_scrollY (low : 0 ≤ pw.scrollY)
    (still : app.contentHeight = none → pw.scrollY = 0) :
    (syncScrollbar app pw).scrollY = min pw.scrollY (maxScroll app pw) := by
  have positive := maxScroll_nonneg app pw
  unfold syncScrollbar
  cases content : app.contentHeight with
  | none =>
    have zero := still content
    dsimp only
    omega
  | some contentHeight => exact clampTo_eq_min positive low

/-- What a resize leaves: the content, the size of the backbuffer, or the old size if it
is not created, and the offset brought into the range of that size. -/
structure Resized (app : App U) (created : Bool) (w h : Int) (pw pw' : PalWindow U) : Prop where
  user : pw'.user = pw.user
  size : (pw'.w, pw'.h) = if created then (max 1 w, max 1 h) else (pw.w, pw.h)
  scrollY : pw'.scrollY = min pw.scrollY (scrollRange app pw'.user pw'.w pw'.h)

theorem createBackbuffer_size (created : Bool) (w h : Int) :
    ((createBackbuffer created w h pw).w, (createBackbuffer created w h pw).h) =
      if created then (max 1 w, max 1 h) else (pw.w, pw.h) := by
  have atLeast (n : Int) : (if n < 1 then 1 else n) = max 1 n := by split <;> omega
  unfold createBackbuffer
  dsimp only
  rw [atLeast, atLeast]
  cases created <;> rfl

theorem createBackbuffer_user (created : Bool) (w h : Int) :
    (createBackbuffer created w h pw).user = pw.user := by
  cases created <;> rfl

theorem size_resized (inv : Inv app pw) (created : Bool) (w h : UInt16) :
    Resized app created w.toNat h.toNat pw (wndproc app pw (.size created w h)).1 := by
  have same : (createBackbuffer created w.toNat h.toNat pw).scrollY = pw.scrollY :=
    createBackbuffer_scrollY created _ _
  dsimp only [wndproc]
  constructor
  · rw [syncScrollbar_user, createBackbuffer_user]
  · rw [syncScrollbar_w, syncScrollbar_h, createBackbuffer_size]
  · rw [syncScrollbar_user, syncScrollbar_w, syncScrollbar_h, ← maxScroll_eq, ← same]
    refine syncScrollbar_scrollY ?_ fun none => ?_
    · rw [same]
      exact inv.low
    · rw [same, inv.still none]

/-- A resize keeps the offset if it lies in the range of the new size. -/
theorem Resized.keeps_iff {pw' : PalWindow U} {created : Bool} {w h : Int} (inv : Inv app pw)
    (resized : Resized app created w h pw pw') :
    pw'.scrollY = pw.scrollY ↔
      created = false ∨ pw.scrollY ≤ scrollRange app pw.user (max 1 w) (max 1 h) := by
  have size := resized.size
  rw [resized.scrollY, resized.user]
  cases created with
  | false =>
    -- the range has not changed
    obtain ⟨sameW, sameH⟩ : pw'.w = pw.w ∧ pw'.h = pw.h := by simpa using size
    have high := inv.high
    rw [maxScroll_eq] at high
    rw [sameW, sameH]
    simp [high]
  | true =>
    obtain ⟨newW, newH⟩ : pw'.w = max 1 w ∧ pw'.h = max 1 h := by simpa using size
    rw [newW, newH]
    simp

theorem Resized.scrollY_le {pw' : PalWindow U} {created : Bool} {w h : Int}
    (resized : Resized app created w h pw pw') : pw'.scrollY ≤ pw.scrollY := by
  rw [resized.scrollY]
  exact Int.min_le_left _ _

/-- Minimising, which sends a size of 0 x 0, and restoring to `w` x `h`. -/
def minimiseRestore (app : App U) (hidden shown : Bool) (w h : UInt16) (pw : PalWindow U) :
    PalWindow U :=
  run app pw [.size hidden 0 0, .size shown w h]

/-- The offset is clamped twice: to the range of a window of one pixel, and to that of the
restored window. -/
theorem minimiseRestore_keeps_iff (inv : Inv app pw) (hidden shown : Bool) (w h : UInt16) :
    (minimiseRestore app hidden shown w h pw).scrollY = pw.scrollY ↔
      (hidden = false ∨ pw.scrollY ≤ scrollRange app pw.user 1 1) ∧
        (shown = false ∨ pw.scrollY ≤
          scrollRange app pw.user (max 1 (w.toNat : Int)) (max 1 (h.toNat : Int))) := by
  have small := size_resized inv hidden 0 0
  have smallInv := wndproc_inv inv (.size hidden 0 0)
  have again := size_resized smallInv shown w h
  unfold minimiseRestore run
  simp only [List.foldl_cons, List.foldl_nil]
  generalize (wndproc app pw (.size hidden 0 0)).1 = pw1 at small smallInv again ⊢
  generalize (wndproc app pw1 (.size shown w h)).1 = pw2 at again ⊢
  -- the offset only decreases, so it is kept only if both resizes keep it
  have first := small.scrollY_le
  have second := again.scrollY_le
  have firstKeeps : pw1.scrollY = pw.scrollY ↔
      hidden = false ∨ pw.scrollY ≤ scrollRange app pw.user 1 1 := small.keeps_iff inv
  have secondKeeps := again.keeps_iff smallInv
  rw [small.user] at secondKeeps
  rw [← firstKeeps]
  constructor
  · intro kept
    have same : pw1.scrollY = pw.scrollY := by omega
    rw [← same, ← secondKeeps]
    exact ⟨rfl, by omega⟩
  · rintro ⟨same, inRange⟩
    rw [← same, ← secondKeeps] at inRange
    omega

end InstagramNt40.Window
