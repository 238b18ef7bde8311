import InstagramNt40.Library.Display
import InstagramNt40.Pal.Window

/-!
# pal/pal_win32.c: the window and the system

The window procedure with its calls of USER32 and GDI32. Whatever these answer comes from
outside: whether there is a context, a bitmap or a selection, and what becomes of the client
area. The ledger keeps the handles that were handed out; one that is used without being held,
given back to the wrong place, or deleted while a context may hold it, is a fault.
-/
namespace InstagramNt40.Gdi

open Crt Raster Window

/-! ### The client area -/

/-- A point of the client area. -/
abbrev Point : Type := Int × Int

abbrev Region : Type := Point → Bool

/-- The points of a rectangle at the origin. -/
def clientArea (w h : Int) : Region := fun p => 0 ≤ p.1 ∧ p.1 < w ∧ 0 ≤ p.2 ∧ p.2 < h

/-- What the system keeps of the client area: the pixels, the update region, and the clip
region of the context that `BeginPaint` has handed out. The calls tell whether they succeed.
The source of a `BitBlt` is the framebuffer, if the memory context holds it. -/
structure Client (D : Type) where
  shows : D → Point → UInt32
  damaged : D → Region
  clip : D → Region
  invalidateRect : D → D
  beginPaint : D → Bool × D
  bitBlt : Int → Int → Option (Point → UInt32) → D → Bool × D
  endPaint : D → D

/-- What is documented of these calls. A context is clipped to the update region, which is
then valid; a `BitBlt` that succeeds copies its rectangle, and none draws outside the clip
region. Of a failed `BeginPaint` it is only known that it draws nothing, and leaves what was
intact. -/
structure Client.Documented {D : Type} (C : Client D) : Prop where
  invalidates : ∀ d p, C.damaged (C.invalidateRect d) p = true
  begins : ∀ d, (C.beginPaint d).1 = true → C.clip (C.beginPaint d).2 = C.damaged d
  draws_nothing : ∀ d, C.shows (C.beginPaint d).2 = C.shows d
  blits : ∀ w h source d, (C.bitBlt w h (some source) d).1 = true → ∀ p,
    C.clip d p = true → clientArea w h p = true →
      C.shows (C.bitBlt w h (some source) d).2 p = source p
  clips : ∀ w h source d p, C.clip d p = false →
    C.shows (C.bitBlt w h source d).2 p = C.shows d p
  ends : ∀ d, C.shows (C.endPaint d) = C.shows d

/-- What else happens to the client area, a window in front of it that is moved, say: what is
not damaged afterwards was not before, and is as it was. -/
structure Client.Exposure {D : Type} (C : Client D) where
  change : D → D
  intact : ∀ d p, C.damaged (change d) p = false →
    C.damaged d p = false ∧ C.shows (change d) p = C.shows d p

/-! ### The ledger -/

/-- A memory context, with the bitmap that `SelectObject` was given for it and whether it was
selected. -/
structure MemDc where
  handle : Nat
  bitmap : Option Nat
  selected : Bool

/-- The answers to requests, the handles held, and the client area. A handle is named by the
answer that it is. Points are lost when a paint passes over them without drawing the
framebuffer. -/
structure System (D : Type) where
  answers : Nat → Bool
  next : Nat
  windowDcs : List Nat
  paintDcs : List Nat
  memDcs : List MemDc
  bitmaps : List Nat
  client : D
  lost : Region

/-- Nothing is held. -/
def System.start {D : Type} (answers : Nat → Bool) (client : D) : System D where
  answers := answers
  next := 0
  windowDcs := []
  paintDcs := []
  memDcs := []
  bitmaps := []
  client := client
  lost := fun _ => false

/-- A call of the system; `none` is a fault. -/
abbrev Sys (D α : Type) : Type := StateT (System D) Option α

namespace System

variable {D : Type} (sys : System D)

/-- Some answers have been given. -/
def skip (n : Nat) : System D := { sys with next := sys.next + n }

def hasMemDc (dc : Nat) : Bool := sys.memDcs.any (·.handle == dc)

/-- A memory context may hold the bitmap. -/
def mayHold (dib : Nat) : Bool := sys.memDcs.any (·.bitmap == some dib)

/-- The bitmap that a memory context holds. -/
def selection (dc : Nat) : Option Nat :=
  (sys.memDcs.find? (·.handle == dc)).bind fun m => if m.selected then m.bitmap else none

end System

/-! ### Calls -/

variable {D : Type} (C : Client D)

/-- `GetDC`; without a context the result is NULL. -/
def getDc : Sys D (Option Nat) := fun sys =>
  if sys.answers sys.next then
    some (some sys.next, { sys.skip 1 with windowDcs := sys.next :: sys.windowDcs })
  else some (none, sys.skip 1)

/-- `ReleaseDC`; NULL is not released. -/
def releaseDc (dc : Option Nat) : Sys D Unit := fun sys =>
  match dc with
  | none => some ((), sys)
  | some dc =>
    if dc ∈ sys.windowDcs then some ((), { sys with windowDcs := sys.windowDcs.erase dc })
    else none

/-- `CreateCompatibleDC`; NULL asks for a context like the screen. -/
def createCompatibleDc (wdc : Option Nat) : Sys D (Option Nat) := fun sys =>
  if ∀ dc ∈ wdc, dc ∈ sys.windowDcs then
    if sys.answers sys.next then
      some (some sys.next, { sys.skip 1 with memDcs := ⟨sys.next, none, false⟩ :: sys.memDcs })
    else some (none, sys.skip 1)
  else none

/-- `CreateDIBSection`, and whether `bits` is set. -/
def createDibSection (dc : Nat) : Sys D (Option Nat × Bool) := fun sys =>
  if sys.hasMemDc dc then
    if sys.answers sys.next then
      some ((some sys.next, sys.answers (sys.next + 1)),
        { sys.skip 2 with bitmaps := sys.next :: sys.bitmaps })
    else some ((none, false), sys.skip 1)
  else none

/-- `SelectObject`, whose result is not looked at. No bitmap is selected into two contexts. -/
def selectObject (dc dib : Nat) : Sys D Unit := fun sys =>
  if sys.hasMemDc dc ∧ dib ∈ sys.bitmaps ∧ sys.mayHold dib = false then
    some ((), { sys.skip 1 with
      memDcs := sys.memDcs.map fun m =>
        if m.handle = dc then ⟨dc, some dib, sys.answers sys.next⟩ else m })
  else none

/-- `DeleteDC` -/
def deleteDc (dc : Nat) : Sys D Unit := fun sys =>
  if sys.hasMemDc dc then some ((), { sys with memDcs := sys.memDcs.eraseP (·.handle == dc) })
  else none

/-- `DeleteObject`; a context that held the bitmap would keep it alive. -/
def deleteObject (dib : Nat) : Sys D Unit := fun sys =>
  if dib ∈ sys.bitmaps ∧ sys.mayHold dib = false then
    some ((), { sys with bitmaps := sys.bitmaps.erase dib })
  else none

/-- The bits of a DIB section are read or written. -/
def touchBits (dib : Option Nat) : Sys D Unit := fun sys =>
  match dib with
  | none => none
  | some dib => if dib ∈ sys.bitmaps then some ((), sys) else none

/-- `InvalidateRect` of the whole client area. -/
def invalidateRect : Sys D Unit := fun sys =>
  some ((), { sys with client := C.invalidateRect sys.client })

/-- `BeginPaint`; if it fails the update region may be gone. -/
def beginPaint : Sys D (Option Nat) := fun sys =>
  let begun := C.beginPaint sys.client
  if begun.1 then
    some (some sys.next,
      { sys.skip 1 with paintDcs := sys.next :: sys.paintDcs, client := begun.2 })
  else
    some (none, { sys with
      client := begun.2
      lost := fun p => sys.lost p || C.damaged sys.client p })

/-- `BitBlt` to the origin of what a memory context holds, whose result is not looked at;
`pixels` tells the bits of the DIB sections. Nothing is drawn on a NULL context. -/
def bitBlt (dc : Option Nat) (w h : Int) (memDc : Option Nat) (pixels : Nat → Option Surface) :
    Sys D Unit := fun sys =>
  match memDc with
  | none => none
  | some memDc =>
    if sys.hasMemDc memDc then
      match dc with
      | none => some ((), sys)
      | some dc =>
        if dc ∈ sys.paintDcs then
          let source := (sys.selection memDc).bind pixels
          let blitted := C.bitBlt w h (source.map fun s p => s.pixel p.1 p.2) sys.client
          some ((), { sys with
            client := blitted.2
            lost := fun p =>
              if C.clip sys.client p then !(blitted.1 && source.isSome) else sys.lost p })
        else none
    else none

/-- `EndPaint` with what `BeginPaint` has stored, NULL included. -/
def endPaint (dc : Option Nat) : Sys D Unit := fun sys =>
  match dc with
  | none => some ((), sys)
  | some dc =>
    if dc ∈ sys.paintDcs then
      some ((), { sys with
        paintDcs := sys.paintDcs.erase dc
        client := C.endPaint sys.client })
    else none

/-! ### The window -/

/-- `PalWindow` with its handles. `fb` aliases the bits of `dib`. -/
structure GdiWindow (U : Type) where
  pw : PalWindow U
  dib : Option Nat
  memDc : Option Nat

/-- The arguments of `pal_run_window`, where the memory that drawing may allocate is another
one at every paint. -/
structure Callbacks (U : Type) where
  app : App U
  render : Heap → U → Surface → Int → Surface
  render_shape : ∀ heap user fb scrollY, (render heap user fb scrollY).shape = fb.shape

variable {U : Type}

/-- The bits that `fb` aliases. -/
def GdiWindow.pixels (gw : GdiWindow U) (dib : Nat) : Option Surface :=
  if gw.dib = some dib then gw.pw.fb else none

/-- `destroy_backbuffer` -/
def destroyBackbuffer (gw : GdiWindow U) : Sys D (GdiWindow U) := do
  gw.memDc.forM deleteDc
  gw.dib.forM deleteObject
  pure ⟨{ gw.pw with fb := none }, none, none⟩

/-- `create_backbuffer` -/
def createBackbuffer (wdc : Option Nat) (w h : Int) (gw : GdiWindow U) :
    Sys D (GdiWindow U) := do
  let gw ← destroyBackbuffer gw
  let w := if w < 1 then 1 else w
  let h := if h < 1 then 1 else h
  match ← createCompatibleDc wdc with
  | none => pure gw
  | some dc =>
    match ← createDibSection dc with
    | (some dib, true) =>
      selectObject dc dib
      pure ⟨{ gw.pw with fb := some ⟨fun _ => 0, w, h, w⟩, w := w, h := h }, some dib, some dc⟩
    | (dib, _) => destroyBackbuffer { gw with dib := dib, memDc := some dc }

variable (app : App U) (cb : Callbacks U)

/-- The framebuffer is copied to the update region. -/
def present (gw : GdiWindow U) : Sys D Unit := do
  let dc ← beginPaint C
  bitBlt C dc gw.pw.w gw.pw.h gw.memDc gw.pixels
  endPaint C dc

/-- `paint` -/
def paint (heap : Heap) (gw : GdiWindow U) : Sys D (GdiWindow U) :=
  match gw.pw.fb with
  | none => pure gw
  | some fb => do
    touchBits gw.dib
    let fb := cb.render heap gw.pw.user fb gw.pw.scrollY
    let gw := { gw with pw := { gw.pw with fb := some fb } }
    present C gw
    pure gw

/-- `sync_scrollbar` -/
def syncScrollbar (gw : GdiWindow U) : GdiWindow U :=
  { gw with pw := Window.syncScrollbar app gw.pw }

/-- Go to `y`, clamped; if that moves anything everything is drawn again. -/
def scrollTo (y : Int) (gw : GdiWindow U) : Sys D (GdiWindow U) := do
  let y := clampTo (maxScroll app gw.pw) y
  if y = gw.pw.scrollY then pure gw
  else do
    invalidateRect C
    pure { gw with pw := { gw.pw with scrollY := y, bar := { gw.pw.bar with nPos := y } } }

/-- `scroll_by` -/
def scrollBy (delta : Int) (gw : GdiWindow U) : Sys D (GdiWindow U) :=
  scrollTo C app (gw.pw.scrollY + delta) gw

/-- The messages of `wndproc`, with what it reads of their parameters, and the memory there
is for a paint. -/
inductive Msg where
  | size (w h : UInt16)
  | vscroll (code : UInt16) (trackPos : Int)
  | keyDown (key : Nat)
  | mouseWheel (delta : Int16)
  | lButtonDown (x y : Int16)
  | eraseBkgnd
  | paint (heap : Heap)
  | destroy
  | other

/-- `WM_KEYDOWN` -/
def keyDown (key : Nat) (gw : GdiWindow U) : Sys D (GdiWindow U) :=
  if key = 0x26 then scrollBy C app (-40) gw
  else if key = 0x28 then scrollBy C app 40 gw
  else if key = 0x21 then scrollBy C app (-pageStep app gw.pw) gw
  else if key = 0x22 then scrollBy C app (pageStep app gw.pw) gw
  else if key = 0x24 then scrollBy C app (-(1 <<< 30)) gw
  else if key = 0x23 then scrollBy C app (1 <<< 30) gw
  else pure gw

/-- `WM_LBUTTONDOWN` -/
def lButtonDown (x y : Int) (gw : GdiWindow U) : Sys D (GdiWindow U) :=
  match app.click with
  | none => pure gw
  | some click =>
    let clicked := click x y gw.pw.scrollY gw.pw.w gw.pw.user
    let gw := { gw with pw := { gw.pw with user := clicked.2 } }
    if clicked.1 ≠ 0 then do
      let gw := syncScrollbar app gw
      invalidateRect C
      pure gw
    else pure gw

/-- A backbuffer of a new size, for `WM_CREATE` and `WM_SIZE`. -/
def resize (w h : Int) (gw : GdiWindow U) : Sys D (GdiWindow U) := do
  let wdc ← getDc
  let gw ← createBackbuffer wdc w h gw
  releaseDc wdc
  pure (syncScrollbar app gw)

/-- `wndproc` after `WM_CREATE`. -/
def wndproc (gw : GdiWindow U) : Msg → Sys D (GdiWindow U)
  | .size w h => do
    let gw ← resize cb.app w.toNat h.toNat gw
    invalidateRect C
    pure gw
  | .vscroll code trackPos =>
    scrollTo C cb.app (vscrollTarget cb.app code trackPos gw.pw) gw
  | .keyDown key => keyDown C cb.app key gw
  | .mouseWheel delta => scrollBy C cb.app (-(delta.toInt.tdiv 120) * 48) gw
  | .lButtonDown x y => lButtonDown C cb.app x.toInt y.toInt gw
  | .eraseBkgnd => pure gw
  | .paint heap => paint C cb heap gw
  | .destroy => destroyBackbuffer gw
  | .other => pure gw

/-! ### Runs -/

/-- A message, or something else that happens to the client area. -/
inductive Event where
  | message (msg : Msg)
  | exposed (exposure : C.Exposure)

def step (gw : GdiWindow U) : Event C → Sys D (GdiWindow U)
  | .message msg => wndproc C cb gw msg
  | .exposed exposure => fun sys => some (gw, { sys with client := exposure.change sys.client })

/-- `WM_CREATE` in a client area of `w` x `h`. -/
def create (user : U) (w h : Int) : Sys D (GdiWindow U) :=
  resize app w h ⟨⟨user, none, 0, 0, 0, ⟨0, 0, 0⟩⟩, none, none⟩

end InstagramNt40.Gdi
