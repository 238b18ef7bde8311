import InstagramNt40.Core.RasterPixel
import InstagramNt40.Pal.GdiHandles

/-!
# Runs of the window

Over every run of messages, with whatever the system refuses in between: no handle is
misused, all but one pair of them are given back, and outside of the update region the
window shows what drawing it anew would show, unless a paint was refused there.
-/
namespace InstagramNt40.Gdi

open Crt Raster Window

variable {D U : Type}

/-! ### What the window should show -/

/-- A framebuffer nothing is drawn on yet. -/
def blank (w h : Int) : Surface := ⟨fun _ => 0, w, h, w⟩

/-- The picture of the window with some memory: it is drawn anew at its size. -/
def picture (cb : Callbacks U) (heap : Heap) (pw : PalWindow U) (p : Point) : UInt32 :=
  (cb.render heap pw.user (blank pw.w pw.h) pw.scrollY).pixel p.1 p.2

/-- The picture with the memory there was at one of the paints. -/
def Pictures (cb : Callbacks U) (heaps : Heap → Prop) (pw : PalWindow U) (p : Point)
    (color : UInt32) : Prop :=
  ∃ heap, heaps heap ∧ color = picture cb heap pw p

/-- Drawing leaves no pixel as it was before. -/
def Covers (cb : Callbacks U) : Prop :=
  ∀ heap user scrollY w h x y, clientArea w h (x, y) = true →
    Overwrites w h x y fun fb => cb.render heap user fb scrollY

/-- The client area as a display. -/
def System.display (C : Client D) (sys : System D) : Display Point UInt32 where
  shows := C.shows sys.client
  damaged := C.damaged sys.client
  lost := sys.lost

/-- Outside of the update region and of what is lost the picture is on the screen. -/
def UpToDate (C : Client D) (cb : Callbacks U) (heaps : Heap → Prop) (sys : System D)
    (pw : PalWindow U) : Prop :=
  (sys.display C).Fresh (fun p => clientArea pw.w pw.h p = true) (Pictures cb heaps pw)

/-- A paint is never refused. -/
structure Client.Granting (C : Client D) : Prop where
  beginPaint : ∀ d, (C.beginPaint d).1 = true
  bitBlt : ∀ w h source d, (C.bitBlt w h (some source) d).1 = true

/-- Where nothing is refused nothing is lost. -/
def NothingLost (C : Client D) (sys : System D) : Prop :=
  C.Granting → (∀ n, sys.answers n = true) → ∀ p, sys.lost p = false

/-- The framebuffer has the size of the window. -/
def Fits (pw : PalWindow U) : Prop := ∀ fb, pw.fb = some fb → fb.shape = (pw.w, pw.h, pw.w)

variable {C : Client D} {cb : Callbacks U} {heaps : Heap → Prop} {sys sys' : System D}
  {gw gw' : GdiWindow U}

theorem sized_of_fits {w h : Int} {fb : Surface} (shape : fb.shape = (w, h, w)) :
    fb.Sized w h := by
  have stride : fb.stride = w := congrArg (·.2.2) shape
  exact ⟨congrArg Prod.fst shape, congrArg (·.2.1) shape, by omega⟩

/-- A framebuffer that was drawn on has the picture of the window. -/
theorem Covers.picture (covers : Covers cb) (heap : Heap) {pw : PalWindow U} {fb : Surface}
    (shape : fb.shape = (pw.w, pw.h, pw.w)) {p : Point} (inside : clientArea pw.w pw.h p = true) :
    (cb.render heap pw.user fb pw.scrollY).pixel p.1 p.2 = picture cb heap pw p :=
  covers heap pw.user pw.scrollY pw.w pw.h p.1 p.2 inside fb (blank pw.w pw.h)
    (sized_of_fits shape) (sized_of_fits rfl)

/-! ### One event -/

/-- What every event keeps: the handles, the contexts of the window, and, if the system does
what is documented and drawing leaves nothing as it was, that the screen is up to date. -/
structure Advances (C : Client D) (cb : Callbacks U) (heaps : Heap → Prop) (sys sys' : System D)
    (gw gw' : GdiWindow U) : Prop where
  holds : Holds sys' gw'
  answers : sys'.answers = sys.answers
  fits : Fits gw'.pw
  upToDate : C.Documented → Covers cb → UpToDate C cb heaps sys gw.pw →
    UpToDate C cb heaps sys' gw'.pw
  nothingLost : NothingLost C sys → NothingLost C sys'

theorem Advances.still (holds : Holds sys gw) (fits : Fits gw.pw) :
    Advances C cb heaps sys sys gw gw := ⟨holds, rfl, fits, fun _ _ upToDate => upToDate, id⟩

section Events

variable (C cb)

/-- Where there is a framebuffer the memory context was given the bitmap that it aliases, and
holds it if nothing is refused. -/
theorem Holds.source (holds : Holds sys gw) {fb : Surface} (there : gw.pw.fb = some fb) :
    ∃ dc dib selected, gw.memDc = some dc ∧ gw.dib = some dib ∧ dib ∈ sys.bitmaps ∧
      sys.memDcs = [⟨dc, some dib, selected⟩] ∧ gw.pixels dib = some fb ∧
      ((∀ n, sys.answers n = true) → selected = true) := by
  obtain ⟨pw, dib, memDc⟩ := gw
  have paired := holds.paired
  have backed := holds.backed
  have owns := holds.owns
  dsimp only at there paired backed owns
  rw [there] at backed
  cases dib with
  | none => cases backed
  | some dib =>
    cases memDc with
    | none => cases paired
    | some dc =>
      obtain ⟨selected, one⟩ := owns.oneMemDc
      refine ⟨dc, dib, selected, rfl, rfl, ?_, one, (if_pos rfl).trans there, fun granted => ?_⟩
      · rw [owns.bitmaps]
        exact List.mem_singleton_self dib
      · have took := owns.took granted
        rw [one] at took
        exact took _ (List.mem_singleton_self _) rfl

/-- The message without the system, where `created` tells whether a new DIB section is. -/
def Msg.plain (created : Bool) : Msg → Window.Msg
  | .size w h => .size created w h
  | .vscroll code trackPos => .vscroll code trackPos
  | .keyDown key => .keyDown key
  | .mouseWheel delta => .mouseWheel delta
  | .lButtonDown x y => .lButtonDown x y
  | .eraseBkgnd => .eraseBkgnd
  | .paint _ => .paint
  | .destroy => .destroy
  | .other => .other

def Event.plain {C : Client D} (created : Bool) : Event C → Window.Msg
  | .message msg => msg.plain created
  | .exposed _ => .other

/-- Drawing is that of the plain window, with whatever memory. -/
def Callbacks.Plain (cb : Callbacks U) : Prop := ∀ heap, cb.render heap = cb.app.render

end Events

/-- What a run of the window leaves held: a memory context and the bitmap that was given to
it, if it has them, and nothing else. -/
structure Balanced (sys : System D) (gw : GdiWindow U) : Prop where
  windowDcs : sys.windowDcs = []
  paintDcs : sys.paintDcs = []
  memDcs : sys.memDcs.map (fun m => (m.handle, m.bitmap)) = gw.memDc.toList.map (·, gw.dib)
  bitmaps : sys.bitmaps = gw.dib.toList
  paired : gw.memDc.isSome = gw.dib.isSome
  backed : gw.pw.fb.isSome = gw.dib.isSome

end InstagramNt40.Gdi
