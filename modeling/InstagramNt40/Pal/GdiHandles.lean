import InstagramNt40.Pal.Gdi

/-!
# The handles of the window

Whatever the system refuses, the window holds either nothing or a memory context and a bitmap
that was given to it, and gives both back in an order in which no context is left that may
hold the bitmap.
-/
namespace InstagramNt40.Gdi

open Crt Raster Window

variable {D U : Type} {sys sys' : System D} {gw : GdiWindow U}

/-- No context of the window is held, and `memDc` and `dib` are all else that is; `bitmap` is
what the memory context was given. -/
structure Owns (sys : System D) (memDc bitmap dib : Option Nat) : Prop where
  memDcs : sys.memDcs.map (fun m => (m.handle, m.bitmap)) = memDc.toList.map (·, bitmap)
  bitmaps : sys.bitmaps = dib.toList
  took : (∀ n, sys.answers n = true) → ∀ m ∈ sys.memDcs, m.bitmap.isSome = true →
    m.selected = true

/-- The answers stay the same, and so do the contexts of the window, the client area and what
is lost of it. -/
structure Quiet (sys sys' : System D) : Prop where
  answers : sys'.answers = sys.answers
  windowDcs : sys'.windowDcs = sys.windowDcs
  paintDcs : sys'.paintDcs = sys.paintDcs
  client : sys'.client = sys.client
  lost : sys'.lost = sys.lost

theorem Quiet.refl (sys : System D) : Quiet sys sys := ⟨rfl, rfl, rfl, rfl, rfl⟩

theorem Quiet.trans {sys'' : System D} (first : Quiet sys sys') (second : Quiet sys' sys'') :
    Quiet sys sys'' :=
  ⟨second.answers.trans first.answers, second.windowDcs.trans first.windowDcs,
    second.paintDcs.trans first.paintDcs, second.client.trans first.client,
    second.lost.trans first.lost⟩

section Calls

variable {dc dib : Nat} {memDc bitmap held wdc : Option Nat}

theorem Owns.oneMemDc (owns : Owns sys (some dc) bitmap held) :
    ∃ selected, sys.memDcs = [⟨dc, bitmap, selected⟩] := by
  obtain ⟨m, one, same⟩ := List.map_eq_singleton_iff.mp owns.memDcs
  cases same
  exact ⟨m.selected, one⟩

theorem Owns.noMemDc (owns : Owns sys none bitmap held) : sys.memDcs = [] :=
  List.map_eq_nil_iff.mp owns.memDcs

/-- A bitmap that was not given to the memory context is in no context at all. -/
theorem Owns.free (owns : Owns sys memDc none held) : sys.mayHold dib = false := by
  unfold System.mayHold
  cases memDc with
  | none => rw [owns.noMemDc, List.any_nil]
  | some dc =>
    obtain ⟨selected, one⟩ := owns.oneMemDc
    rw [one]
    rfl

theorem Owns.hasMemDc (owns : Owns sys (some dc) bitmap held) : sys.hasMemDc dc = true := by
  obtain ⟨selected, one⟩ := owns.oneMemDc
  unfold System.hasMemDc
  rw [one]
  simp

end Calls

/-! ### The backbuffer -/

/-- Between two messages: the window names what is held, there is a context where there is a
bitmap, which was given to it, and a framebuffer where there are both. -/
structure Holds (sys : System D) (gw : GdiWindow U) : Prop where
  owns : Owns sys gw.memDc gw.dib gw.dib
  windowDcs : sys.windowDcs = []
  paintDcs : sys.paintDcs = []
  paired : gw.memDc.isSome = gw.dib.isSome
  backed : gw.pw.fb.isSome = gw.dib.isSome

/-- Only the contexts of the window, the client area and what is lost of it have changed. -/
structure Kept (sys sys' : System D) : Prop where
  answers : sys'.answers = sys.answers
  memDcs : sys'.memDcs = sys.memDcs
  bitmaps : sys'.bitmaps = sys.bitmaps

theorem Owns.kept {memDc bitmap dib : Option Nat} (owns : Owns sys memDc bitmap dib)
    (kept : Kept sys sys') : Owns sys' memDc bitmap dib where
  memDcs := by rw [kept.memDcs, owns.memDcs]
  bitmaps := kept.bitmaps.trans owns.bitmaps
  took := by rw [kept.answers, kept.memDcs]; exact owns.took

/-- The window may move on as long as it keeps its framebuffer. -/
theorem Holds.moved (holds : Holds sys gw) {pw : PalWindow U}
    (same : pw.fb.isSome = gw.pw.fb.isSome) : Holds sys { gw with pw := pw } :=
  ⟨holds.owns, holds.windowDcs, holds.paintDcs, holds.paired, same.trans holds.backed⟩

end InstagramNt40.Gdi
