import InstagramNt40.Core.Font

/-!
# ui/feed.c

The feed: cards below each other on a content surface that is blitted, scrolled, between
two fixed bars. A NULL feed behaves as one without posts.
-/
namespace InstagramNt40.Feed

open Crt Loop Raster Font

/-! ### Colours and panels -/

def cFace : UInt32 := rasRgb 192 192 192
def cHilight : UInt32 := rasRgb 255 255 255
def cLight : UInt32 := rasRgb 223 223 223
def cShadow : UInt32 := rasRgb 128 128 128
def cDark : UInt32 := rasRgb 64 64 64
def cWhite : UInt32 := rasRgb 255 255 255
def cInk : UInt32 := rasRgb 80 80 80
def cText : UInt32 := rasRgb 20 20 20
def cIgBlue : UInt32 := rasRgb 0 60 128

def panelRaised (s : Surface) (r : Rect) : Surface :=
  let s := surfaceBevel s r cHilight cDark
  surfaceBevel s ⟨r.x + 1, r.y + 1, r.w - 2, r.h - 2⟩ cLight cShadow

def panelSunken (s : Surface) (r : Rect) : Surface :=
  let s := surfaceBevel s r cShadow cHilight
  surfaceBevel s ⟨r.x + 1, r.y + 1, r.w - 2, r.h - 2⟩ cDark cLight

/-- A channel of a gradient at `t` out of 255. -/
def mixChannel (top bot : UInt8) (t : Int) : UInt8 :=
  UInt8.ofInt ((top.toNat * (255 - t) + bot.toNat * t).tdiv 255)

def gradientV (s : Surface) (r : Rect) (top bot : UInt32) : Surface :=
  if r.h ≤ 0 then s
  else
    forLoop r.h.toNat (fun y s =>
      let t := if r.h = 1 then 0 else ((y : Int) * 255).tdiv (r.h - 1)
      let rr := mixChannel (rasR top) (rasR bot) t
      let gg := mixChannel (rasG top) (rasG bot) t
      let bb := mixChannel (rasB top) (rasB bot) t
      surfaceHline s r.x (r.y + y) r.w (rasRgb rr gg bb)) s

/-! ### Posts -/

/-- The bytes of a C string. -/
abbrev CString : Type := List UInt8

def cstring (s : String) : CString := s.toUTF8.data.toList

/-- `FeedPost`. `caption` and `photo` may be NULL. -/
structure FeedPost where
  username : CString
  caption : Option CString
  likeCount : Int
  photo : Option Surface
  expanded : Bool

/-- `FeedData`, its `count` the length of the list. -/
structure FeedData where
  posts : List FeedPost

/-- `FeedImages` -/
structure FeedImages where
  photos : Fin 8 → Option Surface

structure PostView where
  gradTop : UInt32
  gradBot : UInt32
  user : CString
  loc : Option CString
  likes : CString
  caption : Option CString
  comments : Option CString
  liked : Bool
  expanded : Bool
  photo : Option Surface

structure MockPost where
  gradTop : UInt32
  gradBot : UInt32
  user : CString
  loc : CString
  likes : CString
  caption : CString
  comments : CString
  liked : Bool

def kPosts : List MockPost :=
  [⟨rasRgb 255 180 90, rasRgb 200 60 120, cstring "jun.photo", cstring "Busan, Korea",
      cstring "1,204 likes", cstring "golden hour never gets old",
      cstring "View all 48 comments", true⟩,
    ⟨rasRgb 120 200 255, rasRgb 20 80 160, cstring "skywatch", cstring "Jeju Island",
      cstring "892 likes", cstring "endless blue", cstring "View all 12 comments", false⟩,
    ⟨rasRgb 160 220 160, rasRgb 30 110 60, cstring "greentrail", cstring "Seoraksan",
      cstring "2,317 likes", cstring "morning hike before the crowds",
      cstring "View all 73 comments", true⟩,
    ⟨rasRgb 230 230 235, rasRgb 120 120 140, cstring "citypulse", cstring "Seoul",
      cstring "560 likes", cstring "concrete jungle at night",
      cstring "View all 9 comments", false⟩]

def barH : Int := 30
def navH : Int := 28
def postPad : Int := 8
def postGap : Int := 6

/-- The digits of `format_likes`, the last one first, into a buffer of 24. -/
def likeDigits : Nat → Int → List UInt8
  | 0, _ => []
  | room + 1, n => if n > 0 then UInt8.ofInt (0x30 + n % 10) :: likeDigits room (n / 10) else []

/-- `format_likes`: what is written before the NUL into `cap` bytes. -/
def formatLikes (cap : Nat) (n : Int) : CString :=
  let digits := if n ≤ 0 then [0x30] else likeDigits 24 n
  (digits.reverse ++ cstring " likes").take (cap - 1)

/-- `sizeof(likes_buf)` -/
def likesBuf : Nat := 24

def gradientFromName (name : CString) : UInt32 × UInt32 :=
  let h : UInt32 := (name.takeWhile (· != 0)).foldl (fun h c => h * 33 + c.toUInt32) 5381
  let seven (shift : UInt32) : UInt8 := ((h >>> shift) &&& 0x7F).toUInt8
  -- seven bits of the hash for each channel
  let r := 80 + seven 0
  let g := 80 + seven 7
  let b := 80 + seven 14
  (rasRgb r g b, rasRgb (r / 2) (g / 2) (b / 2))

/-! ### Captions -/

def captionLinesCollapsed : Nat := 2
def captionLinesHardCap : Nat := 60
def moreLabel : CString := cstring " 더보기"
def lineBufCap : Nat := 512

/-- `CapLine` -/
structure CapLine where
  off : Nat
  len : Nat
  deriving DecidableEq, Repr

variable (heap : Heap) (hangul : HangulData)

/-- The loop of `wrap_caption` with `room` lines left, from offset `off` on, where the
string is `p`. -/
def wrapLoop (maxW : Int) : Nat → Nat → CString → List CapLine
  | 0, _, _ => []
  | room + 1, off, p =>
    if byteAt p 0 = 0 then []
    else
      let len := (fontFitWidth hangul p maxW).2
      let q := p.drop len
      -- the newline that ended the line is skipped
      let skip := if byteAt q 0 = 0x0A then 1 else 0
      ⟨off, len⟩ :: wrapLoop maxW room (off + len + skip) (q.drop skip)

def wrapCaption (caption : Option CString) (maxW : Int) : List CapLine :=
  match caption with
  | none => []
  | some caption => wrapLoop hangul maxW captionLinesHardCap 0 caption

/-- `len` bytes of a text, as the line buffer takes them. -/
def lineText (text : CString) (len : Nat) : CString :=
  text.take (if len > lineBufCap - 1 then lineBufCap - 1 else len)

def drawLine (s : Surface) (x y : Int) (text : CString) (len : Nat) (color : UInt32) : Surface :=
  fontDraw hangul s x y (lineText text len) color

def drawLineWithSuffix (s : Surface) (x y : Int) (text : CString) (len : Nat) (suffix : CString)
    (textColor suffixColor : UInt32) : Surface :=
  let buf := lineText text len
  let s := fontDraw hangul s x y buf textColor
  fontDraw hangul s (x + fontTextWidth hangul buf 1) y suffix suffixColor

/-- Line `i` of the visible lines of a caption. -/
def captionLine (s : Surface) (cx y cw : Int) (caption : CString) (lines : List CapLine)
    (truncated : Bool) (visible i : Nat) : Surface :=
  let line := lines.getD i ⟨0, 0⟩
  if truncated ∧ i = visible - 1 then
    -- the last visible line leaves room for the label
    let moreW := fontTextWidth hangul moreLabel 1
    let budget := if cw - moreW < 0 then 0 else cw - moreW
    let len2 := (fontFitWidth hangul (caption.drop line.off) budget).2
    drawLineWithSuffix hangul s cx y (caption.drop line.off) len2 moreLabel cInk cShadow
  else drawLine hangul s cx y (caption.drop line.off) line.len cInk

/-- The lines of `caption_block`: the surface, if one is drawn on, and the `y` after them. -/
def captionLines (s : Option Surface) (cx y cw : Int) (caption : Option CString)
    (expanded : Bool) : Option Surface × Int :=
  let lines := wrapCaption hangul caption cw
  let total := lines.length
  let visible := if expanded ∨ total ≤ captionLinesCollapsed then total else captionLinesCollapsed
  let truncated := !expanded && captionLinesCollapsed < total
  forLoop visible (fun i st =>
    (st.1.map fun s => captionLine hangul s cx st.2 cw (caption.getD []) lines truncated visible i,
      st.2 + fontWideLine)) (s, y)

/-- `caption_block`: the surface, if one is drawn on, and the height. -/
def captionBlock (s : Option Surface) (cx cy cw : Int) (likes user : CString)
    (caption comments : Option CString) (expanded : Bool) : Option Surface × Int :=
  let y := cy
  let s := s.map fun s => fontDraw hangul s cx y likes cText
  let y := y + (fontLine + 1)
  let s := s.map fun s => fontDraw hangul s cx y user cText
  let y := y + fontWideLine
  let lines := captionLines hangul s cx y cw caption expanded
  let (s, y) := match comments with
    | some comments =>
      (lines.1.map fun s => fontDraw hangul s cx lines.2 comments cShadow, lines.2 + fontLine)
    | none => lines
  (s, y - cy)

/-- `post_card_height` -/
def postCardHeight (w : Int) (likes user : CString) (caption comments : Option CString)
    (expanded : Bool) : Int :=
  let photoH := w - 2 * postPad
  let cw := w - 2 * postPad
  let capH := (captionBlock hangul none 0 0 cw likes user caption comments expanded).2
  40 + photoH + 26 + capH + postPad

/-! ### Cards -/

/-- `card` in `draw_post` -/
def postCard (x y w : Int) (p : PostView) : Rect :=
  ⟨x, y, w, postCardHeight hangul w p.likes p.user p.caption p.comments p.expanded⟩

/-- The header: avatar, user name, location and the three dots. -/
def drawHeader (s : Surface) (cx cy cw : Int) (p : PostView) : Surface :=
  let s := panelSunken s ⟨cx, cy, 24, 24⟩
  let s := gradientV s ⟨cx + 2, cy + 2, 20, 20⟩ p.gradTop p.gradBot
  let s := fontDraw hangul s (cx + 32) (cy + 3) p.user cText
  let s := match p.loc with
    | some loc => fontDraw hangul s (cx + 32) (cy + 13) loc cShadow
    | none => s
  forLoop 3 (fun i s => surfaceFillRect s ⟨cx + cw - 4 - i * 6, cy + 10, 3, 3⟩ cInk) s

/-- The photo well: the photo scaled to it, or the gradient. -/
def drawPhoto (s : Surface) (well : Rect) (p : PostView) : Surface :=
  let s := panelSunken s well
  let gradient :=
    gradientV s ⟨well.x + 2, well.y + 2, well.w - 4, well.h - 4⟩ p.gradTop p.gradBot
  match p.photo with
  | some photo =>
    if photo.w > 0 ∧ photo.h > 0 then
      match surfaceAlloc heap (well.w - 4) (well.h - 4) with
      | some tmp => surfaceBlit s (well.x + 2) (well.y + 2) (surfaceDownscale tmp photo) none
      -- without memory for the scaled photo the well stays empty
      | none => s
    else gradient
  | none => gradient

/-- The action bar. -/
def drawActions (s : Surface) (cx iy cw : Int) (p : PostView) : Surface :=
  let heart := if p.liked then rasRgb 220 30 60 else cInk
  let s := surfaceFillRect s ⟨cx, iy, 14, 12⟩ heart
  let s := surfaceFrame s ⟨cx + 22, iy, 14, 12⟩ cInk
  let s := surfaceFrame s ⟨cx + 44, iy, 16, 12⟩ cInk
  surfaceFrame s ⟨cx + cw - 12, iy, 10, 12⟩ cInk

/-- `draw_post` with the card that it paints: the card, the surface and the y after the
post. -/
def drawPostCard (s : Surface) (x y w : Int) (p : PostView) : Rect × Surface × Int :=
  let card := postCard hangul x y w p
  let photoH := w - 2 * postPad
  let s := panelRaised s card
  let cx := x + postPad
  let cw := w - 2 * postPad
  let s := drawHeader hangul s cx (y + postPad) cw p
  let cy := y + 40
  let s := drawPhoto heap s ⟨cx, cy, cw, photoH⟩ p
  let cy := cy + photoH
  let s := drawActions s cx (cy + 6) cw p
  let cy := cy + 26
  let block := captionBlock hangul (some s) cx cy cw p.likes p.user p.caption p.comments p.expanded
  -- the gap after a card is a literal here
  (card, block.1.getD s, y + card.h + 6)

/-- `draw_post`: the surface and the y after the post. -/
def drawPost (s : Surface) (x y w : Int) (p : PostView) : Surface × Int :=
  (drawPostCard heap hangul s x y w p).2

/-- The view of a mock post. -/
def mockView (imgs : Option FeedImages) (i : Nat) (mp : MockPost) : PostView :=
  { gradTop := mp.gradTop, gradBot := mp.gradBot, user := mp.user, loc := some mp.loc,
    likes := mp.likes, caption := some mp.caption, comments := some mp.comments,
    liked := mp.liked, expanded := false,
    photo := if h : i < 8 then imgs.bind fun imgs => imgs.photos ⟨i, h⟩ else none }

/-- The view of a real post. -/
def realView (fp : FeedPost) : PostView :=
  { gradTop := (gradientFromName fp.username).1, gradBot := (gradientFromName fp.username).2,
    user := fp.username, loc := none, likes := formatLikes likesBuf fp.likeCount,
    caption := fp.caption, comments := none, liked := false, expanded := fp.expanded,
    photo := fp.photo }

/-- The height of the card of a real post. -/
def realCardHeight (w : Int) (fp : FeedPost) : Int :=
  postCardHeight hangul w (formatLikes likesBuf fp.likeCount) fp.username fp.caption none
    fp.expanded

/-! ### Heights -/

/-- `ui_feed_content_height` -/
def uiFeedContentHeight (width : Int) : Int :=
  let w := width - 12
  kPosts.foldl (fun total mp =>
    total + (postCardHeight hangul w mp.likes mp.user (some mp.caption) (some mp.comments) false
      + postGap)) postGap

/-- `ui_feed_content_height_real` -/
def uiFeedContentHeightReal (width : Int) (data : FeedData) : Int :=
  let w := width - 12
  data.posts.foldl (fun total fp => total + (realCardHeight hangul w fp + postGap)) postGap

/-- `ui_feed_chrome_height` -/
def uiFeedChromeHeight : Int := barH + navH

/-! ### Rendering -/

/-- The bars. -/
def drawChrome (fb : Surface) : Surface :=
  let fb := surfaceFillRect fb ⟨0, 0, fb.w, barH⟩ cIgBlue
  let fb := surfaceHline fb 0 barH fb.w cDark
  let fb := fontDrawScaled hangul fb 10 8 (cstring "Instagram") cWhite 2
  let fb := surfaceFrame fb ⟨fb.w - 26, 8, 16, 14⟩ cWhite
  let nav : Rect := ⟨0, fb.h - navH, fb.w, navH⟩
  let fb := surfaceFillRect fb nav cFace
  let fb := surfaceHline fb 0 nav.y fb.w cHilight
  let fb := surfaceHline fb 0 (nav.y + 1) fb.w cShadow
  forLoop 5 (fun i fb =>
    let ix := fb.w.tdiv 5 * i + (fb.w.tdiv 5).tdiv 2 - 8
    surfaceFrame fb ⟨ix, nav.y + 8, 16, 14⟩ (if i = 0 then cIgBlue else cInk)) fb

/-- The clamp of `draw_scrollable`. -/
def clampScroll (contentH viewH scrollY : Int) : Int :=
  let maxscroll := if contentH - viewH < 0 then 0 else contentH - viewH
  let scrollY := if scrollY < 0 then 0 else scrollY
  if scrollY > maxscroll then maxscroll else scrollY

/-- The content surface of `draw_scrollable`, filled; nothing if it is not allocated. -/
def contentSurface (fb : Surface) (contentH : Int) (fillContent : Surface → Surface) :
    Option Surface :=
  (surfaceAlloc heap fb.w (if contentH > 0 then contentH else 1)).map fillContent

/-- `draw_scrollable` -/
def drawScrollable (fb : Surface) (scrollY contentH : Int) (fillContent : Surface → Surface) :
    Surface :=
  let fb := surfaceFill fb cFace
  let viewH := fb.h - barH - navH
  let fb :=
    if viewH > 0 then
      match contentSurface heap fb contentH fillContent with
      | some content =>
        surfaceBlit fb 0 barH content (some ⟨0, clampScroll contentH viewH scrollY, fb.w, viewH⟩)
      | none => fb
    else fb
  drawChrome hangul fb

/-- `fill_mock_posts` -/
def fillMockPosts (imgs : Option FeedImages) (content : Surface) : Surface :=
  let content := surfaceFill content cFace
  let w := content.w - 12
  (kPosts.zipIdx.foldl (fun (st : Surface × Int) mp =>
    drawPost heap hangul st.1 6 st.2 w (mockView imgs mp.2 mp.1)) (content, postGap)).1

/-- `ui_feed_render` -/
def uiFeedRender (imgs : Option FeedImages) (fb : Surface) (scrollY : Int) : Surface :=
  drawScrollable heap hangul fb scrollY (uiFeedContentHeight hangul fb.w)
    (fillMockPosts heap hangul imgs)

/-- The body of the loop of `fill_real_posts`: the card, and the content and `y` after it. -/
def fillCard (w : Int) (st : Surface × Int) (fp : FeedPost) : Rect × Surface × Int :=
  drawPostCard heap hangul st.1 6 st.2 w (realView fp)

def fillStep (w : Int) (st : Surface × Int) (fp : FeedPost) : Surface × Int :=
  (fillCard heap hangul w st fp).2

/-- `fill_real_posts`, with the last `y`. -/
def fillRealLoop (data : FeedData) (content : Surface) : Surface × Int :=
  let content := surfaceFill content cFace
  let w := content.w - 12
  data.posts.foldl (fillStep heap hangul w) (content, postGap)

def fillRealPosts (data : FeedData) (content : Surface) : Surface :=
  (fillRealLoop heap hangul data content).1

/-- `ui_feed_render_real` -/
def uiFeedRenderReal (data : FeedData) (fb : Surface) (scrollY : Int) : Surface :=
  drawScrollable heap hangul fb scrollY (uiFeedContentHeightReal hangul fb.w data)
    (fillRealPosts heap hangul data)

/-! ### Clicks -/

/-- The loop of `ui_feed_click_real` over the posts from `y` on: the posts with the one
that was hit flipped. -/
def clickLoop (w yContent : Int) : Int → List FeedPost → Option (List FeedPost)
  | _, [] => none
  | y, fp :: posts =>
    let h := realCardHeight hangul w fp
    if yContent ≥ y ∧ yContent < y + h then some ({ fp with expanded := !fp.expanded } :: posts)
    else (clickLoop w yContent (y + (h + postGap)) posts).map (fp :: ·)

/-- `ui_feed_click_real`: the result and the feed. -/
def uiFeedClickReal (_xWindow yWindow scrollY width : Int) (data : FeedData) : Int × FeedData :=
  let yContent := yWindow - barH + scrollY
  -- above the first card; the app bar is not told apart
  if yContent < postGap then (0, data)
  else
    match clickLoop hangul (width - 12) yContent postGap data.posts with
    | some posts => (1, ⟨posts⟩)
    | none => (0, data)

end InstagramNt40.Feed
