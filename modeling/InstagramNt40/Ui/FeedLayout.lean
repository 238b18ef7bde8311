import InstagramNt40.Library.Stack
import InstagramNt40.Ui.Feed

/-!
# The layout of the feed

Drawing, the content height and the click walk go over the posts one by one, each with
its own running `y`. All of them follow one stack of spans.
-/
namespace InstagramNt40.Feed

open Crt Loop Raster Font

variable (heap : Heap) (hangul : HangulData)

/-! ### Caption blocks -/

/-- The number of caption lines that are shown. -/
def visibleLines (cw : Int) (caption : Option CString) (expanded : Bool) : Nat :=
  let total := (wrapCaption hangul caption cw).length
  if expanded ∨ total ≤ captionLinesCollapsed then total else captionLinesCollapsed

theorem wrapLoop_length_le (maxW : Int) (room off : Nat) (p : CString) :
    (wrapLoop hangul maxW room off p).length ≤ room := by
  induction room generalizing off p with
  | zero => exact Nat.le_refl 0
  | succ room ih =>
    unfold wrapLoop
    split
    · exact Nat.zero_le _
    · exact Nat.succ_le_succ (ih _ _)

theorem visibleLines_le (cw : Int) (caption : Option CString) (expanded : Bool) :
    visibleLines hangul cw caption expanded ≤ captionLinesHardCap := by
  have total : (wrapCaption hangul caption cw).length ≤ captionLinesHardCap := by
    cases caption with
    | none => exact Nat.zero_le _
    | some caption => exact wrapLoop_length_le hangul cw _ 0 caption
  unfold visibleLines
  dsimp only
  split
  · exact total
  · decide

theorem captionLines_y (s : Option Surface) (cx y cw : Int) (caption : Option CString)
    (expanded : Bool) :
    (captionLines hangul s cx y cw caption expanded).2 =
      y + visibleLines hangul cw caption expanded * fontWideLine :=
  forLoop_linear Prod.snd fontWideLine (s, y) fun _ _ => rfl

/-- The height of a caption block depends only on its lines, not on where it is drawn or
whether it is drawn at all. -/
theorem captionBlock_height (s : Option Surface) (cx cy cw : Int) (likes user : CString)
    (caption comments : Option CString) (expanded : Bool) :
    (captionBlock hangul s cx cy cw likes user caption comments expanded).2 =
      fontLine + 1 + fontWideLine + visibleLines hangul cw caption expanded * fontWideLine +
        (if comments.isSome then fontLine else 0) := by
  unfold captionBlock
  -- the walk over the lines adds a fixed height for each
  cases comments with
  | none =>
    dsimp only [Option.isSome]
    rw [captionLines_y, if_neg Bool.false_ne_true]
    ring
  | some comments =>
    dsimp only [Option.isSome]
    rw [captionLines_y, if_pos rfl]
    ring

/-- The drawn block is as high as the measured one. -/
theorem captionBlock_measured (s : Surface) (cx cy cw : Int) (likes user : CString)
    (caption comments : Option CString) (expanded : Bool) :
    (captionBlock hangul (some s) cx cy cw likes user caption comments expanded).2 =
      (captionBlock hangul none 0 0 cw likes user caption comments expanded).2 := by
  rw [captionBlock_height, captionBlock_height]

/-- Also at the smallest widths a card has a positive height. -/
theorem postCardHeight_pos {w : Int} (wide : -11 ≤ w) (likes user : CString)
    (caption comments : Option CString) (expanded : Bool) :
    0 < postCardHeight hangul w likes user caption comments expanded := by
  unfold postCardHeight
  dsimp only
  rw [captionBlock_height]
  -- the photo of a narrow card has a negative height, which the rest makes up for
  have lines : 0 ≤ (visibleLines hangul (w - 2 * postPad) caption expanded : Int) * fontWideLine :=
    Int.mul_nonneg (Int.natCast_nonneg _) (by decide)
  have comment : 0 ≤ (if comments.isSome then fontLine else 0) := by split <;> decide
  simp only [postPad, fontLine, fontWideLine] at lines comment ⊢
  omega

/-- The lines of a caption are limited, and with them the height of a card. -/
theorem postCardHeight_le (w : Int) (likes user : CString) (caption comments : Option CString)
    (expanded : Bool) :
    postCardHeight hangul w likes user caption comments expanded ≤ w + 1234 := by
  unfold postCardHeight
  dsimp only
  rw [captionBlock_height]
  have lines := visibleLines_le hangul (w - 2 * postPad) caption expanded
  have comment : (if comments.isSome then fontLine else 0) ≤ 8 := by split <;> decide
  simp only [postPad, fontLine, fontWideLine, captionLinesHardCap] at lines comment ⊢
  omega

/-! ### The three walks -/

/-- The heights of the cards. -/
def cardHeights (width : Int) (data : FeedData) : List Int :=
  data.posts.map (realCardHeight hangul (width - 12))

theorem cardHeights_pos {width : Int} (wide : 1 ≤ width) (data : FeedData) :
    ∀ h ∈ cardHeights hangul width data, 0 < h := by
  intro h member
  obtain ⟨fp, -, rfl⟩ := List.mem_map.mp member
  exact postCardHeight_pos hangul (by omega) _ _ _ _ _

/-- The spans of the cards of a feed in a window of the given width. -/
def cardSpans (width : Int) (data : FeedData) : List Stack.Span :=
  Stack.spans postGap postGap (cardHeights hangul width data)

/-- The cards that the calls of `draw_post` paint in the loop of `fill_real_posts`. -/
def drawnCards (w : Int) : Surface × Int → List FeedPost → List Rect
  | _, [] => []
  | st, fp :: posts =>
    let drawn := fillCard heap hangul w st fp
    drawn.1 :: drawnCards w drawn.2 posts

/-- The cards that `fill_real_posts` draws on a content surface. -/
def realCards (data : FeedData) (content : Surface) : List Rect :=
  drawnCards heap hangul (content.w - 12) (surfaceFill content cFace, postGap) data.posts

/-- The rows of a rectangle. -/
def rowsOf (r : Rect) : Stack.Span := ⟨r.y, r.h⟩

theorem drawnCards_spans (w : Int) (st : Surface × Int) (posts : List FeedPost) :
    (drawnCards heap hangul w st posts).map rowsOf =
      Stack.spans postGap st.2 (posts.map (realCardHeight hangul w)) := by
  induction posts generalizing st with
  | nil => rfl
  | cons fp posts ih =>
    rw [drawnCards, List.map_cons, ih]
    rfl

theorem surfaceFill_w (s : Surface) (color : UInt32) : (surfaceFill s color).w = s.w :=
  congrArg Prod.fst (surfaceFill_shape s color)

/-- The cards are drawn at the spans of the stack. -/
theorem realCards_spans (data : FeedData) (content : Surface) :
    (realCards heap hangul data content).map rowsOf = cardSpans hangul content.w data :=
  drawnCards_spans heap hangul _ _ _

theorem fillStep_foldl (w : Int) (st : Surface × Int) (posts : List FeedPost) :
    (posts.foldl (fillStep heap hangul w) st).2 =
      Stack.extent postGap st.2 (posts.map (realCardHeight hangul w)) := by
  induction posts generalizing st with
  | nil => rfl
  | cons fp posts ih =>
    rw [List.foldl_cons, ih]
    rfl

/-- The `y` after the last card is the end of the stack. -/
theorem fillRealLoop_y (data : FeedData) (content : Surface) :
    (fillRealLoop heap hangul data content).2 =
      Stack.extent postGap postGap (cardHeights hangul content.w data) := by
  unfold fillRealLoop cardHeights
  dsimp only
  rw [surfaceFill_w, fillStep_foldl]

/-- A sum over the cards, each with a gap, is the end of their stack. -/
theorem foldl_extent {α : Type} (height : α → Int) (total : Int) (cards : List α) :
    cards.foldl (fun total card => total + (height card + postGap)) total =
      Stack.extent postGap total (cards.map height) := by
  induction cards generalizing total with
  | nil => rfl
  | cons card cards ih => rw [List.foldl_cons, ih, List.map_cons, Stack.extent, Int.add_assoc]

/-- So is the height of the content. -/
theorem uiFeedContentHeightReal_eq (width : Int) (data : FeedData) :
    uiFeedContentHeightReal hangul width data =
      Stack.extent postGap postGap (cardHeights hangul width data) :=
  foldl_extent _ _ _

theorem extent_pos {heights : List Int} (positive : ∀ h ∈ heights, 0 < h) :
    0 < Stack.extent postGap postGap heights := by
  have above : postGap ≤ Stack.extent postGap postGap heights :=
    Stack.le_extent (by decide) positive
  have gap : postGap = 6 := rfl
  omega

theorem uiFeedContentHeightReal_pos {width : Int} (wide : 1 ≤ width) (data : FeedData) :
    0 < uiFeedContentHeightReal hangul width data := by
  rw [uiFeedContentHeightReal_eq]
  exact extent_pos (cardHeights_pos hangul wide data)

theorem uiFeedContentHeight_pos {width : Int} (wide : 1 ≤ width) :
    0 < uiFeedContentHeight hangul width := by
  unfold uiFeedContentHeight
  dsimp only
  rw [foldl_extent]
  apply extent_pos
  intro height member
  obtain ⟨mp, -, rfl⟩ := List.mem_map.mp member
  exact postCardHeight_pos hangul (by omega) _ _ _ _ _

/-- The height of the content, and so every sum in the three walks, is far from the range
of `int` for the few posts that the program shows. -/
theorem uiFeedContentHeightReal_le (width : Int) (data : FeedData) :
    uiFeedContentHeightReal hangul width data ≤ 6 + data.posts.length * (width + 1228) := by
  have bounded : ∀ h ∈ cardHeights hangul width data, h ≤ width + 1222 := by
    intro h member
    obtain ⟨fp, -, rfl⟩ := List.mem_map.mp member
    have height : realCardHeight hangul (width - 12) fp ≤ width - 12 + 1234 :=
      postCardHeight_le hangul _ _ _ _ _ _
    omega
  have step : width + 1222 + postGap = width + 1228 := by
    simp only [postGap]
    ring
  have count : (cardHeights hangul width data).length = data.posts.length := List.length_map _
  rw [uiFeedContentHeightReal_eq, ← step, ← count]
  exact Stack.extent_le bounded

/-- `fp->expanded = !fp->expanded` -/
def FeedPost.toggle (fp : FeedPost) : FeedPost := { fp with expanded := !fp.expanded }

/-- The feed with post `i` flipped. -/
def FeedData.toggle (data : FeedData) (i : Nat) : FeedData :=
  ⟨data.posts.modify i FeedPost.toggle⟩

/-- The click walk flips the post whose span holds the row. -/
theorem clickLoop_eq (w yContent y : Int) (posts : List FeedPost) :
    clickLoop hangul w yContent y posts =
      (Stack.locate postGap yContent y (posts.map (realCardHeight hangul w))).map fun i =>
        posts.modify i FeedPost.toggle := by
  induction posts generalizing y with
  | nil => rfl
  | cons fp posts ih =>
    rw [clickLoop, List.map_cons, Stack.locate]
    by_cases hit : yContent ≥ y ∧ yContent < y + realCardHeight hangul w fp
    · rw [if_pos hit, if_pos hit]
      rfl
    · rw [if_neg hit, if_neg hit, ih, Int.add_assoc, Option.map_map, Option.map_map]
      rfl

/-- The post that a click on a row of the content hits. -/
def hitPost (width row : Int) (data : FeedData) : Option Nat :=
  if row < postGap then none
  else Stack.locate postGap row postGap (cardHeights hangul width data)

/-- A click flips the post that it hits, at every width. -/
theorem uiFeedClickReal_hit (x y scroll width : Int) (data : FeedData) :
    uiFeedClickReal hangul x y scroll width data =
      match hitPost hangul width (y - barH + scroll) data with
      | some i => (1, data.toggle i)
      | none => (0, data) := by
  unfold uiFeedClickReal hitPost
  dsimp only
  split
  · rfl
  · rw [clickLoop_eq]
    unfold cardHeights
    cases Stack.locate postGap (y - barH + scroll) postGap
      (data.posts.map (realCardHeight hangul (width - 12))) <;> rfl

/-- Where the cards have positive heights, no card reaches above the first one. -/
theorem hitPost_eq {width : Int} (wide : 1 ≤ width) (row : Int) (data : FeedData) :
    hitPost hangul width row data =
      Stack.locate postGap row postGap (cardHeights hangul width data) := by
  unfold hitPost
  split
  next above =>
    symm
    rw [Stack.locate_eq_none_iff]
    intro s member holds
    obtain ⟨below, -, -⟩ :=
      Stack.spans_inside (by decide) (cardHeights_pos hangul wide data) member
    have := holds.1
    omega
  next below => rfl

/-- The result of a click, by the row of the content that it is translated to. -/
theorem uiFeedClickReal_eq {width : Int} (wide : 1 ≤ width) (x y scroll : Int) (data : FeedData) :
    uiFeedClickReal hangul x y scroll width data =
      match Stack.locate postGap (y - barH + scroll) postGap (cardHeights hangul width data) with
      | some i => (1, data.toggle i)
      | none => (0, data) := by
  rw [uiFeedClickReal_hit, hitPost_eq hangul wide]

/-! ### Flipping one post -/

/-- Flipping tells the posts apart. -/
theorem modify_toggle_injective {posts : List FeedPost} {i j : Nat} (hi : i < posts.length)
    (same : posts.modify i FeedPost.toggle = posts.modify j FeedPost.toggle) : i = j := by
  by_contra differ
  -- look at post `i` on both sides: only the left one is flipped
  have here := congrArg (·[i]?) same
  simp only [List.getElem?_modify, if_neg (Ne.symm differ), List.getElem?_eq_getElem hi] at here
  have flag := congrArg FeedPost.expanded (Option.some.inj here)
  exact absurd flag (by simp [FeedPost.toggle])

/-- A click flips post `i` exactly when its row lies in the span of card `i`. -/
theorem uiFeedClickReal_toggle_iff {width : Int} (wide : 1 ≤ width) (x y scroll : Int)
    (data : FeedData) {i : Nat} (inside : i < data.posts.length) :
    uiFeedClickReal hangul x y scroll width data = (1, data.toggle i) ↔
      ∃ s, (cardSpans hangul width data)[i]? = some s ∧ s.Holds (y - barH + scroll) := by
  rw [uiFeedClickReal_eq hangul wide, cardSpans,
    ← Stack.locate_eq_some_iff (by decide) (cardHeights_pos hangul wide data)]
  cases Stack.locate postGap (y - barH + scroll) postGap (cardHeights hangul width data) with
  | none => simp
  | some j =>
    simp only [Prod.mk.injEq, true_and, Option.some.injEq]
    constructor
    · intro same
      exact (modify_toggle_injective inside (congrArg FeedData.posts same).symm).symm
    · rintro rfl
      rfl

/-- A click changes nothing exactly when its row lies in no card. -/
theorem uiFeedClickReal_nothing_iff {width : Int} (wide : 1 ≤ width) (x y scroll : Int)
    (data : FeedData) :
    uiFeedClickReal hangul x y scroll width data = (0, data) ↔
      ∀ s ∈ cardSpans hangul width data, ¬s.Holds (y - barH + scroll) := by
  rw [uiFeedClickReal_eq hangul wide, cardSpans, ← Stack.locate_eq_none_iff]
  cases Stack.locate postGap (y - barH + scroll) postGap (cardHeights hangul width data) <;> simp

/-- What drawing a feed on a content surface, the height of the content and the clicks
have in common. -/
structure LayoutAgrees (data : FeedData) (content : Surface) : Prop where
  count : (realCards heap hangul data content).length = data.posts.length
  positive : ∀ card ∈ realCards heap hangul data content, 0 < card.h
  first : ∀ card, (realCards heap hangul data content)[0]? = some card → card.y = postGap
  next : ∀ i card card', (realCards heap hangul data content)[i]? = some card →
    (realCards heap hangul data content)[i + 1]? = some card' →
      card'.y = card.y + card.h + postGap
  last : (fillRealLoop heap hangul data content).2 =
    uiFeedContentHeightReal hangul content.w data
  inside : ∀ card ∈ realCards heap hangul data content,
    0 ≤ card.y ∧ card.y + card.h ≤ uiFeedContentHeightReal hangul content.w data
  clicked : ∀ i card, (realCards heap hangul data content)[i]? = some card → ∀ x y scroll,
    (uiFeedClickReal hangul x y scroll content.w data = (1, data.toggle i) ↔
      card.y ≤ y - barH + scroll ∧ y - barH + scroll < card.y + card.h)
  missed : ∀ x y scroll,
    (uiFeedClickReal hangul x y scroll content.w data = (0, data) ↔
      ∀ card ∈ realCards heap hangul data content,
        ¬(card.y ≤ y - barH + scroll ∧ y - barH + scroll < card.y + card.h))

theorem realCards_getElem? {data : FeedData} {content : Surface} {i : Nat} {card : Rect}
    (found : (realCards heap hangul data content)[i]? = some card) :
    (cardSpans hangul content.w data)[i]? = some (rowsOf card) := by
  rw [← realCards_spans heap hangul, List.getElem?_map, found]
  rfl

theorem realCards_mem {data : FeedData} {content : Surface} {card : Rect}
    (member : card ∈ realCards heap hangul data content) :
    rowsOf card ∈ cardSpans hangul content.w data := by
  rw [← realCards_spans heap hangul]
  exact List.mem_map_of_mem member

/-- Drawing, scroll range and clicks agree on the cards at every width. -/
theorem layoutAgrees (data : FeedData) (content : Surface) (wide : 1 ≤ content.w) :
    LayoutAgrees heap hangul data content where
  count := by
    have spans := congrArg List.length (realCards_spans heap hangul data content)
    rwa [List.length_map, cardSpans, Stack.spans_length, cardHeights, List.length_map] at spans
  positive card member :=
    (Stack.spans_inside (by decide) (cardHeights_pos hangul wide data)
      (realCards_mem heap hangul member)).2.1
  first card found := by
    have span := realCards_getElem? heap hangul found
    rw [cardSpans, Stack.spans_getElem?] at span
    obtain ⟨h, -, eq⟩ := Option.map_eq_some_iff.mp span
    exact (congrArg Stack.Span.top eq).symm
  next i card card' found found' :=
    Stack.spans_next (realCards_getElem? heap hangul found) (realCards_getElem? heap hangul found')
  last := by rw [fillRealLoop_y, uiFeedContentHeightReal_eq]
  inside card member := by
    obtain ⟨above, -, below⟩ := Stack.spans_inside (by decide) (cardHeights_pos hangul wide data)
      (realCards_mem heap hangul member)
    rw [uiFeedContentHeightReal_eq]
    simp only [rowsOf, postGap] at above below ⊢
    omega
  clicked i card found x y scroll := by
    have inside : i < data.posts.length := by
      have less := (List.getElem?_eq_some_iff.mp (realCards_getElem? heap hangul found)).1
      rwa [cardSpans, Stack.spans_length, cardHeights, List.length_map] at less
    rw [uiFeedClickReal_toggle_iff hangul wide x y scroll data inside,
      realCards_getElem? heap hangul found]
    simp [Stack.Span.Holds, rowsOf]
  missed x y scroll := by
    rw [uiFeedClickReal_nothing_iff hangul wide, ← realCards_spans heap hangul data content]
    simp [Stack.Span.Holds, rowsOf]

/-- A feed of two posts in a window that is one pixel wide. -/
theorem layoutAgrees_narrow :
    LayoutAgrees .roomy ⟨#[], #[]⟩
      ⟨[⟨[0x61], none, 3, none, false⟩, ⟨[0x62], some [0x63], 0, none, true⟩]⟩
      ⟨fun _ => 0, 1, 200, 1⟩ :=
  layoutAgrees _ _ _ _ (by decide)

end InstagramNt40.Feed
