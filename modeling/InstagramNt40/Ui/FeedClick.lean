import InstagramNt40.Ui.FeedRender

/-!
# Clicks and the screen

A click should flip the card that is on the screen where it falls. The translation of
`ui_feed_click_real` knows neither the height of the window nor whether anything was
drawn, so it does so except for clicks on the bars, and on an empty screen, that are
translated into a card.
-/
namespace InstagramNt40.Feed

open Crt Raster Font

variable (heap : Heap) (hangul : HangulData)

/-- The content surface of the feed before it is filled. -/
def blankContent (data : FeedData) (fb : Surface) : Option Surface :=
  let contentH := uiFeedContentHeightReal hangul fb.w data
  surfaceAlloc heap fb.w (if contentH > 0 then contentH else 1)

/-- Row `y` of the window lies in the viewport, and the content row blitted to it belongs
to the card drawn for post `i`. -/
def ShownCard (data : FeedData) (fb : Surface) (scrollY y : Int) (i : Nat) : Prop :=
  barH ≤ y ∧ y < fb.h - navH ∧ ∃ row blank card,
    blittedRow heap fb scrollY (uiFeedContentHeightReal hangul fb.w data)
      (fillRealPosts heap hangul data) y = some row ∧
    blankContent heap hangul data fb = some blank ∧
    (realCards heap hangul data blank)[i]? = some card ∧ card.y ≤ row ∧ row < card.y + card.h

/-- A click flips the card it falls on, and nothing where there is none. -/
def ClickAgrees (data : FeedData) (fb : Surface) (scrollY x y : Int) : Prop :=
  (∀ i, ShownCard heap hangul data fb scrollY y i →
    uiFeedClickReal hangul x y scrollY fb.w data = (1, data.toggle i)) ∧
  ((∀ i, ¬ShownCard heap hangul data fb scrollY y i) →
    uiFeedClickReal hangul x y scrollY fb.w data = (0, data))

/-- The scroll range of a window. -/
def maxScroll (data : FeedData) (fb : Surface) : Int :=
  max 0 (uiFeedContentHeightReal hangul fb.w data - (fb.h - barH - navH))

section Window

variable {hangul} {data : FeedData} {fb : Surface} {scrollY : Int}

/-- The card on the screen is the one whose span holds the translated row. -/
theorem shownCard_iff (wide : 1 ≤ fb.w) (tall : barH + navH < fb.h) (low : 0 ≤ scrollY)
    (high : scrollY ≤ maxScroll hangul data fb) (y : Int) (i : Nat) :
    ShownCard heap hangul data fb scrollY y i ↔
      (blankContent heap hangul data fb).isSome ∧ barH ≤ y ∧ y < fb.h - navH ∧
        ∃ s, (cardSpans hangul fb.w data)[i]? = some s ∧ s.Holds (y - barH + scrollY) := by
  have positive : 0 < uiFeedContentHeightReal hangul fb.w data :=
    uiFeedContentHeightReal_pos hangul wide data
  have rows :=
    blittedRow_eq heap wide tall positive (fillRealPosts_shape heap hangul data) low high y
  have filled : (contentSurface heap fb (uiFeedContentHeightReal hangul fb.w data)
      (fillRealPosts heap hangul data)).isSome = (blankContent heap hangul data fb).isSome :=
    Option.isSome_map
  rw [filled] at rows
  have sameW {blank : Surface} (allocated : blankContent heap hangul data fb = some blank) :
      blank.w = fb.w := by
    obtain ⟨-, rfl⟩ := surfaceAlloc_size allocated
    rfl
  unfold ShownCard
  constructor
  · rintro ⟨below, above, row, blank, card, blitted, allocated, found, low', high'⟩
    rw [rows, allocated] at blitted
    split_ifs at blitted with shown
    cases blitted
    have span := realCards_getElem? heap hangul found
    rw [sameW allocated] at span
    rw [allocated]
    exact ⟨rfl, below, above, rowsOf card, span, low', high'⟩
  · rintro ⟨allocated, below, above, s, span, holds⟩
    obtain ⟨blank, eq⟩ := Option.isSome_iff_exists.mp allocated
    -- the card lies inside the content, so its rows are blitted
    obtain ⟨-, -, inside⟩ := Stack.spans_inside (by decide) (cardHeights_pos hangul wide data)
      (List.mem_of_getElem? span)
    rw [← uiFeedContentHeightReal_eq] at inside
    have gap : postGap = 6 := rfl
    have row := holds.2
    rw [← sameW eq, ← realCards_spans heap hangul, List.getElem?_map] at span
    obtain ⟨card, found, rfl⟩ := Option.map_eq_some_iff.mp span
    refine ⟨below, above, y - barH + scrollY, blank, card, ?_, eq, found, holds.1, holds.2⟩
    rw [rows, if_pos ⟨allocated, below, above, by omega⟩]

/-- A click agrees with the screen exactly when it is translated into no card, or falls
into the viewport while the content is on the screen. -/
theorem clickAgrees_iff (wide : 1 ≤ fb.w) (tall : barH + navH < fb.h) (low : 0 ≤ scrollY)
    (high : scrollY ≤ maxScroll hangul data fb) (x y : Int) :
    ClickAgrees heap hangul data fb scrollY x y ↔
      (∀ s ∈ cardSpans hangul fb.w data, ¬s.Holds (y - barH + scrollY)) ∨
        barH ≤ y ∧ y < fb.h - navH ∧ (blankContent heap hangul data fb).isSome := by
  have shown := shownCard_iff heap wide tall low high y
  constructor
  · intro agrees
    by_cases inView : barH ≤ y ∧ y < fb.h - navH ∧ (blankContent heap hangul data fb).isSome
    · exact .inr inView
    · left
      -- no card is shown there, so the click must not hit one
      have none : ∀ i, ¬ShownCard heap hangul data fb scrollY y i := by
        intro i card
        obtain ⟨allocated, below, above, -⟩ := (shown i).mp card
        exact inView ⟨below, above, allocated⟩
      exact (uiFeedClickReal_nothing_iff hangul wide x y scrollY data).mp (agrees.2 none)
  · intro condition
    constructor
    · intro i card
      obtain ⟨-, -, -, s, span, holds⟩ := (shown i).mp card
      have inside : i < data.posts.length := by
        have less := (List.getElem?_eq_some_iff.mp span).1
        rwa [cardSpans, Stack.spans_length, cardHeights, List.length_map] at less
      exact (uiFeedClickReal_toggle_iff hangul wide x y scrollY data inside).mpr ⟨s, span, holds⟩
    · intro none
      rw [uiFeedClickReal_nothing_iff hangul wide]
      rcases condition with outside | ⟨below, above, allocated⟩
      · exact outside
      · intro s member holds
        -- a card that holds the row would be shown
        obtain ⟨i, span⟩ := List.mem_iff_getElem?.mp member
        exact none i ((shown i).mpr ⟨allocated, below, above, s, span, holds⟩)

end Window

/-- Two posts without captions. -/
def twoPosts : FeedData := ⟨[⟨[0x61], none, 3, none, false⟩, ⟨[0x62], none, 0, none, false⟩]⟩

/-- A framebuffer of the size the window is opened with. -/
def windowFb : Surface := ⟨fun _ => 0, 340, 600, 340⟩

/-- A click into the first card agrees with the screen. -/
theorem clickAgrees_iff_inside : ClickAgrees .roomy ⟨#[], #[]⟩ twoPosts windowFb 100 20 100 :=
  (clickAgrees_iff .roomy (by decide) (by decide) (by decide) (by decide) 20 100).mpr
    (.inr ⟨by decide, by decide, by decide⟩)

/-- After scrolling by 100 pixels a click on the app bar flips the first post. -/
theorem not_clickAgrees_appBar :
    1 ≤ windowFb.w ∧ barH + navH < windowFb.h ∧ 100 ≤ maxScroll ⟨#[], #[]⟩ twoPosts windowFb ∧
      ¬ClickAgrees .roomy ⟨#[], #[]⟩ twoPosts windowFb 100 20 10 := by
  refine ⟨by decide, by decide, by decide, fun agrees => ?_⟩
  have none : ∀ i, ¬ShownCard .roomy ⟨#[], #[]⟩ twoPosts windowFb 100 10 i := by
    intro i card
    exact absurd card.1 (by decide)
  -- the row is 80 on the content, inside the first card
  have flipped : (uiFeedClickReal ⟨#[], #[]⟩ 20 10 100 windowFb.w twoPosts).1 = 1 := by decide
  rw [agrees.2 none] at flipped
  exact absurd flipped (by decide)

end InstagramNt40.Feed
