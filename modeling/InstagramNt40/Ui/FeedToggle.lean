import InstagramNt40.Ui.FeedLayout

/-!
# Expanding and collapsing

A click flips one card. The card becomes higher when it is expanded and the cards above it
stay where they are, so the same click finds it again and takes the first one back.
-/
namespace InstagramNt40.Feed

open Crt Font

variable (hangul : HangulData)

/-! ### Heights -/

theorem visibleLines_expanded (cw : Int) (caption : Option CString) :
    visibleLines hangul cw caption false ≤ visibleLines hangul cw caption true := by
  unfold visibleLines
  dsimp only
  -- collapsed, at most two lines are left of the total
  split
  · rw [if_pos (.inl rfl)]
  next longer =>
    rw [if_pos (.inl rfl)]
    exact Nat.le_of_not_le fun short => longer (.inr short)

/-- An expanded card is never shorter than the same card collapsed. -/
theorem postCardHeight_expanded (w : Int) (likes user : CString)
    (caption comments : Option CString) :
    postCardHeight hangul w likes user caption comments false ≤
      postCardHeight hangul w likes user caption comments true := by
  unfold postCardHeight
  dsimp only
  rw [captionBlock_height, captionBlock_height]
  have lines := visibleLines_expanded hangul (w - 2 * postPad) caption
  simp only [fontWideLine]
  omega

theorem realCardHeight_expanded (w : Int) (fp : FeedPost) :
    realCardHeight hangul w { fp with expanded := false } ≤
      realCardHeight hangul w { fp with expanded := true } :=
  postCardHeight_expanded hangul w _ _ _ _

/-! ### Hits -/

theorem hitPost_lt {width row : Int} {data : FeedData} {i : Nat}
    (hit : hitPost hangul width row data = some i) : i < data.posts.length := by
  unfold hitPost at hit
  split at hit
  · cases hit
  · have inside := Stack.locate_lt hit
    rwa [cardHeights, List.length_map] at inside

/-- Flipping a post changes the height of its card alone. -/
theorem cardHeights_toggle {data : FeedData} {i : Nat} {fp : FeedPost} (width : Int)
    (found : data.posts[i]? = some fp) :
    cardHeights hangul width (data.toggle i) =
      (cardHeights hangul width data).set i (realCardHeight hangul (width - 12) fp.toggle) := by
  unfold cardHeights FeedData.toggle
  rw [List.modify_eq_set_getElem?, found, ← List.map_set]
  rfl

/-- Once expanded, a post is hit at the same place. -/
theorem hitPost_toggle {width row : Int} {data : FeedData} {i : Nat} {fp : FeedPost}
    (found : data.posts[i]? = some fp) (collapsed : fp.expanded = false)
    (hit : hitPost hangul width row data = some i) :
    hitPost hangul width row (data.toggle i) = some i := by
  have height : (cardHeights hangul width data)[i]? =
      some (realCardHeight hangul (width - 12) fp) := by
    rw [cardHeights, List.getElem?_map, found]
    rfl
  have higher : realCardHeight hangul (width - 12) fp ≤
      realCardHeight hangul (width - 12) fp.toggle := by
    have expanded := realCardHeight_expanded hangul (width - 12) fp
    have toggled : fp.toggle = { fp with expanded := true } := by
      rw [FeedPost.toggle, collapsed]
      rfl
    rwa [← toggled, ← collapsed] at expanded
  unfold hitPost at hit ⊢
  split at hit
  · cases hit
  next below => rw [if_neg below, cardHeights_toggle hangul width found,
      Stack.locate_set hit height higher]

/-! ### Flipping twice -/

theorem FeedPost.toggle_toggle (fp : FeedPost) : fp.toggle.toggle = fp := by
  simp [FeedPost.toggle]

theorem FeedData.toggle_toggle (data : FeedData) (i : Nat) : (data.toggle i).toggle i = data := by
  have twice : FeedPost.toggle ∘ FeedPost.toggle = id := funext FeedPost.toggle_toggle
  unfold FeedData.toggle
  rw [List.modify_modify_eq, twice, List.modify_id]

theorem FeedData.toggle_ne {data : FeedData} {i : Nat} (inside : i < data.posts.length) :
    data.toggle i ≠ data := by
  intro same
  have here := congrArg (fun d : FeedData => d.posts[i]?) same
  simp only [FeedData.toggle, List.getElem?_modify_eq, List.getElem?_eq_getElem inside] at here
  have flag := congrArg FeedPost.expanded (Option.some.inj here)
  exact absurd flag (by simp [FeedPost.toggle])

/-- A click flips at most one post and tells whether it did, and a second click on the
same point takes an expansion back. -/
structure ClickToggles (x y scrollY width : Int) (data : FeedData) : Prop where
  changes : uiFeedClickReal hangul x y scrollY width data = (0, data) ∨
    ∃ i < data.posts.length, uiFeedClickReal hangul x y scrollY width data = (1, data.toggle i)
  returns : (uiFeedClickReal hangul x y scrollY width data).1 = 1 ↔
    (uiFeedClickReal hangul x y scrollY width data).2 ≠ data
  undone : ∀ i fp, data.posts[i]? = some fp → fp.expanded = false →
    uiFeedClickReal hangul x y scrollY width data = (1, data.toggle i) →
      uiFeedClickReal hangul x y scrollY width (data.toggle i) = (1, (data.toggle i).toggle i) ∧
        (data.toggle i).toggle i = data
  higher : ∀ fp ∈ data.posts, realCardHeight hangul (width - 12) { fp with expanded := false } ≤
    realCardHeight hangul (width - 12) { fp with expanded := true }

theorem clickToggles (x y scrollY width : Int) (data : FeedData) :
    ClickToggles hangul x y scrollY width data := by
  have click := uiFeedClickReal_hit hangul x y scrollY width
  constructor
  · rw [click]
    cases hit : hitPost hangul width (y - barH + scrollY) data with
    | none => exact .inl rfl
    | some i => exact .inr ⟨i, hitPost_lt hangul hit, rfl⟩
  · rw [click]
    cases hit : hitPost hangul width (y - barH + scrollY) data with
    | none => simp
    | some i => simp [FeedData.toggle_ne (hitPost_lt hangul hit)]
  · intro i fp found collapsed flipped
    refine ⟨?_, FeedData.toggle_toggle data i⟩
    have inside : i < data.posts.length := (List.getElem?_eq_some_iff.mp found).1
    rw [click] at flipped
    cases hit : hitPost hangul width (y - barH + scrollY) data with
    | none =>
      rw [hit] at flipped
      cases flipped
    | some j =>
      rw [hit] at flipped
      -- no other post has been flipped
      have same : i = j :=
        modify_toggle_injective inside (congrArg (fun r => r.2.posts) flipped).symm
      rw [click, hitPost_toggle hangul found collapsed (same ▸ hit)]
  · intro fp member
    exact realCardHeight_expanded hangul (width - 12) fp

end InstagramNt40.Feed
