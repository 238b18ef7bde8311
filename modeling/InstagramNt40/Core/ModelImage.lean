import InstagramNt40.Core.ModelCorrect

/-!
# The picture of a post

A post of a private feed takes its picture from the first slide of its carousel, if it has
a carousel, and from the medium itself otherwise. A carousel without a picture on its first
slide leaves the post without one, also where the medium has a picture of its own.
-/
namespace InstagramNt40.Model

open Scanner Crt Json Compact

/-- The media of a response that become posts, in order. -/
def mediaOf (text : List UInt8) : List JsonValue :=
  match jsonParse text with
  | .ok root _ => (elementsAt root ["feed_items"]).filterMap fun item =>
      (item.member "media_or_ad").bind object?
  | _ => []

/-- The picture of the first slide. -/
def slideImage (m : JsonValue) : Option (List UInt8) :=
  (elementsAt m ["carousel_media"]).head?.bind imageOf

/-- The post has a picture if its medium offers one, the one of the first slide before its
own. -/
structure KeepsPicture (m : JsonValue) (p : PrivatePost) : Prop where
  offered : p.imageUrl = none → slideImage m = none ∧ imageOf m = none
  slideFirst : ∀ slide own, slideImage m = some slide → imageOf m = some own →
    p.imageUrl = some slide

/-- Every post of the response keeps its picture. -/
def PicturesKept (text : List UInt8) : Prop :=
  ∀ f, feedFromPrivateJson text = .value f →
    List.Forall₂ KeepsPicture (mediaOf text) f.posts.used

/-- The medium has no carousel, or a picture on its first slide, or no picture of its own. -/
def PictureFound (m : JsonValue) : Prop :=
  sizeAt m ["carousel_media"] = 0 ∨ slideImage m ≠ none ∨ imageOf m = none

/-- Without entries there is no first slide. -/
theorem slideImage_none {m : JsonValue} (single : sizeAt m ["carousel_media"] = 0) :
    slideImage m = none := by
  unfold slideImage elementsAt
  unfold sizeAt at single
  match found : valueAt m ["carousel_media"] with
  | some (.arr vals) =>
    rw [found] at single
    have empty : vals = [] := List.eq_nil_of_length_eq_zero single
    rw [empty]
    rfl
  | none | some .null | some (.bool _) | some (.num _ _) | some (.str _ _) | some (.obj _) => rfl

theorem keepsPicture_iff (m : JsonValue) : KeepsPicture m (privatePostOf m) ↔ PictureFound m := by
  have image : (privatePostOf m).imageUrl =
      if sizeAt m ["carousel_media"] = 0 then imageOf m else slideImage m := rfl
  unfold PictureFound
  by_cases single : sizeAt m ["carousel_media"] = 0
  · have noSlide := slideImage_none single
    rw [if_pos single] at image
    apply iff_of_true _ (.inl single)
    constructor
    · intro none
      exact ⟨noSlide, image.symm.trans none⟩
    · intro slide own found
      rw [noSlide] at found
      cases found
  · rw [if_neg single] at image
    rw [or_iff_right single]
    constructor
    · intro keeps
      rw [or_iff_not_imp_left, ne_eq, not_not]
      intro none
      exact (keeps.offered (image.trans none)).2
    · intro found
      constructor
      · intro none
        have noSlide := image.symm.trans none
        exact ⟨noSlide, found.resolve_left (not_not_intro noSlide)⟩
      · intro slide own first _
        rw [image, first]

/-- The posts of the feed are the posts of the media. -/
theorem feedFromPrivateJson_media {text : List UInt8} {f : PrivateFeed}
    (returned : feedFromPrivateJson text = .value f) :
    f.posts.used = (mediaOf text).map privatePostOf := by
  rcases jsonParse_returns text with null | ⟨root, y, run⟩
  · rw [feedFromPrivateJson, null] at returned
    cases returned
  · obtain ⟨g, feed, holds, -⟩ := feedFromPrivateJson_feed run
    rw [feed] at returned
    cases returned
    rw [holds.used, mediaOf, run, List.map_filterMap]
    rfl

theorem picturesKept_media (text : List UInt8) :
    PicturesKept text ↔ ∀ m ∈ mediaOf text, KeepsPicture m (privatePostOf m) := by
  unfold PicturesKept
  constructor
  · intro kept
    rcases jsonParse_returns text with null | ⟨root, y, run⟩
    · have nothing : mediaOf text = [] := by rw [mediaOf, null]
      rw [nothing]
      exact List.forall_mem_nil _
    · obtain ⟨f, feed, -⟩ := feedFromPrivateJson_feed run
      have all := kept f feed
      rw [feedFromPrivateJson_media feed, List.forall₂_map_right_iff, List.forall₂_same] at all
      exact all
  · intro all f feed
    rw [feedFromPrivateJson_media feed, List.forall₂_map_right_iff, List.forall₂_same]
    exact all

/-- For every response: its posts keep their pictures exactly if each medium's picture is
where it is looked for. -/
theorem picturesKept_iff (text : List UInt8) :
    PicturesKept text ↔ ∀ m ∈ mediaOf text, PictureFound m := by
  rw [picturesKept_media]
  exact forall₂_congr fun m _ => keepsPicture_iff m

/-- One post whose first slide has no picture; its medium has one. -/
def coverOnly : String :=
  "\x7b\"feed_items\":[\x7b\"media_or_ad\":\x7b\"carousel_media\":[\x7b\x7d],\"image_versions2\":" ++
    "\x7b\"candidates\":[\x7b\"url\":\"u\"\x7d]\x7d\x7d\x7d]\x7d"

theorem not_picturesKept_coverOnly : ¬PicturesKept (literal coverOnly) := by
  rw [picturesKept_media]
  have lost : (mediaOf (literal coverOnly)).any (fun m =>
      decide ((privatePostOf m).imageUrl = none) && decide (imageOf m ≠ none)) = true := by
    decide +kernel
  obtain ⟨m, member, both⟩ := List.any_eq_true.mp lost
  rw [Bool.and_eq_true, decide_eq_true_eq, decide_eq_true_eq] at both
  intro kept
  exact both.2 ((kept m member).offered both.1).2

end InstagramNt40.Model
