import InstagramNt40.Core.JsonSound
import InstagramNt40.Core.Model

/-!
# What the feed mappers keep

The posts of a response, said by paths through its tree: the items of the list that have
a post, each mapped on its own. The mappers compact exactly these into their array.
-/
namespace InstagramNt40.Model

open Scanner Crt Json Compact

/-! ### Paths -/

/-- The value at the end of a path of keys. -/
def valueAt : JsonValue → List String → Option JsonValue
  | v, [] => some v
  | v, key :: path => (v.member key).bind fun w => valueAt w path

/-- The string at the end of a path. -/
def stringAt (v : JsonValue) (path : List String) : Option (List UInt8) :=
  (valueAt v path).bind (·.text)

/-- The number at the end of a path, or zero. -/
def intAt (v : JsonValue) (path : List String) : Int := ((valueAt v path).bind (·.number)).getD 0

/-- The elements of the array at the end of a path. -/
def elementsAt (v : JsonValue) (path : List String) : List JsonValue :=
  ((valueAt v path).map (·.elements)).getD []

def sizeAt (v : JsonValue) (path : List String) : Nat := ((valueAt v path).map (·.size)).getD 0

/-! ### The posts of a response -/

/-- The first candidate for the image of a medium. -/
def imageOf (m : JsonValue) : Option (List UInt8) :=
  (elementsAt m ["image_versions2", "candidates"]).head?.bind (stringAt · ["url"])

/-- The post of a medium, with the image of its first slide if it has slides. -/
def privatePostOf (m : JsonValue) : PrivatePost where
  username := stringAt m ["user", "username"]
  caption := stringAt m ["caption", "text"]
  likeCount := intAt m ["like_count"]
  mediaType := intAt m ["media_type"]
  imageUrl := if sizeAt m ["carousel_media"] = 0 then imageOf m
    else (elementsAt m ["carousel_media"]).head?.bind imageOf
  numSlides := sizeAt m ["carousel_media"]

def object? : JsonValue → Option JsonValue
  | .obj members => some (.obj members)
  | _ => none

/-- The post of an item of `feed_items`, if its medium is an object. -/
def privateItem (item : JsonValue) : Option PrivatePost :=
  ((item.member "media_or_ad").bind object?).map privatePostOf

def graphPostOf (o : JsonValue) : Post where
  id := stringAt o ["id"]
  username := stringAt o ["username"]
  caption := stringAt o ["caption"]
  mediaUrl := (stringAt o ["media_url"]).or (stringAt o ["thumbnail_url"])
  mediaType := stringAt o ["media_type"]
  permalink := stringAt o ["permalink"]
  timestamp := stringAt o ["timestamp"]
  likeCount := intAt o ["like_count"]

def graphItem (item : JsonValue) : Option Post := (object? item).map graphPostOf

/-- Both mappers on one response: NULL for what is no JSON; else the posts of the items, in
order, in the first cells of an array for all of them. -/
structure FeedsMapped (text : List UInt8) : Prop where
  parses : jsonParse text = .null ∨ ∃ root y, jsonParse text = .ok root y
  privateNull : feedFromPrivateJson text = .null ↔ jsonParse text = .null
  privateFeed : ∀ root y, jsonParse text = .ok root y → ∃ f,
    feedFromPrivateJson text = .value f ∧
    Holds (sizeAt root ["feed_items"]) {} ((elementsAt root ["feed_items"]).filterMap privateItem)
      f.posts ∧
    f.nextMaxId = stringAt root ["next_max_id"]
  graphNull : feedFromGraphJson text = .null ↔ jsonParse text = .null
  graphFeed : ∀ root y, jsonParse text = .ok root y → ∃ f,
    feedFromGraphJson text = .value f ∧
    Holds (sizeAt root ["data"]) {} ((elementsAt root ["data"]).filterMap graphItem) f.posts ∧
    f.nextCursor = stringAt root ["paging", "cursors", "after"]

/-! ### The accessors follow the paths -/

theorem jsonGet_valueAt (v : JsonValue) (key : String) :
    jsonGet (some v) (literal key) = valueAt v [key] := by
  rw [jsonGet_literal]
  simp [valueAt]

theorem dupStr_text (o : Option JsonValue) : dupStr (jsonString o) = o.bind (·.text) := by
  match o with
  | some (.str _ _) => rfl
  | none | some .null | some (.bool _) | some (.num _ _) | some (.arr _) | some (.obj _) => rfl

theorem jsonAt_head (o : Option JsonValue) :
    jsonAt o 0 = ((o.map (·.elements)).getD []).head? := by
  have elements := jsonAt_elements o 0
  rw [Int.natCast_zero] at elements
  rw [elements]
  cases o with
  | none => rfl
  | some v => exact List.head?_eq_getElem?.symm

theorem object_map {α : Type} (o : Option JsonValue) (f : JsonValue → α) :
    (o.bind object?).map f = if jsonType o = .obj then o.map f else none := by
  match o with
  | some (.obj _) => rfl
  | none | some .null | some (.bool _) | some (.num _ _) | some (.str _ _) | some (.arr _) => rfl

theorem firstImageUrl_imageOf (o : Option JsonValue) :
    dupStr (firstImageUrl o) = o.bind imageOf := by
  unfold firstImageUrl
  rw [jsonGetStr, dupStr_text, jsonGet_literal, jsonAt_head, jsonGet_literal, jsonGet_literal]
  cases o with
  | none => rfl
  | some m =>
    simp [imageOf, elementsAt, stringAt, valueAt, Option.bind_assoc]

theorem fillPrivatePost_eq (m : JsonValue) : fillPrivatePost (some m) {} = privatePostOf m := by
  unfold fillPrivatePost privatePostOf
  simp only [jsonGetStr, jsonGetInt, dupStr_text, jsonGet_literal, jsonInt_number, jsonCount_size,
    firstImageUrl_imageOf, jsonAt_head]
  simp only [stringAt, intAt, sizeAt, elementsAt, valueAt, Option.bind_some, Option.bind_fun_some,
    Option.bind_assoc]
  split_ifs with slides none none
  · omega
  · rfl
  · rw [none]
  · omega

theorem fillPost_eq (o : JsonValue) : fillPost (some o) {} = graphPostOf o := by
  unfold fillPost graphPostOf
  simp only [jsonGetStr, jsonGetInt, dupStr_text, jsonGet_literal, jsonInt_number, stringAt, intAt,
    valueAt, Option.bind_some, Option.bind_fun_some]
  split_ifs with none
  · rw [none, Option.none_or]
  · rw [Option.or_of_isSome (Option.isSome_iff_ne_none.mpr none)]

/-! ### The loops -/

/-- A loop over the indices of an array visits its elements, and finds none where there is
no array. -/
theorem kept_elements {α : Type} (o : Option JsonValue) (f : JsonValue → Option α) :
    kept (jsonCount o) (fun i => (jsonAt o i).bind f) =
      ((o.map (·.elements)).getD []).filterMap f := by
  match o with
  | some (.arr vals) =>
    rw [← kept_list]
    apply List.filterMap_congr
    intro i _
    rw [jsonAt_elements]
    rfl
  | none | some .null | some (.bool _) | some (.num _ _) | some (.str _ _) | some (.obj _) =>
    exact List.filterMap_eq_nil_iff.mpr fun i _ => rfl

/-- A loop that stores `fill` of the media that are objects fills its array with their
posts. -/
theorem posts_holds {α : Type} {zero : α} {fill : Option JsonValue → α → α}
    {postOf : JsonValue → α} (items : Option JsonValue)
    (media : Option JsonValue → Option JsonValue) (round : Cells α → Nat → Option (Cells α))
    (nothing : media none = none) (filled : ∀ m, fill (some m) zero = postOf m)
    (rounds : ∀ c i, round c i = if jsonType (media (jsonAt items i)) ≠ .obj then some c
      else c.push (fill (media (jsonAt items i)))) :
    ∃ posts, (if jsonCount items > 0 then
        (List.range (jsonCount items)).foldlM round (calloc (jsonCount items) zero)
      else some (calloc 0 zero)) = some posts ∧
      Holds (jsonCount items) zero (((items.map (·.elements)).getD []).filterMap fun item =>
        ((media (some item)).bind object?).map postOf) posts := by
  let post (item : JsonValue) : Option α := ((media (some item)).bind object?).map postOf
  have chosen (o : Option JsonValue) :
      o.bind post = if jsonType (media o) = .obj then (media o).map postOf else none := by
    rw [← object_map]
    cases o with
    | none => rw [nothing]; rfl
    | some _ => rfl
  have loop : ∃ posts, (List.range (jsonCount items)).foldlM round (calloc (jsonCount items) zero) =
      some posts ∧ Holds (jsonCount items) zero
        (kept (jsonCount items) fun i => (jsonAt items i).bind post) posts := by
    apply foldlM_holds
    · intro c i absent
      rw [chosen] at absent
      rw [rounds]
      by_cases object : jsonType (media (jsonAt items i)) = .obj
      · -- an object is not NULL
        rw [if_pos object, Option.map_eq_none_iff] at absent
        rw [absent] at object
        cases object
      · rw [if_pos object]
    · intro c i a found
      rw [chosen] at found
      rw [rounds]
      by_cases object : jsonType (media (jsonAt items i)) = .obj
      · rw [if_pos object] at found
        obtain ⟨m, medium, rfl⟩ := Option.map_eq_some_iff.mp found
        rw [if_neg (not_not_intro object), medium]
        exact ⟨fill (some m), filled m, rfl⟩
      · rw [if_neg object] at found
        cases found
  obtain ⟨posts, run, holds⟩ := loop
  rw [kept_elements] at holds
  refine ⟨posts, ?_, holds⟩
  split_ifs with entries
  · exact run
  · have empty : jsonCount items = 0 := by omega
    rw [empty] at run
    exact run

theorem jsonParse_returns (text : List UInt8) :
    jsonParse text = .null ∨ ∃ root y, jsonParse text = .ok root y := by
  rcases (jsonParseWith_safe text _ (Nat.le_refl _)).returns_or_null with null | ⟨root, y, run, -⟩
  · exact .inl null
  · exact .inr ⟨root, y, run⟩

section Parsed

variable {text : List UInt8} {root : JsonValue} {y : Cursor}

theorem feedFromPrivateJson_feed (run : jsonParse text = .ok root y) :
    ∃ f, feedFromPrivateJson text = .value f ∧
      Holds (sizeAt root ["feed_items"]) {}
        ((elementsAt root ["feed_items"]).filterMap privateItem) f.posts ∧
      f.nextMaxId = stringAt root ["next_max_id"] := by
  have items := jsonGet_valueAt root "feed_items"
  obtain ⟨posts, filled, holds⟩ := posts_holds (valueAt root ["feed_items"])
    (fun item => jsonGet item (literal "media_or_ad")) (privateRound (valueAt root ["feed_items"]))
    rfl fillPrivatePost_eq fun _ _ => rfl
  refine ⟨⟨posts, stringAt root ["next_max_id"]⟩, ?_, ?_, rfl⟩
  · unfold feedFromPrivateJson
    rw [run]
    dsimp only
    rw [items, filled, jsonGetStr, dupStr_text, jsonGet_valueAt]
    rfl
  · simp only [jsonGet_literal, Option.bind_some, jsonCount_size] at holds
    exact holds

theorem feedFromGraphJson_feed (run : jsonParse text = .ok root y) :
    ∃ f, feedFromGraphJson text = .value f ∧
      Holds (sizeAt root ["data"]) {} ((elementsAt root ["data"]).filterMap graphItem) f.posts ∧
      f.nextCursor = stringAt root ["paging", "cursors", "after"] := by
  have data := jsonGet_valueAt root "data"
  obtain ⟨posts, filled, holds⟩ := posts_holds (valueAt root ["data"]) id
    (graphRound (valueAt root ["data"])) rfl fillPost_eq fun _ _ => rfl
  refine ⟨⟨posts, stringAt root ["paging", "cursors", "after"]⟩, ?_, ?_, rfl⟩
  · unfold feedFromGraphJson
    rw [run]
    dsimp only
    rw [data, filled, jsonGetStr, dupStr_text, jsonGet_literal, jsonGet_literal, jsonGet_literal]
    simp [stringAt, valueAt, Option.bind_assoc]
  · rw [jsonCount_size] at holds
    exact holds

end Parsed

/-- A mapper that maps whatever is parsed returns NULL exactly where the parser does. -/
theorem null_iff {α : Type} {text : List UInt8} {result : Returned α}
    (null : jsonParse text = .null → result = .null)
    (mapped : ∀ root y, jsonParse text = .ok root y → ∃ f, result = .value f) :
    result = .null ↔ jsonParse text = .null := by
  constructor
  · intro none
    rcases jsonParse_returns text with failed | ⟨root, y, run⟩
    · exact failed
    · obtain ⟨f, feed⟩ := mapped root y run
      rw [feed] at none
      cases none
  · exact null

/-- For every text the mappers keep exactly the posts of the response. -/
theorem feeds_mapped (text : List UInt8) : FeedsMapped text := by
  constructor
  · exact jsonParse_returns text
  · apply null_iff
    · intro null
      rw [feedFromPrivateJson, null]
    · intro root y run
      obtain ⟨f, feed, -⟩ := feedFromPrivateJson_feed run
      exact ⟨f, feed⟩
  · intro root y run
    exact feedFromPrivateJson_feed run
  · apply null_iff
    · intro null
      rw [feedFromGraphJson, null]
    · intro root y run
      obtain ⟨f, feed, -⟩ := feedFromGraphJson_feed run
      exact ⟨f, feed⟩
  · intro root y run
    exact feedFromGraphJson_feed run

end InstagramNt40.Model
