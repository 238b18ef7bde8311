import InstagramNt40.Core.JsonAccess
import InstagramNt40.Library.Compact

/-!
# core/model.c and core/model_private.c

The feed models, mapped from a parsed response. The strings are copies: the tree is freed
before a mapper returns. Allocation always succeeds; a store behind the allocated posts is
a fault.
-/
namespace InstagramNt40.Model

open Scanner Crt Json Compact

/-- A copy of a C string, which ends at its first NUL. -/
def dupStr (s : Option (List UInt8)) : Option (List UInt8) := s.map fun mem => cstr mem 0

/-! ### Private feeds -/

/-- `PrivatePost`, as `calloc` leaves it by default. -/
structure PrivatePost where
  username : Option (List UInt8) := none
  caption : Option (List UInt8) := none
  likeCount : Int := 0
  mediaType : Int := 0
  imageUrl : Option (List UInt8) := none
  numSlides : Nat := 0
  deriving DecidableEq

/-- `PrivateFeed`, its `count` kept with the posts. -/
structure PrivateFeed where
  posts : Cells PrivatePost
  nextMaxId : Option (List UInt8)
  deriving DecidableEq

def firstImageUrl (node : Option JsonValue) : Option (List UInt8) :=
  let iv2 := jsonGet node (literal "image_versions2")
  let cands := jsonGet iv2 (literal "candidates")
  let first := jsonAt cands 0
  jsonGetStr first (literal "url")

/-- The stores through `p` in the loop of `feed_from_private_json`. -/
def fillPrivatePost (m : Option JsonValue) (p : PrivatePost) : PrivatePost :=
  let p := { p with
    username := dupStr (jsonGetStr (jsonGet m (literal "user")) (literal "username"))
    caption := dupStr (jsonGetStr (jsonGet m (literal "caption")) (literal "text"))
    likeCount := jsonGetInt m (literal "like_count") 0
    mediaType := jsonGetInt m (literal "media_type") 0 }
  let carousel := jsonGet m (literal "carousel_media")
  let nslides := jsonCount carousel
  if nslides > 0 then
    { p with
      numSlides := nslides
      imageUrl := dupStr (firstImageUrl (jsonAt carousel 0)) }
  else { p with imageUrl := dupStr (firstImageUrl m) }

/-- A round of the loop of `feed_from_private_json`. -/
def privateRound (items : Option JsonValue) (posts : Cells PrivatePost) (i : Nat) :
    Option (Cells PrivatePost) :=
  let item := jsonAt items i
  let m := jsonGet item (literal "media_or_ad")
  if jsonType m ≠ .obj then some posts else posts.push (fillPrivatePost m)

def feedFromPrivateJson (json : List UInt8) : Returned PrivateFeed :=
  match jsonParse json with
  | .ok root _ =>
    let items := jsonGet (some root) (literal "feed_items")
    let n := jsonCount items
    let posts := if n > 0 then (List.range n).foldlM (privateRound items) (calloc n {})
      else some (calloc 0 {})
    match posts with
    | some posts => .value ⟨posts, dupStr (jsonGetStr (some root) (literal "next_max_id"))⟩
    | none => .fault
  | .null => .null
  | .fault | .timeout => .fault

/-! ### Graph feeds -/

/-- `Post`, as `calloc` leaves it by default. -/
structure Post where
  id : Option (List UInt8) := none
  username : Option (List UInt8) := none
  caption : Option (List UInt8) := none
  mediaUrl : Option (List UInt8) := none
  mediaType : Option (List UInt8) := none
  permalink : Option (List UInt8) := none
  timestamp : Option (List UInt8) := none
  likeCount : Int := 0
  deriving DecidableEq

/-- `Feed`, its `count` kept with the posts. -/
structure Feed where
  posts : Cells Post
  nextCursor : Option (List UInt8)
  deriving DecidableEq

/-- The stores through `p` in the loop of `feed_from_graph_json`. -/
def fillPost (o : Option JsonValue) (p : Post) : Post :=
  let p := { p with
    id := dupStr (jsonGetStr o (literal "id"))
    username := dupStr (jsonGetStr o (literal "username"))
    caption := dupStr (jsonGetStr o (literal "caption"))
    mediaType := dupStr (jsonGetStr o (literal "media_type"))
    mediaUrl := dupStr (jsonGetStr o (literal "media_url")) }
  let p := if p.mediaUrl = none then
      { p with mediaUrl := dupStr (jsonGetStr o (literal "thumbnail_url")) }
    else p
  { p with
    permalink := dupStr (jsonGetStr o (literal "permalink"))
    timestamp := dupStr (jsonGetStr o (literal "timestamp"))
    likeCount := jsonGetInt o (literal "like_count") 0 }

/-- A round of the loop of `feed_from_graph_json`. -/
def graphRound (data : Option JsonValue) (posts : Cells Post) (i : Nat) : Option (Cells Post) :=
  let o := jsonAt data i
  if jsonType o ≠ .obj then some posts else posts.push (fillPost o)

def feedFromGraphJson (json : List UInt8) : Returned Feed :=
  match jsonParse json with
  | .ok root _ =>
    let data := jsonGet (some root) (literal "data")
    let n := jsonCount data
    let posts := if n > 0 then (List.range n).foldlM (graphRound data) (calloc n {})
      else some (calloc 0 {})
    match posts with
    | some posts =>
      let cursors := jsonGet (jsonGet (some root) (literal "paging")) (literal "cursors")
      .value ⟨posts, dupStr (jsonGetStr cursors (literal "after"))⟩
    | none => .fault
  | .null => .null
  | .fault | .timeout => .fault

end InstagramNt40.Model
