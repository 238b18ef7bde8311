import InstagramNt40.Core.JsonBorrow
import InstagramNt40.Core.Model

/-!
# The heap of core/model.c and core/model_private.c

The two feed mappers with their allocations, and the functions that free a feed. The two
files are one piece of code with two sets of fields; here the fields are parameters.
-/
namespace InstagramNt40.ModelHeap

open Ownership Alloc Crt Json JsonHeap

def dupStr (s : Option Buf) : Proc (Option Buf) :=
  match s with
  | none => pure none
  | some s => do
    touch s.block
    match ← mallocSize ((cstr s.bytes 0).length + 1) with
    | none => pure none
    | some d => pure (some ⟨d, cstr s.bytes 0⟩)

/-- `dup_str(json_get_str(o, key))`. -/
def copyStr (o : Option Node) (key : String) : Proc (Option Buf) := do
  let s ← JsonHeap.jsonGetStr o (literal key)
  dupStr s

/-- A `Feed` or a `PrivateFeed`: `posts` is the array and `used` the posts in its first
`count` cells. -/
structure FeedOf (π : Type) where
  block : Block
  posts : Option Block
  used : List π
  cursor : Option Buf

variable {π : Type}

/-! ### Freeing -/

def freeStrings : List (Option Buf) → Proc Unit
  | [] => pure ()
  | s :: strings => do
    free (s.map Buf.block)
    freeStrings strings

/-- The loop over the posts. -/
def freePosts (strings : π → List (Option Buf)) (f : Block) (posts : Option Block) :
    List π → Proc Unit
  | [] => touch f
  | p :: used => do
    touch f
    look posts
    freeStrings (strings p)
    freePosts strings f posts used

def freeFeed (strings : π → List (Option Buf)) (f : Option (FeedOf π)) : Proc Unit :=
  match f with
  | none => pure ()
  | some f => do
    freePosts strings f.block f.posts f.used
    free f.posts
    free (f.cursor.map Buf.block)
    release f.block

/-! ### Mapping -/

/-- A round of the loop over the `n` items: skip the item, or fill the next post. -/
def round (f : Block) (posts : Option Block) (n : Nat) (medium : Option Node → Proc (Option Node))
    (fill : Option Node → Proc π) (items : Option Node) (used : List π) (i : Nat) :
    Proc (List π) := do
  let item ← JsonHeap.jsonAt items i
  let m ← medium item
  if (← JsonHeap.jsonType m) ≠ .obj then pure used
  else do
    touch f
    look posts
    -- a store behind the array is undefined
    if used.length < n then do
      let p ← fill m
      pure (used ++ [p])
    else fault

/-- `if (n > 0) { f->posts = calloc(..); if (!f->posts) .. }`. -/
def allocPosts (n : Nat) : Proc (Option (Option Block)) :=
  if n > 0 then do
    match ← malloc with
    | none => pure none
    | some posts => pure (some (some posts))
  else pure (some none)

def feedFrom (key : String) (medium : Option Node → Proc (Option Node))
    (fill : Option Node → Proc π) (cursor : Option Node → Proc (Option Buf))
    (json : List UInt8) : Proc (Option (FeedOf π)) := do
  match ← JsonHeap.jsonParse json with
  | none => pure none
  | some root =>
    match ← malloc with
    | none => do
      jsonFree root
      pure none
    | some f => do
      let items ← JsonHeap.jsonGet (some root) (literal key)
      let n ← JsonHeap.jsonCount items
      match ← allocPosts n with
      | none => do
        jsonFree root
        release f
        pure none
      | some posts => do
        let used ← (List.range n).foldlM (round f posts n medium fill items) []
        touch f
        let cursor ← cursor (some root)
        jsonFree root
        pure (some ⟨f, posts, used, cursor⟩)

/-! ### core/model_private.c -/

structure PrivatePost where
  username : Option Buf
  caption : Option Buf
  likeCount : Int
  mediaType : Int
  imageUrl : Option Buf
  numSlides : Nat

def PrivatePost.strings (p : PrivatePost) : List (Option Buf) :=
  [p.username, p.caption, p.imageUrl]

def firstImageUrl (node : Option Node) : Proc (Option Buf) := do
  let iv2 ← JsonHeap.jsonGet node (literal "image_versions2")
  let cands ← JsonHeap.jsonGet iv2 (literal "candidates")
  let first ← JsonHeap.jsonAt cands 0
  JsonHeap.jsonGetStr first (literal "url")

def fillPrivatePost (m : Option Node) : Proc PrivatePost := do
  let user ← JsonHeap.jsonGet m (literal "user")
  let username ← copyStr user "username"
  let text ← JsonHeap.jsonGet m (literal "caption")
  let caption ← copyStr text "text"
  let likeCount ← JsonHeap.jsonGetInt m (literal "like_count") 0
  let mediaType ← JsonHeap.jsonGetInt m (literal "media_type") 0
  let carousel ← JsonHeap.jsonGet m (literal "carousel_media")
  let nslides ← JsonHeap.jsonCount carousel
  let cover ← (if nslides > 0 then JsonHeap.jsonAt carousel 0 else pure m)
  let url ← firstImageUrl cover
  let imageUrl ← dupStr url
  pure ⟨username, caption, likeCount, mediaType, imageUrl, nslides⟩

def feedFromPrivateJson : List UInt8 → Proc (Option (FeedOf PrivatePost)) :=
  feedFrom "feed_items" (fun item => JsonHeap.jsonGet item (literal "media_or_ad"))
    fillPrivatePost fun root => copyStr root "next_max_id"

def privateFeedFree : Option (FeedOf PrivatePost) → Proc Unit := freeFeed PrivatePost.strings

/-! ### core/model.c -/

structure Post where
  id : Option Buf
  username : Option Buf
  caption : Option Buf
  mediaUrl : Option Buf
  mediaType : Option Buf
  permalink : Option Buf
  timestamp : Option Buf
  likeCount : Int

def Post.strings (p : Post) : List (Option Buf) :=
  [p.id, p.username, p.caption, p.mediaUrl, p.mediaType, p.permalink, p.timestamp]

def fillPost (o : Option Node) : Proc Post := do
  let id ← copyStr o "id"
  let username ← copyStr o "username"
  let caption ← copyStr o "caption"
  let mediaType ← copyStr o "media_type"
  let mediaUrl ← copyStr o "media_url"
  -- a copy that could not be allocated looks like no URL
  let mediaUrl ← (if mediaUrl.isNone then copyStr o "thumbnail_url" else pure mediaUrl)
  let permalink ← copyStr o "permalink"
  let timestamp ← copyStr o "timestamp"
  let likeCount ← JsonHeap.jsonGetInt o (literal "like_count") 0
  pure ⟨id, username, caption, mediaUrl, mediaType, permalink, timestamp, likeCount⟩

def feedFromGraphJson : List UInt8 → Proc (Option (FeedOf Post)) :=
  feedFrom "data" pure fillPost fun root => do
    let paging ← JsonHeap.jsonGet root (literal "paging")
    let cursors ← JsonHeap.jsonGet paging (literal "cursors")
    copyStr cursors "after"

def feedFree : Option (FeedOf Post) → Proc Unit := freeFeed Post.strings

end InstagramNt40.ModelHeap
