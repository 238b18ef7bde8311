import InstagramNt40.Img.PhotoHeap
import InstagramNt40.Net.ClientHeap
import InstagramNt40.Net.HttpsUrl
import InstagramNt40.Ui.Feed

/-!
# ui/main.c up to the window

The real feed with its photos, or the demo photos. What the system, the network and the
disk answer is given by an environment.
-/
namespace InstagramNt40.Boot

open Ownership Alloc Crt Http Https ModelHeap PhotoHeap Client

/-- A file: its size, and what `ReadFile` reads, if it does not fail. -/
structure File where
  size : UInt32
  content : Option (List UInt8)

/-- What the program meets. -/
structure Env where
  template : Template
  chance : Chance
  stack : Nat → UInt8
  netUp : Bool
  timeline : Peer
  photo : Nat → Peer
  stbi : List UInt8 → Option Decoded
  file : List UInt8 → Option File

/-- `pal_read_file` -/
def palReadFile (file : Option File) : Proc (Option Buf) := do
  match file with
  | none => pure none
  | some file =>
    match ← acquire .file with
    | none => pure none
    | some h => do
      touch h
      if file.size = 0xFFFFFFFF ∨ file.size = 0 then do
        release h
        pure none
      else do
        match ← mallocSize file.size.toNat with
        | none => do
          release h
          pure none
        | some buf => do
          touch h
          touch buf
          release h
          match file.content with
          | none => do
            release buf
            pure none
          | some bytes =>
            if bytes.length ≠ file.size.toNat then do
              release buf
              pure none
            else pure (some ⟨buf, bytes⟩)

section boot

variable (env : Env)

/-- `fetch_photo`; `none` is -1. -/
def fetchPhoto (url : Option Buf) (peer : Peer) : Proc (Option Photo) := do
  match url with
  | none => pure none
  | some url => do
    touch url.block
    match httpsSplitUrl url.bytes 128 with
    | none => pure none
    | some (host, path) => do
      let (body, reply) ← peer.request (literal "GET") host path [] []
      -- the path lies in the URL
      touch url.block
      match body with
      | none => pure none
      | some body => do
        let photo ← (if reply.outStatus = some 200 then
            jpegDecode env.stbi ⟨body, reply.result.getD []⟩
          else pure none)
        release body
        pure photo

/-- An entry of `g_real_posts`; its strings belong to the feed. -/
structure RealPost where
  username : Option Buf
  caption : Option Buf
  likeCount : Int
  photo : Option Photo

def maxRealPosts : Nat := 8

/-- Print a string, or its replacement. -/
def print (s : Option Buf) : Proc Unit :=
  match s with
  | none => pure ()
  | some s => touch s.block

/-- The loop over the posts of `f`: the next ones, from entry `i` on. -/
def realPosts (f : FeedOf PrivatePost) : List PrivatePost → Nat → Proc (List RealPost)
  | [], _ => pure []
  | p :: rest, i =>
    if i < maxRealPosts then do
      touch f.block
      look f.posts
      let photo ← fetchPhoto env p.imageUrl (env.photo i)
      print p.username
      let posts ← realPosts f rest (i + 1)
      pure (⟨p.username, p.caption, p.likeCount, photo⟩ :: posts)
    -- a store behind the array is undefined
    else fault

/-- `load_real_feed`: the feed, which is kept, and the posts over it. -/
def loadRealFeed : Proc (Option (FeedOf PrivatePost × List RealPost)) := do
  match ← igFetchTimeline env.template env.chance env.stack env.timeline with
  | none => pure none
  | some f => do
    touch f.block
    if f.used.length = 0 then do
      privateFeedFree (some f)
      pure none
    else do
      let n := if f.used.length > maxRealPosts then maxRealPosts else f.used.length
      let posts ← realPosts env f (f.used.take n) 0
      pure (some (f, posts))

/-- The names of the demo photos. -/
def mockNames : List (List UInt8) :=
  [literal "D:\\sunset.qoi", literal "D:\\ocean.qoi", literal "D:\\forest.qoi",
    literal "D:\\city.qoi"]

def loadMockPhoto (name : List UInt8) : Proc (Option Photo) := do
  match ← palReadFile (env.file name) with
  | none => pure none
  | some buf => do
    let photo ← qoiDecode buf
    release buf.block
    pure photo

/-- `load_mock_photos` -/
def loadMockPhotos : List (List UInt8) → Proc (List (Option Photo))
  | [] => pure []
  | name :: names => do
    let photo ← loadMockPhoto env name
    let photos ← loadMockPhotos names
    pure (photo :: photos)

/-- What the window is opened with. -/
inductive Shown where
  | real (feed : FeedOf PrivatePost) (posts : List RealPost)
  | mock (photos : List (Option Photo))

/-- `WinMain` up to `pal_run_window`. -/
def winMain : Proc Shown := do
  match ← (if env.netUp then loadRealFeed env else pure none) with
  | some (feed, posts) => pure (.real feed posts)
  | none => do
    let photos ← loadMockPhotos env mockNames
    pure (.mock photos)

end boot

/-! ### What is shown -/

/-- The string of a username, `"?"` if there is none. -/
def usernameOf (username : Option (List UInt8)) : List UInt8 := username.getD (literal "?")

def RealPost.view (p : RealPost) : Feed.FeedPost :=
  ⟨usernameOf (p.username.map Buf.bytes), p.caption.map Buf.bytes, p.likeCount,
    p.photo.map Photo.surface, false⟩

def imagesOf (photos : List (Option Raster.Surface)) : Feed.FeedImages :=
  ⟨fun i => photos.getD i none⟩

/-- What `user` points to. -/
def Shown.view : Shown → Feed.FeedData ⊕ Feed.FeedImages
  | .real _ posts => .inl ⟨posts.map RealPost.view⟩
  | .mock photos => .inr (imagesOf (photos.map (Option.map Photo.surface)))

/-! ### The same without allocations -/

section plain

variable (env : Env)

/-- The photo at a URL. -/
def photoAt (url : Option (List UInt8)) (peer : Peer) : Option Raster.Surface :=
  url.bind fun url => (httpsSplitUrl url 128).bind fun parts =>
    let reply := peer.reply (requestBytes (literal "GET") parts.1 parts.2 [] [])
    if reply.outStatus = some 200 then
      reply.result.bind fun body => (env.stbi body).bind fun img =>
        (Raster.surfaceAlloc .roomy img.w img.h).map fun _ => img.surface
    else none

def postView (i : Nat) (q : Model.PrivatePost) : Feed.FeedPost :=
  ⟨usernameOf q.username, q.caption, q.likeCount, photoAt env q.imageUrl (env.photo i), false⟩

/-- The bytes of a file that is read as a whole. -/
def fileBytes (file : Option File) : Option (List UInt8) :=
  file.bind fun file =>
    if file.size = 0xFFFFFFFF ∨ file.size = 0 then none
    else file.content.filter fun bytes => bytes.length = file.size.toNat

def mockPhoto (name : List UInt8) : Option Raster.Surface :=
  (fileBytes (env.file name)).bind fun bytes =>
    match Qoi.qoiDecode .roomy bytes ⟨0, 0, 0⟩ with
    | .ok s _ => some s
    | _ => none

/-- The first eight posts of the timeline, or the demo photos if it has none. -/
def firstView : Feed.FeedData ⊕ Feed.FeedImages :=
  match (if env.netUp then Client.timeline env.template env.chance env.timeline else none) with
  | some g =>
    if g.posts.used = [] then .inr (imagesOf (mockNames.map (mockPhoto env)))
    else .inl ⟨(g.posts.used.take maxRealPosts).mapIdx (postView env)⟩
  | none => .inr (imagesOf (mockNames.map (mockPhoto env)))

end plain

end InstagramNt40.Boot
