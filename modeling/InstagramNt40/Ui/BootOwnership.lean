import InstagramNt40.Ui.Boot

/-!
# What the program owns when its window opens

Whatever is refused on the way, the window is opened over what is shown, and nothing else
is left: of a real feed the feed itself, whose strings the posts borrow, and the photos of
the first eight posts; else the demo photos.
-/
namespace InstagramNt40.Boot

open Ownership Alloc Crt Http Https JsonHeap ModelHeap PhotoHeap Client

variable {env : Env} {all : Multiset Block}

/-! ### Files -/

theorem palReadFile_spec (file : Option File) :
    Triple 0 (palReadFile file) held fun r o => r = false → o.map Buf.bytes = fileBytes file := by
  cases file with
  | none => exact .pure rfl fun _ => rfl
  | some file =>
    unfold palReadFile
    dsimp only
    refine .request (fun h => ?_) (.pure rfl fun calm => by cases calm)
    refine (Triple.borrow (n := h) (by simp)).quiet (F := 0) (add_zero _).symm fun _ => ?_
    rw [add_zero, add_zero, fileBytes, Option.bind_some]
    split_ifs with bad
    · refine (Triple.release h).quiet (F := 0) (add_zero _).symm fun _ => ?_
      exact .pure rfl fun _ => rfl
    · refine (mallocSize_spec _).call (zero_add _).symm fun o r answer => ?_
      obtain ⟨rfl, -⟩ := answer
      cases o with
      | none =>
        refine (Triple.release h).quiet (F := 0) (by simp) fun _ => ?_
        exact .pure rfl fun calm => by cases calm
      | some buf =>
        refine (Triple.borrow (n := h) (by simp)).quiet (F := 0) (add_zero _).symm fun _ => ?_
        rw [add_zero]
        refine (Triple.borrow (n := buf) (by simp)).quiet (F := 0) (add_zero _).symm fun _ => ?_
        rw [add_zero]
        refine (Triple.release h).quiet (F := {buf}) (by simp [add_comm]) fun _ => ?_
        rw [zero_add]
        cases file.content with
        | none =>
          refine (Triple.release buf).quiet (F := 0) (add_zero _).symm fun _ => ?_
          exact .pure rfl fun _ => rfl
        | some bytes =>
          dsimp only
          by_cases whole : bytes.length = file.size.toNat
          · rw [if_neg (not_not.mpr whole)]
            exact .pure rfl fun _ => by simp [Option.filter, whole]
          · rw [if_pos whole]
            refine (Triple.release buf).quiet (F := 0) (add_zero _).symm fun _ => ?_
            exact .pure rfl fun _ => by simp [Option.filter, whole]

theorem loadMockPhoto_spec (name : List UInt8) :
    Triple 0 (loadMockPhoto env name) heldPhoto fun r o =>
      r = false → o.map Photo.surface = mockPhoto env name := by
  unfold loadMockPhoto
  refine (palReadFile_spec (env.file name)).call (F := 0) rfl fun o r read => ?_
  cases o with
  | none =>
    refine .pure rfl fun calm => ?_
    rw [mockPhoto, ← read (by simpa using calm)]
    rfl
  | some buf =>
    refine (qoiDecode_spec buf).call (F := 0) (by simp [held]) fun o r' decoded => ?_
    refine (Triple.release buf.block).quiet (F := heldPhoto o) (by rw [add_zero, add_comm])
      fun _ => ?_
    refine .pure (zero_add _) fun calm => ?_
    simp only [Bool.or_false, Bool.or_eq_false_iff] at calm
    rw [mockPhoto, ← read calm.1, Option.map_some, Option.bind_some]
    cases o with
    | none => rw [decoded.resolve_left (by simp [calm.2]), Option.map_none]
    | some photo =>
      obtain ⟨-, y, run⟩ := decoded
      rw [run, Option.map_some]

/-- What the photos own. -/
def heldPhotos (photos : List (Option Photo)) : Multiset Block := (photos.map heldPhoto).sum

theorem loadMockPhotos_spec (names : List (List UInt8)) :
    Triple 0 (loadMockPhotos env names) heldPhotos fun r photos =>
      photos.length = names.length ∧
        (r = false → photos.map (Option.map Photo.surface) = names.map (mockPhoto env)) := by
  induction names with
  | nil => exact .pure rfl ⟨rfl, fun _ => rfl⟩
  | cons name names ih =>
    refine (loadMockPhoto_spec name).call (F := 0) rfl fun photo r loaded => ?_
    refine ih.call (F := heldPhoto photo) (by rw [zero_add, add_zero]) fun photos r' others => ?_
    refine .pure (by simp [heldPhotos, add_comm]) ⟨by simp [others.1], fun calm => ?_⟩
    simp only [Bool.or_false, Bool.or_eq_false_iff] at calm
    rw [List.map_cons, List.map_cons, loaded calm.1, others.2 calm.2]

/-! ### A photo of a post -/

/-- A part of a URL is not longer than the URL, and the host fits its array. -/
theorem httpsSplitUrl_size {url host path : List UInt8}
    (split : httpsSplitUrl url 128 = some (host, path)) :
    host.length < 128 ∧ path.length ≤ url.length + 1 := by
  have cut (p : Nat) (here : splitFrom (url ++ [0]) p 128 = some (host, path)) :
      host.length < 128 ∧ path.length ≤ url.length + 1 := by
    unfold splitFrom at here
    dsimp only at here
    split_ifs at here with bad
    rw [Option.some.injEq, Prod.mk.injEq] at here
    obtain ⟨rfl, rfl⟩ := here
    constructor
    · refine Nat.lt_of_le_of_lt (List.length_take_le _ _) ?_
      omega
    · split
      · rw [cstr]
        refine Nat.le_trans (List.takeWhile_prefix _).length_le ?_
        simp
      · exact Nat.succ_le_succ (Nat.zero_le _)
  unfold httpsSplitUrl at split
  dsimp only at split
  split_ifs at split
  · exact cut 8 split
  · exact cut 7 split

/-- The request for a photo is too short for its size to wrap around. -/
theorem photoRequest_size {url host path : List UInt8} (small : url.length + 1 < 2 ^ 31)
    (split : httpsSplitUrl url 128 = some (host, path)) :
    (requestBytes (literal "GET") host path [] []).length + 64 < 2 ^ 32 := by
  obtain ⟨shortHost, shortPath⟩ := httpsSplitUrl_size split
  have method : (literal "GET").length = 3 := by decide
  have bound := (requestBytes_length_bounds (literal "GET") host path []
    (show ([] : List UInt8).length < 2 ^ 32 by decide)).1
  rw [List.map_nil, List.sum_nil, List.length_nil] at bound
  omega

theorem fetchPhoto_spec {url : Option Buf} (here : Here all url)
    (small : ∀ u ∈ url, u.bytes.length + 1 < 2 ^ 31) (peer : Peer) :
    Triple all (fetchPhoto env url peer) (fun o => heldPhoto o + all) fun r o =>
      r = false → o.map Photo.surface = photoAt env (url.map Buf.bytes) peer := by
  cases url with
  | none => exact .pure (zero_add all).symm fun _ => rfl
  | some url =>
    unfold fetchPhoto
    dsimp only
    refine (Triple.borrow (here url rfl)).quiet (F := 0) (add_zero _).symm fun _ => ?_
    rw [add_zero]
    cases split : httpsSplitUrl url.bytes 128 with
    | none =>
      refine .pure (zero_add all).symm fun _ => ?_
      simp [photoAt, split]
    | some parts =>
      obtain ⟨host, path⟩ := parts
      dsimp only
      refine (request_spec peer (photoRequest_size (small url rfl) split)).call (zero_add _).symm
        fun got r replied => ?_
      obtain ⟨body, reply⟩ := got
      obtain ⟨same, -, replied⟩ := replied
      refine (Triple.borrow (n := url.block) (Multiset.mem_add.mpr (Or.inr (here url rfl)))).quiet
        (F := 0) (add_zero _).symm fun _ => ?_
      rw [add_zero]
      have sent (calm : r = false) : photoAt env (some url.bytes) peer =
          if reply.outStatus = some 200 then
            reply.result.bind fun body => (env.stbi body).bind fun img =>
              (Raster.surfaceAlloc .roomy img.w img.h).map fun _ => img.surface
          else none := by
        have whole : reply = peer.reply (requestBytes (literal "GET") host path [] []) :=
          replied calm
        rw [photoAt, Option.bind_some, split, Option.bind_some, ← whole]
      cases body with
      | none =>
        refine .pure rfl fun calm => ?_
        have gone : reply.result = none := by simpa using same.symm
        rw [Option.map_some, sent (by simpa using calm), gone, Option.bind_none, ite_self]
        rfl
      | some body =>
        obtain ⟨bytes, is_bytes⟩ := Option.isSome_iff_exists.mp
          (show reply.result.isSome = true from same.symm)
        have decoded : Triple {body} (if reply.outStatus = some 200 then
              jpegDecode env.stbi ⟨body, reply.result.getD []⟩
            else pure none) (fun o => heldPhoto o + {body}) fun r' o =>
              r = false → r' = false → o.map Photo.surface = photoAt env (some url.bytes) peer := by
          rw [is_bytes, Option.getD_some]
          split_ifs with good
          · refine (jpegDecode_spec env.stbi ⟨body, bytes⟩).mono rfl fun o r' made => ⟨rfl, ?_⟩
            intro calm calm'
            rw [sent calm, if_pos good, is_bytes, Option.bind_some]
            cases o with
            | none =>
              have gone := made.resolve_left (by simp [calm'])
              cases decodes : env.stbi bytes with
              | none => rfl
              | some img => simp [gone img decodes]
            | some photo =>
              obtain ⟨-, img, decodes, allocated, same⟩ := made
              simp [decodes, allocated, same]
          · refine .pure (zero_add _).symm fun calm _ => ?_
            rw [sent calm, if_neg good]
            rfl
        refine decoded.call (F := all) rfl fun photo r' made => ?_
        refine (Triple.release body).quiet (F := heldPhoto photo + all) (by abel) fun _ => ?_
        refine .pure (zero_add _) fun calm => ?_
        simp only [Bool.or_false, Bool.or_eq_false_iff] at calm
        exact made calm.1 calm.2

/-! ### The real feed -/

/-- What the posts own: their photos. -/
def heldViews (posts : List RealPost) : Multiset Block := heldPhotos (posts.map RealPost.photo)

/-- The part of a post that the feed owns. -/
def RealPost.borrowed (p : RealPost) : Option Buf × Option Buf × Int :=
  (p.username, p.caption, p.likeCount)

def borrowedOf (p : PrivatePost) : Option Buf × Option Buf × Int :=
  (p.username, p.caption, p.likeCount)

theorem print_spec {s : Option Buf} (here : Here all s) : Looks all (print s) fun _ => True := by
  cases s with
  | none => exact .pure trivial
  | some s =>
    exact (Triple.borrow (here s rfl)).mono rfl fun _ _ calm => ⟨rfl, calm, trivial⟩

/-- A post is shown as the timeline has it, with the photo at its URL. -/
theorem view_eq {p : PrivatePost} {q : Model.PrivatePost} (copies : p.Copies false q) {i : Nat}
    {photo : Option Photo}
    (loaded : photo.map Photo.surface = photoAt env (p.imageUrl.map Buf.bytes) (env.photo i)) :
    RealPost.view ⟨p.username, p.caption, p.likeCount, photo⟩ = postView env i q := by
  rw [RealPost.view, postView, loaded, copies.username.exact, copies.caption.exact,
    copies.imageUrl.exact, copies.likeCount]

theorem realPosts_spec {f : FeedOf PrivatePost} {array : Block} (is_array : f.posts = some array)
    (feedHere : f.block ∈ all) (arrayHere : array ∈ all) (rest : List PrivatePost) (i : Nat)
    (strings : ∀ p ∈ rest, Here all p.username ∧ Here all p.imageUrl)
    (small : ∀ p ∈ rest, ∀ url ∈ p.imageUrl, url.bytes.length + 1 < 2 ^ 31)
    (room : i + rest.length ≤ maxRealPosts) :
    Triple all (realPosts env f rest i) (fun posts => heldViews posts + all) fun r posts =>
      posts.map RealPost.borrowed = rest.map borrowedOf ∧
        (r = false → ∀ qs, List.Forall₂ (PrivatePost.Copies false) rest qs →
          posts.map RealPost.view = qs.mapIdx fun j => postView env (i + j)) := by
  induction rest generalizing all i with
  | nil =>
    refine .pure (zero_add all).symm ⟨rfl, fun _ qs copies => ?_⟩
    cases copies
    rfl
  | cons p rest ih =>
    obtain ⟨username, imageUrl⟩ := strings p List.mem_cons_self
    rw [List.length_cons] at room
    unfold realPosts
    rw [if_pos (by omega), is_array, look]
    refine (Triple.borrow feedHere).quiet (F := 0) (add_zero _).symm fun _ => ?_
    rw [add_zero]
    refine (Triple.borrow arrayHere).quiet (F := 0) (add_zero _).symm fun _ => ?_
    rw [add_zero]
    refine (fetchPhoto_spec imageUrl (small p List.mem_cons_self) (env.photo i)).call (F := 0)
      (add_zero _).symm fun photo r loaded => ?_
    rw [add_zero]
    -- the photo is owned from here on, and what was owned before still is
    have more {n : Block} (member : n ∈ all) : n ∈ heldPhoto photo + all :=
      Multiset.mem_add.mpr (Or.inr member)
    refine Triple.look (print_spec fun s there => more (username s there)) (add_zero _).symm
      fun _ _ => ?_
    refine (ih (more feedHere) (more arrayHere) (i + 1)
      (fun q member => ⟨fun s there => more ((strings q (.tail _ member)).1 s there),
        fun s there => more ((strings q (.tail _ member)).2 s there)⟩)
      (fun q member => small q (.tail _ member)) (by omega)).call (F := 0) (add_zero _).symm
      fun posts r' others => ?_
    refine .pure ?_ ⟨?_, fun calm qs copies => ?_⟩
    · simp only [heldViews, heldPhotos, List.map_cons, List.sum_cons]
      abel
    · rw [List.map_cons, List.map_cons, others.1]
      rfl
    · simp only [Bool.or_false, Bool.or_eq_false_iff] at calm
      cases copies with
      | cons first copies =>
        rw [List.map_cons, List.mapIdx_cons, view_eq first (loaded calm.1),
          others.2 calm.2 _ copies]
        simp only [Nat.add_zero, Nat.add_assoc, Nat.add_comm 1]

/-- What is kept of a real feed, and what its first eight posts show. -/
def Loaded (env : Env) (refused : Bool) : Option (FeedOf PrivatePost × List RealPost) → Prop
  | some (f, posts) => f.used ≠ [] ∧
    posts.map RealPost.borrowed = (f.used.take maxRealPosts).map borrowedOf ∧
    (refused = false → ∃ g, Client.timeline env.template env.chance env.timeline = some g ∧
      g.posts.used ≠ [] ∧ posts.map RealPost.view =
        (g.posts.used.take maxRealPosts).mapIdx (postView env))
  | none => refused = false →
    ∀ g, Client.timeline env.template env.chance env.timeline = some g → g.posts.used = []

theorem loadRealFeed_spec :
    Triple 0 (loadRealFeed env)
      (fun o => match o with
        | some (f, posts) => f.blocks PrivatePost.strings + heldViews posts
        | none => 0)
      (Loaded env) := by
  unfold loadRealFeed
  refine (igFetchTimeline_spec env.template env.chance env.stack env.timeline).call (F := 0) rfl
    fun o r fetched => ?_
  have fetched := fetched.1
  cases o with
  | none =>
    refine .pure rfl fun calm g found => ?_
    rw [fetched (by simpa using calm)] at found
    cases found
  | some f =>
    obtain ⟨array, small, sent⟩ := fetched
    have feedHere : f.block ∈ f.blocks PrivatePost.strings := by simp [FeedOf.blocks]
    dsimp only [heldFeed]
    rw [add_zero]
    refine (Triple.borrow feedHere).quiet (F := 0) (add_zero _).symm fun _ => ?_
    rw [add_zero]
    by_cases empty : f.used.length = 0
    · rw [if_pos empty]
      have none : f.used = [] := List.length_eq_zero_iff.mp empty
      refine (freeFeed_spec PrivatePost.strings f array).quiet (F := 0) (add_zero _).symm
        fun _ => ?_
      refine .pure rfl fun calm g found => ?_
      obtain ⟨g', found', copies⟩ := sent (by simpa using calm)
      rw [found, Option.some.injEq] at found'
      subst found'
      rw [none] at copies
      exact List.forall₂_nil_left_iff.mp copies
    · rw [if_neg empty]
      have some_post : f.used ≠ [] := fun none => empty (by rw [none]; rfl)
      obtain ⟨a, is_array⟩ := Option.isSome_iff_exists.mp (array.resolve_left some_post)
      have arrayHere : a ∈ f.blocks PrivatePost.strings := by simp [FeedOf.blocks, is_array]
      have count : (if f.used.length > maxRealPosts then maxRealPosts else f.used.length) =
          min f.used.length maxRealPosts := by
        split <;> omega
      have first : f.used.take (min f.used.length maxRealPosts) = f.used.take maxRealPosts := by
        rw [Nat.min_comm, ← List.take_take, List.take_length]
      rw [count, first]
      refine (realPosts_spec is_array feedHere arrayHere
        (f.used.take maxRealPosts) 0
        (fun p member => ⟨fun s is_s => FeedOf.mem_blocks (List.mem_of_mem_take member) ?_,
          fun s is_s => FeedOf.mem_blocks (List.mem_of_mem_take member) ?_⟩)
        (fun p member => small p (List.mem_of_mem_take member))
        (by rw [List.length_take]; omega)).call (F := 0) (add_zero _).symm fun posts r' shown => ?_
      · rw [← Option.mem_def.mp is_s]
        simp [PrivatePost.strings]
      · rw [← Option.mem_def.mp is_s]
        simp [PrivatePost.strings]
      refine .pure (by rw [add_zero, add_comm]) ⟨some_post, shown.1, fun calm => ?_⟩
      simp only [Bool.or_false, Bool.or_eq_false_iff] at calm
      obtain ⟨g, found, copies⟩ := sent calm.1
      refine ⟨g, found, fun none => ?_, ?_⟩
      · rw [none] at copies
        exact some_post (List.forall₂_nil_right_iff.mp copies)
      · rw [shown.2 calm.2 _ (List.forall₂_take maxRealPosts copies)]
        simp only [Nat.zero_add]

/-! ### The window opens -/

def Shown.blocks : Shown → Multiset Block
  | .real feed posts => feed.blocks PrivatePost.strings + heldViews posts
  | .mock photos => heldPhotos photos

/-- The real feed has a post and shows at most eight, whose strings it owns; the demo feed
has four photos, some of which may be missing. -/
def Shown.WellFormed : Shown → Prop
  | .real feed posts => 0 < posts.length ∧ posts.length = min feed.used.length maxRealPosts ∧
    ∀ p ∈ posts, Here (feed.blocks PrivatePost.strings) p.username ∧
      Here (feed.blocks PrivatePost.strings) p.caption
  | .mock photos => photos.length = 4

theorem wellFormed_real {f : FeedOf PrivatePost} {posts : List RealPost}
    (some_post : f.used ≠ [])
    (borrowed : posts.map RealPost.borrowed = (f.used.take maxRealPosts).map borrowedOf) :
    (Shown.real f posts).WellFormed := by
  have length : posts.length = min maxRealPosts f.used.length := by
    simpa using congrArg List.length borrowed
  have positive : 0 < f.used.length := List.length_pos_iff.mpr some_post
  refine ⟨?_, by rw [length, Nat.min_comm], fun p member => ?_⟩
  · rw [length]
    exact Nat.lt_min.mpr ⟨by decide, positive⟩
  · have there := List.mem_map_of_mem (f := RealPost.borrowed) member
    rw [borrowed, List.mem_map] at there
    obtain ⟨q, member, same⟩ := there
    rw [borrowedOf, RealPost.borrowed, Prod.mk.injEq, Prod.mk.injEq] at same
    obtain ⟨username, caption, -⟩ := same
    rw [← username, ← caption]
    refine ⟨fun s is_s => FeedOf.mem_blocks (List.mem_of_mem_take member) ?_,
      fun s is_s => FeedOf.mem_blocks (List.mem_of_mem_take member) ?_⟩
    · rw [← Option.mem_def.mp is_s]
      simp [PrivatePost.strings]
    · rw [← Option.mem_def.mp is_s]
      simp [PrivatePost.strings]

theorem winMain_spec :
    Triple 0 (winMain env) Shown.blocks fun r shown =>
      shown.WellFormed ∧ (r = false → shown.view = firstView env) := by
  have real : Triple 0 (if env.netUp then loadRealFeed env else pure none)
      (fun o => match o with
        | some (f, posts) => f.blocks PrivatePost.strings + heldViews posts
        | none => 0)
      fun r o => (env.netUp = false ∧ o = none) ∨ (env.netUp = true ∧ Loaded env r o) := by
    split_ifs with up
    · exact loadRealFeed_spec.mono rfl fun _ _ loaded => ⟨rfl, Or.inr ⟨up, loaded⟩⟩
    · exact .pure rfl (Or.inl ⟨Bool.eq_false_of_not_eq_true up, rfl⟩)
  unfold winMain
  refine real.call (F := 0) rfl fun o r loaded => ?_
  match o with
  | some (f, posts) =>
    obtain ⟨-, gone⟩ | ⟨up, some_post, borrowed, views⟩ := loaded
    · cases gone
    · refine .pure (add_zero _) ⟨wellFormed_real some_post borrowed, fun calm => ?_⟩
      obtain ⟨g, found, some_post', same⟩ := views (by simpa using calm)
      rw [firstView, if_pos up, found]
      dsimp only
      rw [if_neg some_post', Shown.view, same]
  | none =>
    refine (loadMockPhotos_spec mockNames).call (F := 0) rfl fun photos r' mocks => ?_
    refine .pure (add_zero _) ⟨mocks.1, fun calm => ?_⟩
    simp only [Bool.or_false, Bool.or_eq_false_iff] at calm
    rw [Shown.view, mocks.2 calm.2, firstView]
    obtain ⟨down, -⟩ | ⟨up, unavailable⟩ := loaded
    · rw [if_neg (by simp [down])]
    · rw [if_pos up]
      cases found : Client.timeline env.template env.chance env.timeline with
      | none => rfl
      | some g =>
        dsimp only
        rw [if_pos (unavailable calm.1 g found)]

/-- Whatever the network, the disk, the decoder and the allocator answer, the program comes
to open its window without doing anything undefined, and all that is left of the way there
is what is shown. Where nothing was refused that is the first eight posts of the timeline,
or the demo photos if there is no timeline with a post. -/
theorem winMain_keeps_what_it_shows (env : Env) (w : World Kind) :
    ∃ shown w' refused, winMain env w = .ok shown w' refused ∧
      w'.live = shown.blocks + w.live ∧ shown.WellFormed ∧
      (refused = false → shown.view = firstView env) := by
  obtain ⟨shown, w', refused, runs, live, holds⟩ := (winMain_spec : Triple 0 (winMain env) _ _).run w
  exact ⟨shown, w', refused, runs, live, holds.1, holds.2⟩

end InstagramNt40.Boot
