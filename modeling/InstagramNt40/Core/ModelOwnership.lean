import InstagramNt40.Core.ModelCorrect
import InstagramNt40.Core.ModelHeap
import Mathlib.Algebra.Order.BigOperators.Group.List
import Mathlib.Data.Multiset.OrderedMonoid

/-!
# What the feed mappers own

A feed owns its posts and its strings and nothing of the tree it was mapped from: the tree
is freed before a mapper returns. Where a string could not be copied the feed has NULL in
its place; where the feed itself could not be allocated nothing is left of it.
-/
namespace InstagramNt40.ModelHeap

open Ownership Alloc Crt Json JsonHeap Compact

/-- What a string field owns. -/
def held (s : Option Buf) : Multiset Block := owned (s.map Buf.block)

def heldAll (strings : List (Option Buf)) : Multiset Block := (strings.map held).sum

/-- The copy of a string, which fits a block with its NUL, or NULL after a refusal. -/
def Copied (refused : Bool) (o : Option Buf) (s : Option (List UInt8)) : Prop :=
  (o.map Buf.bytes = s ∧ ∀ d ∈ o, d.bytes.length + 1 < 2 ^ 31) ∨ (refused = true ∧ o = none)

theorem Copied.mono {r r' : Bool} {o : Option Buf} {s : Option (List UInt8)}
    (copied : Copied r o s) (more : r = true → r' = true) : Copied r' o s :=
  copied.imp_right fun gone => ⟨more gone.1, gone.2⟩

theorem Copied.exact {o : Option Buf} {s : Option (List UInt8)} (copied : Copied false o s) :
    o.map Buf.bytes = s := (copied.resolve_right fun gone => by cases gone.1).1

theorem Copied.small {r : Bool} {o : Option Buf} {s : Option (List UInt8)}
    (copied : Copied r o s) {d : Buf} (there : o = some d) : d.bytes.length + 1 < 2 ^ 31 := by
  obtain ⟨-, small⟩ | ⟨-, none⟩ := copied
  · exact small d there
  · rw [there] at none
    cases none

variable {π ρ : Type} {all : Multiset Block}

/-! ### Strings -/

theorem dupStr_spec {s : Option Buf} (here : Here all s) :
    Triple all (dupStr s) (fun o => held o + all) fun r o =>
      Copied r o (Model.dupStr (s.map Buf.bytes)) := by
  cases s with
  | none => exact .pure (zero_add all).symm (Or.inl ⟨rfl, nofun⟩)
  | some s =>
    unfold dupStr
    refine (Triple.borrow (here s rfl)).quiet (F := 0) (add_zero all).symm fun _ => ?_
    rw [add_zero]
    refine (mallocSize_spec _).call (F := all) (zero_add all).symm fun d r answer => ?_
    obtain ⟨rfl, granted⟩ := answer
    cases d with
    | none => exact .pure rfl (Or.inr ⟨rfl, rfl⟩)
    | some d =>
      refine .pure rfl (Or.inl ⟨rfl, ?_⟩)
      rintro _ ⟨⟩
      exact granted rfl

theorem copyStr_spec {o : Option Node} (within : Within all o) (key : String) :
    Triple all (copyStr o key) (fun o' => held o' + all) fun r o' =>
      Copied r o' (Model.dupStr (Json.jsonGetStr (o.map Node.value) (literal key))) := by
  refine Triple.look (jsonGetStr_reads within _) (add_zero all).symm fun s read => ?_
  obtain ⟨here, same⟩ := read
  rw [← same]
  exact dupStr_spec here

/-! ### Freeing -/

theorem freeStrings_spec : ∀ strings : List (Option Buf),
    Triple (heldAll strings) (freeStrings strings) (fun _ => 0) fun r _ => r = false
  | [] => .pure rfl rfl
  | s :: strings => by
    unfold freeStrings
    refine (Triple.releaseOption (s.map Buf.block)).quiet (F := heldAll strings)
      (by simp [heldAll, held]) fun _ => ?_
    exact (freeStrings_spec strings).mono (zero_add _) fun _ _ calm => ⟨rfl, calm⟩

/-- What the posts own. -/
def heldPosts (strings : π → List (Option Buf)) (used : List π) : Multiset Block :=
  (used.map fun p => heldAll (strings p)).sum

theorem heldPosts_append (strings : π → List (Option Buf)) (used : List π) (p : π) :
    heldPosts strings (used ++ [p]) = heldPosts strings used + heldAll (strings p) := by
  simp [heldPosts]

def FeedOf.blocks (strings : π → List (Option Buf)) (f : FeedOf π) : Multiset Block :=
  {f.block} + owned f.posts + heldPosts strings f.used + held f.cursor

/-- The strings of its posts belong to a feed. -/
theorem FeedOf.mem_blocks {strings : π → List (Option Buf)} {f : FeedOf π} {p : π} {s : Buf}
    (member : p ∈ f.used) (is_string : some s ∈ strings p) : s.block ∈ f.blocks strings := by
  have first : s.block ∈ heldAll (strings p) := by
    refine Multiset.mem_of_le (List.le_sum_of_mem (List.mem_map_of_mem is_string)) ?_
    simp [held]
  have post : s.block ∈ heldPosts strings f.used :=
    Multiset.mem_of_le (List.le_sum_of_mem (List.mem_map_of_mem member)) first
  rw [FeedOf.blocks]
  exact Multiset.mem_add.mpr (Or.inl (Multiset.mem_add.mpr (Or.inr post)))

theorem freePosts_spec (strings : π → List (Option Buf)) (f : Block) (posts : Option Block) :
    ∀ used : List π, (used = [] ∨ posts.isSome = true) →
      Triple ({f} + owned posts + heldPosts strings used) (freePosts strings f posts used)
        (fun _ => {f} + owned posts) fun r _ => r = false
  | [], _ => by
    unfold freePosts
    exact ((Triple.touch f).framed (owned posts)).mono (by simp [heldPosts])
      fun _ _ calm => ⟨rfl, calm⟩
  | p :: used, array => by
    obtain ⟨posts, rfl⟩ := Option.isSome_iff_exists.mp (array.resolve_left (by simp))
    unfold freePosts look
    have apart : heldPosts strings (p :: used) =
        heldAll (strings p) + heldPosts strings used := by simp [heldPosts]
    rw [apart, owned_some]
    refine (Triple.touch f).quiet (F := {posts} + heldAll (strings p) +
      heldPosts strings used) (by abel) fun _ => ?_
    refine (Triple.touch posts).quiet (F := {f} + heldAll (strings p) +
      heldPosts strings used) (by abel) fun _ => ?_
    refine (freeStrings_spec (strings p)).quiet (F := {f} + {posts} +
      heldPosts strings used) (by abel) fun _ => ?_
    exact (freePosts_spec strings f (some posts) used (Or.inr rfl)).mono
      (by rw [owned_some]; abel) fun _ _ calm => ⟨rfl, calm⟩

theorem freeFeed_spec (strings : π → List (Option Buf)) (f : FeedOf π)
    (array : f.used = [] ∨ f.posts.isSome = true) :
    Triple (f.blocks strings) (freeFeed strings (some f)) (fun _ => 0) fun r _ => r = false := by
  unfold freeFeed
  refine (freePosts_spec strings f.block f.posts f.used array).quiet (F := held f.cursor)
    (by rw [FeedOf.blocks]) fun _ => ?_
  refine (Triple.releaseOption f.posts).quiet (F := {f.block} + held f.cursor)
    (by abel) fun _ => ?_
  refine (Triple.releaseOption (f.cursor.map Buf.block)).quiet (F := {f.block})
    (by rw [held]; abel) fun _ => ?_
  exact (Triple.release f.block).mono (zero_add _) fun _ _ calm => ⟨rfl, calm⟩

/-! ### Mapping -/

theorem allocPosts_spec (n : Nat) :
    Triple 0 (allocPosts n) (fun o => match o with
        | some posts => owned posts
        | none => 0)
      fun r o => r = o.isNone ∧ ∀ posts ∈ o, n = 0 ∨ posts.isSome = true := by
  unfold allocPosts
  split_ifs with some
  · refine .request (fun posts => .pure (add_zero _) ⟨rfl, ?_⟩) (.pure rfl ⟨rfl, ?_⟩)
    · rintro _ ⟨⟩
      exact Or.inr rfl
    · rintro _ ⟨⟩
  · refine .pure rfl ⟨rfl, ?_⟩
    rintro _ ⟨⟩
    exact Or.inl (by omega)

section mapping

variable {strings : π → List (Option Buf)} {copies : Bool → π → ρ → Prop}
  {medium : Option Node → Proc (Option Node)} {mediumOf : Option JsonValue → Option JsonValue}
  {fill : Option Node → Proc π} {fillOf : Option JsonValue → ρ → ρ} {zero : ρ}

/-- The round of the loop where every allocation succeeds. -/
def roundOf (mediumOf : Option JsonValue → Option JsonValue)
    (fillOf : Option JsonValue → ρ → ρ) (items : Option JsonValue) (posts : Cells ρ) (i : Nat) :
    Option (Cells ρ) :=
  let m := mediumOf (Json.jsonAt items i)
  if Json.jsonType m ≠ .obj then some posts else posts.push (fillOf m)

/-- The posts so far are copies of those in the cells of the other run, and there is a cell
left for every round to come. -/
def Filling (copies : Bool → π → ρ → Prop) (n : Nat) (zero : ρ)
    (next : Cells ρ → Nat → Option (Cells ρ)) (total : Option (Cells ρ)) (refused : Bool)
    (used : List π) (todo : List Nat) : Prop :=
  ∃ c posts, Holds n zero posts c ∧ List.Forall₂ (copies refused) used posts ∧
    todo.foldlM next c = total ∧ todo.length + used.length ≤ n

/-- A round to come has a cell. -/
theorem Filling.cells_left {n : Nat} {next : Cells ρ → Nat → Option (Cells ρ)}
    {total : Option (Cells ρ)} {refused : Bool} {used : List π} {i : Nat} {todo : List Nat}
    (filling : Filling copies n zero next total refused used (i :: todo)) : n ≠ 0 := by
  obtain ⟨c, posts, -, -, -, room⟩ := filling
  rw [List.length_cons] at room
  omega

variable (medium_reads : ∀ {all : Multiset Block} {o : Option Node}, Within all o →
    Reads all (medium o) (Within all) (Option.map Node.value) (mediumOf (o.map Node.value)))
  (fill_spec : ∀ {all : Multiset Block} {o : Option Node}, Within all o →
    Triple all (fill o) (fun p => heldAll (strings p) + all)
      fun r p => copies r p (fillOf (o.map Node.value) zero))
  (copies_mono : ∀ {r r' : Bool} {p : π} {q : ρ}, copies r p q → (r = true → r' = true) →
    copies r' p q)

include medium_reads fill_spec copies_mono

theorem round_spec {f : Block} {posts : Option Block} {n : Nat} {items : Option Node}
    (hereFeed : f ∈ all) (array : posts.isSome = true) (herePosts : ∀ p ∈ posts, p ∈ all)
    (within : Within all items) {total : Option (Cells ρ)} (r : Bool) (used : List π) (i : Nat)
    (todo : List Nat)
    (filling : Filling copies n zero (roundOf mediumOf fillOf (items.map Node.value)) total r used
      (i :: todo)) :
    Triple (heldPosts strings used + all) (round f posts n medium fill items used i)
      (fun used' => heldPosts strings used' + all) fun r' used' =>
        Filling copies n zero (roundOf mediumOf fillOf (items.map Node.value)) total (r || r')
          used' todo := by
  obtain ⟨posts, rfl⟩ := Option.isSome_iff_exists.mp array
  obtain ⟨c, qs, holds, related, runs, room⟩ := filling
  rw [List.length_cons] at room
  rw [List.foldlM_cons, roundOf] at runs
  unfold round
  refine Triple.look (jsonAt_reads within i) (add_comm _ _) fun item read => ?_
  obtain ⟨within, same⟩ := read
  rw [← same] at runs
  refine Triple.look (medium_reads within) (add_comm _ _) fun m read => ?_
  obtain ⟨within, same⟩ := read
  rw [← same] at runs
  refine Triple.look (jsonType_reads within) (add_comm _ _) fun t read => ?_
  obtain ⟨-, rfl⟩ := read
  have space : used.length < n := by omega
  simp only [if_pos space]
  split_ifs at runs ⊢ with other
  · refine .pure rfl ⟨c, qs, holds, ?_, ?_, by omega⟩
    · simpa only [Bool.or_false] using related
    · simpa only [Option.bind_eq_bind, Option.bind_some] using runs
  · refine (Triple.borrow (Multiset.mem_add.mpr (Or.inr hereFeed))).quiet (F := 0)
      (add_zero _).symm fun _ => ?_
    rw [add_zero]
    refine (Triple.borrow (Multiset.mem_add.mpr (Or.inr (herePosts _ rfl)))).quiet (F := 0)
      (add_zero _).symm fun _ => ?_
    rw [add_zero]
    refine (fill_spec within).call (F := heldPosts strings used) (add_comm _ _)
      fun p r' copied => ?_
    have length := related.length_eq
    obtain ⟨c', pushed, holds'⟩ := holds.push (by omega) (fillOf (m.map Node.value))
    refine .pure (by rw [heldPosts_append]; abel) ⟨c', qs ++ [_], holds', ?_, ?_, ?_⟩
    · have weaker : List.Forall₂ (copies (r || (r' || false))) used qs :=
        related.imp fun _ _ copied' => copies_mono copied' fun refused => by simp [refused]
      refine List.rel_append weaker (.cons ?_ .nil)
      exact copies_mono copied fun refused => by simp [refused]
    · simpa only [pushed, Option.bind_eq_bind, Option.bind_some] using runs
    · rw [List.length_append, List.length_singleton]
      omega

variable (mediumOf) in
theorem feedFrom_spec (key : String) (cursor : Option Node → Proc (Option Buf))
    (cursorOf : Option JsonValue → Option (List UInt8))
    (cursor_spec : ∀ {all : Multiset Block} {root : Option Node}, Within all root →
      Triple all (cursor root) (fun s => held s + all) fun r s =>
        Copied r s (cursorOf (root.map Node.value)))
    (json : List UInt8) :
    Triple 0 (feedFrom key medium fill cursor json) (fun o => match o with
        | some f => f.blocks strings
        | none => 0)
      fun r o => match o with
        | some f => (f.used = [] ∨ f.posts.isSome = true) ∧ ∃ root y posts,
          Json.jsonParse json = .ok root y ∧
          (List.range (Json.jsonCount (Json.jsonGet (some root) (literal key)))).foldlM
            (roundOf mediumOf fillOf (Json.jsonGet (some root) (literal key)))
            (calloc (Json.jsonCount (Json.jsonGet (some root) (literal key))) zero) = some posts ∧
          List.Forall₂ (copies r) f.used posts.used ∧ Copied r f.cursor (cursorOf (some root))
        | none => r = true ∨ Json.jsonParse json = .null := by
  unfold feedFrom
  refine (jsonParse_spec json).call (F := 0) (add_zero 0).symm fun o r parsed => ?_
  cases o with
  | none => exact .pure rfl (by simpa using parsed)
  | some root =>
    obtain ⟨rfl, built, y, found⟩ := parsed
    simp only [add_zero, Bool.false_or]
    refine .request (fun f => ?_) ?_
    · have within {all : Multiset Block} (part : root.blocks ≤ all) : Within all (some root) := by
        rintro n ⟨⟩
        exact ⟨built, part⟩
      refine Triple.look (jsonGet_reads (within le_rfl) _) (add_comm _ _) fun items read => ?_
      obtain ⟨withinItems, same⟩ := read
      refine Triple.look (jsonCount_reads withinItems) (add_comm _ _) fun n read => ?_
      obtain ⟨-, count⟩ := read
      refine (allocPosts_spec n).call (F := {f} + root.blocks) (zero_add _).symm
        fun posts r alloc => ?_
      obtain ⟨rfl, array⟩ := alloc
      cases posts with
      | none =>
        simp only [zero_add]
        refine (jsonFree_spec root built).quiet (F := {f}) (add_comm _ _) fun _ => ?_
        refine (Triple.release f).quiet (F := 0) (add_comm _ _) fun _ => ?_
        exact .pure rfl (Or.inl rfl)
      | some posts =>
        have array := array posts rfl
        have herePosts : ∀ p ∈ posts, p ∈ owned posts + ({f} + root.blocks) := by
          rintro p ⟨⟩
          simp
        have part : root.blocks ≤ owned posts + ({f} + root.blocks) :=
          le_trans (Multiset.le_add_left _ _) (Multiset.le_add_left _ _)
        have withinItems' : Within (owned posts + ({f} + root.blocks)) items := fun n here =>
          ⟨(withinItems n here).1, le_trans (withinItems n here).2 part⟩
        -- the loop: as many rounds as there are cells
        have start : Filling copies n zero (roundOf mediumOf fillOf (items.map Node.value))
            ((List.range n).foldlM (roundOf mediumOf fillOf (items.map Node.value))
              (calloc n zero)) (Option.isNone (some posts)) [] (List.range n) :=
          ⟨calloc n zero, [], calloc_holds n zero, .nil, rfl, by simp⟩
        refine Triple.call (F := 0) (Triple.foldlM
          (fun used => heldPosts strings used + (owned posts + ({f} + root.blocks)))
          (Filling copies n zero (roundOf mediumOf fillOf (items.map Node.value)) _)
          (fun r used i todo filling => round_spec medium_reads fill_spec copies_mono
            (by simp) ?_ herePosts withinItems' r used i todo filling)
          (List.range n) [] _ start) ?_ fun used r filled => ?_
        · exact array.resolve_left (filling.cells_left)
        · simp [heldPosts]
        · obtain ⟨c, qs, holds, related, runs, room⟩ := filled
          simp only [add_zero]
          refine (Triple.borrow (n := f) (by simp)).quiet (F := 0) (add_zero _).symm fun _ => ?_
          refine (cursor_spec (within part)).call (F := heldPosts strings used)
            (by abel) fun s r' copied => ?_
          refine (jsonFree_spec root built).quiet (F := {f} + owned posts +
            heldPosts strings used + held s) (by abel) fun _ => ?_
          refine .pure (zero_add _) ⟨?_, root.value, y, c, found, ?_, ?_, ?_⟩
          · refine array.imp_left fun none => ?_
            exact List.length_eq_zero_iff.mp (Nat.le_zero.mp (none ▸ le_trans
              (Nat.le_add_left _ _) room))
          · rw [Option.map_some] at same
            rw [← same, ← count]
            exact runs.symm
          · rw [holds.used]
            exact related.imp fun _ _ copied' => copies_mono copied' fun refused => by
              simpa using Or.inl refused
          · exact copied.mono fun refused => by simp [refused]
    · refine (jsonFree_spec root built).quiet (F := 0) (add_zero _).symm fun _ => ?_
      exact .pure rfl (Or.inl rfl)

end mapping

/-! ### Private feeds -/

/-- The post of the other run, but for strings that could not be copied. -/
structure PrivatePost.Copies (refused : Bool) (p : PrivatePost) (q : Model.PrivatePost) :
    Prop where
  username : Copied refused p.username q.username
  caption : Copied refused p.caption q.caption
  likeCount : p.likeCount = q.likeCount
  mediaType : p.mediaType = q.mediaType
  imageUrl : Copied refused p.imageUrl q.imageUrl
  numSlides : p.numSlides = q.numSlides

theorem PrivatePost.Copies.mono {r r' : Bool} {p : PrivatePost} {q : Model.PrivatePost}
    (copies : p.Copies r q) (more : r = true → r' = true) : p.Copies r' q :=
  { copies with
    username := copies.username.mono more
    caption := copies.caption.mono more
    imageUrl := copies.imageUrl.mono more }

theorem firstImageUrl_reads {node : Option Node} (within : Within all node) :
    Reads all (firstImageUrl node) (Here all) (Option.map Buf.bytes)
      (Model.firstImageUrl (node.map Node.value)) := by
  unfold firstImageUrl
  dsimp only [Model.firstImageUrl]
  refine (jsonGet_reads within _).bind fun iv2 within same => ?_
  rw [← same]
  refine (jsonGet_reads within _).bind fun cands within same => ?_
  rw [← same]
  refine (jsonAt_reads within 0).bind fun first within same => ?_
  rw [← same]
  exact jsonGetStr_reads within _

theorem fillPrivatePost_spec {m : Option Node} (within : Within all m) :
    Triple all (fillPrivatePost m) (fun p => heldAll p.strings + all) fun r p =>
      p.Copies r (Model.fillPrivatePost (m.map Node.value) {}) := by
  unfold fillPrivatePost
  have mine : all = all + 0 := (add_zero all).symm
  refine Triple.look (jsonGet_reads within _) mine fun user read => ?_
  obtain ⟨withinUser, user_eq⟩ := read
  refine (copyStr_spec withinUser _).call mine fun username r₁ username_eq => ?_
  refine Triple.look (F := held username) (jsonGet_reads within (literal "caption"))
    (by abel) fun text read => ?_
  obtain ⟨withinText, text_eq⟩ := read
  refine (copyStr_spec withinText _).call (F := held username) (by abel)
    fun caption r₂ caption_eq => ?_
  refine Triple.look (F := held username + held caption)
    (jsonGetInt_reads within (literal "like_count") 0) (by abel) fun likeCount read => ?_
  obtain ⟨-, likeCount_eq⟩ := read
  refine Triple.look (F := held username + held caption)
    (jsonGetInt_reads within (literal "media_type") 0) (by abel) fun mediaType read => ?_
  obtain ⟨-, mediaType_eq⟩ := read
  refine Triple.look (F := held username + held caption)
    (jsonGet_reads within (literal "carousel_media")) (by abel) fun carousel read => ?_
  obtain ⟨withinCarousel, carousel_eq⟩ := read
  refine Triple.look (F := held username + held caption)
    (jsonCount_reads withinCarousel) (by abel) fun nslides read => ?_
  obtain ⟨-, nslides_eq⟩ := read
  have cover_reads : Reads all (if nslides > 0 then JsonHeap.jsonAt carousel 0 else pure m)
      (Within all) (Option.map Node.value)
      (if nslides > 0 then Json.jsonAt (carousel.map Node.value) 0 else m.map Node.value) := by
    split_ifs
    · exact jsonAt_reads withinCarousel 0
    · exact .pure within rfl
  refine Triple.look (F := held username + held caption) cover_reads (by abel)
    fun cover read => ?_
  obtain ⟨withinCover, cover_eq⟩ := read
  refine Triple.look (F := held username + held caption) (firstImageUrl_reads withinCover)
    (by abel) fun url read => ?_
  obtain ⟨hereUrl, url_eq⟩ := read
  refine (dupStr_spec hereUrl).call (F := held username + held caption) (by abel)
    fun imageUrl r₃ imageUrl_eq => ?_
  refine .pure (by simp [heldAll, PrivatePost.strings]; abel) ?_
  rw [user_eq] at username_eq
  rw [text_eq] at caption_eq
  rw [url_eq, cover_eq] at imageUrl_eq
  dsimp only [id] at likeCount_eq mediaType_eq nslides_eq
  rw [carousel_eq] at nslides_eq imageUrl_eq
  dsimp only [Model.fillPrivatePost]
  rw [← nslides_eq]
  split_ifs at imageUrl_eq ⊢ with slides
  · exact
      { username := username_eq.mono fun refused => by simp [refused]
        caption := caption_eq.mono fun refused => by simp [refused]
        likeCount := likeCount_eq
        mediaType := mediaType_eq
        imageUrl := imageUrl_eq.mono fun refused => by simp [refused]
        numSlides := rfl }
  · exact
      { username := username_eq.mono fun refused => by simp [refused]
        caption := caption_eq.mono fun refused => by simp [refused]
        likeCount := likeCount_eq
        mediaType := mediaType_eq
        imageUrl := imageUrl_eq.mono fun refused => by simp [refused]
        numSlides := Nat.eq_zero_of_not_pos slides }

/-- The mapper without its heap, once the text is parsed. -/
theorem feedFromPrivateJson_eq {json : List UInt8} {root : JsonValue} {y : Scanner.Cursor}
    {posts : Cells Model.PrivatePost} (parsed : Json.jsonParse json = .ok root y)
    (runs : (List.range (Json.jsonCount (Json.jsonGet (some root) (literal "feed_items")))).foldlM
      (Model.privateRound (Json.jsonGet (some root) (literal "feed_items")))
      (calloc (Json.jsonCount (Json.jsonGet (some root) (literal "feed_items"))) {}) =
        some posts) :
    Model.feedFromPrivateJson json = .value
      ⟨posts, Model.dupStr (Json.jsonGetStr (some root) (literal "next_max_id"))⟩ := by
  unfold Model.feedFromPrivateJson
  rw [parsed]
  dsimp only
  split_ifs with some
  · rw [runs]
  · rw [Nat.eq_zero_of_not_pos some] at runs
    rw [List.range_zero, List.foldlM_nil] at runs
    cases runs
    rfl

theorem feedFromPrivateJson_spec (json : List UInt8) :
    Triple 0 (feedFromPrivateJson json) (fun o => match o with
        | some f => f.blocks PrivatePost.strings
        | none => 0)
      fun r o => match o with
        | some f => (f.used = [] ∨ f.posts.isSome = true) ∧
          ∃ g, Model.feedFromPrivateJson json = .value g ∧
            List.Forall₂ (PrivatePost.Copies r) f.used g.posts.used ∧
            Copied r f.cursor g.nextMaxId
        | none => r = true ∨ Model.feedFromPrivateJson json = .null := by
  have spec : Triple 0 (feedFromPrivateJson json) _ _ :=
    feedFrom_spec (Json.jsonGet · (literal "media_or_ad"))
      (fun within => jsonGet_reads within (literal "media_or_ad")) fillPrivatePost_spec
      (fun copies more => copies.mono more) "feed_items" (copyStr · "next_max_id")
      (fun root => Model.dupStr (Json.jsonGetStr root (literal "next_max_id")))
      (fun within => copyStr_spec within "next_max_id") json
  refine spec.mono rfl fun o r holds => ?_
  cases o with
  | none =>
    refine ⟨rfl, holds.imp_right fun null => ?_⟩
    unfold Model.feedFromPrivateJson
    rw [null]
  | some f =>
    obtain ⟨array, root, y, posts, parsed, filled, copies, cursor⟩ := holds
    exact ⟨rfl, array, _, feedFromPrivateJson_eq parsed filled, copies, cursor⟩

/-- Whatever allocations are refused, mapping a private response and freeing the feed does
nothing undefined and leaves the heap as it was. The feed has the posts, in order, that it
has where nothing is refused, with NULL for every string that could not be copied; there is
no feed only if an allocation failed or the text is no JSON, and then nothing is left. -/
theorem feedFromPrivateJson_keeps_the_heap (json : List UInt8) (w : World Kind) :
    ∃ o w' refused, feedFromPrivateJson json w = .ok o w' refused ∧
      match o with
      | none => w'.live = w.live ∧
          (refused = true ∨ Model.feedFromPrivateJson json = .null)
      | some f => w'.live = f.blocks PrivatePost.strings + w.live ∧
          (∃ g, Model.feedFromPrivateJson json = .value g ∧
            List.Forall₂ (PrivatePost.Copies refused) f.used g.posts.used ∧
            Copied refused f.cursor g.nextMaxId) ∧
          ∃ w'', privateFeedFree (some f) w' = .ok () w'' false ∧ w''.live = w.live := by
  obtain ⟨o, w', refused, runs, live, holds⟩ := (feedFromPrivateJson_spec json).run w
  refine ⟨o, w', refused, runs, ?_⟩
  cases o with
  | none => exact ⟨by rw [live, zero_add], holds⟩
  | some f =>
    obtain ⟨array, mapped⟩ := holds
    obtain ⟨_, w'', r, freed, live', rfl⟩ :=
      freeFeed_spec PrivatePost.strings f array w' w.live live
    exact ⟨live, mapped, w'', freed, by rw [live', zero_add]⟩

/-! ### Graph feeds -/

/-- The post of the other run, but for strings that could not be copied. Where the copy of
the media URL was refused, the copy of the thumbnail's may stand in its place. -/
structure Post.Copies (refused : Bool) (p : Post) (q : Model.Post)
    (thumbnail : Option (List UInt8)) : Prop where
  id : Copied refused p.id q.id
  username : Copied refused p.username q.username
  caption : Copied refused p.caption q.caption
  mediaUrl : Copied refused p.mediaUrl q.mediaUrl ∨
    (refused = true ∧ p.mediaUrl.map Buf.bytes = thumbnail)
  mediaType : Copied refused p.mediaType q.mediaType
  permalink : Copied refused p.permalink q.permalink
  timestamp : Copied refused p.timestamp q.timestamp
  likeCount : p.likeCount = q.likeCount

theorem Post.Copies.mono {r r' : Bool} {p : Post} {q : Model.Post}
    {thumbnail : Option (List UInt8)} (copies : p.Copies r q thumbnail)
    (more : r = true → r' = true) : p.Copies r' q thumbnail :=
  { id := copies.id.mono more
    username := copies.username.mono more
    caption := copies.caption.mono more
    mediaUrl := copies.mediaUrl.imp (fun copied => copied.mono more)
      fun gone => ⟨more gone.1, gone.2⟩
    mediaType := copies.mediaType.mono more
    permalink := copies.permalink.mono more
    timestamp := copies.timestamp.mono more
    likeCount := copies.likeCount }

/-- The string that stands in for a media URL. -/
def thumbnailOf (o : Option JsonValue) : Option (List UInt8) :=
  Model.dupStr (Json.jsonGetStr o (literal "thumbnail_url"))

/-- The media URL, or the thumbnail where there is none. -/
theorem mediaUrl_spec {o : Option Node} (within : Within all o) {mediaUrl : Option Buf}
    {r : Bool}
    (copied : Copied r mediaUrl
      (Model.dupStr (Json.jsonGetStr (o.map Node.value) (literal "media_url")))) :
    Triple (held mediaUrl + all)
      (if mediaUrl.isNone then copyStr o "thumbnail_url" else pure mediaUrl)
      (fun s => held s + all) fun r' s =>
        Copied (r || r') s (Model.fillPost (o.map Node.value) {}).mediaUrl ∨
          ((r || r') = true ∧ s.map Buf.bytes = thumbnailOf (o.map Node.value)) := by
  cases mediaUrl with
  | none =>
    refine (copyStr_spec within "thumbnail_url").mono (zero_add all) fun s r' copied' => ⟨rfl, ?_⟩
    obtain ⟨absent, -⟩ | ⟨rfl, -⟩ := copied
    · -- there is no media URL, and the thumbnail takes its place
      rw [Option.map_none] at absent
      left
      dsimp only [Model.fillPost]
      rw [if_pos absent.symm]
      exact copied'.mono fun refused => by simp [refused]
    · -- its copy was refused
      obtain ⟨same, -⟩ | ⟨rfl, rfl⟩ := copied'
      · exact Or.inr ⟨Bool.true_or _, same⟩
      · exact Or.inl (Or.inr ⟨rfl, rfl⟩)
  | some url =>
    refine .pure rfl (Or.inl ?_)
    obtain ⟨there, small⟩ | ⟨-, none⟩ := copied
    · refine Or.inl ⟨?_, small⟩
      dsimp only [Model.fillPost]
      rw [if_neg (by rw [← there]; simp)]
      exact there
    · cases none

theorem fillPost_spec {o : Option Node} (within : Within all o) :
    Triple all (fillPost o) (fun p => heldAll p.strings + all) fun r p =>
      p.Copies r (Model.fillPost (o.map Node.value) {}) (thumbnailOf (o.map Node.value)) := by
  unfold fillPost
  refine (copyStr_spec within "id").call (add_zero all).symm fun id r₁ id_eq => ?_
  refine (copyStr_spec within "username").call (F := held id) (by abel)
    fun username r₂ username_eq => ?_
  refine (copyStr_spec within "caption").call (F := held id + held username) (by abel)
    fun caption r₃ caption_eq => ?_
  refine (copyStr_spec within "media_type").call
    (F := held id + held username + held caption) (by abel) fun mediaType r₄ mediaType_eq => ?_
  refine (copyStr_spec within "media_url").call
    (F := held id + held username + held caption + held mediaType) (by abel)
    fun media r₅ media_eq => ?_
  refine (mediaUrl_spec within media_eq).call
    (F := held id + held username + held caption + held mediaType) (by abel)
    fun mediaUrl r₆ mediaUrl_eq => ?_
  refine (copyStr_spec within "permalink").call
    (F := held id + held username + held caption + held mediaType + held mediaUrl) (by abel)
    fun permalink r₇ permalink_eq => ?_
  refine (copyStr_spec within "timestamp").call
    (F := held id + held username + held caption + held mediaType + held mediaUrl +
      held permalink) (by abel) fun timestamp r₈ timestamp_eq => ?_
  refine Triple.look (F := held id + held username + held caption + held mediaType +
    held mediaUrl + held permalink + held timestamp)
    (jsonGetInt_reads within (literal "like_count") 0) (by abel) fun likeCount read => ?_
  refine .pure (by simp [heldAll, Post.strings]; abel) ?_
  have plain : Model.fillPost (o.map Node.value) {} =
      { id := Model.dupStr (Json.jsonGetStr (o.map Node.value) (literal "id"))
        username := Model.dupStr (Json.jsonGetStr (o.map Node.value) (literal "username"))
        caption := Model.dupStr (Json.jsonGetStr (o.map Node.value) (literal "caption"))
        mediaUrl := (Model.fillPost (o.map Node.value) {}).mediaUrl
        mediaType := Model.dupStr (Json.jsonGetStr (o.map Node.value) (literal "media_type"))
        permalink := Model.dupStr (Json.jsonGetStr (o.map Node.value) (literal "permalink"))
        timestamp := Model.dupStr (Json.jsonGetStr (o.map Node.value) (literal "timestamp"))
        likeCount := Json.jsonGetInt (o.map Node.value) (literal "like_count") 0 } := by
    dsimp only [Model.fillPost]
    split_ifs <;> rfl
  rw [plain]
  exact
    { id := id_eq.mono fun refused => by simp [refused]
      username := username_eq.mono fun refused => by simp [refused]
      caption := caption_eq.mono fun refused => by simp [refused]
      mediaUrl := mediaUrl_eq.imp
        (fun copied => copied.mono fun refused => by
          rcases Bool.or_eq_true_iff.mp refused with refused | refused <;> simp [refused])
        fun gone => ⟨by
          rcases Bool.or_eq_true_iff.mp gone.1 with refused | refused <;> simp [refused], gone.2⟩
      mediaType := mediaType_eq.mono fun refused => by simp [refused]
      permalink := permalink_eq.mono fun refused => by simp [refused]
      timestamp := timestamp_eq.mono fun refused => by simp [refused]
      likeCount := read.2 }

theorem nextCursor_spec {root : Option Node} (within : Within all root) :
    Triple all (do
        let paging ← JsonHeap.jsonGet root (literal "paging")
        let cursors ← JsonHeap.jsonGet paging (literal "cursors")
        copyStr cursors "after") (fun s => held s + all) fun r s =>
      Copied r s (Model.dupStr (Json.jsonGetStr (Json.jsonGet (Json.jsonGet
        (root.map Node.value) (literal "paging")) (literal "cursors")) (literal "after"))) := by
  have mine : all = all + 0 := (add_zero all).symm
  refine Triple.look (jsonGet_reads within _) mine fun paging read => ?_
  obtain ⟨withinPaging, paging_eq⟩ := read
  refine Triple.look (jsonGet_reads withinPaging _) mine fun cursors read => ?_
  obtain ⟨withinCursors, cursors_eq⟩ := read
  rw [← paging_eq, ← cursors_eq]
  exact copyStr_spec withinCursors "after"

/-- The posts are copies of those of the objects. -/
def MadeFrom (refused : Bool) (posts : List Post) (objects : List JsonValue) : Prop :=
  List.Forall₂ (fun p o => p.Copies refused (Model.graphPostOf o)
    (Model.stringAt o ["thumbnail_url"])) posts objects

/-- The objects of a response. -/
def objectsOf (root : JsonValue) : List JsonValue :=
  (Model.elementsAt root ["data"]).filterMap Model.object?

/-- The loop that stores the objects themselves stores all of them. -/
theorem objects_stored {root : JsonValue} {objects : Cells (Option JsonValue)}
    (runs : (List.range (Json.jsonCount (Json.jsonGet (some root) (literal "data")))).foldlM
      (roundOf id (fun m _ => m) (Json.jsonGet (some root) (literal "data")))
      (calloc (Json.jsonCount (Json.jsonGet (some root) (literal "data"))) none) = some objects) :
    objects.used = (objectsOf root).map some := by
  obtain ⟨posts, filled, holds⟩ := @Model.posts_holds (Option JsonValue) none (fun m _ => m) some
    (Json.jsonGet (some root) (literal "data")) id
    (roundOf id (fun m _ => m) (Json.jsonGet (some root) (literal "data"))) rfl (fun _ => rfl)
    fun _ _ => rfl
  have same : posts = objects := by
    split_ifs at filled with entries
    · rw [runs] at filled
      cases filled
      rfl
    · have empty : Json.jsonCount (Json.jsonGet (some root) (literal "data")) = 0 := by omega
      rw [empty] at runs
      exact Option.some.inj (filled.symm.trans runs)
  rw [← same, holds.used, objectsOf, Model.elementsAt, List.map_filterMap]
  rw [Model.jsonGet_valueAt]
  rfl

theorem feedFromGraphJson_spec (json : List UInt8) :
    Triple 0 (feedFromGraphJson json) (fun o => match o with
        | some f => f.blocks Post.strings
        | none => 0)
      fun r o => match o with
        | some f => (f.used = [] ∨ f.posts.isSome = true) ∧
          ∃ root y g, Json.jsonParse json = .ok root y ∧
            Model.feedFromGraphJson json = .value g ∧
            MadeFrom r f.used (objectsOf root) ∧
            g.posts.used = (objectsOf root).map Model.graphPostOf ∧
            Copied r f.cursor g.nextCursor
        | none => r = true ∨ Model.feedFromGraphJson json = .null := by
  have spec : Triple 0 (feedFromGraphJson json) _ _ :=
    @feedFrom_spec _ (Option JsonValue) Post.strings
      (fun r p m => p.Copies r (Model.fillPost m {}) (thumbnailOf m)) _ id _ (fun m _ => m) none
       (fun within => .pure within rfl) fillPost_spec
      (fun copies more => copies.mono more) "data" _
      (fun root => Model.dupStr (Json.jsonGetStr (Json.jsonGet (Json.jsonGet root
        (literal "paging")) (literal "cursors")) (literal "after")))
      nextCursor_spec json
  refine spec.mono rfl fun o r holds => ?_
  cases o with
  | none =>
    refine ⟨rfl, holds.imp_right fun null => ?_⟩
    unfold Model.feedFromGraphJson
    rw [null]
  | some f =>
    obtain ⟨array, root, y, objects, parsed, filled, copies, cursor⟩ := holds
    -- the run without refusals has the posts of the same objects
    obtain ⟨g, mapped, posts, after⟩ := Model.feedFromGraphJson_feed parsed
    rw [objects_stored filled, List.forall₂_map_right_iff] at copies
    refine ⟨rfl, array, root, y, g, parsed, mapped, ?_, ?_, ?_⟩
    · refine copies.imp fun p o copies => ?_
      have thumbnail : thumbnailOf (some o) = Model.stringAt o ["thumbnail_url"] := by
        rw [thumbnailOf, Json.jsonGetStr, Model.dupStr_text, Model.jsonGet_valueAt, Model.stringAt]
      rw [Model.fillPost_eq, thumbnail] at copies
      exact copies
    · rw [posts.used, objectsOf, List.map_filterMap]
      rfl
    · rw [Json.jsonGetStr, Model.dupStr_text, Json.jsonGet_literal, Json.jsonGet_literal,
        Json.jsonGet_literal] at cursor
      rw [after]
      simpa [Model.stringAt, Model.valueAt, Option.bind_assoc] using cursor

/-- The same for a response of the Graph API. -/
theorem feedFromGraphJson_keeps_the_heap (json : List UInt8) (w : World Kind) :
    ∃ o w' refused, feedFromGraphJson json w = .ok o w' refused ∧
      match o with
      | none => w'.live = w.live ∧ (refused = true ∨ Model.feedFromGraphJson json = .null)
      | some f => w'.live = f.blocks Post.strings + w.live ∧
          (∃ root y g, Json.jsonParse json = .ok root y ∧
            Model.feedFromGraphJson json = .value g ∧
            MadeFrom refused f.used (objectsOf root) ∧
            g.posts.used = (objectsOf root).map Model.graphPostOf ∧
            Copied refused f.cursor g.nextCursor) ∧
          ∃ w'', feedFree (some f) w' = .ok () w'' false ∧ w''.live = w.live := by
  obtain ⟨o, w', refused, runs, live, holds⟩ := (feedFromGraphJson_spec json).run w
  refine ⟨o, w', refused, runs, ?_⟩
  cases o with
  | none => exact ⟨by rw [live, zero_add], holds⟩
  | some f =>
    obtain ⟨array, mapped⟩ := holds
    obtain ⟨_, w'', r, freed, live', rfl⟩ := freeFeed_spec Post.strings f array w' w.live live
    exact ⟨live, mapped, w'', freed, by rw [live', zero_add]⟩

end InstagramNt40.ModelHeap
