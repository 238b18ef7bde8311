import InstagramNt40.Core.ModelOwnership
import InstagramNt40.Net.HttpsOwnership
import InstagramNt40.Net.IgBuffer
import InstagramNt40.Net.IgFreshHeaders

/-!
# net/ig_client.c

The timeline: headers and body of the request, the request, and the feed of the response,
with everything that is allocated on the way.
-/
namespace InstagramNt40.Client

open Ownership Alloc Crt Http Https HttpsHeap IgPrivate ModelHeap

/-- The constants of the captured session. They are part of the program, so there is not
much of them. -/
structure Template where
  host : List UInt8
  path : List UInt8
  statics : List (List UInt8 × List UInt8)
  body : IgBody
  small : host.length + path.length +
    (statics.map fun h => h.1.length + 2 + h.2.length + 2).sum < 2 ^ 30

/-- What the clock and the random generator return while a request is built. -/
structure Chance where
  headerTicks : UInt64
  draws : Draws
  bodyTicks : UInt64
  sound : UInt32

/-- What a request meets on the network. -/
structure Peer where
  resolves : Bool
  connects : Bool
  session : Session
  trace : List SslRead

def Peer.request (peer : Peer) (method host path : List UInt8)
    (headers : List (List UInt8 × List UInt8)) (body : List UInt8) :
    Proc (Option Block × Reply) :=
  httpsRequest peer.resolves peer.connects peer.session method host path headers body
    body.length peer.trace

/-- `ig_build_timeline_body`, over its buffer of 4096 bytes. -/
def igBuildTimelineBody (b : IgBody) (nowMs : UInt64) (random : UInt32) : Proc (Option Buf) :=
  match Mem.pieces b nowMs random with
  | none => fault
  | some pieces =>
    let (buf, p) := pieces.foldl (append bodyCap) ([], 0)
    if p ≥ bodyCap then pure none
    else do
      match ← mallocSize (p + 1) with
      | none => pure none
      | some out => pure (some ⟨out, buf.take p⟩)

/-- The string that a header's value points to. -/
def text (scratch : List UInt8) : Pointer → List UInt8
  | .constant s => cstr s 0
  | .scratch p => cstr scratch p

/-- `IG_FRESH_SCRATCH_BYTES` -/
def igFreshScratchBytes : Nat := 256

/-- `ig_fetch_timeline`; `stack` is what `scratch` holds before. -/
def igFetchTimeline (t : Template) (chance : Chance) (stack : Nat → UInt8) (peer : Peer) :
    Proc (Option (FeedOf PrivatePost)) :=
  match igBuildHeaders t.statics (t.statics.length + igFreshHeadersCount)
      ((List.range igFreshScratchBytes).map stack) igFreshScratchBytes chance.headerTicks
      chance.draws with
  | none => fault
  | some (headers, scratch) => do
    match ← igBuildTimelineBody t.body (igNowMs chance.bodyTicks) chance.sound with
    | none => pure none
    | some body => do
      touch body.block
      let (resp, reply) ← peer.request (literal "POST") t.host t.path
        (headers.map fun h => (cstr h.name 0, text scratch h.value)) body.bytes
      release body.block
      match resp with
      | none => pure none
      | some resp => do
        let feed ← (if reply.outStatus = some 200 then do
            touch resp
            feedFromPrivateJson (reply.result.getD [])
          else pure none)
        release resp
        pure feed

/-! ### The same without allocations -/

/-- What a peer replies to a request. -/
def Peer.reply (peer : Peer) (request : List UInt8) : Reply :=
  Https.unrefused (withSocket peer.session (peer.resolves && peer.connects))
    (some request) peer.trace

/-- The headers of the request: those of the session, without compression, and the fresh
ones. -/
def Template.headers (t : Template) (chance : Chance) : List (List UInt8 × List UInt8) :=
  (t.statics.map fun h => (cstr h.1 0,
    cstr (if Http1.SameText (cstr h.1 0) (literal "Accept-Encoding") then literal "identity"
      else h.2) 0)) ++
    (freshHeaders (igNowMs chance.headerTicks) chance.draws).map fun f => (f.name, f.text)

/-- The bytes of the request with this body. -/
def Template.request (t : Template) (chance : Chance) (body : List UInt8) : List UInt8 :=
  requestBytes (literal "POST") t.host t.path (t.headers chance) body

/-- The feed in a reply. -/
def feedOf (reply : Reply) : Option Model.PrivateFeed :=
  if reply.outStatus = some 200 then
    reply.result.bind fun json =>
      match Model.feedFromPrivateJson json with
      | .value feed => some feed
      | _ => none
  else none

/-- The feed that a peer sends, where nothing is refused. -/
def timeline (t : Template) (chance : Chance) (peer : Peer) : Option Model.PrivateFeed :=
  match IgPrivate.igBuildTimelineBody .roomy t.body (igNowMs chance.bodyTicks) chance.sound with
  | .value body => feedOf (peer.reply (t.request chance body))
  | _ => none

/-! ### The request -/

/-- `https_request` owns nothing afterwards but its result. -/
theorem request_spec (peer : Peer) {method host path : List UInt8}
    {headers : List (List UInt8 × List UInt8)} {body : List UInt8}
    (size : (requestBytes method host path headers body).length + 64 < 2 ^ 32) :
    Triple 0 (peer.request method host path headers body) (fun got => owned got.1) fun r got =>
      got.1.isSome = got.2.result.isSome ∧ InDelivered peer.trace got.2 ∧
        (r = false → got.2 = peer.reply (requestBytes method host path headers body)) :=
  httpsRequest_spec peer.session peer.trace peer.resolves peer.connects size

theorem igBuildTimelineBody_spec (b : IgBody) (nowMs : UInt64) (random : UInt32) :
    Triple 0 (igBuildTimelineBody b nowMs random) held fun r o =>
      match o with
      | some body => r = false ∧ body.bytes.length < bodyCap ∧
        IgPrivate.igBuildTimelineBody .roomy b nowMs random = .value body.bytes
      | none => r = true ∨ IgPrivate.igBuildTimelineBody .roomy b nowMs random = .null := by
  obtain ⟨ps, built, list⟩ := Mem.pieces_eq b nowMs random
  rw [list, finishBody, igBuildTimelineBody, built]
  dsimp only
  generalize ps.foldl (append bodyCap) ([], 0) = written
  obtain ⟨buf, p⟩ := written
  dsimp only
  by_cases tooLong : p ≥ bodyCap
  · rw [if_pos tooLong, if_pos tooLong]
    exact .pure rfl (Or.inr rfl)
  · rw [if_neg tooLong, if_neg tooLong]
    have cap : bodyCap = 4096 := rfl
    have roomy : Heap.roomy.grants (p + 1) = true := decide_eq_true (by omega)
    rw [if_pos roomy]
    refine (mallocSize_spec _).call (F := 0) rfl fun o r answer => ?_
    obtain ⟨rfl, -⟩ := answer
    cases o with
    | none => exact .pure rfl (Or.inl rfl)
    | some out =>
      refine .pure (add_zero _) ⟨rfl, ?_, rfl⟩
      exact Nat.lt_of_le_of_lt (List.length_take_le _ _) (Nat.not_le.mp tooLong)

/-- With room for all of them the headers are written, and their strings can be read. -/
theorem igBuildHeaders_strings (t : Template) (chance : Chance) (stack : Nat → UInt8) :
    ∃ headers scratch, igBuildHeaders t.statics (t.statics.length + igFreshHeadersCount)
        ((List.range igFreshScratchBytes).map stack) igFreshScratchBytes chance.headerTicks
        chance.draws = some (headers, scratch) ∧
      headers.map (fun h => (cstr h.name 0, text scratch h.value)) = t.headers chance := by
  have count : igFreshHeadersCount = 7 := rfl
  have room : 224 ≤ ((List.range igFreshScratchBytes).map stack).length := by
    rw [List.length_map, List.length_range]
    decide
  obtain ⟨scratch, carved, -, there⟩ :=
    carve_fresh (igNowMs chance.headerTicks) chance.draws room
  have statics := staticLoop_eq (t.statics.length + igFreshHeadersCount) t.statics []
  rw [List.nil_append, List.length_nil, Nat.cast_zero, Int.sub_zero,
    List.take_of_length_le (by rw [List.length_map]; omega)] at statics
  have fits : ((t.statics.map staticHeader).length +
      (freshNames.zip ((freshHeaders (igNowMs chance.headerTicks) chance.draws).map
        Fresh.place)).length : Nat) ≤ (t.statics.length + igFreshHeadersCount : Int) := by
    rw [List.length_map]
    exact_mod_cast Nat.le_refl _
  have enough : ¬((igFreshScratchBytes : Int) < (igFreshHeadersCount * 32 : Nat) ∨
      (t.statics.length + igFreshHeadersCount : Int) <
        (t.statics.map staticHeader).length + igFreshHeadersCount) := by
    rw [List.length_map, count, show igFreshScratchBytes = 256 from rfl]
    omega
  refine ⟨t.statics.map staticHeader ++ (freshNames.zip ((freshHeaders
    (igNowMs chance.headerTicks) chance.draws).map Fresh.place)).map fun h => ⟨h.1, .scratch h.2⟩,
    scratch, ?_, ?_⟩
  · unfold igBuildHeaders
    rw [statics, Option.bind_eq_bind, Option.bind_some]
    dsimp only
    rw [if_neg enough, igUuid4_eq, Option.bind_eq_bind, Option.bind_some, carved,
      Option.bind_eq_bind, Option.bind_some]
    dsimp only
    rw [putHeaders_room fits]
    rfl
  · rw [List.map_append, Template.headers]
    congr 1
    · rw [List.map_map]
      rfl
    · -- the place of a fresh header is where its text was printed
      have names : freshNames.zip ((freshHeaders (igNowMs chance.headerTicks) chance.draws).map
          Fresh.place) = (freshHeaders (igNowMs chance.headerTicks) chance.draws).map
            fun f => (f.name, f.place) := rfl
      have plain : ∀ f ∈ freshHeaders (igNowMs chance.headerTicks) chance.draws,
          cstr f.name 0 = f.name := by
        have all : ∀ name ∈ freshNames, cstr name 0 = name := by decide
        exact fun f member => all f.name (List.mem_map_of_mem member)
      rw [names, List.map_map, List.map_map]
      refine List.map_congr_left fun f member => ?_
      dsimp only [Function.comp_apply, text]
      rw [plain f member, (there f member).cstr]

/-- The fresh headers are short. -/
theorem freshHeaders_size (nowMs : UInt64) (d : Draws) :
    (((freshHeaders nowMs d).map fun f => (f.name, f.text)).map fun h =>
      h.1.length + 2 + h.2.length + 2).sum ≤ 1024 := by
  have fit := freshValues_fit nowMs d
  simp only [freshValues, freshHeaders, List.map_cons, List.map_nil, List.forall₂_cons] at fit
  obtain ⟨session, time, speed, bytes, total, salt, latency, -⟩ := fit
  have session := session.room
  have time := time.room
  have speed := speed.room
  have bytes := bytes.room
  have total := total.room
  have salt := salt.room
  have latency := latency.room
  have names : (freshNames.map List.length).sum = 145 := by decide
  simp only [freshNames, List.map_cons, List.map_nil, List.sum_cons, List.sum_nil] at names
  simp only [freshHeaders, List.map_cons, List.map_nil, List.sum_cons, List.sum_nil]
  dsimp only at session time speed bytes total salt latency
  omega

theorem statics_size (statics : List (List UInt8 × List UInt8)) :
    ((statics.map fun h => (cstr h.1 0,
        cstr (if Http1.SameText (cstr h.1 0) (literal "Accept-Encoding") then literal "identity"
          else h.2) 0)).map fun h => h.1.length + 2 + h.2.length + 2).sum ≤
      3 * (statics.map fun h => h.1.length + 2 + h.2.length + 2).sum := by
  induction statics with
  | nil => rfl
  | cons h statics ih =>
    have name := cstr_length_le h.1
    have value : (cstr (if Http1.SameText (cstr h.1 0) (literal "Accept-Encoding")
        then literal "identity" else h.2) 0).length ≤ 8 + h.2.length := by
      split
      · have short : (cstr (literal "identity") 0).length = 8 := by decide
        omega
      · have := cstr_length_le h.2
        omega
    simp only [List.map_cons, List.sum_cons]
    omega

/-- The request is far too short for its size to wrap around. -/
theorem request_size (t : Template) (chance : Chance) {body : List UInt8}
    (short : body.length < bodyCap) : (t.request chance body).length + 64 < 2 ^ 32 := by
  have cap : bodyCap = 4096 := rfl
  have small := t.small
  have method : (literal "POST").length = 4 := by decide
  have statics := statics_size t.statics
  have fresh := freshHeaders_size (igNowMs chance.headerTicks) chance.draws
  have bound := (requestBytes_length_bounds (literal "POST") t.host t.path (t.headers chance)
    (show body.length < 2 ^ 32 by omega)).1
  rw [Template.headers, List.map_append, List.sum_append] at bound
  rw [Template.request, Template.headers]
  omega

/-! ### The timeline -/

def heldFeed : Option (FeedOf PrivatePost) → Multiset Block
  | some f => f.blocks PrivatePost.strings
  | none => 0

/-- The feed that a call returns: its array is there if it has posts, its URLs fit a block,
and unless something was refused it is the one that the peer sent. -/
def Fetched (t : Template) (chance : Chance) (peer : Peer) (refused : Bool) :
    Option (FeedOf PrivatePost) → Prop
  | some f => (f.used = [] ∨ f.posts.isSome = true) ∧
    (∀ p ∈ f.used, ∀ url ∈ p.imageUrl, url.bytes.length + 1 < 2 ^ 31) ∧
    (refused = false → ∃ g, timeline t chance peer = some g ∧
      List.Forall₂ (PrivatePost.Copies false) f.used g.posts.used)
  | none => refused = false → timeline t chance peer = none

/-- The feed is made of a response in what was delivered, or in the first part of it. -/
def MadeOf (trace : List SslRead) (refused : Bool) (f : FeedOf PrivatePost) : Prop :=
  ∃ part resp g, part <+: delivered trace ∧ Http.httpParseResponse part = some resp ∧
    resp.status = 200 ∧ Model.feedFromPrivateJson resp.bodyBytes = .value g ∧
    List.Forall₂ (PrivatePost.Copies refused) f.used g.posts.used ∧
    Copied refused f.cursor g.nextMaxId

theorem MadeOf.mono {trace : List SslRead} {r r' : Bool} {f : FeedOf PrivatePost}
    (made : MadeOf trace r f) (more : r = true → r' = true) : MadeOf trace r' f := by
  obtain ⟨part, resp, g, shorter, parsed, status, found, copies, cursor⟩ := made
  exact ⟨part, resp, g, shorter, parsed, status, found,
    copies.imp fun p q copied => copied.mono more, cursor.mono more⟩

/-- A reply holds the body of a response in a part of what was delivered. -/
theorem madeOf_reply {trace : List SslRead} {reply : Reply} {r : Bool} {f : FeedOf PrivatePost}
    {g : Model.PrivateFeed} (inPart : InDelivered trace reply)
    (there : reply.result.isSome = true) (good : reply.outStatus = some 200)
    (found : Model.feedFromPrivateJson (reply.result.getD []) = .value g)
    (copies : List.Forall₂ (PrivatePost.Copies r) f.used g.posts.used)
    (cursor : Copied r f.cursor g.nextMaxId) : MadeOf trace r f := by
  obtain ⟨part, shorter, inBytes⟩ := inPart
  obtain ⟨json, is_json⟩ := Option.isSome_iff_exists.mp there
  obtain ⟨resp, parsed, rfl, status⟩ := inBytes json is_json
  rw [is_json, Option.getD_some] at found
  rw [good, Option.some_inj] at status
  exact ⟨part, resp, g, shorter, parsed, status.symm, found, copies, cursor⟩

theorem feed_spec (resp : Block) (reply : Reply) :
    Triple {resp} (if reply.outStatus = some 200 then do
        touch resp
        feedFromPrivateJson (reply.result.getD [])
      else pure none) (fun o => heldFeed o + {resp}) fun r o =>
        match o with
        | some f => (f.used = [] ∨ f.posts.isSome = true) ∧
          (∀ p ∈ f.used, ∀ url ∈ p.imageUrl, url.bytes.length + 1 < 2 ^ 31) ∧
          (r = false → reply.result.isSome = true → ∃ g, feedOf reply = some g ∧
            List.Forall₂ (PrivatePost.Copies false) f.used g.posts.used) ∧
          reply.outStatus = some 200 ∧
          ∃ g, Model.feedFromPrivateJson (reply.result.getD []) = .value g ∧
            List.Forall₂ (PrivatePost.Copies r) f.used g.posts.used ∧
            Copied r f.cursor g.nextMaxId
        | none => r = false → reply.result.isSome = true → feedOf reply = none := by
  by_cases good : reply.outStatus = some 200
  · rw [if_pos good]
    refine (Triple.touch resp).quiet (F := 0) (add_zero _).symm fun _ => ?_
    refine ((feedFromPrivateJson_spec (reply.result.getD [])).framed {resp}).mono (by simp)
      fun o r mapped => ?_
    cases o with
    | none =>
      refine ⟨rfl, fun calm there => ?_⟩
      obtain ⟨json, is_json⟩ := Option.isSome_iff_exists.mp there
      have null := mapped.resolve_left (by simp [calm])
      rw [is_json, Option.getD_some] at null
      rw [feedOf, if_pos good, is_json, Option.bind_some, null]
    | some f =>
      obtain ⟨array, g, found, copies, cursor⟩ := mapped
      have small : ∀ p ∈ f.used, ∀ url ∈ p.imageUrl, url.bytes.length + 1 < 2 ^ 31 :=
        ((List.forall₂_and_left _ _).mp (copies.imp fun p q copied =>
          ⟨fun url is_url => copied.imageUrl.small is_url, copied⟩)).1
      refine ⟨rfl, array, small, fun calm there => ?_, good, g, found, copies, cursor⟩
      obtain ⟨json, is_json⟩ := Option.isSome_iff_exists.mp there
      rw [is_json, Option.getD_some] at found
      refine ⟨g, ?_, calm ▸ copies⟩
      rw [feedOf, if_pos good, is_json, Option.bind_some, found]
  · rw [if_neg good]
    refine .pure (zero_add _).symm fun _ _ => ?_
    rw [feedOf, if_neg good]

/-- Whatever happens on the way, the feed is all that is left of a call, and it is made of
what the peer sent. -/
theorem igFetchTimeline_spec (t : Template) (chance : Chance) (stack : Nat → UInt8)
    (peer : Peer) :
    Triple 0 (igFetchTimeline t chance stack peer) heldFeed fun r o =>
      Fetched t chance peer r o ∧ ∀ f ∈ o, MadeOf peer.trace r f := by
  obtain ⟨headers, scratch, built, strings⟩ := igBuildHeaders_strings t chance stack
  unfold igFetchTimeline
  rw [built]
  dsimp only
  rw [strings]
  refine (igBuildTimelineBody_spec t.body (igNowMs chance.bodyTicks) chance.sound).call (F := 0)
    rfl fun o r made => ?_
  cases o with
  | none =>
    refine .pure rfl ⟨fun calm => ?_, nofun⟩
    have null := made.resolve_left (by simpa using calm)
    rw [timeline, null]
  | some body =>
    obtain ⟨rfl, short, is_body⟩ := made
    refine (Triple.borrow (n := body.block) (by simp [held])).quiet (F := 0) (add_zero _).symm
      fun _ => ?_
    refine (request_spec peer (request_size t chance short)).call (F := {body.block})
      (by simp [held]) fun got r replied => ?_
    obtain ⟨resp, reply⟩ := got
    obtain ⟨same, inPart, replied⟩ := replied
    refine (Triple.release body.block).quiet (F := owned resp) (add_comm _ _) fun _ => ?_
    cases resp with
    | none =>
      refine .pure rfl ⟨fun calm => ?_, nofun⟩
      have none : reply.result = none := by simpa using same.symm
      have sent : reply = peer.reply (t.request chance body.bytes) := replied (by simpa using calm)
      rw [timeline, is_body]
      dsimp only
      rw [← sent, feedOf, none, Option.bind_none, ite_self]
    | some resp =>
      have there : reply.result.isSome = true := same.symm
      refine (feed_spec resp reply).call (F := 0) (by simp) fun o r' mapped => ?_
      refine (Triple.release resp).quiet (F := heldFeed o) (by rw [add_zero, add_comm]) fun _ => ?_
      refine .pure (zero_add _) ?_
      have sent (calm : r = false) : timeline t chance peer = feedOf reply := by
        have whole : reply = peer.reply (t.request chance body.bytes) := replied calm
        rw [timeline, is_body, whole]
      cases o with
      | none =>
        refine ⟨fun calm => ?_, nofun⟩
        simp only [Bool.false_or, Bool.or_false, Bool.or_eq_false_iff] at calm
        rw [sent calm.1]
        exact mapped calm.2 there
      | some f =>
        obtain ⟨array, small, agrees, good, g, found, copies, cursor⟩ := mapped
        refine ⟨⟨array, small, fun calm => ?_⟩, fun f' is_f => ?_⟩
        · simp only [Bool.false_or, Bool.or_false, Bool.or_eq_false_iff] at calm
          rw [sent calm.1]
          exact agrees calm.2 there
        · cases is_f
          refine (madeOf_reply inPart there good found copies cursor).mono fun gone => ?_
          rw [gone]
          simp

end InstagramNt40.Client
