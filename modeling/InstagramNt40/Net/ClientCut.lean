import InstagramNt40.Core.ResponseCut
import InstagramNt40.Net.ClientHeap

/-!
# Timelines that are cut

`https_request` may report a part of a body. The timeline is made of the whole document or
not at all: however the connection breaks and whatever is refused, there is no feed that
lacks posts.
-/
namespace InstagramNt40.Client

open Ownership Alloc Crt Json Http Https HttpsHeap IgPrivate ModelHeap

/-- Nothing, or the feed of the document but for strings that could not be copied. -/
def WholeOrNothing (resp : HttpResponse) (root : JsonValue) (refused : Bool)
    (o : Option (FeedOf PrivatePost)) : Prop :=
  ∀ f ∈ o, resp.status = 200 ∧
    List.Forall₂ (PrivatePost.Copies refused) f.used
      ((Model.elementsAt root ["feed_items"]).filterMap Model.privateItem) ∧
    Copied refused f.cursor (Model.stringAt root ["next_max_id"])

/-- The request is sent, and all of a response comes back. -/
structure Arrives (t : Template) (chance : Chance) (peer : Peer) (R : List UInt8) : Prop where
  sent : ∃ body, IgPrivate.igBuildTimelineBody .roomy t.body (igNowMs chance.bodyTicks)
      chance.sound = .value body ∧
    established (withSocket peer.session (peer.resolves && peer.connects))
      (some (t.request chance body)) = true
  whole : delivered peer.trace = R
  fits : R.length ≤ 2 ^ 30

theorem capacity_roomy : capacity .roomy = 2 ^ 30 := by decide

/-- The reply to a request when all of a response comes back. -/
theorem httpsRequest_whole {session : Session} {request : Option (List UInt8)}
    {trace : List SslRead} {resp : HttpResponse} (ready : established session request = true)
    (fits : (delivered trace).length ≤ 2 ^ 30)
    (parses : httpParseResponse (delivered trace) = some resp) :
    Https.unrefused session request trace =
      ⟨some resp.bodyBytes, some resp.status, some resp.bodyLen⟩ := by
  have all : received .roomy trace = delivered trace :=
    List.take_of_length_le (by rwa [capacity_roomy])
  obtain ⟨noHead, someHead⟩ := httpParseResponse_eq (delivered trace)
  cases read : readHead (delivered trace) with
  | none =>
    rw [noHead read] at parses
    cases parses
  | some head =>
    obtain ⟨resp', parses', holds⟩ := someHead head read
    rw [parses'] at parses
    cases parses
    -- the body is no longer than the response
    have short : resp.bodyLen ≤ 2 ^ 30 := by
      have length := readHead_length read
      have body := readBody_length_le head.headers head.rest
      rw [holds.bodyLen]
      omega
    have some : ¬(delivered trace).length = 0 := by
      intro empty
      rw [readHead, if_pos (by omega)] at read
      cases read
    unfold Https.unrefused Https.requestWith
    rw [if_neg (by simpa using ready), receive_eq .roomy trace (by decide), all]
    dsimp only
    rw [if_neg some, parses']
    dsimp only
    have granted : Heap.roomy.grants (if resp.bodyLen > 0 then resp.bodyLen else 1) = true :=
      decide_eq_true (by split <;> omega)
    rw [if_pos granted]

section Document

variable {R : List UInt8} {resp : HttpResponse} {root : JsonValue}

/-- What a feed is made of is the whole document. -/
theorem MadeOf.whole {trace : List SslRead} {refused : Bool} {f : FeedOf PrivatePost}
    (made : MadeOf trace refused f) (carries : Carries R resp root)
    (sent : delivered trace <+: R) :
    resp.status = 200 ∧
    List.Forall₂ (PrivatePost.Copies refused) f.used
      ((Model.elementsAt root ["feed_items"]).filterMap Model.privateItem) ∧
    Copied refused f.cursor (Model.stringAt root ["next_max_id"]) := by
  obtain ⟨part, p, g, shorter, parsed, status, mapped, posts, cursor⟩ := made
  have shorter : part <+: R := shorter.trans sent
  rcases carries.privateFeed shorter parsed with null | ⟨g', mapped', feed⟩
  · rw [null] at mapped
    cases mapped
  · rw [mapped'] at mapped
    cases mapped
    rw [feed.posts] at posts
    rw [feed.nextMaxId] at cursor
    exact ⟨(carries.part shorter parsed).1.symm.trans status, posts, cursor⟩

/-- A response that arrives as a whole has its feed. -/
theorem timeline_whole {t : Template} {chance : Chance} {peer : Peer}
    (carries : Carries R resp root) (arrives : Arrives t chance peer R)
    (good : resp.status = 200) : (timeline t chance peer).isSome = true := by
  obtain ⟨body, built, ready⟩ := arrives.sent
  have reply := httpsRequest_whole ready (by rw [arrives.whole]; exact arrives.fits)
    (by rw [arrives.whole]; exact carries.parses)
  obtain ⟨y, document⟩ := carries.document
  obtain ⟨g, mapped, -⟩ := privateFeed_of_run document
  rw [timeline, built]
  dsimp only
  rw [Peer.reply, reply, feedOf, if_pos (by rw [good]), Option.bind_some, mapped]
  rfl

end Document

/-- A peer that sends a response with a document may fall silent after any part of it, and
any allocation may be refused: the call ends with nothing, or with the feed of the whole
document but for strings that could not be copied. If all of it came and nothing was
refused there is a feed. -/
theorem igFetchTimeline_wholeOrNothing (t : Template) (chance : Chance) (stack : Nat → UInt8)
    (peer : Peer) (R : List UInt8) (resp : HttpResponse) (root : JsonValue)
    (carries : Carries R resp root) (sent : delivered peer.trace <+: R) (w : World Kind) :
    ∃ o w' refused, igFetchTimeline t chance stack peer w = .ok o w' refused ∧
      w'.live = heldFeed o + w.live ∧ WholeOrNothing resp root refused o ∧
      (refused = false → Arrives t chance peer R → resp.status = 200 → o.isSome = true) := by
  obtain ⟨o, w', refused, runs, live, fetched, made⟩ :=
    (igFetchTimeline_spec t chance stack peer).run w
  refine ⟨o, w', refused, runs, live, fun f is_f => (made f is_f).whole carries sent, ?_⟩
  intro calm arrives good
  cases o with
  | some f => rfl
  | none =>
    have some := timeline_whole carries arrives good
    rw [fetched calm] at some
    cases some

/-- A session with one header and empty fields. -/
def smallTemplate : Template where
  host := literal "i.instagram.com"
  path := literal "/api/v1/feed/timeline/"
  statics := [(literal "Accept-Language", literal "en-US")]
  body := emptyBody
  small := by decide

/-- The posts of two users. -/
def twoPosts : List UInt8 := literal ("\x7b\"feed_items\":[" ++
  "\x7b\"media_or_ad\":\x7b\"user\":\x7b\"username\":\"a\"\x7d\x7d\x7d," ++
  "\x7b\"media_or_ad\":\x7b\"user\":\x7b\"username\":\"b\"\x7d\x7d\x7d]\x7d")

/-- The user names of the posts of a document that is an object. -/
def userNames (text : List UInt8) : Option (List (Option (List UInt8))) :=
  match jsonParse text with
  | .ok (.obj members) _ =>
    some (((Model.elementsAt (.obj members) ["feed_items"]).filterMap Model.privateItem).map
      (·.username))
  | _ => none

def twoResponse : List UInt8 :=
  literal "HTTP/1.1 200 OK\r\nContent-Length: 100\r\n\r\n" ++ twoPosts

/-- The connection breaks behind the first post. -/
def cutPeer : Peer :=
  ⟨true, true, ⟨0, 0, 0, 0, 0, 0, [], []⟩,
    [.data 0x48 ((twoResponse.drop 1).take 98), .result 0x4C]⟩

theorem igFetchTimeline_wholeOrNothing_two :
    ∃ resp root o w' refused,
      igFetchTimeline smallTemplate ⟨0, ⟨fun _ => 0, 0, 0, 0, 0, 0, 0⟩, 0, 0⟩
        (fun _ => 0) cutPeer plenty = .ok o w' refused ∧
      w'.live = heldFeed o + plenty.live ∧ WholeOrNothing resp root refused o ∧
      ((Model.elementsAt root ["feed_items"]).filterMap Model.privateItem).map (·.username) =
        [some (literal "a"), some (literal "b")] := by
  have body : (httpParseResponse twoResponse).map (·.bodyBytes) = some twoPosts := by
    decide +kernel
  obtain ⟨resp, parsed, body⟩ := Option.map_eq_some_iff.mp body
  have names : userNames twoPosts = some [some (literal "a"), some (literal "b")] := by
    decide +kernel
  unfold userNames at names
  split at names
  next members y run =>
    have carries : Carries twoResponse resp (.obj members) :=
      ⟨parsed, ⟨y, by rw [body]; exact run⟩, trivial⟩
    have part : delivered cutPeer.trace <+: twoResponse := ⟨twoResponse.drop 99, by decide +kernel⟩
    obtain ⟨o, w', refused, runs, live, whole, -⟩ := igFetchTimeline_wholeOrNothing smallTemplate
      ⟨0, ⟨fun _ => 0, 0, 0, 0, 0, 0, 0⟩, 0, 0⟩ (fun _ => 0) cutPeer twoResponse resp
      (.obj members) carries part plenty
    exact ⟨resp, _, o, w', refused, runs, live, whole, Option.some.inj names⟩
  next => cases names

end InstagramNt40.Client
