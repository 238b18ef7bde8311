import InstagramNt40.Core.HttpPrefix
import InstagramNt40.Core.JsonCut
import InstagramNt40.Core.ModelCorrect

/-!
# Parts of a response

A response that is cut may still parse, with a body that is cut. If the body is a JSON
document whose value is an array or an object then no feed is made of a part of it: a
mapper returns NULL or the feed of the whole document.
-/
namespace InstagramNt40.Http

open Json Model

/-- A response with a document for its body. -/
structure Carries (R : List UInt8) (resp : HttpResponse) (root : JsonValue) : Prop where
  parses : httpParseResponse R = some resp
  document : ∃ y, jsonParse resp.bodyBytes = .ok root y
  container : root.IsContainer

/-- The posts of a document in an array for all of them, and the position behind them. -/
structure PrivateFeedOf (root : JsonValue) (f : PrivateFeed) : Prop where
  posts : f.posts.used = (elementsAt root ["feed_items"]).filterMap privateItem
  nextMaxId : f.nextMaxId = stringAt root ["next_max_id"]

structure GraphFeedOf (root : JsonValue) (f : Model.Feed) : Prop where
  posts : f.posts.used = (elementsAt root ["data"]).filterMap graphItem
  nextCursor : f.nextCursor = stringAt root ["paging", "cursors", "after"]

theorem privateFeed_of_run {text : List UInt8} {root : JsonValue} {y : Scanner.Cursor}
    (run : jsonParse text = .ok root y) :
    ∃ f, feedFromPrivateJson text = .value f ∧ PrivateFeedOf root f := by
  obtain ⟨f, feed, holds, next⟩ := feedFromPrivateJson_feed run
  exact ⟨f, feed, holds.used, next⟩

theorem graphFeed_of_run {text : List UInt8} {root : JsonValue} {y : Scanner.Cursor}
    (run : jsonParse text = .ok root y) :
    ∃ f, feedFromGraphJson text = .value f ∧ GraphFeedOf root f := by
  obtain ⟨f, feed, holds, next⟩ := feedFromGraphJson_feed run
  exact ⟨f, feed, holds.used, next⟩

/-- What parses of a part has the status of the whole, and a part of its body. -/
theorem part_of_response {P R : List UInt8} (shorter : P <+: R) {p r : HttpResponse}
    (parsed : httpParseResponse P = some p) (whole : httpParseResponse R = some r) :
    p.status = r.status ∧ p.bodyBytes <+: r.bodyBytes := by
  obtain ⟨more, rfl⟩ := shorter
  obtain ⟨none, some⟩ := httpParseResponse_eq P
  cases read : readHead P with
  | none =>
    rw [none read] at parsed
    cases parsed
  | some head =>
    obtain ⟨p', parsed', holds⟩ := some head read
    rw [parsed'] at parsed
    cases parsed
    obtain ⟨r', whole', holds'⟩ := (httpParseResponse_eq (P ++ more)).2 _ (readHead_append read more)
    rw [whole'] at whole
    cases whole
    refine ⟨holds.status.trans holds'.status.symm, ?_⟩
    rw [holds.body, holds'.body]
    exact readBody_prefix _ _ _

/-- A body is no longer than what it is read of. -/
theorem readBody_length_le (headers : List (List UInt8 × List UInt8)) (rest : List UInt8) :
    (readBody headers rest).length ≤ rest.length := by
  unfold readBody
  split
  · exact dechunkBytes_length_le rest
  · split
    · exact (List.take_prefix _ rest).length_le
    · exact Nat.le_refl _

section Part

variable {P R : List UInt8} {p resp : HttpResponse} {root : JsonValue}

/-- The body of a part is the whole document or none. -/
theorem Carries.part (carries : Carries R resp root) (shorter : P <+: R)
    (parsed : httpParseResponse P = some p) :
    p.status = resp.status ∧ ∀ v y, jsonParse p.bodyBytes = .ok v y → v = root := by
  obtain ⟨y, document⟩ := carries.document
  obtain ⟨status, body⟩ := part_of_response shorter parsed carries.parses
  exact ⟨status, fun v y' run => same_of_run document carries.container body run⟩

theorem Carries.privateFeed (carries : Carries R resp root) (shorter : P <+: R)
    (parsed : httpParseResponse P = some p) :
    feedFromPrivateJson p.bodyBytes = .null ∨
      ∃ f, feedFromPrivateJson p.bodyBytes = .value f ∧ PrivateFeedOf root f := by
  rcases jsonParse_returns p.bodyBytes with null | ⟨v, y, run⟩
  · left
    rw [feedFromPrivateJson, null]
  · right
    rw [← (carries.part shorter parsed).2 v y run]
    exact privateFeed_of_run run

theorem Carries.graphFeed (carries : Carries R resp root) (shorter : P <+: R)
    (parsed : httpParseResponse P = some p) :
    feedFromGraphJson p.bodyBytes = .null ∨
      ∃ f, feedFromGraphJson p.bodyBytes = .value f ∧ GraphFeedOf root f := by
  rcases jsonParse_returns p.bodyBytes with null | ⟨v, y, run⟩
  · left
    rw [feedFromGraphJson, null]
  · right
    rw [← (carries.part shorter parsed).2 v y run]
    exact graphFeed_of_run run

end Part

end InstagramNt40.Http
