import Mathlib.Data.List.TakeWhile

/-!
# URLs

`scheme://authority[/path][?query]` for the schemes of HTTP, over bytes.
-/
namespace Url

inductive Scheme where
  | http
  | https
  deriving DecidableEq, Repr

/-- The scheme with the `://` after it. -/
def Scheme.text : Scheme → List UInt8
  | http => [0x68, 0x74, 0x74, 0x70, 0x3A, 0x2F, 0x2F]
  | https => [0x68, 0x74, 0x74, 0x70, 0x73, 0x3A, 0x2F, 0x2F]

end Url

/-- A URL by its parts. A path that is not empty starts with a slash. -/
structure Url where
  scheme : Url.Scheme
  authority : List UInt8
  path : List UInt8
  query : Option (List UInt8)
  authority_plain : ∀ b ∈ authority, b ≠ 0 ∧ b ≠ 0x2F ∧ b ≠ 0x3F ∧ b ≠ 0x23
  path_start : ∀ b ∈ path.head?, b = 0x2F
  path_plain : ∀ b ∈ path, b ≠ 0 ∧ b ≠ 0x3F ∧ b ≠ 0x23
  query_plain : ∀ q ∈ query, ∀ b ∈ q, b ≠ 0 ∧ b ≠ 0x23

namespace Url

variable (u : Url)

/-- The query with its question mark. -/
def queryText : List UInt8 :=
  match u.query with
  | none => []
  | some q => 0x3F :: q

/-- What follows the scheme. -/
def hierarchy : List UInt8 := u.authority ++ (u.path ++ u.queryText)

def text : List UInt8 := u.scheme.text ++ u.hierarchy

/-- The target of a request for the URL: the path, or `/` for an empty one, and the query. -/
def target : List UInt8 := (if u.path = [] then [0x2F] else u.path) ++ u.queryText

theorem queryText_plain : ∀ b ∈ u.queryText, b ≠ 0 := by
  intro b hb
  unfold queryText at hb
  cases query : u.query with
  | none => simp [query] at hb
  | some q =>
    rw [query] at hb
    rcases List.mem_cons.mp hb with rfl | hb
    · decide
    · exact (u.query_plain q query b hb).1

theorem hierarchy_plain : ∀ b ∈ u.hierarchy, b ≠ 0 := by
  intro b hb
  unfold hierarchy at hb
  rcases List.mem_append.mp hb with hb | hb
  · exact (u.authority_plain b hb).1
  · rcases List.mem_append.mp hb with hb | hb
    · exact (u.path_plain b hb).1
    · exact u.queryText_plain b hb

end Url
