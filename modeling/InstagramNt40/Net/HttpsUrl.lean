import InstagramNt40.Library.Url
import InstagramNt40.Pal.Crt
import Mathlib.Data.Bool.AllAny

/-!
# https_split_url

The host and the path of a URL. A string of 2 GiB or more does not fit the address
space, so that the casts to `int` keep the lengths.
-/
namespace InstagramNt40.Https

open Crt Url

/-- The host and the path from `p` on, behind the scheme. -/
def splitFrom (mem : List UInt8) (p : Nat) (hostCap : Int) :
    Option (List UInt8 × List UInt8) :=
  let slash := strchr mem p 0x2F
  let hlen : Int :=
    match slash with
    | some q => (q : Int) - p
    | none => (cstr mem p).length
  if hlen ≤ 0 ∨ hlen ≥ hostCap then none
  else
    -- the path is the rest of the url, or the literal
    some ((mem.drop p).take hlen.toNat,
      match slash with
      | some q => cstr mem q
      | none => literal "/")

/-- `https_split_url`: the strings in `host` and at `*path_out`; `none` is the result -1. -/
def httpsSplitUrl (url : List UInt8) (hostCap : Int) : Option (List UInt8 × List UInt8) :=
  let mem := url ++ [0]
  if strncmp mem (literal "https://") 8 = 0 then splitFrom mem 8 hostCap
  else if strncmp mem (literal "http://") 7 = 0 then splitFrom mem 7 hostCap
  else none -- not an absolute http(s) URL

/-! ### The cut at the first slash -/

/-- The text up to the first slash. -/
def upToSlash (s : List UInt8) : List UInt8 := s.takeWhile (· != 0x2F)

theorem upToSlash_append {s t : List UInt8} (free : ∀ b ∈ s, b ≠ 0x2F) :
    upToSlash (s ++ t) = s ++ upToSlash t :=
  List.takeWhile_append_of_pos fun b hb => by simpa using free b hb

theorem upToSlash_self {s : List UInt8} (free : ∀ b ∈ s, b ≠ 0x2F) : upToSlash s = s := by
  simpa [upToSlash] using upToSlash_append (t := []) free

/-- Behind the scheme the host ends at the first slash, and the path starts there. -/
theorem splitFrom_eq (scheme rest : List UInt8) (hostCap : Int) (plain : ∀ b ∈ rest, b ≠ 0) :
    splitFrom (scheme ++ (rest ++ [0])) scheme.length hostCap =
      if upToSlash rest = [] ∨ hostCap ≤ (upToSlash rest).length then none
      else some (upToSlash rest,
        if 0x2F ∈ rest then rest.drop (upToSlash rest).length else [0x2F]) := by
  have refused (host : List UInt8) :
      (host.length : Int) ≤ 0 ∨ (host.length : Int) ≥ hostCap ↔
        host = [] ∨ hostCap ≤ host.length := by
    rw [← List.length_eq_zero_iff]
    omega
  by_cases slash : 0x2F ∈ rest
  · obtain ⟨host, path, rfl, free⟩ := List.eq_append_cons_of_mem slash
    have free : ∀ b ∈ host, b ≠ 0x2F := fun b hb eq => free (eq ▸ hb)
    have cut : upToSlash (host ++ 0x2F :: path) = host := by
      rw [upToSlash_append free]
      simp [upToSlash]
    have found := strchr_found scheme (path ++ [0]) fun b hb => ⟨plain b (by simp [hb]), free b hb⟩
    have tail : PointsTo (scheme ++ (host ++ 0x2F :: (path ++ [0]))) (scheme.length + host.length)
        (0x2F :: path) :=
      ⟨scheme ++ host, [], by simp, by simp, fun b hb => plain b (List.mem_append_right host hb)⟩
    rw [List.append_assoc, List.cons_append]
    unfold splitFrom
    dsimp only
    rw [found, cut, if_pos slash]
    dsimp only
    have length : ((scheme.length + host.length : Nat) : Int) - scheme.length = host.length := by
      omega
    simp only [length, tail.cstr, List.drop_left, Int.toNat_natCast, List.take_left, refused]
  · have free : ∀ b ∈ rest, b ≠ 0x2F := fun b hb eq => slash (eq ▸ hb)
    have none := strchr_none scheme [] (by decide) fun b hb => ⟨plain b hb, free b hb⟩
    have all : PointsTo (scheme ++ (rest ++ [0])) scheme.length rest :=
      ⟨scheme, [], rfl, rfl, plain⟩
    unfold splitFrom
    dsimp only
    rw [none, upToSlash_self free, if_neg slash]
    dsimp only
    simp only [all.cstr, List.drop_left, Int.toNat_natCast, List.take_left, refused]
    rfl

theorem strncmp_scheme (scheme : Scheme) (url : List UInt8) :
    strncmp (url ++ [0]) scheme.text scheme.text.length = 0 ↔ scheme.text <+: url := by
  have plain : ∀ b ∈ scheme.text, b ≠ 0 :=
    List.all_iff_forall_prop.mp (by cases scheme <;> decide)
  rw [strncmp_literal_iff plain, List.prefix_concat_iff]
  constructor
  · rintro (all | starts)
    · exact absurd rfl (plain 0 (by simp [all]))
    · exact starts
  · exact Or.inr

/-- A URL is cut behind its scheme. -/
theorem httpsSplitUrl_eq (url : List UInt8) (hostCap : Int) :
    httpsSplitUrl url hostCap =
      if Scheme.https.text <+: url then splitFrom (url ++ [0]) Scheme.https.text.length hostCap
      else if Scheme.http.text <+: url then
        splitFrom (url ++ [0]) Scheme.http.text.length hostCap
      else none := by
  simp only [← strncmp_scheme]
  rfl

/-- The schemes do not start each other. -/
theorem scheme_prefix {scheme scheme' : Scheme} {rest : List UInt8}
    (starts : scheme.text <+: scheme'.text ++ rest) : scheme = scheme' := by
  obtain ⟨tail, eq⟩ := starts
  cases scheme <;> cases scheme' <;> simp [Scheme.text] at eq <;> rfl

theorem httpsSplitUrl_scheme (scheme : Scheme) (rest : List UInt8) (hostCap : Int)
    (plain : ∀ b ∈ rest, b ≠ 0) :
    httpsSplitUrl (scheme.text ++ rest) hostCap =
      if upToSlash rest = [] ∨ hostCap ≤ (upToSlash rest).length then none
      else some (upToSlash rest,
        if 0x2F ∈ rest then rest.drop (upToSlash rest).length else [0x2F]) := by
  rw [← splitFrom_eq scheme.text rest hostCap plain, ← List.append_assoc, httpsSplitUrl_eq]
  cases scheme with
  | https => exact if_pos (List.prefix_append _ _)
  | http =>
    rw [if_neg fun starts => by cases scheme_prefix starts]
    exact if_pos (List.prefix_append _ _)

/-- What is accepted starts with a scheme. -/
theorem scheme_of_httpsSplitUrl {url : List UInt8} {hostCap : Int}
    {parts : List UInt8 × List UInt8} (accepted : httpsSplitUrl url hostCap = some parts) :
    ∃ (scheme : Scheme) (rest : List UInt8), url = scheme.text ++ rest := by
  rw [httpsSplitUrl_eq] at accepted
  split_ifs at accepted with https http
  · obtain ⟨rest, eq⟩ := https
    exact ⟨.https, rest, eq.symm⟩
  · obtain ⟨rest, eq⟩ := http
    exact ⟨.http, rest, eq.symm⟩

/-! ### URLs -/

/-- The host and the path of a URL are what its parts say. -/
def SplitsAt (u : Url) (hostCap : Int) : Prop :=
  (httpsSplitUrl u.text hostCap = none ↔ u.authority = [] ∨ hostCap ≤ u.authority.length) ∧
    ∀ host path, httpsSplitUrl u.text hostCap = some (host, path) →
      host = u.authority ∧ path = u.target

theorem splitsAt_iff {u : Url} {hostCap : Int} :
    SplitsAt u hostCap ↔ httpsSplitUrl u.text hostCap =
      if u.authority = [] ∨ hostCap ≤ u.authority.length then none
      else some (u.authority, u.target) := by
  unfold SplitsAt
  constructor
  · rintro ⟨refused, parts⟩
    split_ifs with bad
    · exact refused.mpr bad
    · obtain ⟨⟨host, path⟩, accepted⟩ := Option.ne_none_iff_exists'.mp fun none =>
        bad (refused.mp none)
      obtain ⟨rfl, rfl⟩ := parts host path accepted
      exact accepted
  · intro split
    rw [split]
    constructor
    · rw [ite_eq_left_iff]
      simp only [reduceCtorEq, imp_false, not_not]
    · intro host path accepted
      split_ifs at accepted
      cases accepted
      exact ⟨rfl, rfl⟩

theorem authority_noSlash (u : Url) : ∀ b ∈ u.authority, b ≠ 0x2F :=
  fun b hb => (u.authority_plain b hb).2.1

/-- A path ends the authority. -/
theorem splitsAt_path {u : Url} (hostCap : Int) (path : u.path ≠ []) : SplitsAt u hostCap := by
  obtain ⟨b, tail, cons⟩ := List.exists_cons_of_ne_nil path
  obtain rfl : b = 0x2F := u.path_start b (by simp [cons])
  have host : upToSlash u.hierarchy = u.authority := by
    unfold Url.hierarchy
    rw [upToSlash_append (authority_noSlash u), cons]
    simp [upToSlash]
  have slash : 0x2F ∈ u.hierarchy := by simp [Url.hierarchy, cons]
  have rest : u.hierarchy.drop u.authority.length = u.target := by
    unfold Url.hierarchy Url.target
    rw [List.drop_left, if_neg path]
  rw [splitsAt_iff, Url.text, httpsSplitUrl_scheme u.scheme u.hierarchy hostCap u.hierarchy_plain,
    host, if_pos slash, rest]

/-- So does the end of the URL. -/
theorem splitsAt_end {u : Url} (hostCap : Int) (path : u.path = []) (query : u.query = none) :
    SplitsAt u hostCap := by
  have all : u.hierarchy = u.authority := by simp [Url.hierarchy, Url.queryText, path, query]
  have root : u.target = [0x2F] := by simp [Url.target, Url.queryText, path, query]
  have slash : 0x2F ∉ u.authority := fun member => authority_noSlash u _ member rfl
  rw [splitsAt_iff, Url.text, httpsSplitUrl_scheme u.scheme u.hierarchy hostCap u.hierarchy_plain,
    all, upToSlash_self (authority_noSlash u), if_neg slash, root]

/-- A query does not: a host that is accepted has a part of it. -/
theorem splitsAt_query {u : Url} {q : List UInt8} (hostCap : Int) (path : u.path = [])
    (query : u.query = some q) :
    SplitsAt u hostCap ↔ hostCap ≤ u.authority.length ∨
      (u.authority = [] ∧ hostCap ≤ (upToSlash u.queryText).length) := by
  have host : upToSlash u.hierarchy = u.authority ++ upToSlash u.queryText := by
    unfold Url.hierarchy
    rw [upToSlash_append (authority_noSlash u), path, List.nil_append]
  have mark : upToSlash u.queryText ≠ [] := by simp [Url.queryText, query, upToSlash]
  have longer := List.length_pos_iff.mpr mark
  have nonempty : u.authority ++ upToSlash u.queryText ≠ [] := by simp [mark]
  rw [splitsAt_iff, Url.text, httpsSplitUrl_scheme u.scheme u.hierarchy hostCap u.hierarchy_plain,
    host, List.length_append]
  by_cases fits : hostCap ≤ ((u.authority.length + (upToSlash u.queryText).length : Nat) : Int)
  · rw [if_pos (Or.inr fits), eq_comm, ite_eq_left_iff]
    simp only [reduceCtorEq, imp_false, not_not]
    constructor
    · rintro (empty | short)
      · rw [empty, List.length_nil, Nat.zero_add] at fits
        exact Or.inr ⟨empty, fits⟩
      · exact Or.inl short
    · rintro (short | ⟨empty, -⟩)
      · exact Or.inr short
      · exact Or.inl empty
  · have wrong : u.authority ++ upToSlash u.queryText ≠ u.authority := by simp [mark]
    rw [if_neg (not_or.mpr ⟨nonempty, fits⟩)]
    constructor
    · intro split
      split_ifs at split
      all_goals exact absurd (congrArg Prod.fst (Option.some.inj split)) wrong
    · rintro (short | ⟨empty, short⟩)
      · omega
      · rw [empty, List.length_nil] at fits
        omega

/-- A URL is split as it should be, unless its query follows the authority directly: then
the query is taken for a part of the host, up to its first slash. -/
theorem httpsSplitUrl_iff (u : Url) (hostCap : Int) :
    SplitsAt u hostCap ↔ u.path ≠ [] ∨ u.query = none ∨ hostCap ≤ u.authority.length ∨
      (u.authority = [] ∧ hostCap ≤ (upToSlash u.queryText).length) := by
  by_cases path : u.path = []
  · cases query : u.query with
    | none => simp [splitsAt_end hostCap path query]
    | some q => simp [splitsAt_query hostCap path query, path]
  · simp [splitsAt_path hostCap path, path]

/-- `https://h?q` -/
def queryUrl : Url where
  scheme := .https
  authority := literal "h"
  path := []
  query := some (literal "q")
  authority_plain := List.all_iff_forall_prop.mp (by decide)
  path_start := nofun
  path_plain := List.forall_mem_nil _
  query_plain := by
    rintro q ⟨⟩
    exact List.all_iff_forall_prop.mp (by decide)

/-- It is split into the host `h?q` and the path `/`. -/
theorem httpsSplitUrl_query : queryUrl.text = literal "https://h?q" ∧
    httpsSplitUrl queryUrl.text 128 = some (literal "h?q", literal "/") ∧
      ¬SplitsAt queryUrl 128 := by
  refine ⟨by decide, by decide, ?_⟩
  rw [splitsAt_query (q := literal "q") 128 rfl rfl]
  decide

end InstagramNt40.Https
