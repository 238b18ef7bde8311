import InstagramNt40.Core.HttpRequest
import InstagramNt40.Core.ModelCorrect
import InstagramNt40.Net.HttpsUrl

/-!
# The request for a photo

The URL of a photo on its way from the response through `https_split_url` into a request.
No step looks at its bytes, and a string of the response may hold any.
-/
namespace InstagramNt40.Https

open Crt Http Http1 Json Model Compact Url

/-- The request that `fetch_photo` sends for a URL, if it sends one. -/
def photoRequest (heap : Heap) (url : Option (List UInt8)) : Option (Returned (List UInt8)) :=
  url.bind fun url => (httpsSplitUrl url 128).map fun parts =>
    httpBuildRequest heap (some (literal "GET")) (some parts.1) (some parts.2) [] [] 0

/-- Bytes without CR and LF. -/
def LineText (s : List UInt8) : Prop := ∀ b ∈ s, b ≠ 0x0D ∧ b ≠ 0x0A

/-- One request line with two spaces, one `Host` line and the blank line. -/
def OneRequest (bytes : List UInt8) : Prop :=
  ∃ line host, LineText (line ++ host) ∧ line.count 0x20 = 2 ∧
    bytes = line ++ (Http1.crlf ++ (literal "Host: " ++ (host ++ (Http1.crlf ++ Http1.crlf))))

theorem LineText.count {s : List UInt8} (text : LineText s) :
    s.count 0x0D = 0 ∧ s.count 0x0A = 0 :=
  ⟨List.count_eq_zero.mpr fun hb => (text _ hb).1 rfl,
    List.count_eq_zero.mpr fun hb => (text _ hb).2 rfl⟩

theorem lineText_append {s t : List UInt8} : LineText (s ++ t) ↔ LineText s ∧ LineText t := by
  unfold LineText
  rw [List.forall_mem_append]

theorem lineText_of_count {s : List UInt8} (cr : s.count 0x0D = 0) (lf : s.count 0x0A = 0) :
    LineText s := by
  rw [List.count_eq_zero] at cr lf
  exact fun b hb => ⟨fun eq => cr (eq ▸ hb), fun eq => lf (eq ▸ hb)⟩

theorem lineText_of_all {s : List UInt8}
    (all : s.all (fun b => decide (b ≠ 0x0D ∧ b ≠ 0x0A)) = true) : LineText s :=
  List.all_iff_forall_prop.mp all

theorem crlf_count : Http1.crlf.count 0x0D = 1 ∧ Http1.crlf.count 0x0A = 1 := by decide

/-- The line ends of a request hold the only CR and LF bytes. -/
theorem OneRequest.count {bytes : List UInt8} (one : OneRequest bytes) :
    bytes.count 0x0D = 3 ∧ bytes.count 0x0A = 3 := by
  obtain ⟨line, host, plain, -, rfl⟩ := one
  obtain ⟨cr, lf⟩ := plain.count
  have name : (literal "Host: ").count 0x0D = 0 ∧ (literal "Host: ").count 0x0A = 0 := by decide
  rw [List.count_append] at cr lf
  simp only [List.count_append, crlf_count, name]
  omega

/-! ### What is sent -/

/-- The bytes of a request for a photo. -/
theorem photoRequest_bytes {heap : Heap} {host path bytes : List UInt8}
    (built : httpBuildRequest heap (some (literal "GET")) (some host) (some path) [] [] 0 =
      .value bytes) :
    bytes = literal "GET " ++ (path ++ literal " HTTP/1.1") ++
      (Http1.crlf ++ (literal "Host: " ++ (host ++ (Http1.crlf ++ Http1.crlf)))) := by
  have method : literal "GET " = literal "GET" ++ [0x20] := by decide
  have version : literal " HTTP/1.1" = 0x20 :: version11 := by decide
  have name : literal "Host: " = literal "Host" ++ [0x3A, 0x20] := by decide
  rw [httpBuildRequest_value built, method, version, name]
  simp [requestBytes, requestText, requestFields, headerLine]

/-- The part of a URL behind its authority: from the third slash on. -/
def pathPart (url : List UInt8) : List UInt8 :=
  ((url.dropWhile (· != 0x2F)).drop 2).dropWhile (· != 0x2F)

/-- Host and path are cut out of the URL, or the path is a slash. -/
theorem httpsSplitUrl_parts {url host path : List UInt8} {hostCap : Int}
    (plain : ∀ b ∈ url, b ≠ 0) (split : httpsSplitUrl url hostCap = some (host, path)) :
    ∃ scheme : Scheme, url = scheme.text ++ (host ++ pathPart url) ∧
      path = if pathPart url = [] then [0x2F] else pathPart url := by
  obtain ⟨scheme, rest, rfl⟩ := scheme_of_httpsSplitUrl split
  have behind : pathPart (scheme.text ++ rest) = rest.dropWhile (· != 0x2F) := by
    cases scheme <;> rfl
  have cut : upToSlash rest ++ rest.dropWhile (· != 0x2F) = rest :=
    List.takeWhile_append_dropWhile
  have dropped : rest.drop (upToSlash rest).length = rest.dropWhile (· != 0x2F) := by
    calc
      rest.drop (upToSlash rest).length =
          (upToSlash rest ++ rest.dropWhile (· != 0x2F)).drop (upToSlash rest).length := by
        rw [cut]
      _ = rest.dropWhile (· != 0x2F) := List.drop_left
  have slash : 0x2F ∈ rest ↔ rest.dropWhile (· != 0x2F) ≠ [] := by
    rw [Ne, List.dropWhile_eq_nil_iff]
    simp
  rw [httpsSplitUrl_scheme scheme rest hostCap fun b hb => plain b (List.mem_append_right _ hb),
    dropped] at split
  split_ifs at split with refused inside
  · cases split
    rw [behind, cut, if_neg (slash.mp inside)]
    exact ⟨scheme, rfl, rfl⟩
  · cases split
    rw [behind, cut, if_pos (not_not.mp fun some => inside (slash.mpr some))]
    exact ⟨scheme, rfl, rfl⟩

/-- The URL of a post is a C string. -/
theorem imageUrl_plain {text url : List UInt8} {feed : PrivateFeed} {post : PrivatePost}
    (parsed : feedFromPrivateJson text = .value feed) (member : post ∈ feed.posts.cells)
    (image : post.imageUrl = some url) : ∀ b ∈ url, b ≠ 0 := by
  have text_plain {v : JsonValue} {s : List UInt8} (string : v.text = some s) :
      ∀ b ∈ s, b ≠ 0 := by
    cases v <;> cases string
    exact cstr_plain _ _
  have stringAt_plain {v : JsonValue} {path : List String} {s : List UInt8}
      (string : stringAt v path = some s) : ∀ b ∈ s, b ≠ 0 := by
    obtain ⟨w, -, string⟩ := Option.bind_eq_some_iff.mp string
    exact text_plain string
  have imageOf_plain {v : JsonValue} {s : List UInt8} (string : imageOf v = some s) :
      ∀ b ∈ s, b ≠ 0 := by
    obtain ⟨w, -, string⟩ := Option.bind_eq_some_iff.mp string
    exact stringAt_plain string
  have root : ∃ v y, jsonParse text = .ok v y := by
    rcases jsonParse_returns text with null | found
    · rw [feedFromPrivateJson, null] at parsed
      cases parsed
    · exact found
  obtain ⟨v, y, run⟩ := root
  obtain ⟨f, mapped, holds, -⟩ := feedFromPrivateJson_feed run
  rw [mapped] at parsed
  cases parsed
  rw [holds.cells] at member
  rcases List.mem_append.mp member with item | clear
  · obtain ⟨item, -, kept⟩ := List.mem_filterMap.mp item
    obtain ⟨m, -, rfl⟩ := Option.map_eq_some_iff.mp kept
    unfold privatePostOf at image
    dsimp only at image
    split_ifs at image
    · exact imageOf_plain image
    · obtain ⟨slide, -, image⟩ := Option.bind_eq_some_iff.mp image
      exact imageOf_plain image
  · -- a cell that is not in use has no URL
    rw [List.eq_of_mem_replicate clear] at image
    cases image

theorem url_lineText {scheme : Scheme} {s : List UInt8} :
    LineText (scheme.text ++ s) ↔ LineText s := by
  have plain : LineText scheme.text := lineText_of_all (by cases scheme <;> decide)
  rw [lineText_append]
  exact and_iff_right plain

/-- The bytes of a request for a photo are one request if host and path are plain. -/
theorem oneRequest_iff (host path : List UInt8) :
    OneRequest (literal "GET " ++ (path ++ literal " HTTP/1.1") ++
        (Http1.crlf ++ (literal "Host: " ++ (host ++ (Http1.crlf ++ Http1.crlf))))) ↔
      LineText (host ++ path) ∧ path.count 0x20 = 0 := by
  have method : LineText (literal "GET ") ∧ (literal "GET ").count 0x20 = 1 :=
    ⟨lineText_of_all (by decide), by decide⟩
  have version : LineText (literal " HTTP/1.1") ∧ (literal " HTTP/1.1").count 0x20 = 1 :=
    ⟨lineText_of_all (by decide), by decide⟩
  have spaces : (literal "GET " ++ (path ++ literal " HTTP/1.1")).count 0x20 =
      path.count 0x20 + 2 := by
    rw [List.count_append, List.count_append, method.2, version.2]
    omega
  constructor
  · intro one
    obtain ⟨cr, lf⟩ := one.count
    have name : LineText (literal "Host: ") := lineText_of_all (by decide)
    simp only [List.count_append, crlf_count, name.count, method.1.count, version.1.count] at cr lf
    have plain : LineText (host ++ path) := by
      apply lineText_of_count <;> rw [List.count_append] <;> omega
    refine ⟨plain, ?_⟩
    have requestLine : LineText (literal "GET " ++ (path ++ literal " HTTP/1.1")) :=
      lineText_append.mpr ⟨method.1, lineText_append.mpr ⟨(lineText_append.mp plain).2, version.1⟩⟩
    -- the request line ends at the first CR
    obtain ⟨line, host', text, two, same⟩ := one
    have lines : line = literal "GET " ++ (path ++ literal " HTTP/1.1") :=
      line_unique (fun b hb => (text b (List.mem_append_left _ hb)).1)
        (fun b hb => (requestLine b hb).1) same.symm
    rw [lines, spaces] at two
    omega
  · rintro ⟨plain, none⟩
    refine ⟨literal "GET " ++ (path ++ literal " HTTP/1.1"), host, ?_, by rw [spaces, none], rfl⟩
    rw [lineText_append] at plain
    simp only [lineText_append]
    exact ⟨⟨method.1, plain.2, version.1⟩, plain.1⟩

/-- The request for a photo is one request exactly if its URL has no CR and LF, and no space
behind the authority. -/
theorem photoRequest_iff {text url bytes : List UInt8} {feed : PrivateFeed} {post : PrivatePost}
    {heap : Heap} (parsed : feedFromPrivateJson text = .value feed)
    (member : post ∈ feed.posts.cells) (image : post.imageUrl = some url)
    (sent : photoRequest heap post.imageUrl = some (.value bytes)) :
    OneRequest bytes ↔ (∀ b ∈ url, b ≠ 0x0D ∧ b ≠ 0x0A) ∧ ∀ b ∈ pathPart url, b ≠ 0x20 := by
  have plain := imageUrl_plain parsed member image
  rw [image, photoRequest, Option.bind_some] at sent
  obtain ⟨⟨host, path⟩, split, built⟩ := Option.map_eq_some_iff.mp sent
  obtain ⟨scheme, whole, target⟩ := httpsSplitUrl_parts plain split
  have text : LineText url ↔ LineText (host ++ pathPart url) := by
    conv_lhs => rw [whole]
    exact url_lineText
  rw [photoRequest_bytes built, oneRequest_iff]
  change LineText (host ++ path) ∧ path.count 0x20 = 0 ↔
    LineText url ∧ ∀ b ∈ pathPart url, b ≠ 0x20
  rw [text, target, List.count_eq_zero]
  split_ifs with empty
  · -- the path is a slash
    rw [empty, lineText_append, lineText_append]
    have slash : LineText [0x2F] ∧ LineText [] :=
      ⟨lineText_of_all (by decide), lineText_of_all (by decide)⟩
    simp [slash]
  · rw [and_congr_right_iff]
    intro _
    exact ⟨fun none b hb eq => none (eq ▸ hb), fun none hb => none _ hb rfl⟩

theorem photoRequest_iff_plain :
    OneRequest (literal "GET /x HTTP/1.1\r\nHost: h\r\n\r\n") ↔
      (∀ b ∈ literal "https://h/x", b ≠ 0x0D ∧ b ≠ 0x0A) ∧
        ∀ b ∈ pathPart (literal "https://h/x"), b ≠ 0x20 :=
  @photoRequest_iff
    (literal ("\x7b\"feed_items\":[\x7b\"media_or_ad\":\x7b\"image_versions2\":" ++
      "\x7b\"candidates\":[\x7b\"url\":\"https://h/x\"\x7d]\x7d\x7d\x7d]\x7d"))
    (literal "https://h/x") _ ⟨⟨[{ imageUrl := some (literal "https://h/x") }], 1⟩, none⟩
    { imageUrl := some (literal "https://h/x") } Heap.roomy
    (by decide +kernel) (by decide +kernel) rfl (by decide +kernel)

/-- A URL with an escaped line end in its path puts a line of its own into the request. -/
theorem not_oneRequest :
    feedFromPrivateJson (literal ("\x7b\"feed_items\":[\x7b\"media_or_ad\":" ++
        "\x7b\"image_versions2\":\x7b\"candidates\":[\x7b\"url\":" ++
        "\"https://h/\\r\\nX: y\"\x7d]\x7d\x7d\x7d]\x7d")) =
      .value ⟨⟨[{ imageUrl := some (literal "https://h/\r\nX: y") }], 1⟩, none⟩ ∧
    photoRequest Heap.roomy (some (literal "https://h/\r\nX: y")) =
      some (.value (literal "GET /\r\nX: y HTTP/1.1\r\nHost: h\r\n\r\n")) ∧
    ¬OneRequest (literal "GET /\r\nX: y HTTP/1.1\r\nHost: h\r\n\r\n") := by
  refine ⟨by decide +kernel, by decide +kernel, ?_⟩
  intro one
  have count := one.count.1
  revert count
  decide

end InstagramNt40.Https
