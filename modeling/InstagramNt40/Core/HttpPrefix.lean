import InstagramNt40.Core.HttpView

/-!
# Parsing a prefix of a response

Whatever the parser reads of a prefix it also reads of the whole: the head is the
same, and the body of the prefix is a prefix of the body.
-/
namespace InstagramNt40.Http

theorem splitLine_append {s line r : List UInt8} (h : splitLine s = some (line, r))
    (more : List UInt8) : splitLine (s ++ more) = some (line, r ++ more) := by
  fun_induction splitLine s generalizing line with
  | case1 => cases h
  | case2 => cases h
  | case3 b s notNul found =>
    cases h
    obtain ⟨rfl, hs⟩ := found
    obtain ⟨t, rfl⟩ := List.head?_eq_some_iff.mp hs
    simp [splitLine]
  | case4 b s notNul other ih =>
    obtain ⟨⟨line', r'⟩, found, eq⟩ := Option.map_eq_some_iff.mp h
    cases eq
    -- a line end cannot appear here with more bytes, as one was found later on
    have still : ¬(b = 0x0D ∧ (s ++ more).head? = some 0x0A) := by
      rintro ⟨rfl, hs⟩
      cases s with
      | nil => cases found
      | cons c s => exact other ⟨rfl, hs⟩
    rw [List.cons_append, splitLine, if_neg notNul, if_neg still, ih found]
    rfl

theorem readHeaders_append {s body : List UInt8} {headers : List (List UInt8 × List UInt8)}
    (h : readHeaders s = some (headers, body)) (more : List UInt8) :
    readHeaders (s ++ more) = some (headers, body ++ more) := by
  apply readHeaders_induction (motive := fun s headers body =>
    readHeaders (s ++ more) = some (headers, body ++ more)) _ _ h
  · intro s r split
    exact readHeaders_blank (splitLine_append split more)
  · intro s line r headers body split some ih
    rw [readHeaders_line (splitLine_append split more) some, ih]
    rfl

theorem readHead_append {data : List UInt8} {head : HeadRead} (h : readHead data = some head)
    (more : List UInt8) :
    readHead (data ++ more) = some { head with rest := head.rest ++ more } := by
  unfold readHead at h ⊢
  by_cases short : data.length < 12
  · rw [if_pos short] at h
    cases h
  rw [if_neg short] at h
  rw [if_neg (by rw [List.length_append]; omega)]
  cases split : splitLine data with
  | none =>
    rw [split] at h
    cases h
  | some l =>
    obtain ⟨line, r⟩ := l
    rw [split] at h
    rw [splitLine_append split more]
    dsimp only at h ⊢
    cases status : readStatus line with
    | none =>
      rw [status] at h
      cases h
    | some found =>
      rw [status] at h
      obtain ⟨⟨headers, body⟩, read, eq⟩ := Option.map_eq_some_iff.mp h
      cases eq
      dsimp only
      rw [readHeaders_append read more]
      rfl

/-- A chunk-size line that is there as a whole stays the same. -/
theorem afterSize_append {s : List UInt8} (some : afterSize s ≠ []) (more : List UInt8) :
    chunkLength (s ++ more) = chunkLength s ∧ afterSize (s ++ more) = afterSize s ++ more := by
  -- the LF is there, so neither the digits nor the line run to the end
  have line : (s.dropWhile isSizeDigit).dropWhile (· != 0x0A) ≠ [] := by
    intro empty
    exact some (by rw [afterSize, empty, List.drop_nil])
  have digits : s.dropWhile isSizeDigit ≠ [] := by
    intro empty
    exact line (by rw [empty, List.dropWhile_nil])
  have partial_ : (s.takeWhile isSizeDigit).length ≠ s.length := by
    have whole := congrArg List.length (List.takeWhile_append_dropWhile (p := isSizeDigit) (l := s))
    rw [List.length_append] at whole
    have := List.length_pos_iff.mpr digits
    omega
  obtain ⟨c, r, eq⟩ := List.exists_cons_of_ne_nil line
  constructor
  · unfold chunkLength
    rw [List.takeWhile_append, if_neg partial_]
  · unfold afterSize
    rw [List.dropWhile_append, if_neg (by simpa using digits), List.dropWhile_append,
      if_neg (by simpa using line), eq]
    rfl

/-- The chunk decoder on a prefix: it never yields bytes that the whole does not. -/
theorem dechunkBytes_prefix (s more : List UInt8) :
    dechunkBytes s <+: dechunkBytes (s ++ more) := by
  induction size : s.length using Nat.strong_induction_on generalizing s with
  | _ n ih =>
    subst size
    by_cases empty : s = []
    · rw [empty, dechunkBytes_nil]
      exact List.nil_prefix
    by_cases last : chunkLength s ≤ 0
    · rw [dechunkBytes_last last]
      exact List.nil_prefix
    rw [dechunkBytes_chunk empty last]
    by_cases cut : afterSize s = []
    · -- the input ends inside the chunk-size line
      rw [cut, List.take_nil, List.drop_nil, List.dropWhile_nil, dechunkBytes_nil]
      exact List.nil_prefix
    obtain ⟨same, after⟩ := afterSize_append cut more
    have whole := dechunkBytes_chunk (s := s ++ more) (by simp [empty]) (by rwa [same])
    rw [whole, same, after]
    generalize (chunkLength s).toNat = n
    have shorter := afterChunk_lt empty n
    by_cases fits : n ≤ (afterSize s).length
    · rw [List.take_append_of_le_length fits, List.drop_append_of_le_length fits]
      apply (List.prefix_append_right_inj _).mpr
      -- the line ends after the chunk may go on in the longer input
      rw [List.dropWhile_append]
      split
      next allEnds =>
        rw [List.isEmpty_iff.mp allEnds, dechunkBytes_nil]
        exact List.nil_prefix
      next => exact ih _ shorter _ rfl
    · -- the input ends inside the chunk
      rw [List.drop_eq_nil_of_le (by omega), List.dropWhile_nil, dechunkBytes_nil, List.append_nil,
        List.take_of_length_le (by omega), List.take_append, List.take_of_length_le (by omega),
        List.append_assoc]
      exact List.prefix_append _ _

theorem clampLength_mono (n : Int) {m m' : Nat} (le : m ≤ m') :
    clampLength n m = min (clampLength n m') m := by
  unfold clampLength
  dsimp only
  split_ifs <;> omega

theorem readBody_prefix (headers : List (List UInt8 × List UInt8)) (rest more : List UInt8) :
    readBody headers rest <+: readBody headers (rest ++ more) := by
  unfold readBody
  split
  · exact dechunkBytes_prefix rest more
  · split
    next value _ =>
      -- the clamp of the prefix cuts the clamp of the whole
      have longer : rest.length ≤ (rest ++ more).length := by simp
      rw [clampLength_mono _ longer, ← List.take_eq_take_min, List.take_append]
      exact List.prefix_append _ _
    next => exact List.prefix_append rest more

/-- If a prefix of a response parses then so does the response, with the same status,
reason and headers, and the body of the prefix is a prefix of its body. -/
theorem httpParseResponse_prefix (P R : List UInt8) (shorter : P <+: R) (p : HttpResponse)
    (parsed : httpParseResponse P = some p) :
    ∃ r, httpParseResponse R = some r ∧ r.status = p.status ∧ r.reasonText = p.reasonText ∧
      r.headerList = p.headerList ∧ p.bodyBytes <+: r.bodyBytes ∧
      p.bodyLen = p.bodyBytes.length ∧ r.bodyLen = r.bodyBytes.length := by
  obtain ⟨more, rfl⟩ := shorter
  obtain ⟨none, some⟩ := httpParseResponse_eq P
  cases read : readHead P with
  | none =>
    rw [none read] at parsed
    cases parsed
  | some head =>
    -- both responses hold what is read of their bytes
    obtain ⟨p', parsed', holds⟩ := some head read
    rw [parsed'] at parsed
    cases parsed
    obtain ⟨r, parsedR, holdsR⟩ :=
      (httpParseResponse_eq (P ++ more)).2 _ (readHead_append read more)
    refine ⟨r, parsedR, holdsR.status.trans holds.status.symm,
      holdsR.reason.trans holds.reason.symm, holdsR.headers.trans holds.headers.symm, ?_, ?_, ?_⟩
    · rw [holds.body, holdsR.body]
      exact readBody_prefix _ _ _
    · rw [holds.bodyLen, holds.body]
    · rw [holdsR.bodyLen, holdsR.body]

/-- `HTTP/1.1 200`, a blank line, and a body cut after its first byte. -/
theorem httpParseResponse_prefix_cut :
    ∃ r, httpParseResponse [0x48, 0x54, 0x54, 0x50, 0x2F, 0x31, 0x2E, 0x31, 0x20, 0x32, 0x30, 0x30,
        0x0D, 0x0A, 0x0D, 0x0A, 0x61, 0x62] = some r ∧ r.status = 200 ∧
      [0x61] <+: r.bodyBytes := by
  obtain ⟨r, parsed, status, -, -, body, -, -⟩ := httpParseResponse_prefix
    [0x48, 0x54, 0x54, 0x50, 0x2F, 0x31, 0x2E, 0x31, 0x20, 0x32, 0x30, 0x30,
      0x0D, 0x0A, 0x0D, 0x0A, 0x61] _ (List.prefix_append _ [0x62])
    { status := 200, reason := none, headers := [], body := .inRaw 16, bodyLen := 1,
      raw := [0x48, 0x54, 0x54, 0x50, 0x2F, 0x31, 0x2E, 0x31, 0x20, 0x32, 0x30, 0x30,
        0x00, 0x0A, 0x0D, 0x0A, 0x61, 0x00] } (by decide)
  exact ⟨r, parsed, status, body⟩

end InstagramNt40.Http
