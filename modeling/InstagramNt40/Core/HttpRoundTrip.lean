import InstagramNt40.Core.HttpView

/-!
# Well-formed responses

Every response written by the rules of `Http1` is read back: the numbers do not
overflow, the lines and headers are those that were written, and the body is what
its framing carries.
-/
namespace InstagramNt40.Http

open Ascii Http1 Scanner

/-! ### Numbers -/

theorem wrap32_small {n : Nat} (small : n < 2 ^ 31) : wrap32 n = n := by
  unfold wrap32
  rw [Int.bmod_eq_emod_of_lt (by omega)]
  omega

theorem parseDigits_decimal {ds post : List UInt8} (digits : ∀ b ∈ ds, IsDigit b)
    (stop : ∀ b ∈ post.head?, ¬IsDigit b) (n : Nat)
    (small : ds.foldl (fun n d => n * 10 + (d.toNat - 0x30)) n < 2 ^ 31) :
    parseDigits (ds ++ post) n = (ds.foldl (fun n d => n * 10 + (d.toNat - 0x30)) n : Nat) := by
  induction ds generalizing n with
  | nil =>
    cases post with
    | nil => rfl
    | cons b post =>
      have other : ¬(0x30 ≤ b ∧ b ≤ 0x39) := stop b (by simp)
      rw [List.nil_append, parseDigits, if_neg other]
      rfl
  | cons d ds ih =>
    have digit := digits d (by simp)
    have low := UInt8.le_iff_toNat_le.mp digit.1
    rw [List.foldl_cons] at small ⊢
    -- the accumulator only grows, so it never reaches the end of the range
    have step := foldl_digits_le 10 (fun d => d.toNat - 0x30) (by decide) ds
      (n * 10 + (d.toNat - 0x30))
    have value : (n : Int) * 10 + ((d.toNat : Int) - 0x30) = (n * 10 + (d.toNat - 0x30) : Nat) := by
      simp only [UInt8.reduceToNat] at low
      omega
    rw [List.cons_append, parseDigits, if_pos (show 0x30 ≤ d ∧ d ≤ 0x39 from digit), value,
      wrap32_small (by omega)]
    exact ih (fun b hb => digits b (by simp [hb])) _ small

theorem isDigit_not_blank {b : UInt8} (h : IsDigit b) : isBlank b = false := by
  rw [isBlank, Bool.or_eq_false_iff, beq_eq_false_iff_ne, beq_eq_false_iff_ne]
  constructor <;> (rintro rfl; revert h; decide)

theorem parseLong_decimal {ds : List UInt8} {n : Nat} (text : DecimalText ds n)
    (post : List UInt8) (stop : ∀ b ∈ post.head?, ¬IsDigit b) (small : n < 2 ^ 31) :
    parseLong (ds ++ post) = n := by
  obtain ⟨some, digits, rfl⟩ := text
  obtain ⟨d, r, rfl⟩ := List.exists_cons_of_ne_nil some
  have digit := digits d (by simp)
  have minus : d ≠ 0x2D := by rintro rfl; revert digit; decide
  have plus : d ≠ 0x2B := by rintro rfl; revert digit; decide
  have run := parseDigits_decimal digits stop 0 small
  rw [List.cons_append] at run
  unfold parseLong
  rw [List.cons_append, List.dropWhile_cons, isDigit_not_blank digit, if_neg Bool.false_ne_true]
  dsimp only
  rw [if_neg minus, if_neg plus]
  exact run

theorem chunkDigit_eq (c : UInt8) : chunkDigit c = (hexVal c).map Int.ofNat := by
  unfold chunkDigit hexVal
  split_ifs with digit lower upper
  · have low := UInt8.le_iff_toNat_le.mp digit.1
    simp only [UInt8.reduceToNat] at low
    simp only [Option.map_some, Option.some.injEq, Int.ofNat_eq_natCast]
    omega
  · have low := UInt8.le_iff_toNat_le.mp lower.1
    simp only [UInt8.reduceToNat] at low
    simp only [Option.map_some, Option.some.injEq, Int.ofNat_eq_natCast]
    omega
  · have low := UInt8.le_iff_toNat_le.mp upper.1
    simp only [UInt8.reduceToNat] at low
    simp only [Option.map_some, Option.some.injEq, Int.ofNat_eq_natCast]
    omega
  · rfl

theorem isSizeDigit_iff {c : UInt8} : isSizeDigit c = true ↔ IsHex c := by
  rw [isSizeDigit, chunkDigit_eq, Option.isSome_map, Option.isSome_iff_exists]
  rfl

theorem sizeFrom_hexadecimal {ds : List UInt8} (n : Nat)
    (small : ds.foldl (fun n d => n * 16 + (hexVal d).getD 0) n < 2 ^ 31) :
    sizeFrom n ds = (ds.foldl (fun n d => n * 16 + (hexVal d).getD 0) n : Nat) := by
  unfold sizeFrom
  induction ds generalizing n with
  | nil => rfl
  | cons d ds ih =>
    rw [List.foldl_cons] at small ⊢
    have step := foldl_digits_le 16 (fun d => (hexVal d).getD 0) (by decide) ds
      (n * 16 + (hexVal d).getD 0)
    have value : (n : Int) * 16 + (chunkDigit d).getD 0 = (n * 16 + (hexVal d).getD 0 : Nat) := by
      rw [chunkDigit_eq]
      cases hexVal d <;> simp
    rw [value, wrap32_small (by omega)]
    exact ih _ small

/-! ### Chunked bodies -/

/-- A chunk-size line is read to its end. -/
theorem chunkLine_read {size ext : List UInt8} {n : Nat} (text : HexText size n)
    (extension : Extension ext) (small : n < 2 ^ 31) (post : List UInt8) :
    chunkLength (size ++ (ext ++ (Http1.crlf ++ post))) = n ∧
      afterSize (size ++ (ext ++ (Http1.crlf ++ post))) = post := by
  obtain ⟨-, digits, rfl⟩ := text
  have all : ∀ b ∈ size, isSizeDigit b = true := fun b hb => isSizeDigit_iff.mpr (digits b hb)
  -- neither an extension nor the CR goes on with a hex digit
  have stop : ∀ b ∈ (ext ++ (Http1.crlf ++ post)).head?, isSizeDigit b = false := by
    intro b hb
    rw [Bool.eq_false_iff, Ne, isSizeDigit_iff]
    cases ext with
    | nil =>
      simp only [Http1.crlf, List.nil_append, List.cons_append, List.head?_cons, Option.mem_def,
        Option.some.injEq] at hb
      subst hb
      rintro ⟨v, hv⟩
      cases hv
    | cons c ext =>
      simp only [List.cons_append, List.head?_cons, Option.mem_def, Option.some.injEq] at hb
      subst hb
      exact extension.2 _ (by simp)
  constructor
  · unfold chunkLength
    rw [takeWhile_append_stop all stop]
    exact sizeFrom_hexadecimal 0 small
  · have layout : ext ++ (Http1.crlf ++ post) = (ext ++ [0x0D]) ++ 0x0A :: post := by
      simp [Http1.crlf]
    have line : ∀ b ∈ ext ++ [0x0D], (b != 0x0A) = true := by
      intro b hb
      rw [bne_iff_ne]
      rcases List.mem_append.mp hb with hb | hb
      · exact fun eq => extension.1 (eq ▸ hb)
      · rw [List.mem_singleton.mp hb]
        decide
    unfold afterSize
    rw [dropWhile_append_stop all stop, layout, dropWhile_append_stop line (by simp)]
    rfl

/-- A chunked body starts with a hex digit. -/
theorem chunked_head {body wire : List UInt8} (h : Chunked body wire) :
    ∃ c r, wire = c :: r ∧ isCrLf c = false := by
  have first {size : List UInt8} {n : Nat} (text : HexText size n) (post : List UInt8) :
      ∃ c r, size ++ post = c :: r ∧ isCrLf c = false := by
    obtain ⟨some, digits, -⟩ := text
    obtain ⟨c, r, rfl⟩ := List.exists_cons_of_ne_nil some
    refine ⟨c, r ++ post, rfl, ?_⟩
    rw [isCrLf, Bool.or_eq_false_iff, beq_eq_false_iff_ne, beq_eq_false_iff_ne]
    obtain ⟨v, hv⟩ := digits c (by simp)
    constructor <;> (rintro rfl; cases hv)
  cases h with
  | last text => exact first text _
  | chunk text => exact first text _

/-- The decoder undoes every chunking. -/
theorem dechunkBytes_chunked {body wire : List UInt8} (h : Chunked body wire)
    (small : wire.length < 2 ^ 31) : dechunkBytes wire = body := by
  induction h with
  | @last _ _ trailer text extension =>
    obtain ⟨size, -⟩ := chunkLine_read text extension (by decide) trailer
    exact dechunkBytes_last (by rw [size]; decide)
  | @chunk size ext data body wire text some extension more ih =>
    simp only [List.length_append] at small
    obtain ⟨length, after⟩ := chunkLine_read text extension (by omega)
      (data ++ (Http1.crlf ++ wire))
    have positive := List.length_pos_iff.mpr some
    obtain ⟨c, r, rfl, notEnd⟩ := chunked_head more
    -- skipping line ends after a chunk does not eat into the next size line
    have skipped : (Http1.crlf ++ c :: r).dropWhile isCrLf = c :: r :=
      dropWhile_append_stop (by simp [Http1.crlf, isCrLf]) (by simpa using notEnd)
    rw [dechunkBytes_chunk (by simp [text.1]) (by rw [length]; omega), length, after,
      Int.toNat_natCast, List.take_left, List.drop_left, skipped, ih (by omega)]

/-! ### Lines and headers -/

theorem splitLine_text {line : List UInt8} (text : ∀ b ∈ line, IsText b) (r : List UInt8) :
    splitLine (line ++ (Http1.crlf ++ r)) = some (line, r) := by
  induction line with
  | nil => rfl
  | cons b line ih =>
    obtain ⟨notNul, notCr, -⟩ := text b (by simp)
    rw [List.cons_append, splitLine, if_neg notNul, if_neg fun found => notCr found.1,
      ih fun c hc => text c (by simp [hc])]
    rfl

/-- The part of a list before and after its first `c`. -/
theorem cut_at {c : UInt8} {before : List UInt8} (other : ∀ b ∈ before, b ≠ c)
    (after : List UInt8) :
    (before ++ c :: after).takeWhile (· != c) = before ∧
      (before ++ c :: after).dropWhile (· != c) = c :: after := by
  have all : ∀ b ∈ before, (b != c) = true := fun b hb => by simpa using other b hb
  exact ⟨takeWhile_append_stop all (by simp), dropWhile_append_stop all (by simp)⟩

theorem isBlank_iff {b : UInt8} : isBlank b = true ↔ IsBlank b := by simp [isBlank, IsBlank]

theorem readField_line {f : Field} (wf : f.Wf) : readField f.line = [(f.name, f.value)] := by
  obtain ⟨taken, dropped⟩ := cut_at (fun b hb => (wf.name b hb).2) (f.pad ++ f.value)
  -- the value does not start with a blank, so only the padding is skipped
  have blanks : (f.pad ++ f.value).dropWhile isBlank = f.value :=
    dropWhile_append_stop (fun b hb => isBlank_iff.mpr (wf.pad b hb)) fun b hb => by
      rw [Bool.eq_false_iff, Ne, isBlank_iff]
      exact wf.start b hb
  unfold readField Field.line
  rw [if_pos (by simp), taken, dropped, List.drop_one, List.tail_cons, blanks]

theorem readHeaders_fields {fs : List Field} (wf : ∀ f ∈ fs, f.Wf) (rest : List UInt8) :
    readHeaders (fieldLines fs ++ (Http1.crlf ++ rest)) =
      some (fs.map fun f => (f.name, f.value), rest) := by
  induction fs with
  | nil =>
    have empty : ∀ b ∈ ([] : List UInt8), IsText b := by simp
    exact readHeaders_blank (splitLine_text empty rest)
  | cons f fs ih =>
    have hf := wf f (by simp)
    have line := splitLine_text hf.line (fieldLines fs ++ (Http1.crlf ++ rest))
    have some : f.line ≠ [] := by simp [Field.line]
    have layout : fieldLines (f :: fs) ++ (Http1.crlf ++ rest) =
        f.line ++ (Http1.crlf ++ (fieldLines fs ++ (Http1.crlf ++ rest))) := by
      simp [fieldLines]
    rw [layout, readHeaders_line line some, ih fun g hg => wf g (by simp [hg]), readField_line hf]
    rfl

theorem readStatus_line {h : Head} (wf : h.Wf) (short : h.code.length ≤ 3) :
    readStatus h.statusLine = some ((decimal h.code : Int), h.reason) := by
  have version : ∀ b ∈ h.version, b ≠ 0x20 := fun b hb => (wf.version b hb).2
  have code : ∀ b ∈ h.code, b ≠ 0x20 := fun b hb => (isText_of_digit (wf.code b hb)).2
  obtain ⟨-, afterVersion⟩ := cut_at version (h.code ++ 0x20 :: h.reason)
  obtain ⟨-, afterCode⟩ := cut_at code h.reason
  -- three digits are at most 999
  have small : decimal h.code < 2 ^ 31 := by
    have bound := decimal_lt wf.code
    have power := Nat.pow_le_pow_right (show 0 < 10 by decide) short
    omega
  have value : parseLong (h.code ++ 0x20 :: h.reason) = (decimal h.code : Int) :=
    parseLong_decimal ⟨wf.code_ne_nil, wf.code, rfl⟩ _ (by simp; decide) small
  unfold readStatus Head.statusLine
  rw [if_pos (by simp), afterVersion]
  simp only [List.drop_one, List.tail_cons]
  rw [value, wrap32_small small, afterCode, List.tail_cons]

theorem readHead_bytes {h : Head} (wf : h.Wf) (short : h.code.length ≤ 3) (rest : List UInt8) :
    readHead (h.bytes ++ rest) =
      some ⟨(decimal h.code : Int), h.reason, h.headers, rest⟩ := by
  have line := splitLine_text wf.statusLine (fieldLines h.fields ++ (Http1.crlf ++ rest))
  have layout : h.bytes ++ rest =
      h.statusLine ++ (Http1.crlf ++ (fieldLines h.fields ++ (Http1.crlf ++ rest))) := by
    simp [Head.bytes]
  have long : ¬(h.bytes ++ rest).length < 12 := by
    rw [layout]
    simp only [Head.statusLine, Head.version, Http1.crlf, List.length_append, List.length_cons,
      List.length_nil]
    omega
  unfold readHead
  rw [if_neg long, layout, line]
  dsimp only
  rw [readStatus_line wf short]
  dsimp only
  rw [readHeaders_fields wf.fields]
  rfl

/-- A length that is there as a whole is not clamped. -/
theorem clampLength_whole {n remaining : Nat} (whole : n ≤ remaining) :
    clampLength (n : Int) remaining = n := by
  unfold clampLength
  dsimp only
  split_ifs <;> omega

theorem readBody_framed {headers : List (List UInt8 × List UInt8)} {body wire : List UInt8}
    (framed : Framed headers body wire) (small : wire.length < 2 ^ 31) :
    readBody headers wire = body := by
  unfold readBody
  cases framed with
  | @contentLength value body extra other found text =>
    rw [List.length_append] at small
    have length := parseLong_decimal text [] (by simp) (by omega)
    rw [List.append_nil] at length
    rw [if_neg other, found]
    dsimp only
    rw [length, wrap32_small (by omega)]
    rw [clampLength_whole (by rw [List.length_append]; omega), List.take_left]
  | chunked isChunked chunks =>
    rw [if_pos isChunked]
    exact dechunkBytes_chunked chunks small
  | untilClose other absent => rw [if_neg other, absent]

/-- Every well-formed response is recovered: its status, reason, headers in order and
body, in each framing. -/
theorem httpParseResponse_wellFormed (h : Head) (wf : h.Wf) (short : h.code.length ≤ 3)
    (body wire : List UInt8) (framed : Framed h.headers body wire)
    (small : (h.bytes ++ wire).length < 2 ^ 31) :
    ∃ r, httpParseResponse (h.bytes ++ wire) = some r ∧ r.status = (decimal h.code : Int) ∧
      r.reasonText = h.reason ∧ r.headerList = h.headers ∧ r.bodyBytes = body ∧
      r.bodyLen = body.length := by
  obtain ⟨r, parsed, holds⟩ := (httpParseResponse_eq _).2 _ (readHead_bytes wf short wire)
  rw [List.length_append] at small
  have same := readBody_framed framed (by omega)
  refine ⟨r, parsed, holds.status, holds.reason, holds.headers, ?_, ?_⟩
  · rw [holds.body, same]
  · rw [holds.bodyLen, same]

/-- `HTTP/1.1 200 OK` with a content length and one byte too many. -/
theorem httpParseResponse_wellFormed_length :
    ∃ r, httpParseResponse ([0x48, 0x54, 0x54, 0x50, 0x2F, 0x31, 0x2E, 0x31, 0x20, 0x32, 0x30, 0x30,
        0x20, 0x4F, 0x4B, 0x0D, 0x0A] ++ Http1.contentLength ++ [0x3A, 0x20, 0x32, 0x0D, 0x0A, 0x0D,
        0x0A, 0x61, 0x62, 0x63]) = some r ∧ r.status = 200 ∧ r.bodyBytes = [0x61, 0x62] := by
  have wf : Head.Wf ⟨0x31, 0x31, [0x32, 0x30, 0x30], [0x4F, 0x4B],
      [⟨Http1.contentLength, [0x20], [0x32]⟩]⟩ := by
    refine ⟨by decide, by decide, by decide, by simp [IsDigit], by simp [Http1.IsText], ?_⟩
    intro f hf
    rw [List.mem_singleton.mp hf]
    constructor
    · simp [Http1.contentLength, Http1.IsText]
    · exact List.forall_mem_singleton.mpr (by decide)
    · simp [Http1.IsText]
    · simp [Http1.IsBlank]
  obtain ⟨r, parsed, status, -, -, body, -⟩ := httpParseResponse_wellFormed _ wf (by decide)
    [0x61, 0x62] ([0x61, 0x62] ++ [0x63])
    (.contentLength (by decide) rfl ⟨by decide, by simp [IsDigit], rfl⟩) (by decide)
  exact ⟨r, parsed, status, body⟩

end InstagramNt40.Http
