import InstagramNt40.Library.HttpRequest
import InstagramNt40.Pal.Crt

/-!
# http_build_request

The request builder of core/http.c. Its capacity is computed before the bytes are
written; a write past it is a fault. A reader gets back what the request was built from.
-/
namespace InstagramNt40.Http

open Ascii Crt Http1

/-! ### The builder -/

/-- The loop of `put_uint` that takes the digits of `v` off, the last one first, with
`room` places left in `t`; `none` is a write past them. -/
def digitLoop : Nat → Nat → Option (List UInt8)
  | 0, v => if v = 0 then some [] else none
  | room + 1, v =>
    if v = 0 then some []
    else (digitLoop room (v / 10)).map fun t => UInt8.ofNat (0x30 + v % 10) :: t

/-- `put_uint`: the digits it writes to `b`. -/
def putUint (v : Nat) : Option (List UInt8) :=
  if v = 0 then some [0x30] else (digitLoop 12 v).map List.reverse

/-- `PUT`, one string after the other, into a buffer of `cap` bytes of which `buf` are
written; `none` is a write past its end. -/
def puts (cap : Nat) (pieces : List (List UInt8)) (buf : List UInt8) : Option (List UInt8) :=
  pieces.foldlM (fun buf s => if buf.length + s.length ≤ cap then some (buf ++ s) else none) buf

/-- The bound on the size of the request, a `size_t`. -/
def requestCap (method host path : List UInt8) (headers : List (List UInt8 × List UInt8))
    (bodyLen : Nat) : Nat :=
  (method.length + 1 + path.length + 16 + 6 + host.length + 2 + 32 + bodyLen + 4 +
    (headers.map fun h => h.1.length + 2 + h.2.length + 2).sum) % 2 ^ 32

/-- The `Content-Length` line. -/
def putLength (cap bodyLen : Nat) (buf : List UInt8) : Option (List UInt8) :=
  if 0 < bodyLen then
    (putUint bodyLen).bind fun digits =>
      puts cap [literal "Content-Length: ", digits, literal "\r\n"] buf
  else some buf

/-- The body; `none` is also a read past its end. -/
def putBody (cap : Nat) (body : List UInt8) (bodyLen : Nat) (buf : List UInt8) :
    Option (List UInt8) :=
  if 0 < bodyLen then if bodyLen ≤ body.length then puts cap [body.take bodyLen] buf else none
  else some buf

/-- The writes into the buffer. -/
def writeRequest (cap : Nat) (method host path : List UInt8)
    (headers : List (List UInt8 × List UInt8)) (body : List UInt8) (bodyLen : Nat) :
    Option (List UInt8) := do
  let buf ← puts cap [method, [0x20], path, [0x20], literal "HTTP/1.1\r\n", literal "Host: ", host,
    literal "\r\n"] []
  let buf ← headers.foldlM (fun buf h =>
    puts cap [h.1, literal ": ", h.2, literal "\r\n"] buf) buf
  let buf ← putLength cap bodyLen buf
  let buf ← puts cap [literal "\r\n"] buf
  putBody cap body bodyLen buf

/-- `http_build_request`: the `*out_len` bytes of the result. The strings are without
their NUL. -/
def httpBuildRequest (heap : Heap) (method host path : Option (List UInt8))
    (headers : List (List UInt8 × List UInt8)) (body : List UInt8) (bodyLen : Int) :
    Returned (List UInt8) :=
  match method, host, path with
  | some method, some host, some path =>
    let bodyLen := if bodyLen < 0 then 0 else bodyLen.toNat
    let cap := requestCap method host path headers bodyLen
    if heap.grants cap then
      match writeRequest cap method host path headers body bodyLen with
      | some buf => .value buf
      | none => .fault
    else .null
  | _, _, _ => .null

/-! ### What it writes -/

theorem digitLoop_eq {room v : Nat} (small : (Nat.digits 10 v).length ≤ room) :
    digitLoop room v = some ((Nat.digits 10 v).map fun d => UInt8.ofNat (0x30 + d)) := by
  induction room generalizing v with
  | zero =>
    have none := List.length_eq_zero_iff.mp (Nat.le_zero.mp small)
    obtain rfl := Nat.digits_eq_nil_iff_eq_zero.mp none
    rfl
  | succ room ih =>
    rw [digitLoop]
    by_cases zero : v = 0
    · subst zero
      rfl
    · have digits := Nat.digits_def' (b := 10) (by decide) (Nat.pos_of_ne_zero zero)
      rw [digits, List.length_cons] at small
      rw [if_neg zero, ih (by omega), digits]
      rfl

/-- `t` is large enough for a 32-bit number. -/
theorem putUint_eq {v : Nat} (small : v < 2 ^ 32) : putUint v = some (decimalText v) := by
  unfold putUint decimalText
  by_cases zero : v = 0
  · rw [if_pos zero, if_pos zero]
  · have digits : (Nat.digits 10 v).length ≤ 12 := by
      rw [Nat.digits_length_le_iff (by decide)]
      omega
    rw [if_neg zero, if_neg zero, digitLoop_eq digits]
    rfl

theorem puts_eq {cap : Nat} {pieces : List (List UInt8)} {buf : List UInt8}
    (room : (buf ++ pieces.flatten).length ≤ cap) :
    puts cap pieces buf = some (buf ++ pieces.flatten) := by
  induction pieces generalizing buf with
  | nil => simp [puts]
  | cons s pieces ih =>
    rw [List.flatten_cons, ← List.append_assoc] at room ⊢
    have fits : buf.length + s.length ≤ cap := by
      simp only [List.length_append] at room
      omega
    have first : puts cap (s :: pieces) buf = puts cap pieces (buf ++ s) := by
      simp [puts, fits]
    rw [first, ih room]

/-- The buffer holds what was written, in order. -/
theorem puts_some {cap : Nat} {pieces : List (List UInt8)} {buf buf' : List UInt8}
    (written : puts cap pieces buf = some buf') : buf' = buf ++ pieces.flatten := by
  induction pieces generalizing buf with
  | nil =>
    cases written
    simp
  | cons s pieces ih =>
    unfold puts at written
    rw [List.foldlM_cons] at written
    obtain ⟨first, fits, rest⟩ := Option.bind_eq_some_iff.mp written
    obtain ⟨-, same⟩ := Option.ite_none_right_eq_some.mp fits
    cases same
    rw [ih rest]
    simp

/-- The header fields of a request: the host, the given ones, and the length of a body. -/
def requestFields (host : List UInt8) (headers : List (List UInt8 × List UInt8))
    (bodyLen : Nat) : List (List UInt8 × List UInt8) :=
  (literal "Host", host) :: (headers ++
    if 0 < bodyLen then [(literal "Content-Length", decimalText bodyLen)] else [])

/-- The request as it should be. -/
def requestBytes (method host path : List UInt8) (headers : List (List UInt8 × List UInt8))
    (body : List UInt8) : List UInt8 :=
  requestText method path (requestFields host headers body.length) body

theorem headerLine_pieces (h : List UInt8 × List UInt8) :
    [h.1, literal ": ", h.2, literal "\r\n"].flatten = headerLine h := by
  have colon : literal ": " = [0x3A, 0x20] := by decide
  have eol : literal "\r\n" = Http1.crlf := by decide
  simp [headerLine, colon, eol]

theorem putHeaders_eq {cap : Nat} {headers : List (List UInt8 × List UInt8)} {buf : List UInt8}
    (room : (buf ++ headers.flatMap headerLine).length ≤ cap) :
    headers.foldlM (fun buf h => puts cap [h.1, literal ": ", h.2, literal "\r\n"] buf) buf =
      some (buf ++ headers.flatMap headerLine) := by
  induction headers generalizing buf with
  | nil => simp
  | cons h headers ih =>
    rw [List.flatMap_cons, ← List.append_assoc] at room ⊢
    have fits : (buf ++ [h.1, literal ": ", h.2, literal "\r\n"].flatten).length ≤ cap := by
      rw [headerLine_pieces]
      rw [List.length_append] at room
      omega
    rw [List.foldlM_cons, puts_eq fits, headerLine_pieces]
    exact ih room

/-- The bytes of a request, in the pieces in which they are written. -/
theorem requestBytes_pieces (method host path : List UInt8)
    (headers : List (List UInt8 × List UInt8)) (body : List UInt8) :
    requestBytes method host path headers body =
      [method, [0x20], path, [0x20], literal "HTTP/1.1\r\n", literal "Host: ", host,
          literal "\r\n"].flatten ++
        headers.flatMap headerLine ++
        (if 0 < body.length then
          [literal "Content-Length: ", decimalText body.length, literal "\r\n"].flatten else []) ++
        literal "\r\n" ++ body := by
  have version : literal "HTTP/1.1\r\n" = version11 ++ Http1.crlf := by decide
  have hostName : literal "Host: " = literal "Host" ++ [0x3A, 0x20] := by decide
  have lengthName : literal "Content-Length: " = literal "Content-Length" ++ [0x3A, 0x20] := by
    decide
  have eol : literal "\r\n" = Http1.crlf := by decide
  rw [version, hostName, lengthName, eol]
  unfold requestBytes requestText requestFields
  split <;> simp [headerLine]

theorem putHeaders_some {cap : Nat} {headers : List (List UInt8 × List UInt8)}
    {buf buf' : List UInt8}
    (written : headers.foldlM
      (fun buf h => puts cap [h.1, literal ": ", h.2, literal "\r\n"] buf) buf = some buf') :
    buf' = buf ++ headers.flatMap headerLine := by
  induction headers generalizing buf with
  | nil =>
    cases written
    simp
  | cons h headers ih =>
    rw [List.foldlM_cons] at written
    obtain ⟨first, line, rest⟩ := Option.bind_eq_some_iff.mp written
    rw [ih rest, puts_some line, headerLine_pieces]
    simp

/-- Whatever the sizes, a request without a body that is returned is the right one. -/
theorem httpBuildRequest_value {heap : Heap} {method host path body bytes : List UInt8}
    {headers : List (List UInt8 × List UInt8)}
    (built : httpBuildRequest heap (some method) (some host) (some path) headers body 0 =
      .value bytes) : bytes = requestBytes method host path headers [] := by
  have length : (if (0 : Int) < 0 then 0 else (0 : Int).toNat) = 0 := rfl
  unfold httpBuildRequest at built
  dsimp only at built
  rw [length] at built
  split_ifs at built with granted
  cases written : writeRequest (requestCap method host path headers 0) method host path headers
    body 0 with
  | none =>
    rw [written] at built
    cases built
  | some buf =>
    rw [written] at built
    cases built
    obtain ⟨head, first, written⟩ := Option.bind_eq_some_iff.mp written
    obtain ⟨lines, fields, written⟩ := Option.bind_eq_some_iff.mp written
    -- without a body the length line and the body are left out
    have blank : puts (requestCap method host path headers 0) [literal "\r\n"] lines =
        some bytes := by
      simpa [putLength, putBody] using written
    rw [puts_some blank, putHeaders_some fields, puts_some first, requestBytes_pieces]
    simp

theorem headerLines_length (headers : List (List UInt8 × List UInt8)) :
    (headers.flatMap headerLine).length =
      (headers.map fun h => h.1.length + 2 + h.2.length + 2).sum := by
  induction headers with
  | nil => rfl
  | cons h headers ih =>
    simp only [List.flatMap_cons, List.length_append, ih, List.map_cons, List.sum_cons, headerLine,
      List.length_cons, Http1.crlf, List.length_nil]
    omega

/-- The sum that is taken as the capacity covers the request, and not by much. -/
theorem requestBytes_length_bounds (method host path : List UInt8)
    (headers : List (List UInt8 × List UInt8)) {body : List UInt8} (small : body.length < 2 ^ 32) :
    (requestBytes method host path headers body).length ≤
        method.length + 1 + path.length + 16 + 6 + host.length + 2 + 32 + body.length + 4 +
          (headers.map fun h => h.1.length + 2 + h.2.length + 2).sum ∧
      method.length + 1 + path.length + 16 + 6 + host.length + 2 + 32 + body.length + 4 +
          (headers.map fun h => h.1.length + 2 + h.2.length + 2).sum ≤
        (requestBytes method host path headers body).length + 39 := by
  have version : (literal "HTTP/1.1\r\n").length = 10 := by decide
  have hostName : (literal "Host: ").length = 6 := by decide
  have lengthName : (literal "Content-Length: ").length = 16 := by decide
  have eol : (literal "\r\n").length = 2 := by decide
  rw [requestBytes_pieces]
  simp only [List.length_append, List.flatten_cons, List.flatten_nil, List.length_cons,
    List.length_nil, version, hostName, eol, headerLines_length]
  have digits : (if 0 < body.length then
      literal "Content-Length: " ++ (decimalText body.length ++ (literal "\r\n" ++ [])) else
        []).length ≤ 28 := by
    have ten := decimalText_length_le small
    split
    · simp only [List.length_append, lengthName, eol, List.length_nil]
      omega
    · exact Nat.zero_le _
  constructor <;> omega

/-- The capacity covers the request, unless it wraps around. -/
theorem requestBytes_length_le_cap {method host path : List UInt8}
    {headers : List (List UInt8 × List UInt8)} {body : List UInt8}
    (size : (requestBytes method host path headers body).length + 64 < 2 ^ 32) :
    (requestBytes method host path headers body).length ≤
      requestCap method host path headers body.length := by
  have small : body.length < 2 ^ 32 := by
    rw [requestBytes_pieces, List.length_append] at size
    omega
  obtain ⟨covered, tight⟩ := requestBytes_length_bounds method host path headers small
  unfold requestCap
  rw [Nat.mod_eq_of_lt (by omega)]
  exact covered

theorem requestBytes_length_le {method host path : List UInt8}
    {headers : List (List UInt8 × List UInt8)} {body : List UInt8}
    (size : (requestBytes method host path headers body).length < 2 ^ 31) :
    (requestBytes method host path headers body).length ≤
      requestCap method host path headers body.length :=
  requestBytes_length_le_cap (by omega)

theorem putLength_eq {cap bodyLen : Nat} {buf : List UInt8} (small : bodyLen < 2 ^ 32)
    (room : (buf ++ if 0 < bodyLen then
      [literal "Content-Length: ", decimalText bodyLen, literal "\r\n"].flatten else []).length ≤
        cap) :
    putLength cap bodyLen buf = some (buf ++ if 0 < bodyLen then
      [literal "Content-Length: ", decimalText bodyLen, literal "\r\n"].flatten else []) := by
  unfold putLength
  by_cases sent : 0 < bodyLen
  · simp only [if_pos sent] at room ⊢
    rw [putUint_eq small, Option.bind_some, puts_eq room]
  · simp only [if_neg sent, List.append_nil]

theorem putBody_eq {cap : Nat} {body buf : List UInt8} (room : (buf ++ body).length ≤ cap) :
    putBody cap body body.length buf = some (buf ++ body) := by
  unfold putBody
  by_cases sent : 0 < body.length
  · rw [if_pos sent, if_pos (Nat.le_refl _), List.take_length, puts_eq (by simpa using room)]
    simp
  · have none : body = [] := List.length_eq_zero_iff.mp (by omega)
    rw [if_neg sent, none, List.append_nil]

/-- With room for the request all of it is written. -/
theorem writeRequest_eq {cap : Nat} {method host path : List UInt8}
    {headers : List (List UInt8 × List UInt8)} {body : List UInt8}
    (room : (requestBytes method host path headers body).length ≤ cap)
    (small : body.length < 2 ^ 32) :
    writeRequest cap method host path headers body body.length =
      some (requestBytes method host path headers body) := by
  rw [requestBytes_pieces] at room ⊢
  -- what is written before some point has room, too
  have before {s t : List UInt8} (fits : (s ++ t).length ≤ cap) : s.length ≤ cap := by
    rw [List.length_append] at fits
    omega
  have lineEnd := before room
  have lengthLine := before lineEnd
  have fields := before lengthLine
  have start := before fields
  rw [← List.nil_append (List.flatten _)] at start
  have head := puts_eq start
  unfold writeRequest
  simp only [Option.bind_eq_bind, head, Option.bind_some, List.nil_append, putHeaders_eq fields,
    putLength_eq small lengthLine]
  rw [puts_eq (by simpa using lineEnd), Option.bind_some, putBody_eq (by simpa using room)]
  simp

/-- If the heap grants the capacity, the request is written. -/
theorem httpBuildRequest_eq (heap : Heap) {method host path : List UInt8}
    {headers : List (List UInt8 × List UInt8)} {body : List UInt8}
    (size : (requestBytes method host path headers body).length < 2 ^ 31) :
    httpBuildRequest heap (some method) (some host) (some path) headers body body.length =
      if heap.grants (requestCap method host path headers body.length) then
        .value (requestBytes method host path headers body)
      else .null := by
  have room := requestBytes_length_le size
  have small : body.length < 2 ^ 32 := by
    rw [requestBytes_pieces, List.length_append] at size
    omega
  have length : (if (body.length : Int) < 0 then 0 else (body.length : Int).toNat) =
      body.length := by
    rw [if_neg (by omega), Int.toNat_natCast]
  unfold httpBuildRequest
  dsimp only
  rw [length, writeRequest_eq room small]

/-! ### Reading it back -/

/-- The fields frame the body: a reader that goes by them finds it, and finds a content length
exactly where there is one to read. -/
structure Frames (body : List UInt8) (r : Request) : Prop where
  content : r.content = some body
  length : (lookup r.fields Http1.contentLength).isSome = true ↔ body ≠ []

/-- What a reader finds: the given method, path and header fields in order between the
host and a content length, which is there for a body, and the body. -/
structure Recovers (method host path : List UInt8) (headers : List (List UInt8 × List UInt8))
    (body : List UInt8) (r : Request) : Prop where
  method : r.method = method
  path : r.target = path
  fields : ∃ lengths, r.fields = (literal "Host", host) :: (headers ++ lengths) ∧
    (body = [] → lengths = []) ∧
    (body ≠ [] → ∃ digits, lengths = [(literal "Content-Length", digits)] ∧
      DecimalText digits body.length)
  rest : r.rest = body
  /-- The builder passes on whatever it is given, fields that frame another body included. -/
  frames : (∀ h ∈ headers, ¬SameText h.1 Http1.contentLength ∧
    ¬SameText h.1 Http1.transferEncoding) → Frames body r

theorem requestFields_frames {method host path : List UInt8}
    {headers : List (List UInt8 × List UInt8)} {body : List UInt8}
    (other : ∀ h ∈ headers, ¬SameText h.1 Http1.contentLength ∧
      ¬SameText h.1 Http1.transferEncoding) :
    Frames body ⟨method, path, requestFields host headers body.length, body⟩ := by
  have given (name : List UInt8) (hostOther : ¬SameText (literal "Host") name)
      (others : ∀ h ∈ headers, ¬SameText h.1 name) (more : List (List UInt8 × List UInt8)) :
      lookup ((literal "Host", host) :: (headers ++ more)) name = lookup more name := by
    rw [← List.cons_append, lookup_append (List.forall_mem_cons.mpr ⟨hostOther, others⟩)]
  have noEncoding := given Http1.transferEncoding (by decide) fun h hh => (other h hh).2
  have ownLength := given Http1.contentLength (by decide) fun h hh => (other h hh).1
  by_cases sent : 0 < body.length
  · obtain ⟨-, -, value⟩ := decimalText_spec body.length
    have encoding : ¬SameText (literal "Content-Length") Http1.transferEncoding := by decide
    have length : SameText (literal "Content-Length") Http1.contentLength := by decide
    constructor
    · unfold Request.content requestFields
      dsimp only
      rw [noEncoding, ownLength, if_pos sent]
      simp [lookup, encoding, length, value]
    · unfold requestFields
      dsimp only
      rw [ownLength, if_pos sent]
      simp [lookup, length, List.length_pos_iff.mp sent]
  · have none : body = [] := List.length_eq_zero_iff.mp (by omega)
    subst none
    constructor
    · unfold Request.content requestFields
      dsimp only
      rw [noEncoding, ownLength]
      rfl
    · unfold requestFields
      dsimp only
      rw [ownLength]
      simp [lookup]

theorem requestFields_recovers (method host path : List UInt8)
    (headers : List (List UInt8 × List UInt8)) (body : List UInt8) :
    Recovers method host path headers body
      ⟨method, path, requestFields host headers body.length, body⟩ where
  method := rfl
  path := rfl
  fields := by
    refine ⟨_, rfl, ?_, ?_⟩
    · rintro rfl
      rfl
    · intro sent
      rw [if_pos (List.length_pos_iff.mpr sent)]
      exact ⟨_, rfl, decimalText_spec body.length⟩
  rest := rfl
  frames := requestFields_frames

theorem requestFields_separable {method host path : List UInt8}
    {headers : List (List UInt8 × List UInt8)} (body : List UInt8)
    (plain : Separable method path ((literal "Host", host) :: headers)) :
    Separable method path (requestFields host headers body.length) where
  method := plain.method
  target := plain.target
  fields := by
    intro f hf
    unfold requestFields at hf
    rw [← List.cons_append] at hf
    rcases List.mem_append.mp hf with hf | hf
    · exact plain.fields f hf
    · split at hf
      · obtain rfl := List.mem_singleton.mp hf
        obtain ⟨-, digits, -⟩ := decimalText_spec body.length
        have name : ∀ b ∈ literal "Content-Length", IsText b ∧ b ≠ 0x3A :=
          List.all_iff_forall_prop.mp (by decide)
        exact ⟨name, fun b hb => (isText_of_digit (digits b hb)).1⟩
      · cases hf

/-- Trimming takes the blanks off the given values alone. -/
theorem requestFields_trim (host : List UInt8) (headers : List (List UInt8 × List UInt8))
    (bodyLen : Nat) :
    (requestFields host headers bodyLen).map (fun f => (f.1, trimBlanks (0x20 :: f.2))) =
      requestFields (trimBlanks host) (headers.map fun h => (h.1, trimBlanks h.2)) bodyLen := by
  have length : trimBlanks (decimalText bodyLen) = decimalText bodyLen := by
    obtain ⟨-, digits, -⟩ := decimalText_spec bodyLen
    apply trimBlanks_self
    · exact fun b hb => not_isBlank_of_digit (digits b (List.mem_of_mem_head? hb))
    · exact fun b hb => not_isBlank_of_digit (digits b (List.mem_of_mem_getLast? hb))
  unfold requestFields
  simp only [trimBlanks_space, List.map_cons, List.map_append]
  split
  · simp [length]
  · rfl

/-- The request fits the capacity, and it is written if the heap grants that. A reader
gets back what it was built from; one that drops the blanks around the values gets them
without these blanks. -/
theorem httpBuildRequest_recovers (heap : Heap) {method host path : List UInt8}
    {headers : List (List UInt8 × List UInt8)} {body : List UInt8}
    (size : (requestBytes method host path headers body).length < 2 ^ 31) :
    (requestBytes method host path headers body).length ≤
        requestCap method host path headers body.length ∧
      httpBuildRequest heap (some method) (some host) (some path) headers body body.length =
        (if heap.grants (requestCap method host path headers body.length) then
          .value (requestBytes method host path headers body)
        else .null) ∧
      (Separable method path ((literal "Host", host) :: headers) →
        (∃ r, readRequest behindSpace (requestBytes method host path headers body) = some r ∧
          Recovers method host path headers body r) ∧
        ∃ r, readRequest trimBlanks (requestBytes method host path headers body) = some r ∧
          Recovers method (trimBlanks host) path (headers.map fun h => (h.1, trimBlanks h.2))
            body r) := by
  refine ⟨requestBytes_length_le size, httpBuildRequest_eq heap size, ?_⟩
  intro plain
  have read (value : List UInt8 → List UInt8) :=
    readRequest_requestText value body (requestFields_separable body plain)
  constructor
  · refine ⟨_, read behindSpace, ?_⟩
    have same : (requestFields host headers body.length).map
        (fun f => (f.1, behindSpace (0x20 :: f.2))) = requestFields host headers body.length :=
      List.map_id'' (fun f => rfl) _
    rw [same]
    exact requestFields_recovers method host path headers body
  · refine ⟨_, read trimBlanks, ?_⟩
    rw [requestFields_trim]
    exact requestFields_recovers method _ path _ body

theorem httpBuildRequest_recovers_get :
    ∃ r, readRequest behindSpace (requestBytes (literal "GET") (literal "h") (literal "/p")
        [(literal "Accept", literal "*/*")] []) = some r ∧
      Recovers (literal "GET") (literal "h") (literal "/p") [(literal "Accept", literal "*/*")] []
        r := by
  have plain : Separable (literal "GET") (literal "/p")
      [(literal "Host", literal "h"), (literal "Accept", literal "*/*")] :=
    .of_all (by decide) (by decide)
  exact ((@httpBuildRequest_recovers Heap.roomy (literal "GET") (literal "h") (literal "/p")
    [(literal "Accept", literal "*/*")] [] (by decide)).2.2 plain).1

/-- A given length stands before that of the body: a reader of `Content-Length: 0` finds no
body where `abc` was sent. -/
theorem not_frames_given : ¬∀ (method host path body : List UInt8)
    (headers : List (List UInt8 × List UInt8)) (bytes : List UInt8),
    httpBuildRequest .roomy (some method) (some host) (some path) headers body body.length =
      .value bytes →
    Separable method path ((literal "Host", host) :: headers) →
    ∃ r, readRequest behindSpace bytes = some r ∧ Frames body r := by
  intro all
  have plain : Separable (literal "POST") (literal "/p")
      [(literal "Host", literal "h"), (literal "Content-Length", literal "0")] :=
    .of_all (by decide) (by decide)
  have built : httpBuildRequest .roomy (some (literal "POST")) (some (literal "h"))
      (some (literal "/p")) [(literal "Content-Length", literal "0")] (literal "abc")
      (literal "abc").length = .value (literal ("POST /p HTTP/1.1\r\nHost: h\r\n" ++
        "Content-Length: 0\r\nContent-Length: 3\r\n\r\nabc")) := by
    decide +kernel
  obtain ⟨r, read, frames⟩ := all _ _ _ _ _ _ built plain
  have content : (readRequest behindSpace (literal ("POST /p HTTP/1.1\r\nHost: h\r\n" ++
      "Content-Length: 0\r\nContent-Length: 3\r\n\r\nabc"))).map Request.content =
        some (some []) := by
    decide +kernel
  rw [read, Option.map_some, frames.content] at content
  exact absurd content (by decide)

/-- The request of `test_http`. -/
example : httpBuildRequest Heap.roomy (some (literal "GET")) (some (literal "graph.instagram.com"))
    (some (literal "/me/media?fields=id"))
    [(literal "Accept", literal "application/json"), (literal "Connection", literal "close")] [] 0 =
      .value (literal ("GET /me/media?fields=id HTTP/1.1\r\nHost: graph.instagram.com\r\n" ++
        "Accept: application/json\r\nConnection: close\r\n\r\n")) := by
  decide +kernel

end InstagramNt40.Http
