import InstagramNt40.Core.HttpView

/-!
# Allocations of core/http.c by their sizes

The response parser over a heap that grants or refuses an allocation by its size: the raw
copy, the header array at every header, and the buffer of `dechunk`. It returns what the
parser without a heap returns if all of them are granted, and -1 if one is refused.
-/
namespace InstagramNt40.HttpSized

open Crt Http

/-- `sizeof(HttpHeader)`: two pointers. -/
def headerSize : Nat := 8

/-- The loop over the header lines, which grows the array by one header at a time. -/
def headerLoop (heap : Heap) : Nat → List UInt8 → List (Nat × Nat) → Nat →
    Option (List UInt8 × List (Nat × Nat) × Nat)
  | 0, _, _, _ => none
  | fuel + 1, raw, headers, p =>
    match strstr raw p crlf with
    | none => none
    | some lineEnd =>
      if lineEnd = p then some (raw, headers, p + 2)
      else
        let raw := raw.set lineEnd 0
        match strchr raw p 0x3A with
        | none => headerLoop heap fuel raw headers (lineEnd + 2)
        | some colon =>
          let raw := raw.set colon 0
          let val := colon + 1 + ((raw.drop (colon + 1)).takeWhile isBlank).length
          if heap.grants (headerSize * (headers.length + 1)) then
            headerLoop heap fuel raw (headers ++ [(p, val)]) (lineEnd + 2)
          else none

/-- The body framing; only `dechunk` allocates. -/
def frameBody (heap : Heap) (raw : List UInt8) (headers : List (Nat × Nat)) (p remaining : Nat) :
    Option (Body × Nat) :=
  if isChunked raw headers ∧ ¬heap.grants (remaining + 1) then none
  else Http.frameBody raw headers p remaining

/-- `http_parse_response`; `none` is the result -1. -/
def httpParseResponse (heap : Heap) (data : List UInt8) : Option HttpResponse :=
  if data.length < 12 then none
  else if ¬heap.grants (data.length + 1) then none
  else
    let raw := data ++ [0]
    match strstr raw 0 crlf with
    | none => none
    | some eol =>
      let raw := raw.set eol 0
      match statusLine raw with
      | none => none
      | some (status, reason) =>
        match headerLoop heap data.length raw [] (eol + 2) with
        | none => none
        | some (raw, headers, p) =>
          match frameBody heap raw headers p (data.length - p) with
          | none => none
          | some (body, bodyLen) => some { status, reason, headers, body, bodyLen, raw }

/-! ### What is granted -/

/-- The header array is granted at every length from `n` headers up to `total`. -/
def HeadersGranted (heap : Heap) (n total : Nat) : Prop :=
  ∀ k, n ≤ k → k < total → heap.grants (headerSize * (k + 1)) = true

/-- The allocations for a response of `size` bytes with that head. -/
structure Granted (heap : Heap) (size : Nat) (head : HeadRead) : Prop where
  raw : heap.grants (size + 1) = true
  headers : HeadersGranted heap 0 head.headers.length
  body : Http1.IsChunked head.headers → heap.grants (head.rest.length + 1) = true

theorem headerLoop_none {heap : Heap} {fuel : Nat} {raw : List UInt8} {headers : List (Nat × Nat)}
    {p : Nat} (fails : Http.headerLoop fuel raw headers p = none) :
    headerLoop heap fuel raw headers p = none := by
  induction fuel generalizing raw headers p with
  | zero => rfl
  | succ fuel ih =>
    -- both loops take the same branch; this one may also end at the array
    unfold Http.headerLoop at fails
    unfold headerLoop
    cases line : strstr raw p crlf with
    | none => rfl
    | some lineEnd =>
      simp only [line] at fails ⊢
      by_cases blank : lineEnd = p
      · rw [if_pos blank] at fails
        cases fails
      rw [if_neg blank] at fails ⊢
      cases found : strchr (raw.set lineEnd 0) p 0x3A with
      | none =>
        simp only [found] at fails ⊢
        exact ih fails
      | some colon =>
        simp only [found] at fails ⊢
        split
        · exact ih fails
        · rfl

/-- The loop returns the headers exactly when the array is granted for each of them. -/
theorem headerLoop_some (heap : Heap) {fuel : Nat} {raw raw' : List UInt8}
    {headers headers' : List (Nat × Nat)} {p p' : Nat}
    (run : Http.headerLoop fuel raw headers p = some (raw', headers', p')) :
    headers.length ≤ headers'.length ∧
    (HeadersGranted heap headers.length headers'.length →
      headerLoop heap fuel raw headers p = some (raw', headers', p')) ∧
    (¬HeadersGranted heap headers.length headers'.length →
      headerLoop heap fuel raw headers p = none) := by
  induction fuel generalizing raw headers p with
  | zero => cases run
  | succ fuel ih =>
    unfold Http.headerLoop at run
    unfold headerLoop
    cases line : strstr raw p crlf with
    | none =>
      simp only [line] at run
      cases run
    | some lineEnd =>
      simp only [line] at run ⊢
      by_cases blank : lineEnd = p
      · -- no header is left, so none can be refused
        rw [if_pos blank] at run ⊢
        cases run
        refine ⟨Nat.le_refl _, fun _ => rfl, fun refused => absurd ?_ refused⟩
        intro k least most
        omega
      rw [if_neg blank] at run ⊢
      cases found : strchr (raw.set lineEnd 0) p 0x3A with
      | none =>
        simp only [found] at run ⊢
        exact ih run
      | some colon =>
        simp only [found] at run ⊢
        obtain ⟨longer, granted, refused⟩ := ih run
        rw [List.length_append, List.length_singleton] at longer granted refused
        refine ⟨by omega, fun all => ?_, fun notAll => ?_⟩
        -- the array for this header is granted like those after it
        · rw [if_pos (all _ (Nat.le_refl _) longer)]
          exact granted fun k least most => all k (by omega) most
        · split
          next first =>
            -- the refusal comes at a later header
            refine refused fun later => notAll fun k least most => ?_
            by_cases here : k = headers.length
            · rw [here]
              exact first
            · exact later k (by omega) most
          next => rfl

theorem frameBody_eq (heap : Heap) {raw : List UInt8} {headers : List (Nat × Nat)}
    (p remaining : Nat) {fields : List (List UInt8 × List UInt8)}
    (kept : List.Forall₂ (HeaderAt raw) headers fields) :
    ((Http1.IsChunked fields → heap.grants (remaining + 1) = true) →
      frameBody heap raw headers p remaining = Http.frameBody raw headers p remaining) ∧
    (¬(Http1.IsChunked fields → heap.grants (remaining + 1) = true) →
      frameBody heap raw headers p remaining = none) := by
  have chunked : isChunked raw headers = true ↔ Http1.IsChunked fields := by
    rw [isChunked_eq kept, decide_eq_true_iff]
  unfold frameBody
  constructor
  · intro granted
    rw [if_neg]
    exact fun ⟨framed, refused⟩ => refused (granted (chunked.mp framed))
  · intro refused
    obtain ⟨framed, no⟩ := Classical.not_imp.mp refused
    rw [if_pos ⟨chunked.mpr framed, no⟩]

/-- A response that cannot be read is not read with a smaller heap. -/
theorem httpParseResponse_none {heap : Heap} {data : List UInt8}
    (fails : Http.httpParseResponse data = none) : httpParseResponse heap data = none := by
  unfold Http.httpParseResponse at fails
  unfold httpParseResponse
  by_cases short : data.length < 12
  · rw [if_pos short]
  rw [if_neg short] at fails ⊢
  split
  · rfl
  dsimp only at fails ⊢
  cases status : strstr (data ++ [0]) 0 crlf with
  | none => rfl
  | some eol =>
    simp only [status] at fails ⊢
    cases line : statusLine ((data ++ [0]).set eol 0) with
    | none => rfl
    | some found =>
      simp only [line] at fails ⊢
      cases run : Http.headerLoop data.length ((data ++ [0]).set eol 0) [] (eol + 2) with
      | none => rw [headerLoop_none run]
      | some left =>
        -- the headers are there, so it is the framing that fails
        obtain ⟨raw, headers, p⟩ := left
        simp only [run] at fails
        cases framed : Http.frameBody raw headers p (data.length - p) with
        | some body =>
          simp only [framed, reduceCtorEq] at fails
        | none =>
          obtain ⟨-, granted, refused⟩ := headerLoop_some heap run
          rw [List.length_nil] at granted refused
          by_cases all : HeadersGranted heap 0 headers.length
          · rw [granted all]
            simp only [frameBody, framed, ite_self]
          · rw [refused all]

/-- The parser returns the response of `Http.httpParseResponse` if its allocations are
granted, and -1 if one of them is not or there is no head to read. -/
theorem httpParseResponse_eq (heap : Heap) (data : List UInt8) :
    (readHead data = none → httpParseResponse heap data = none) ∧
    ∀ head, readHead data = some head →
      (Granted heap data.length head → ∃ r, httpParseResponse heap data = some r ∧ Holds r head) ∧
      (¬Granted heap data.length head → httpParseResponse heap data = none) := by
  obtain ⟨noHead, someHead⟩ := httpParseResponse_steps data
  refine ⟨fun none => httpParseResponse_none (noHead none), fun head read => ?_⟩
  obtain ⟨r, eol, start, steps, holds, kept, left⟩ := someHead head read
  obtain ⟨-, granted, refused⟩ := headerLoop_some heap steps.headers
  obtain ⟨framed, unframed⟩ :=
    frameBody_eq heap start (data.length - start) kept
  rw [List.length_nil, kept.length_eq] at granted refused
  rw [left] at framed unframed
  have run := steps.body
  rw [left] at run
  -- the steps of the other parser, with the three allocations one after the other
  unfold httpParseResponse
  rw [if_neg steps.long]
  dsimp only
  rw [steps.status]
  dsimp only
  rw [steps.line]
  dsimp only
  by_cases raw : heap.grants (data.length + 1) = true
  case neg =>
    rw [if_pos raw]
    exact ⟨fun all => absurd all.raw raw, fun _ => rfl⟩
  rw [if_neg (not_not_intro raw)]
  by_cases headers : HeadersGranted heap 0 head.headers.length
  case neg =>
    rw [refused headers]
    exact ⟨fun all => absurd all.headers headers, fun _ => rfl⟩
  rw [granted headers]
  dsimp only
  rw [left]
  by_cases body : Http1.IsChunked head.headers → heap.grants (head.rest.length + 1) = true
  · rw [framed body, run]
    exact ⟨fun _ => ⟨r, rfl, holds⟩, fun no => absurd ⟨raw, headers, body⟩ no⟩
  · rw [unframed body]
    exact ⟨fun all => absurd all.body body, fun _ => rfl⟩

end InstagramNt40.HttpSized
