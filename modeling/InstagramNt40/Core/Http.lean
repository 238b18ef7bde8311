import InstagramNt40.Library.Scanner
import InstagramNt40.Pal.Crt

/-!
# core/http.c

The HTTP response parser. The raw copy of the response is a block of memory that the
parser cuts into C strings in place; pointers are offsets into it. `int` and `long`
are 32 bits wide, as on the target, and wrap around. Allocation always succeeds.
-/
namespace InstagramNt40.Http

open Scanner Crt

/-- The value of a 32-bit signed integer after an overflow. -/
def wrap32 (n : Int) : Int := n.bmod (2 ^ 32)

/-! ### Small helpers -/

/-- `if (c >= 'A' && c <= 'Z') c += 32;` -/
def lowerByte (c : UInt8) : UInt8 := if 0x41 ≤ c ∧ c ≤ 0x5A then c + 32 else c

/-- The loop of `ci_eq` over the bytes from two pointers on. -/
def ciEq : List UInt8 → List UInt8 → Bool
  | ca :: a, cb :: b =>
    if lowerByte ca ≠ lowerByte cb then false
    -- both strings end here
    else if lowerByte ca = 0 then true
    else ciEq a b
  | _, _ => false

def isBlank (c : UInt8) : Bool := c == 0x20 || c == 0x09

def parseDigits : List UInt8 → Int → Int
  | [], n => n
  | c :: s, n =>
    if 0x30 ≤ c ∧ c ≤ 0x39 then parseDigits s (wrap32 (n * 10 + ((c.toNat : Int) - 0x30))) else n

/-- `parse_long` over the bytes from its argument on. -/
def parseLong (s : List UInt8) : Int :=
  match s.dropWhile isBlank with
  | [] => 0
  | c :: r =>
    -- one sign at most, and any digits after it
    if c = 0x2D then wrap32 (-parseDigits r 0)
    else if c = 0x2B then parseDigits r 0
    else parseDigits (c :: r) 0

/-! ### Chunked bodies -/

/-- The value of a hex digit of a chunk size. -/
def chunkDigit (c : UInt8) : Option Int :=
  if 0x30 ≤ c ∧ c ≤ 0x39 then some ((c.toNat : Int) - 0x30)
  else if 0x61 ≤ c ∧ c ≤ 0x66 then some ((c.toNat : Int) - 0x61 + 10)
  else if 0x41 ≤ c ∧ c ≤ 0x46 then some ((c.toNat : Int) - 0x41 + 10)
  else none

/-- The loop over the digits of a chunk size. -/
def chunkSize : Nat → Int → Scan Int
  | 0, clen => pure clen
  | fuel + 1, clen => do
    match ← peek with
    | none => pure clen
    | some c =>
      match chunkDigit c with
      | some d => do advance 1; chunkSize fuel (wrap32 (clen * 16 + d))
      | none => pure clen

def isCrLf (c : UInt8) : Bool := c == 0x0D || c == 0x0A

/-- A chunk-size line: the digits, then everything up to and with the next LF. -/
def chunkLine : Scan Int := do
  let rem := (← limit) - (← cursor)
  let clen ← chunkSize rem 0
  -- extension and CR, up to the LF
  skipWhile (· != 0x0A)
  let _ ← accept (· == 0x0A)
  pure clen

/-- The bytes of a chunk, as many as there are, and the line end after them. -/
def copyChunk (cap : Nat) (clen : Int) (out : List UInt8) : Scan (List UInt8) := do
  let p ← cursor
  let rem := (← limit) - p
  -- truncated safety
  let clen := if clen > rem then rem else clen.toNat
  let out ← emit cap out (← slice p clen)
  advance clen
  skipWhile isCrLf
  pure out

/-- The loop of `dechunk`. The cursor is `p`, and `rem` the bytes after it; `out` has
room for `cap` bytes. -/
def dechunkLoop (cap : Nat) : Nat → List UInt8 → Scan (List UInt8)
  | 0, _ => timeout
  | fuel + 1, out => do
    match ← peek with
    | none => pure out
    | some _ => do
      let clen ← chunkLine
      -- last chunk; a size that has wrapped to a negative number ends here too
      if clen ≤ 0 then pure out
      else do
        let out ← copyChunk cap clen out
        dechunkLoop cap fuel out

/-- The decoded bytes; `out[o] = 0` goes after them. -/
def dechunk (fuel : Nat) : Scan (List UInt8) := do
  let cap := (← limit) + 1
  let out ← dechunkLoop cap fuel []
  let _ ← emit cap out [0]
  pure out

/-! ### Responses -/

/-- `body` points into `raw`, or to the decoded copy that `body_owned` keeps. -/
inductive Body where
  | inRaw (p : Nat)
  | owned (decoded : List UInt8)
  deriving DecidableEq, Repr

/-- `HttpResponse`. `reason` is `none` for the literal `""`. -/
structure HttpResponse where
  status : Int
  reason : Option Nat
  headers : List (Nat × Nat)
  body : Body
  bodyLen : Nat
  raw : List UInt8
  deriving DecidableEq, Repr

def crlf : List UInt8 := [0x0D, 0x0A]

/-- The loop over the header lines: the memory it leaves, the headers and the start
of the body. -/
def headerLoop : Nat → List UInt8 → List (Nat × Nat) → Nat →
    Option (List UInt8 × List (Nat × Nat) × Nat)
  | 0, _, _, _ => none
  | fuel + 1, raw, headers, p =>
    match strstr raw p crlf with
    | none => none
    | some lineEnd =>
      -- blank line -> end of headers
      if lineEnd = p then some (raw, headers, p + 2)
      else
        -- the line end becomes a NUL before the colon is searched
        let raw := raw.set lineEnd 0
        match strchr raw p 0x3A with
        -- a line without a colon is dropped
        | none => headerLoop fuel raw headers (lineEnd + 2)
        | some colon =>
          let raw := raw.set colon 0
          let val := colon + 1 + ((raw.drop (colon + 1)).takeWhile isBlank).length
          headerLoop fuel raw (headers ++ [(p, val)]) (lineEnd + 2)

/-- `http_header`: the value of the first header of that name. -/
def httpHeader (raw : List UInt8) (headers : List (Nat × Nat)) (name : List UInt8) : Option Nat :=
  (headers.find? fun h => ciEq (raw.drop h.1) (name ++ [0])).map Prod.snd

/-- `"transfer-encoding"` -/
def transferEncoding : List UInt8 :=
  [0x74, 0x72, 0x61, 0x6E, 0x73, 0x66, 0x65, 0x72, 0x2D, 0x65, 0x6E, 0x63, 0x6F, 0x64, 0x69, 0x6E,
    0x67]

/-- `"content-length"` -/
def contentLength : List UInt8 :=
  [0x63, 0x6F, 0x6E, 0x74, 0x65, 0x6E, 0x74, 0x2D, 0x6C, 0x65, 0x6E, 0x67, 0x74, 0x68]

/-- `"chunked"` -/
def chunked : List UInt8 := [0x63, 0x68, 0x75, 0x6E, 0x6B, 0x65, 0x64]

/-- `te && ci_eq(te, "chunked")` -/
def isChunked (raw : List UInt8) (headers : List (Nat × Nat)) : Bool :=
  match httpHeader raw headers transferEncoding with
  | some te => ciEq (raw.drop te) (chunked ++ [0])
  | none => false

/-- The declared length `n`, clamped to the bytes there are. -/
def clampLength (n : Int) (remaining : Nat) : Nat :=
  let n := if n < 0 then 0 else n
  let n := if n > remaining then (remaining : Int) else n
  n.toNat

/-- The body framing: the `remaining` bytes from `p` on. -/
def frameBody (raw : List UInt8) (headers : List (Nat × Nat)) (p remaining : Nat) :
    Option (Body × Nat) :=
  -- chunked wins over a content length
  if isChunked raw headers then
    match dechunk (remaining + 1) ((raw.drop p).take remaining) ⟨0, 0, 0⟩ with
    | .ok decoded _ => some (.owned decoded, decoded.length)
    | _ => none
  else
    match httpHeader raw headers contentLength with
    | some cl => some (.inRaw p, clampLength (wrap32 (parseLong (raw.drop cl))) remaining)
    -- read until close
    | none => some (.inRaw p, remaining)

/-- The status line, cut at `eol`: the status and the start of the reason. -/
def statusLine (raw : List UInt8) : Option (Int × Option Nat) :=
  match strchr raw 0 0x20 with
  | none => none
  | some sp1 =>
    -- without a second space the reason is the literal
    some (wrap32 (parseLong (raw.drop (sp1 + 1))), (strchr raw (sp1 + 1) 0x20).map (· + 1))

/-- `http_parse_response`; `none` is the result -1. -/
def httpParseResponse (data : List UInt8) : Option HttpResponse :=
  if data.length < 12 then none
  else
    let raw := data ++ [0]
    match strstr raw 0 crlf with
    | none => none
    | some eol =>
      let raw := raw.set eol 0
      match statusLine raw with
      | none => none
      | some (status, reason) =>
        match headerLoop data.length raw [] (eol + 2) with
        | none => none
        | some (raw, headers, p) =>
          match frameBody raw headers p (data.length - p) with
          | none => none
          | some (body, bodyLen) => some { status, reason, headers, body, bodyLen, raw }

/-! ### What a response holds -/

def HttpResponse.reasonText (r : HttpResponse) : List UInt8 :=
  match r.reason with
  | some p => cstr r.raw p
  | none => []

/-- The headers as strings, in order. -/
def HttpResponse.headerList (r : HttpResponse) : List (List UInt8 × List UInt8) :=
  r.headers.map fun h => (cstr r.raw h.1, cstr r.raw h.2)

/-- The first `n` bytes of a body. -/
def Body.bytes (raw : List UInt8) (n : Nat) : Body → List UInt8
  | .inRaw p => (raw.drop p).take n
  | .owned decoded => decoded.take n

/-- The `body_len` bytes at `body`. -/
def HttpResponse.bodyBytes (r : HttpResponse) : List UInt8 := r.body.bytes r.raw r.bodyLen

end InstagramNt40.Http
