import InstagramNt40.Library.Scanner

/-!
# core/json.c

The recursive-descent JSON parser. The parser state `P` is the scanner's cursor:
`pos` is `x->p` as an offset into the text, the end pointer is the length of the
text, `depth` is `x->depth`, and a scope is an array or object node that has been
allocated and not yet returned. Allocation always succeeds.
-/
namespace InstagramNt40.Json

open Scanner

def jsonMaxDepth : Nat := 128

/-- `struct JsonValue`, one constructor for each `type`. `count` is the length of
the children; `keys[]` and `vals[]` are kept paired. The bytes of a string, key or
number are those before the terminating NUL the parser adds. -/
inductive JsonValue where
  | null
  | bool (boolean : Bool)
  | num (str : List UInt8) (slen : Nat)
  | str (str : List UInt8) (slen : Nat)
  | arr (vals : List JsonValue)
  | obj (members : List (List UInt8 × JsonValue))

def isWs (c : UInt8) : Bool := c == 0x20 || c == 0x09 || c == 0x0A || c == 0x0D

def isDigit (c : UInt8) : Bool := 0x30 ≤ c && c ≤ 0x39

def skipWs : Scan Unit := skipWhile isWs

/-! ### Strings -/

/-- The sizing scan: from `scan`, the index of the first quote that no backslash
skips, or an index at or past the end. -/
def scanQuote : Nat → Nat → Scan Nat
  | 0, scan => pure scan
  | fuel + 1, scan => do
    if scan < (← limit) then
      let b ← deref scan
      if b = 0x22 then pure scan
      -- the byte after a backslash is skipped unread; `scan` may pass the end
      else if b = 0x5C then scanQuote fuel (scan + 2)
      else scanQuote fuel (scan + 1)
    else pure scan

def hexDigit (h : UInt8) : Option UInt32 :=
  if 0x30 ≤ h ∧ h ≤ 0x39 then some (h - 0x30).toUInt32
  else if 0x61 ≤ h ∧ h ≤ 0x66 then some (h - 0x61 + 10).toUInt32
  else if 0x41 ≤ h ∧ h ≤ 0x46 then some (h - 0x41 + 10).toUInt32
  else none

/-- Read `n` more hex digits into `cp`. -/
def readHex : Nat → UInt32 → Scan UInt32
  | 0, cp => pure cp
  | n + 1, cp => do
    match ← peek with
    | none => fail
    | some h => do
      advance 1
      match hexDigit h with
      | some d => readHex n ((cp <<< 4) ||| d)
      | none => fail

def isHighSurrogate (cp : UInt32) : Bool := 0xD800 ≤ cp && cp ≤ 0xDBFF

/-- The code point of a pair, in wrapping 32-bit arithmetic: `lo` is not checked
to be a low surrogate. -/
def combineSurrogates (cp lo : UInt32) : UInt32 :=
  (0x10000 : UInt32) + ((cp - 0xD800) <<< (10 : UInt32)) + (lo - 0xDC00)

/-- Are the next two bytes a backslash and a `u`? -/
def atUnicodeEscape : Scan Bool := do
  let p ← cursor
  if (← limit) - p ≥ 2 then
    -- the `&&` reads the second byte only after the first was a backslash
    if (← deref p) = 0x5C then
      if (← deref (p + 1)) = 0x75 then pure true else pure false
    else pure false
  else pure false

def pairSurrogate (cp : UInt32) : Scan UInt32 :=
  if isHighSurrogate cp then do
    if ← atUnicodeEscape then
      -- the second escape must have four digits, but any value will do
      advance 2
      let lo ← readHex 4 0
      pure (combineSurrogates cp lo)
    else pure cp
  else pure cp

/-- `(char)(0x80 | (v & 0x3F))`. -/
def continuation (v : UInt32) : UInt8 := ((0x80 : UInt32) ||| (v &&& 0x3F)).toUInt8

/-- The bytes written for a decoded code point. -/
def putUtf8 (cp : UInt32) : List UInt8 :=
  if cp < 0x80 then [cp.toUInt8]
  else if cp < 0x800 then
    [((0xC0 : UInt32) ||| (cp >>> 6)).toUInt8, continuation cp]
  else if cp < 0x10000 then
    [((0xE0 : UInt32) ||| (cp >>> 12)).toUInt8, continuation (cp >>> 6), continuation cp]
  else
    [((0xF0 : UInt32) ||| (cp >>> 18)).toUInt8, continuation (cp >>> 12),
      continuation (cp >>> 6), continuation cp]

/-- The byte a one-letter escape stands for. -/
def shortEscape (e : UInt8) : Option UInt8 :=
  if e = 0x22 then some 0x22
  else if e = 0x5C then some 0x5C
  else if e = 0x2F then some 0x2F
  else if e = 0x62 then some 0x08
  else if e = 0x66 then some 0x0C
  else if e = 0x6E then some 0x0A
  else if e = 0x72 then some 0x0D
  else if e = 0x74 then some 0x09
  else none

/-- The `switch` over the byte after a backslash. -/
def decodeEscape (e : UInt8) : Scan (List UInt8) :=
  match shortEscape e with
  | some b => pure [b]
  | none =>
    if e = 0x75 then do
      let cp ← readHex 4 0
      let cp ← pairSurrogate cp
      pure (putUtf8 cp)
    else fail

def decodeLoop (cap : Nat) : Nat → List UInt8 → Scan (List UInt8)
  | 0, _ => timeout
  | fuel + 1, out => do
    match ← peek with
    | none => pure out
    | some c =>
      -- the closing quote is left for `parseStringBody`
      if c = 0x22 then pure out
      else if c ≠ 0x5C then do
        let out ← emit cap out [c]
        advance 1
        decodeLoop cap fuel out
      else do
        advance 1
        match ← peek with
        | none => fail
        | some e => do
          advance 1
          let bytes ← decodeEscape e
          let out ← emit cap out bytes
          decodeLoop cap fuel out

/-- After the opening quote: size the buffer, decode into it, step over the closing
quote and terminate the buffer. -/
def parseStringBody : Scan (List UInt8) := do
  let s ← cursor
  let left := (← limit) - s
  -- the buffer is sized to the raw bytes, which the decoded ones do not exceed
  let scan ← scanQuote left s
  if scan ≥ (← limit) then fail
  else do
    let cap := scan - s + 1
    let out ← decodeLoop cap (left + 1) []
    match ← peek with
    | none => fail
    | some _ => do
      advance 1
      let _ ← emit cap out [0]
      pure out

def parseStringRaw : Scan (List UInt8) := do
  match ← peek with
  | some b => if b = 0x22 then do advance 1; parseStringBody else fail
  | none => fail

def parseString : Scan JsonValue := do
  let s ← parseStringRaw
  pure (.str s s.length)

/-! ### Numbers and literals -/

/-- The optional exponent of a number. -/
def skipExponent : Scan Unit := do
  if ← accept (fun c => c == 0x65 || c == 0x45) then
    let _ ← accept (fun c => c == 0x2B || c == 0x2D)
    skipWhile isDigit
  else pure ()

/-- The optional fraction of a number. -/
def skipFraction : Scan Unit := do
  if ← accept (· == 0x2E) then skipWhile isDigit else pure ()

/-- The number that started at `s` and ends at the cursor; a minus sign alone is none. -/
def takeNumber (s : Nat) : Scan JsonValue := do
  let n := (← cursor) - s
  if n = 0 then fail
  -- one byte is a digit, or the minus sign alone
  else if n = 1 then do
    if (← deref s) = 0x2D then fail
    else
      let str ← slice s n
      pure (.num str n)
  else do
    let str ← slice s n
    pure (.num str n)

def parseNumber : Scan JsonValue := do
  let s ← cursor
  let _ ← accept (· == 0x2D)
  skipWhile isDigit
  skipFraction
  skipExponent
  takeNumber s

def parseLit (lit : List UInt8) (v : JsonValue) : Scan JsonValue := do
  let p ← cursor
  if (← limit) - p < lit.length then fail
  else if (← slice p lit.length) = lit then
    advance lit.length
    pure v
  else fail

def litTrue : List UInt8 := [0x74, 0x72, 0x75, 0x65]

def litFalse : List UInt8 := [0x66, 0x61, 0x6C, 0x73, 0x65]

def litNull : List UInt8 := [0x6E, 0x75, 0x6C, 0x6C]

/-! ### Values -/

/-- `if (++x->depth > JSON_MAX_DEPTH) return NULL;` and the allocation of the
array or object node. -/
def openNode : Scan Unit := do
  let d ← getDepth
  setDepth (d + 1)
  -- a failure leaves the counter as it is; nothing reads it again
  if d + 1 > jsonMaxDepth then fail else openScope jsonMaxDepth

/-- `x->depth--` and the return of the finished node. -/
def closeNode (v : JsonValue) : Scan JsonValue := do
  setDepth ((← getDepth) - 1)
  closeScope
  pure v

mutual

def parseValue : Nat → Scan JsonValue
  | 0 => timeout
  | fuel + 1 => do
    skipWs
    match ← peek with
    | none => fail
    | some c =>
      if c = 0x7B then parseObject fuel
      else if c = 0x5B then parseArray fuel
      else if c = 0x22 then parseString
      else if c = 0x74 then parseLit litTrue (.bool true)
      else if c = 0x66 then parseLit litFalse (.bool false)
      else if c = 0x6E then parseLit litNull .null
      else if c = 0x2D ∨ isDigit c then parseNumber
      else fail

def parseArray : Nat → Scan JsonValue
  | 0 => timeout
  | fuel + 1 => do
    advance 1
    openNode
    skipWs
    if ← accept (· == 0x5D) then closeNode (.arr [])
    else arrayItems fuel []

/-- The loop of `parse_array`; `vals` are the children pushed so far. -/
def arrayItems : Nat → List JsonValue → Scan JsonValue
  | 0, _ => timeout
  | fuel + 1, vals => do
    let item ← parseValue fuel
    let vals := vals ++ [item]
    skipWs
    match ← peek with
    | none => fail
    | some c =>
      -- after a comma `parse_value` must find another item
      if c = 0x2C then do advance 1; arrayItems fuel vals
      else if c = 0x5D then do advance 1; closeNode (.arr vals)
      else fail

def parseObject : Nat → Scan JsonValue
  | 0 => timeout
  | fuel + 1 => do
    advance 1
    openNode
    skipWs
    if ← accept (· == 0x7D) then closeNode (.obj [])
    else objectMembers fuel []

/-- The loop of `parse_object`; `members` are the pairs pushed so far. -/
def objectMembers : Nat → List (List UInt8 × JsonValue) → Scan JsonValue
  | 0, _ => timeout
  | fuel + 1, members => do
    skipWs
    let key ← parseStringRaw
    skipWs
    if ← accept (· == 0x3A) then
      let val ← parseValue fuel
      let members := members ++ [(key, val)]
      skipWs
      match ← peek with
      | none => fail
      | some c =>
        if c = 0x2C then do advance 1; objectMembers fuel members
        else if c = 0x7D then do advance 1; closeNode (.obj members)
        else fail
    else fail

end

/-- Fuel for a text of `len` bytes: the recursion passes through at most three
functions for each byte it consumes. -/
def parseFuel (len : Nat) : Nat := 3 * len + 3

def jsonParseWith (fuel : Nat) : Scan JsonValue := do
  if (← limit) = 0 then fail
  else do
    let v ← parseValue fuel
    skipWs
    -- trailing garbage
    if (← cursor) ≠ (← limit) then fail else pure v

def jsonParse (text : List UInt8) : Outcome JsonValue :=
  jsonParseWith (parseFuel text.length) text ⟨0, 0, 0⟩

end InstagramNt40.Json
