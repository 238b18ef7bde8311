import InstagramNt40.Core.JsonAccess
import InstagramNt40.Library.OwnedScanner
import InstagramNt40.Pal.Alloc

/-!
# The heap of core/json.c

The parser again, with every allocation it makes: each may fail. A node carries the
blocks it is made of, so that a block used or freed after it was freed is a fault, and
a block nobody carries any more is leaked. What the parser reads, and how, is in
`Json`; here is what it does with memory in between.
-/
namespace InstagramNt40.JsonHeap

open Scanner Ownership Alloc Json

/-- `struct JsonValue`. `keys` and `vals` are the two arrays; the slots in use are kept
as pairs, and their number is `count`. No slot from `count` on is ever read. -/
inductive Node where
  | mk (block : Block) (type : JsonType) (str : Option Buf) (slen : Nat) (boolean : Bool)
      (keys vals : Option Block) (children : List (Option Buf × Node))

namespace Node

def block : Node → Block
  | mk block .. => block

def type : Node → JsonType
  | mk _ type .. => type

def children : Node → List (Option Buf × Node)
  | mk _ _ _ _ _ _ _ children => children

end Node

/-- `node(t)`: the block is cleared. -/
def node (t : JsonType) : Proc (Option Node) := do
  match ← malloc with
  | none => pure none
  | some block => pure (some (.mk block t none 0 false none none []))

/-! ### Freeing -/

/-- `free(v->keys[i])`, where `v->keys` and the key are there. -/
def freeKey (keys : Option Block) (key : Option Buf) : Proc Unit :=
  match keys, key with
  | some keys, some key => do
    touch keys
    release key.block
  | _, _ => pure ()

mutual

def jsonFree : Node → Proc Unit
  | .mk block _ str _ _ keys vals children => do
    touch block
    free (str.map Buf.block)
    freeChildren block keys vals children
    free keys
    free vals
    release block

/-- The loop of `json_free`. -/
def freeChildren (block : Block) (keys vals : Option Block) :
    List (Option Buf × Node) → Proc Unit
  | [] => touch block
  | (key, val) :: children => do
    touch block
    freeKey keys key
    match vals with
    | none => fault
    | some cells => touch cells
    jsonFree val
    freeChildren block keys vals children

end

/-! ### Strings -/

/-- `if (x->p >= x->end || *x->p != '"') return NULL;` and the step over the quote. -/
def openQuote : Scan Unit := do
  match ← peek with
  | some b => if b = 0x22 then advance 1 else fail
  | none => fail

/-- The sizing scan: how many bytes are left, and how many to allocate. -/
def sizeString : Scan (Nat × Nat) := do
  let s ← cursor
  let left := (← limit) - s
  let scan ← scanQuote left s
  if scan ≥ (← limit) then fail else pure (left, scan - s + 1)

/-- Decode into a buffer of `cap` bytes, step over the closing quote and terminate. -/
def decodeString (left cap : Nat) : Scan (List UInt8) := do
  let out ← decodeLoop cap (left + 1) []
  match ← peek with
  | none => fail
  | some _ => do
    advance 1
    let _ ← emit cap out [0]
    pure out

def parseStringRaw (text : List UInt8) (x : Cursor) : Proc (Option (Buf × Cursor)) := do
  match ← scan openQuote text x with
  | none => pure none
  | some (_, x) =>
    match ← scan sizeString text x with
    | none => pure none
    | some ((left, cap), x) =>
      match ← malloc with
      | none => pure none
      | some out =>
        match ← scan (decodeString left cap) text x with
        | none => do
          free (some out)
          pure none
        | some (bytes, x) => pure (some (⟨out, bytes⟩, x))

def parseString (text : List UInt8) (x : Cursor) : Proc (Option (Node × Cursor)) := do
  match ← parseStringRaw text x with
  | none => pure none
  | some (s, x) =>
    match ← node .str with
    | none => do
      free (some s.block)
      pure none
    | some v => pure (some (.mk v.block .str (some s) s.bytes.length false none none [], x))

/-! ### Numbers and literals -/

/-- The scan over a number and the test of its length: where it starts and its length. -/
def numberSpan : Scan (Nat × Nat) := do
  let s ← cursor
  let _ ← accept (· == 0x2D)
  skipWhile isDigit
  skipFraction
  skipExponent
  let n := (← cursor) - s
  if n = 0 then fail
  else if n = 1 then do
    if (← deref s) = 0x2D then fail else pure (s, n)
  else pure (s, n)

def parseNumber (text : List UInt8) (x : Cursor) : Proc (Option (Node × Cursor)) := do
  match ← scan numberSpan text x with
  | none => pure none
  | some ((s, n), x) =>
    match ← node .num with
    | none => pure none
    | some v =>
      match ← malloc with
      | none => do
        free (some v.block)
        pure none
      | some str =>
        match ← scan (slice s n) text x with
        | none => fault
        | some (bytes, x) =>
          pure (some (.mk v.block .num (some ⟨str, bytes⟩) n false none none [], x))

/-- The test and the step of `parse_lit`. -/
def matchLit (lit : List UInt8) : Scan Unit := do
  let p ← cursor
  if (← limit) - p < lit.length then fail
  else if (← slice p lit.length) = lit then advance lit.length
  else fail

def parseLit (lit : List UInt8) (t : JsonType) (boolean : Bool) (text : List UInt8)
    (x : Cursor) : Proc (Option (Node × Cursor)) := do
  match ← scan (matchLit lit) text x with
  | none => pure none
  | some (_, x) =>
    match ← node t with
    | none => pure none
    | some v => pure (some (.mk v.block t none 0 boolean none none [], x))

/-! ### Arrays and objects -/

/-- `push_child`: whether it worked, and the parent. A refusal of the second array
leaves the first one grown. -/
def pushChild (parent : Node) (key : Option Buf) (child : Node) : Proc (Bool × Node) :=
  match parent with
  | .mk block type str slen boolean keys vals children => do
    touch block
    match ← realloc vals with
    | none => pure (false, .mk block type str slen boolean keys vals children)
    | some nv =>
      match key with
      | none => pure (true, .mk block type str slen boolean keys nv (children ++ [(key, child)]))
      | some _ =>
        match ← realloc keys with
        | none => pure (false, .mk block type str slen boolean keys nv children)
        | some nk =>
          pure (true, .mk block type str slen boolean nk nv (children ++ [(key, child)]))

/-- `json_free(v); return NULL;` -/
def giveUp (v : Node) : Proc (Option (Node × Cursor)) := do
  jsonFree v
  pure none

/-- `x->depth--` where a node is finished. -/
def leaveNode : Scan Unit := do
  setDepth ((← getDepth) - 1)
  closeScope

mutual

def parseValue (text : List UInt8) : Nat → Cursor → Proc (Option (Node × Cursor))
  | 0, _ => timeout
  | fuel + 1, x => do
    match ← scan (do skipWs; peek) text x with
    | some (some c, x) =>
      if c = 0x7B then parseObject text fuel x
      else if c = 0x5B then parseArray text fuel x
      else if c = 0x22 then parseString text x
      else if c = 0x74 then parseLit litTrue .bool true text x
      else if c = 0x66 then parseLit litFalse .bool false text x
      else if c = 0x6E then parseLit litNull .null false text x
      else if c = 0x2D ∨ isDigit c then parseNumber text x
      else pure none
    | _ => pure none

def parseArray (text : List UInt8) : Nat → Cursor → Proc (Option (Node × Cursor))
  | 0, _ => timeout
  | fuel + 1, x => do
    match ← scan (do advance 1; openNode) text x with
    | none => pure none
    | some (_, x) =>
      match ← node .arr with
      | none => pure none
      | some arr =>
        match ← scan (do skipWs; accept (· == 0x5D)) text x with
        | some (true, x) => do
          match ← scan leaveNode text x with
          | some (_, x) => pure (some (arr, x))
          | none => fault
        | some (false, x) => arrayItems text fuel arr x
        | none => fault

/-- The loop of `parse_array`. -/
def arrayItems (text : List UInt8) : Nat → Node → Cursor → Proc (Option (Node × Cursor))
  | 0, _, _ => timeout
  | fuel + 1, arr, x => do
    match ← parseValue text fuel x with
    | none => giveUp arr
    | some (item, x) =>
      match ← pushChild arr none item with
      | (false, arr) => do
        jsonFree item
        giveUp arr
      | (true, arr) =>
        match ← scan (do skipWs; peek) text x with
        | some (some c, x) =>
          if c = 0x2C then
            match ← scan (advance 1) text x with
            | some (_, x) => arrayItems text fuel arr x
            | none => fault
          else if c = 0x5D then
            match ← scan (do advance 1; leaveNode) text x with
            | some (_, x) => pure (some (arr, x))
            | none => fault
          else giveUp arr
        | _ => giveUp arr

def parseObject (text : List UInt8) : Nat → Cursor → Proc (Option (Node × Cursor))
  | 0, _ => timeout
  | fuel + 1, x => do
    match ← scan (do advance 1; openNode) text x with
    | none => pure none
    | some (_, x) =>
      match ← node .obj with
      | none => pure none
      | some obj =>
        match ← scan (do skipWs; accept (· == 0x7D)) text x with
        | some (true, x) => do
          match ← scan leaveNode text x with
          | some (_, x) => pure (some (obj, x))
          | none => fault
        | some (false, x) => objectMembers text fuel obj x
        | none => fault

/-- The loop of `parse_object`. -/
def objectMembers (text : List UInt8) : Nat → Node → Cursor → Proc (Option (Node × Cursor))
  | 0, _, _ => timeout
  | fuel + 1, obj, x => do
    match ← scan skipWs text x with
    | none => fault
    | some (_, x) =>
      match ← parseStringRaw text x with
      | none => giveUp obj
      | some (key, x) =>
        match ← scan (do skipWs; accept (· == 0x3A)) text x with
        | some (true, x) =>
          match ← parseValue text fuel x with
          | none => do
            free (some key.block)
            giveUp obj
          | some (val, x) =>
            match ← pushChild obj (some key) val with
            | (false, obj) => do
              free (some key.block)
              jsonFree val
              giveUp obj
            | (true, obj) =>
              match ← scan (do skipWs; peek) text x with
              | some (some c, x) =>
                if c = 0x2C then
                  match ← scan (advance 1) text x with
                  | some (_, x) => objectMembers text fuel obj x
                  | none => fault
                else if c = 0x7D then
                  match ← scan (do advance 1; leaveNode) text x with
                  | some (_, x) => pure (some (obj, x))
                  | none => fault
                else giveUp obj
              | _ => giveUp obj
        | _ => do
          free (some key.block)
          giveUp obj

end

def jsonParse (text : List UInt8) : Proc (Option Node) := do
  if text.length = 0 then pure none
  else do
    match ← parseValue text (parseFuel text.length) ⟨0, 0, 0⟩ with
    | none => pure none
    | some (v, x) =>
      match ← scan (do skipWs; cursor) text x with
      | none => fault
      | some (p, _) =>
        -- trailing garbage
        if p ≠ text.length then do
          jsonFree v
          pure none
        else pure (some v)

end InstagramNt40.JsonHeap
