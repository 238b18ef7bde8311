import InstagramNt40.Pal.Crt

/-!
# `mbedtls_nt4_vsnprintf` of net/mbedtls_platform_nt4.c

The variable arguments are slots of 32 bits, taken in order: `int`, `long` and pointers
are one, a `long long` is two. Taking a slot that is not there, or a word where a string
is, is undefined.
-/
namespace InstagramNt40.Printf

open Crt

inductive Arg where
  | word (w : UInt32)
  | str (s : Option (List UInt8))

/-- The slots of a 64-bit argument, the low word first. -/
def Arg.wide (v : UInt64) : List Arg := [.word v.toUInt32, .word (v >>> 32).toUInt32]

/-- What has been stored, and how many bytes would have been. -/
structure Out where
  buf : List UInt8
  pos : Nat
  deriving DecidableEq

/-- A round of the loop of `emit`. -/
def emitByte (cap : Nat) (out : Out) (b : UInt8) : Out :=
  ⟨if out.pos < cap then out.buf ++ [b] else out.buf, out.pos + 1⟩

def emit (cap : Nat) (out : Out) (s : List UInt8) : Out := s.foldl (emitByte cap) out

/-- The `do` loop of `emit_uint`: the digits, the last one first, into `room` bytes. -/
def uintDigits (hex : List UInt8) (base : UInt32) : Nat → UInt32 → List UInt8
  | 0, _ => []
  | room + 1, v =>
    hex.getD (v % base).toNat 0 ::
      if v / base ≠ 0 then uintDigits hex base room (v / base) else []

def emitUint (cap : Nat) (out : Out) (v base : UInt32) (upper : Bool) (width : Nat)
    (zeroPad : Bool) : Out :=
  let hex := if upper then literal "0123456789ABCDEF" else literal "0123456789abcdef"
  let digits := uintDigits hex base 32 v
  -- there is no padding if the digits fill the width
  let pad := width - digits.length
  let out := emit cap out (List.replicate pad (if zeroPad then 0x30 else 0x20))
  emit cap out digits.reverse

/-! ### Conversions -/

/-- `if (*p == c) p++;`, and whether it did. -/
def skipByte (c : UInt8) : List UInt8 → Bool × List UInt8
  | [] => (false, [])
  | b :: p => if b = c then (true, p) else (false, b :: p)

/-- The loop over the digits of the width. -/
def readWidth : List UInt8 → Nat → Nat × List UInt8
  | [], width => (width, [])
  | c :: p, width =>
    if 0x30 ≤ c ∧ c ≤ 0x39 then readWidth p (width * 10 + (c.toNat - 0x30)) else (width, c :: p)

/-- `va_arg` of an `int` or a `long`, which are the same. -/
def vaWord : List Arg → Option (UInt32 × List Arg)
  | .word w :: args => some (w, args)
  | _ => none

/-- `va_arg` of a string. -/
def vaString : List Arg → Option (Option (List UInt8) × List Arg)
  | .str s :: args => some (s, args)
  | _ => none

/-- The `switch` over the byte of a conversion. -/
def convert (cap : Nat) (out : Out) (zeroPad : Bool) (width : Nat) (c : UInt8)
    (args : List Arg) : Option (Out × List Arg) :=
  if c = 0x25 then some (emit cap out [0x25], args)
  else if c = 0x63 then do
    let (v, args) ← vaWord args
    some (emit cap out [v.toUInt8], args)
  else if c = 0x73 then do
    let (s, args) ← vaString args
    some (emit cap out (cstr (s.getD (literal "(null)")) 0), args)
  else if c = 0x64 ∨ c = 0x69 then do
    let (v, args) ← vaWord args
    -- the sign comes before the padding
    if v ≥ 0x80000000 then
      some (emitUint cap (emit cap out [0x2D]) (0 - v) 10 false width zeroPad, args)
    else some (emitUint cap out v 10 false width zeroPad, args)
  else if c = 0x75 then do
    let (v, args) ← vaWord args
    some (emitUint cap out v 10 false width zeroPad, args)
  else if c = 0x78 then do
    let (v, args) ← vaWord args
    some (emitUint cap out v 16 false width zeroPad, args)
  else if c = 0x58 then do
    let (v, args) ← vaWord args
    some (emitUint cap out v 16 true width zeroPad, args)
  else some (emit cap out [0x25, c], args)

/-- The loop over the format. -/
def formatLoop (cap : Nat) : Nat → List UInt8 → List Arg → Out → Option Out
  | 0, _, _, _ => none
  | _ + 1, [], _, out => some out
  | fuel + 1, c :: p, args, out =>
    if c ≠ 0x25 then formatLoop cap fuel p args (emit cap out [c])
    else
      let (zeroPad, p) := skipByte 0x30 p
      let (width, p) := readWidth p 0
      -- one `l` at most, then one `z`
      let (_, p) := skipByte 0x6C p
      let (_, p) := skipByte 0x7A p
      match p with
      | [] => some (emit cap out [0x25])
      | c :: p => do
        let (out, args) ← convert cap out zeroPad width c args
        formatLoop cap fuel p args out

/-- `mbedtls_nt4_snprintf` into a buffer of `n` bytes: the bytes before the NUL, and the
length it returns. -/
def mbedtlsNt4Snprintf (n : Nat) (fmt : List UInt8) (args : List Arg) : Option Out :=
  let cap := if n > 0 then n - 1 else 0
  formatLoop cap (fmt.length + 1) fmt args ⟨[], 0⟩

end InstagramNt40.Printf
