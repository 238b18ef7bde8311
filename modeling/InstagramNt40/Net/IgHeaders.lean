import InstagramNt40.Core.HttpView
import InstagramNt40.Library.Loop
import InstagramNt40.Net.IgPrivate
import InstagramNt40.Net.PrintfMemory

/-!
# net/ig_private.c, the headers

The headers of a request: those of the captured session, and seven fresh ones whose values
are printed into slices of `scratch`. A store outside of an array is the result `none`. The
clock and the random bytes are the system's.
-/
namespace InstagramNt40.IgPrivate

open Crt Printf Loop

/-- A `const char *`: a constant, or a place in `scratch`. -/
inductive Pointer where
  | constant (s : List UInt8)
  | scratch (p : Nat)
  deriving DecidableEq

structure HttpHeader where
  name : List UInt8
  value : Pointer
  deriving DecidableEq

/-- What the calls of `ig_random_bytes` return. -/
structure Draws where
  uuid : Nat → UInt8
  speed : UInt32
  thousandths : UInt32
  totalBytes : UInt32
  totalTime : UInt32
  salt : UInt32
  latency : UInt32

/-! ### Helpers -/

/-- `out[p++] = c` in an array of `cap` bytes. -/
def putChar (cap : Nat) (out : List UInt8) (c : UInt8) : Option (List UInt8) :=
  if out.length < cap then some (out ++ [c]) else none

/-- `hex[i]` -/
def hexDigit (i : UInt8) : UInt8 := (literal "0123456789abcdef").getD i.toNat 0

/-- `ig_uuid4`: the array `out`, from the 16 random bytes `b`. -/
def igUuid4 (b : Nat → UInt8) : Option (List UInt8) := do
  let b := Function.update b 6 ((b 6 &&& 0x0F) ||| 0x40)
  let b := Function.update b 8 ((b 8 &&& 0x3F) ||| 0x80)
  let out ← forLoop 16 (fun i out => do
    let out ← out
    let out ← (if i = 4 ∨ i = 6 ∨ i = 8 ∨ i = 10 then putChar 37 out 0x2D else pure out)
    let out ← putChar 37 out (hexDigit (b i >>> 4))
    putChar 37 out (hexDigit (b i &&& 0xF))) (some [])
  putChar 37 out 0

/-- `ig_now_ms`, from the 100 ns ticks of the system time. -/
def igNowMs (ticks : UInt64) : UInt64 := (ticks - 116444736000000000) / 10000

/-- `ci_eq`, a copy of the one in core/http.c, on two C strings. -/
def ciEq (a b : List UInt8) : Bool := Http.ciEq (cstr a 0 ++ [0]) (cstr b 0 ++ [0])

/-- `out[n++] = h` in an array of `cap` entries. -/
def putHeader (cap : Int) (out : List HttpHeader) (h : HttpHeader) : Option (List HttpHeader) :=
  if out.length < cap then some (out ++ [h]) else none

/-- `mbedtls_nt4_snprintf` into the `n` bytes from `p` on. -/
def snprintfAt (mem : List UInt8) (p n : Nat) (fmt : List UInt8) (args : List Arg) :
    Option (List UInt8) :=
  if p + n ≤ mem.length then
    match Printf.Mem.mbedtlsNt4Vsnprintf ((mem.drop p).take n) fmt args with
    | .ok (slice, _) => some (mem.take p ++ (slice ++ mem.drop (p + n)))
    | .error _ => none
  else none

/-! ### `ig_build_headers` -/

/-- The loop over `IG_STATIC_HEADERS`. -/
def staticLoop (outCap : Int) : List (List UInt8 × List UInt8) → List HttpHeader →
    Option (List HttpHeader)
  | [], out => some out
  | (name, value) :: statics, out =>
    if out.length < outCap then do
      -- there is no decoder for a compressed body
      let value := if ciEq name (literal "Accept-Encoding") then literal "identity" else value
      let out ← putHeader outCap out ⟨name, .constant value⟩
      staticLoop outCap statics out
    else some out

/-- `char *v = s; SLICE(slice); mbedtls_nt4_snprintf(v, size, format, …);` -/
structure Value where
  slice : Nat
  size : Nat
  format : List UInt8
  args : List Arg

def igFreshHeadersCount : Nat := 7

def freshNames : List (List UInt8) :=
  [literal "X-Pigeon-Session-Id", literal "X-Pigeon-Rawclienttime",
    literal "X-IG-Bandwidth-Speed-KBPS", literal "X-IG-Bandwidth-TotalBytes-B",
    literal "X-IG-Bandwidth-TotalTime-MS", literal "X-IG-SALT-IDS", literal "X-CM-Latency"]

/-- The fresh values, in the order of the code. -/
def freshValues (uuid : List UInt8) (nowMs : UInt64) (d : Draws) : List Value :=
  [⟨64, 64, literal "UFS-%s-1", [.str (some uuid)]⟩,
    ⟨32, 32, literal "%lu.%03lu",
      [.word (nowMs / 1000).toUInt32, .word (nowMs % 1000).toUInt32]⟩,
    ⟨16, 16, literal "%lu.%03lu",
      [.word (igRandRange d.speed 2500 3000), .word (igRandRange d.thousandths 0 999)]⟩,
    ⟨16, 16, literal "%lu", [.word (igRandRange d.totalBytes 5000000 90000000)]⟩,
    ⟨16, 16, literal "%lu", [.word (igRandRange d.totalTime 2000 9000)]⟩,
    ⟨16, 16, literal "%lu", [.word (igRandRange d.salt 1061162222 1061262222)]⟩,
    ⟨8, 8, literal "%lu", [.word (igRandRange d.latency 1 5)]⟩]

/-- The values one after the other, from `s` on: their places, and `scratch` afterwards. -/
def carve : List Value → Nat → List UInt8 → Option (List Nat × List UInt8)
  | [], _, scratch => some ([], scratch)
  | v :: values, s, scratch => do
    let scratch ← snprintfAt scratch s v.size v.format v.args
    let (places, scratch) ← carve values (s + v.slice) scratch
    pure (s :: places, scratch)

/-- `ig_build_headers`: the entries written to `out`, as many as it returns, and `scratch`
afterwards. -/
def igBuildHeaders (statics : List (List UInt8 × List UInt8)) (outCap : Int)
    (scratch : List UInt8) (scratchCap : Int) (ticks : UInt64) (d : Draws) :
    Option (List HttpHeader × List UInt8) := do
  let out ← staticLoop outCap statics []
  -- 224 bytes, although the slices take 168
  let need := igFreshHeadersCount * 32
  if scratchCap < need ∨ outCap < out.length + igFreshHeadersCount then pure (out, scratch)
  else
    let uuid ← igUuid4 d.uuid
    let (places, scratch) ← carve (freshValues uuid (igNowMs ticks) d) 0 scratch
    let out ← (freshNames.zip places).foldlM
      (fun out (name, p) => putHeader outCap out ⟨name, .scratch p⟩) out
    pure (out, scratch)

end InstagramNt40.IgPrivate
