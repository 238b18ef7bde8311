import InstagramNt40.Core.ChunkSafety
import InstagramNt40.Core.HttpRoundTrip

/-!
# Declared lengths

The accumulators of `parse_long` and `dechunk` are 32-bit signed integers without an
overflow check. A declared length is honoured exactly as long as it fits.
-/
namespace InstagramNt40.Http

open Ascii Http1 Scanner

/-- The range of a 32-bit signed integer. -/
def InInt (n : Int) : Prop := -2 ^ 31 ≤ n ∧ n < 2 ^ 31

instance : DecidablePred InInt := fun n => by unfold InInt; infer_instance

/-- The values that a digit loop computes from the accumulator `n` on, before they are
stored: a product and a sum for each digit. -/
def accumulated (base : Int) (value : UInt8 → Int) : List UInt8 → Int → List Int
  | [], _ => []
  | c :: s, n =>
    n * base :: (n * base + value c) :: accumulated base value s (wrap32 (n * base + value c))

/-- The value of a digit in `parse_long`. -/
def decimalValue (c : UInt8) : Int := (c.toNat : Int) - 0x30

/-- The value of a digit in `dechunk`. -/
def hexValue (c : UInt8) : Int := (chunkDigit c).getD 0

/-- The accumulator only grows, so all its values are in range exactly if the last one is. -/
theorem accumulated_inInt_iff (base : Nat) {value : UInt8 → Int} {digit : UInt8 → Nat}
    (positive : 0 < base) {ds : List UInt8} (digits : ∀ d ∈ ds, value d = digit d) (n : Nat)
    (start : n < 2 ^ 31) :
    (∀ v ∈ accumulated base value ds n, InInt v) ↔
      ds.foldl (fun n d => n * base + digit d) n < 2 ^ 31 := by
  induction ds generalizing n with
  | nil => simpa [accumulated] using start
  | cons d ds ih =>
    rw [List.forall_mem_cons] at digits
    have step : (n : Int) * base + value d = (n * base + digit d : Nat) := by
      rw [digits.1]
      push_cast
      rfl
    have grows := foldl_digits_le base digit positive ds (n * base + digit d)
    have product : (n : Int) * base = (n * base : Nat) := by push_cast; rfl
    rw [List.foldl_cons, accumulated, step, product, List.forall_mem_cons, List.forall_mem_cons]
    unfold InInt at ih ⊢
    by_cases fits : n * base + digit d < 2 ^ 31
    · rw [wrap32_small fits, ih digits.2 _ fits]
      omega
    · constructor
      · rintro ⟨-, ⟨-, below⟩, -⟩
        omega
      · intro below
        omega

theorem decimalValue_eq {d : UInt8} (digit : IsDigit d) :
    decimalValue d = ((d.toNat - 0x30 : Nat) : Int) := by
  have low := UInt8.le_iff_toNat_le.mp digit.1
  simp only [UInt8.reduceToNat] at low
  unfold decimalValue
  omega

theorem hexValue_eq (d : UInt8) : hexValue d = ((hexVal d).getD 0 : Nat) := by
  unfold hexValue
  rw [chunkDigit_eq]
  cases hexVal d <;> rfl

/-! ### Content lengths -/

/-- The body is as long as the digits say, or as long as there are bytes, and the digits
are read within the range of an `int`. -/
def LengthHonoured (data : List UInt8) (head : HeadRead) (value : List UInt8) : Prop :=
  (∃ r, httpParseResponse data = some r ∧
    r.bodyLen = min (decimal value) head.rest.length) ∧
    ∀ v ∈ accumulated 10 decimalValue value 0, InInt v

theorem clampLength_eq (n remaining : Nat) : clampLength n remaining = min n remaining := by
  unfold clampLength
  dsimp only
  split_ifs <;> omega

theorem parseLong_digits {value : List UInt8} (digits : ∀ b ∈ value, IsDigit b)
    (small : decimal value < 2 ^ 31) : wrap32 (parseLong value) = decimal value := by
  have parsed : parseLong value = decimal value := by
    by_cases empty : value = []
    · subst empty
      rfl
    · have read := parseLong_decimal ⟨empty, digits, rfl⟩ [] (by simp) small
      rwa [List.append_nil] at read
  rw [parsed, wrap32_small small]

theorem lengthHonoured_iff {data value : List UInt8} {head : HeadRead}
    (accepted : readHead data = some head) (raw : ¬IsChunked head.headers)
    (declared : lookup head.headers Http1.contentLength = some value)
    (digits : ∀ b ∈ value, IsDigit b) :
    LengthHonoured data head value ↔ decimal value < 2 ^ 31 := by
  have range := accumulated_inInt_iff 10 (by decide)
    (fun d hd => decimalValue_eq (digits d hd)) 0 (by decide)
  unfold LengthHonoured
  constructor
  · rintro ⟨-, inRange⟩
    exact range.mp inRange
  · intro small
    obtain ⟨r, parsed, holds⟩ := (httpParseResponse_eq data).2 head accepted
    refine ⟨⟨r, parsed, ?_⟩, range.mpr small⟩
    rw [holds.bodyLen]
    unfold readBody
    rw [if_neg raw, declared]
    dsimp only
    rw [parseLong_digits digits small, clampLength_eq, List.length_take, Nat.min_assoc,
      Nat.min_self]

/-! ### Chunk sizes -/

/-- The chunk is as long as the digits say, or as long as there are bytes behind its line,
and the digits are read within the range of a `long`. -/
def ChunkHonoured (text out : List UInt8) (x : Cursor) (ds : List UInt8) : Prop :=
  (∃ taken y, dechunkStep (text.length + 1) out text x = .ok (some (out ++ taken)) y ∧
    taken <+: afterSize (rest text x) ∧
    taken.length = min (hexadecimal ds) (afterSize (rest text x)).length) ∧
    ∀ v ∈ accumulated 16 hexValue ds 0, InInt v

theorem chunkHonoured_iff {text out ds tail : List UInt8} {x : Cursor}
    (state : ChunkState text (text.length + 1) out x) (field : rest text x = ds ++ tail)
    (digits : ∀ b ∈ ds, IsHex b) (stop : ∀ b ∈ tail.head?, ¬IsHex b)
    (positive : 0 < hexadecimal ds) :
    ChunkHonoured text out x ds ↔ hexadecimal ds < 2 ^ 31 := by
  have range := accumulated_inInt_iff 16 (by decide)
    (fun d (_ : d ∈ ds) => hexValue_eq d) 0 (by decide)
  unfold ChunkHonoured
  constructor
  · rintro ⟨-, inRange⟩
    exact range.mp inRange
  · intro small
    obtain ⟨-, inside, room⟩ := state.bounds
    have run : (ds ++ tail).takeWhile isSizeDigit = ds :=
      takeWhile_append_stop (fun b hb => isSizeDigit_iff.mpr (digits b hb)) fun b hb =>
        Bool.eq_false_iff.mpr (mt isSizeDigit_iff.mp (stop b hb))
    have length : chunkLength (rest text x) = hexadecimal ds := by
      rw [chunkLength, field, run]
      exact sizeFrom_hexadecimal 0 small
    have left : rest text x ≠ [] := by
      rw [field]
      rintro empty
      rw [(List.append_eq_nil_iff.mp empty).1] at positive
      exact absurd positive (by decide)
    obtain ⟨s, y, step, -⟩ := dechunkStep_chunk inside room left (by rw [length]; omega)
    rw [length, Int.toNat_natCast] at step
    refine ⟨⟨_, y, step, List.take_prefix _ _, List.length_take⟩, range.mpr small⟩

theorem notHex_crlf : ∀ b ∈ (Crt.literal "\r\nhello").head?, ¬IsHex b := by
  intro b hb
  obtain rfl : 0x0D = b := Option.some.inj hb
  exact mt isSizeDigit_iff.mpr (by decide)

/-- In every response a content length, and in every state of the decoder a chunk size, is
honoured exactly if its value is below 2 ^ 31. -/
theorem lengthsHonoured_iff (data text : List UInt8) :
    (∀ head value, readHead data = some head → ¬IsChunked head.headers →
      lookup head.headers Http1.contentLength = some value → (∀ b ∈ value, IsDigit b) →
        (LengthHonoured data head value ↔ decimal value < 2 ^ 31)) ∧
    ∀ out x ds tail, ChunkState text (text.length + 1) out x → rest text x = ds ++ tail →
      (∀ b ∈ ds, IsHex b) → (∀ b ∈ tail.head?, ¬IsHex b) → 0 < hexadecimal ds →
        (ChunkHonoured text out x ds ↔ hexadecimal ds < 2 ^ 31) :=
  ⟨fun _ _ => lengthHonoured_iff, fun _ _ _ _ => chunkHonoured_iff⟩

theorem lengthsHonoured_iff_chunk :
    ChunkHonoured (Crt.literal "5\r\nhello") [] ⟨0, 0, 0⟩ (Crt.literal "5") :=
  ((lengthsHonoured_iff [] (Crt.literal "5\r\nhello")).2 [] ⟨0, 0, 0⟩ (Crt.literal "5")
    (Crt.literal "\r\nhello") .start (by decide)
    (fun b hb => isSizeDigit_iff.mp (List.all_eq_true.mp (by decide) b hb)) notHex_crlf
    (by decide)).mpr (by decide)

/-- A content length of 2 ^ 32 leaves a body of five bytes out, and a chunk size of
2 ^ 32 + 1 takes one of five. -/
theorem not_lengthsHonoured :
    ((httpParseResponse (Crt.literal ("HTTP/1.1 200 OK\r\nContent-Length: 4294967296\r\n\r\n" ++
      "hello"))).map fun r => (r.bodyLen, r.bodyBytes)) = some (0, []) ∧
    ((httpParseResponse (Crt.literal ("HTTP/1.1 200 OK\r\nTransfer-Encoding: chunked\r\n\r\n" ++
      "100000001\r\nhello"))).map fun r => (r.bodyLen, r.bodyBytes)) =
        some (1, Crt.literal "h") ∧
    ¬ChunkHonoured (Crt.literal "100000001\r\nhello") [] ⟨0, 0, 0⟩ (Crt.literal "100000001") := by
  refine ⟨by decide +kernel, by decide +kernel, ?_⟩
  have digits : ∀ b ∈ Crt.literal "100000001", isSizeDigit b = true :=
    List.all_eq_true.mp (by decide)
  rw [@chunkHonoured_iff _ _ _ (Crt.literal "\r\nhello") _ .start (by decide)
    (fun b hb => isSizeDigit_iff.mp (digits b hb)) notHex_crlf (by decide)]
  decide

end InstagramNt40.Http
