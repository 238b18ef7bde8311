import InstagramNt40.Net.IgHeaders
import InstagramNt40.Net.PrintfC99

/-!
# The fresh headers of a request

Each fresh value fits its slice with its NUL, whatever the clock and the random bytes are, so
that no value is cut off and none reaches into the next one.
-/
namespace InstagramNt40.IgPrivate

open Ascii Crt Printf Loop
open Http1 (decimalText decimalText_spec decimalText_short decimalText_length_le)

/-! ### Printing into a slice -/

/-- What lies below `k` has not changed. -/
theorem pointsTo_below {mem mem' s : List UInt8} {p k : Nat} (h : PointsTo mem p s)
    (below : p + s.length < k) (same : mem'.take k = mem.take k) : PointsTo mem' p s := by
  obtain ⟨pre, post, rfl, rfl, plain⟩ := h
  have start : pre ++ (s ++ [0]) <+: pre ++ (s ++ 0 :: post) := ⟨post, by simp⟩
  have short : (pre ++ (s ++ [0])).length ≤ k := by
    rw [List.length_append, List.length_append, List.length_singleton]
    omega
  have kept := List.prefix_take_iff.mpr ⟨start, short⟩
  rw [← same] at kept
  obtain ⟨post', rfl⟩ := (List.prefix_take_iff.mp kept).1
  exact ⟨pre, post', by simp, rfl, plain⟩

/-- A text that is shorter than its slice is stored with its NUL, and the rest of the memory
is left alone. -/
theorem snprintfAt_stores {mem fmt text : List UInt8} {args : List Arg} {p n : Nat}
    (printed : Printf.Mem.output fmt args = .ok text) (plain : 0 ∉ text) (room : text.length < n)
    (inside : p + n ≤ mem.length) :
    ∃ mem', snprintfAt mem p n fmt args = some mem' ∧ mem'.length = mem.length ∧
      PointsTo mem' p text ∧ mem'.take p = mem.take p := by
  have size : ((mem.drop p).take n).length = n := by
    rw [List.length_take, List.length_drop]
    omega
  have start : (mem.take p).length = p := by
    rw [List.length_take]
    omega
  have stored := Printf.Mem.vsnprintf_eq ((mem.drop p).take n) fmt args
  rw [printed] at stored
  have whole := stored_eq (show text.length < ((mem.drop p).take n).length by omega)
  unfold snprintfAt
  rw [if_pos inside, stored]
  dsimp only [Except.map]
  rw [whole, terminated]
  refine ⟨_, rfl, ?_, ⟨mem.take p, ((mem.drop p).take n).drop (text.length + 1) ++
    mem.drop (p + n), ?_, start.symm, ?_⟩, List.take_left' start⟩
  · simp only [List.length_append, List.length_cons, List.length_drop, size, start]
    omega
  · rw [List.append_assoc, List.cons_append]
  · rintro b member rfl
    exact plain member

/-! ### Carving -/

/-- The value prints `text`, which fits its slice with its NUL. -/
structure Fits (v : Value) (text : List UInt8) : Prop where
  printed : Printf.Mem.output v.format v.args = .ok text
  plain : 0 ∉ text
  room : text.length < v.size
  slice : v.size ≤ v.slice

/-- Where the values stand, the first one at `s`. -/
def places : List Value → Nat → List Nat
  | [], _ => []
  | v :: values, s => s :: places values (s + v.slice)

def total (values : List Value) : Nat := (values.map Value.slice).sum

/-- Each value can be read at its place, and what lies before the first one is unchanged. -/
theorem carve_stores {values : List Value} {texts : List (List UInt8)}
    (fits : List.Forall₂ Fits values texts) {s : Nat} {scratch : List UInt8}
    (inside : s + total values ≤ scratch.length) :
    ∃ scratch', carve values s scratch = some (places values s, scratch') ∧
      scratch'.length = scratch.length ∧ scratch'.take s = scratch.take s ∧
      List.Forall₂ (PointsTo scratch') (places values s) texts := by
  induction fits generalizing s scratch with
  | nil => exact ⟨scratch, rfl, rfl, rfl, .nil⟩
  | @cons v text values texts first others ih =>
    -- the first value is printed, and the others behind its slice leave it alone
    have sum : total (v :: values) = v.slice + total values := List.sum_cons
    have := first.slice
    have := first.room
    obtain ⟨mem, stored, size, here, below⟩ := snprintfAt_stores first.printed first.plain
      first.room (show s + v.size ≤ scratch.length by omega)
    obtain ⟨scratch', carved, size', kept, there⟩ := @ih (s + v.slice) mem (by omega)
    refine ⟨scratch', ?_, size'.trans size, ?_, .cons ?_ there⟩
    · rw [carve, stored, Option.bind_eq_bind, Option.bind_some, carved]
      rfl
    · have shorter := congrArg (List.take s) kept
      rw [List.take_take, List.take_take, Nat.min_eq_left (Nat.le_add_right _ _)] at shorter
      exact shorter.trans below
    · exact pointsTo_below here (by omega) kept

/-- The NUL of a value lies below the place of every later one. -/
theorem places_apart {values : List Value} {texts : List (List UInt8)}
    (fits : List.Forall₂ Fits values texts) (s : Nat) :
    (∀ v ∈ (places values s).zip texts, s ≤ v.1) ∧
      ((places values s).zip texts).Pairwise fun v w => v.1 + v.2.length < w.1 := by
  induction fits generalizing s with
  | nil => exact ⟨List.forall_mem_nil _, .nil⟩
  | @cons v text values texts first _ ih =>
    obtain ⟨above, apart⟩ := ih (s + v.slice)
    have := first.slice
    have := first.room
    rw [places, List.zip_cons_cons]
    refine ⟨List.forall_mem_cons.mpr ⟨le_refl s, fun w later => ?_⟩, .cons (fun w later => ?_) apart⟩
    · exact (Nat.le_add_right _ _).trans (above w later)
    · have := above w later
      dsimp only
      omega

/-! ### The seven values -/

/-- The two digits of a byte. -/
def hexByte (b : UInt8) : List UInt8 := [hexDigit (b >>> 4), hexDigit (b &&& 0xF)]

/-- The random bytes with the version 4 and the variant 10. -/
def versioned (b : Nat → UInt8) : Nat → UInt8 :=
  let b := Function.update b 6 ((b 6 &&& 0x0F) ||| 0x40)
  Function.update b 8 ((b 8 &&& 0x3F) ||| 0x80)

/-- The digits of the bytes `i`, …, `j - 1`. -/
def hexBytes (b : Nat → UInt8) (i j : Nat) : List UInt8 :=
  (List.range' i (j - i)).flatMap fun k => hexByte (b k)

/-- The random bytes in groups of 4, 2, 2, 2 and 6. -/
def uuidText (b : Nat → UInt8) : List UInt8 :=
  let b := versioned b
  hexBytes b 0 4 ++ 0x2D :: (hexBytes b 4 6 ++ 0x2D :: (hexBytes b 6 8 ++
    0x2D :: (hexBytes b 8 10 ++ 0x2D :: hexBytes b 10 16)))

/-- The hyphen before the byte `i`. -/
def hyphen (i : Nat) : List UInt8 := if i = 4 ∨ i = 6 ∨ i = 8 ∨ i = 10 then [0x2D] else []

/-- The text of the first `i` bytes. -/
def uuidStart (b : Nat → UInt8) (i : Nat) : List UInt8 :=
  (List.range i).flatMap fun k => hyphen k ++ hexByte (b k)

theorem uuidStart_succ (b : Nat → UInt8) (i : Nat) :
    uuidStart b (i + 1) = uuidStart b i ++ (hyphen i ++ hexByte (b i)) := by
  simp [uuidStart, List.range_succ]

/-- There are four hyphens. -/
theorem uuidStart_length (b : Nat → UInt8) {i : Nat} (few : i ≤ 16) :
    (uuidStart b i).length ≤ 2 * i + 4 := by
  have lengths : (uuidStart b i).length =
      ((List.range i).map fun k => (hyphen k).length + 2).sum := by
    simp [uuidStart, List.length_flatMap, hexByte]
  -- the lengths do not depend on the bytes
  have all : ∀ i : Fin 17,
      ((List.range i).map fun k => (hyphen k).length + 2).sum ≤ 2 * i.val + 4 := by decide
  rw [lengths]
  exact all ⟨i, Nat.lt_succ_of_le few⟩

theorem putChar_room {cap : Nat} {out : List UInt8} (room : out.length < cap) (c : UInt8) :
    putChar cap out c = some (out ++ [c]) := if_pos room

theorem uuidText_eq (b : Nat → UInt8) : uuidText b = uuidStart (versioned b) 16 := rfl

/-- The body of the loop of `ig_uuid4`. -/
def uuidByte (b : Nat → UInt8) (i : Nat) (out : List UInt8) : Option (List UInt8) := do
  let out ← (if i = 4 ∨ i = 6 ∨ i = 8 ∨ i = 10 then putChar 37 out 0x2D else pure out)
  let out ← putChar 37 out (hexDigit (b i >>> 4))
  putChar 37 out (hexDigit (b i &&& 0xF))

/-- The array of 37 bytes has room for a hyphen and the digits of a byte. -/
theorem uuidByte_stores (b : Nat → UInt8) {i : Nat} (few : i < 16) :
    uuidByte b i (uuidStart b i) = some (uuidStart b (i + 1)) := by
  have size := uuidStart_length b (i := i) (by omega)
  have first : (if i = 4 ∨ i = 6 ∨ i = 8 ∨ i = 10 then putChar 37 (uuidStart b i) 0x2D
      else pure (uuidStart b i)) = some (uuidStart b i ++ hyphen i) := by
    unfold hyphen
    split_ifs
    · exact putChar_room (by omega) _
    · exact congrArg some (List.append_nil _).symm
  have short : (hyphen i).length ≤ 1 := by
    unfold hyphen
    split_ifs <;> simp
  rw [uuidByte, first, Option.bind_eq_bind, Option.bind_some,
    putChar_room (by rw [List.length_append]; omega), Option.bind_some,
    putChar_room (by rw [List.length_append, List.length_append, List.length_singleton]; omega),
    uuidStart_succ]
  simp [hexByte]

/-- It also has room for the whole text and its NUL. -/
theorem igUuid4_eq (b : Nat → UInt8) : igUuid4 b = some (uuidText b ++ [0]) := by
  have start : uuidStart (versioned b) 0 = [] := rfl
  obtain ⟨out, run, rfl⟩ := @forLoop_succeeds _ (fun i out => out = uuidStart (versioned b) i) 16
    (uuidByte (versioned b)) [] start.symm
    fun i few out text => ⟨_, by rw [text]; exact uuidByte_stores (versioned b) few, rfl⟩
  have last : (uuidStart (versioned b) 16).length = 36 := rfl
  have room : (uuidStart (versioned b) 16).length < 37 := by
    rw [last]
    decide
  rw [uuidText_eq, ← putChar_room room]
  exact congrArg (fun out => out >>= fun out => putChar 37 out 0) run

theorem uuidText_length (b : Nat → UInt8) : (uuidText b).length = 36 := rfl

/-- A number, a point and three digits. -/
def thousandthsText (a b : UInt32) : List UInt8 :=
  decimalText a.toNat ++ 0x2E :: padded true 3 (decimalText b.toNat)

theorem printed_unsigned (zeros width : Nat) (v : UInt32) :
    Number.printed ⟨zeros, width, .l, .u, v⟩ =
      padded (0 < zeros) width (decimalText v.toNat) := by
  have unsigned : ¬Number.signed ⟨zeros, width, .l, .u, v⟩ := by simp [Number.signed]
  rw [Number.printed, Number.sign_unsigned unsigned, List.nil_append, Number.digits]
  dsimp only
  rw [Number.natAbs_unsigned unsigned]

theorem padded_zero (zeroPad : Bool) (ds : List UInt8) : padded zeroPad 0 ds = ds := by
  rw [padded, Nat.zero_sub]
  rfl

theorem output_number (v : UInt32) :
    Printf.Mem.output (literal "%lu") [.word v] = .ok (decimalText v.toNat) := by
  have format : literal "%lu" = formatOf [.number ⟨0, 0, .l, .u, v⟩] := rfl
  have printed := output_formatOf [.number ⟨0, 0, .l, .u, v⟩]
    (List.forall_mem_singleton.mpr (show 0 < 2 ^ 31 by decide))
  rw [← format, List.flatMap_singleton, Piece.printed, printed_unsigned, padded_zero] at printed
  exact printed

theorem output_thousandths (a b : UInt32) :
    Printf.Mem.output (literal "%lu.%03lu") [.word a, .word b] = .ok (thousandthsText a b) := by
  let pieces : List Piece :=
    [.number ⟨0, 0, .l, .u, a⟩, .byte 0x2E (by decide), .number ⟨1, 3, .l, .u, b⟩]
  have format : literal "%lu.%03lu" = formatOf pieces := by rfl
  have narrow : ∀ piece ∈ pieces, piece.Narrow := by
    intro piece member
    simp only [pieces, List.mem_cons, List.not_mem_nil, or_false] at member
    rcases member with rfl | rfl | rfl
    · exact (by decide : 0 < 2 ^ 31)
    · trivial
    · exact (by decide : 3 < 2 ^ 31)
  have printed := output_formatOf pieces narrow
  rw [← format] at printed
  refine printed.trans (congrArg Except.ok ?_)
  simp only [pieces, List.flatMap_cons, List.flatMap_nil, Piece.printed, printed_unsigned,
    padded_zero, List.append_nil]
  rfl

theorem output_session (uuid : List UInt8) :
    Printf.Mem.output (literal "UFS-%s-1") [.str (some uuid)] =
      .ok (literal "UFS-" ++ (cstr uuid 0 ++ literal "-1")) := by
  let pieces : List Piece :=
    [.byte 0x55 (by decide), .byte 0x46 (by decide), .byte 0x53 (by decide), .byte 0x2D (by decide),
      .string uuid, .byte 0x2D (by decide), .byte 0x31 (by decide)]
  have format : literal "UFS-%s-1" = formatOf pieces := by rfl
  have narrow : ∀ piece ∈ pieces, piece.Narrow := by
    intro piece member
    simp only [pieces, List.mem_cons, List.not_mem_nil, or_false] at member
    rcases member with rfl | rfl | rfl | rfl | rfl | rfl | rfl <;> trivial
  have printed := output_formatOf pieces narrow
  rw [← format] at printed
  refine printed.trans (congrArg Except.ok ?_)
  simp only [pieces, List.flatMap_cons, List.flatMap_nil, Piece.printed, List.append_nil]
  rfl

/-! ### The values fit -/

theorem igRandRange_bounds {lo hi : UInt32} (v : UInt32) (le : lo.toNat ≤ hi.toNat)
    (less : hi.toNat < 2 ^ 32 - 1) :
    lo.toNat ≤ (igRandRange v lo hi).toNat ∧ (igRandRange v lo hi).toNat ≤ hi.toNat := by
  have width : (hi - lo + 1).toNat = hi.toNat - lo.toNat + 1 := by
    rw [UInt32.toNat_add, UInt32.toNat_sub]
    simp only [UInt32.reduceToNat]
    omega
  have rest : (v % (hi - lo + 1)).toNat < hi.toNat - lo.toNat + 1 := by
    rw [UInt32.toNat_mod, width]
    exact Nat.mod_lt _ (Nat.succ_pos _)
  rw [igRandRange, UInt32.toNat_add, Nat.mod_eq_of_lt (by omega)]
  omega

theorem plain_of_digits {s : List UInt8} (digits : ∀ b ∈ s, IsDigit b) : 0 ∉ s :=
  fun member => absurd (digits 0 member) (by decide)

theorem decimalText_isDigit (n : Nat) : ∀ b ∈ decimalText n, IsDigit b := (decimalText_spec n).2.1

theorem padded_isDigit (n width : Nat) : ∀ b ∈ padded true width (decimalText n), IsDigit b := by
  intro b member
  rcases List.mem_append.mp member with zero | digit
  · rw [(List.mem_replicate.mp zero).2]
    decide
  · exact decimalText_isDigit n b digit

theorem padded_length {n : Nat} (small : n < 1000) :
    (padded true 3 (decimalText n)).length = 3 := by
  have := decimalText_short (n := n) (k := 3) (by decide) small
  rw [padded, List.length_append, List.length_replicate]
  omega

theorem decimal_padded (n width : Nat) : decimal (padded true width (decimalText n)) = n := by
  rw [padded, if_pos rfl, decimal_zeros]
  exact (decimalText_spec n).2.2

theorem thousandthsText_plain (a b : UInt32) : 0 ∉ thousandthsText a b := by
  rw [thousandthsText, List.mem_append, List.mem_cons, not_or, not_or]
  exact ⟨plain_of_digits (decimalText_isDigit _), by decide,
    plain_of_digits (padded_isDigit _ _)⟩

theorem thousandthsText_length (a : UInt32) {b : UInt32} (small : b.toNat < 1000) :
    (thousandthsText a b).length ≤ 14 := by
  have := decimalText_length_le a.toNat_lt
  rw [thousandthsText, List.length_append, List.length_cons, padded_length small]
  omega

theorem hexDigit_ne_zero {i : UInt8} (small : i.toNat < 16) : hexDigit i ≠ 0 := by
  have all : ∀ k : Fin 16, (literal "0123456789abcdef").getD k 0 ≠ 0 := by decide
  exact all ⟨i.toNat, small⟩

theorem hexByte_plain (b : UInt8) : 0 ∉ hexByte b := by
  have high : (b >>> 4).toNat < 16 := by
    have := b.toNat_lt
    have shifted : (b >>> 4).toNat = b.toNat / 16 := by
      rw [UInt8.toNat_shiftRight, Nat.shiftRight_eq_div_pow]
      rfl
    omega
  have low : (b &&& 0xF).toNat < 16 := by
    rw [UInt8.toNat_and]
    exact Nat.lt_succ_of_le Nat.and_le_right
  rw [hexByte, List.mem_pair, not_or]
  exact ⟨(hexDigit_ne_zero high).symm, (hexDigit_ne_zero low).symm⟩

theorem uuidText_plain (b : Nat → UInt8) : 0 ∉ uuidText b := by
  rw [uuidText_eq, uuidStart, List.mem_flatMap]
  rintro ⟨k, -, member⟩
  rcases List.mem_append.mp member with hyphens | digits
  · unfold hyphen at hyphens
    split_ifs at hyphens
    · exact absurd (List.mem_singleton.mp hyphens) (by decide)
    · cases hyphens
  · exact hexByte_plain _ digits

/-- A fresh header: its name, its place in `scratch` and the text there. -/
structure Fresh where
  name : List UInt8
  place : Nat
  text : List UInt8

def sessionText (b : Nat → UInt8) : List UInt8 :=
  literal "UFS-" ++ (uuidText b ++ literal "-1")

/-- The fresh headers in their order, with everything that their formats print. -/
def freshHeaders (nowMs : UInt64) (d : Draws) : List Fresh :=
  [⟨literal "X-Pigeon-Session-Id", 0, sessionText d.uuid⟩,
    ⟨literal "X-Pigeon-Rawclienttime", 64,
      thousandthsText (nowMs / 1000).toUInt32 (nowMs % 1000).toUInt32⟩,
    ⟨literal "X-IG-Bandwidth-Speed-KBPS", 96,
      thousandthsText (igRandRange d.speed 2500 3000) (igRandRange d.thousandths 0 999)⟩,
    ⟨literal "X-IG-Bandwidth-TotalBytes-B", 112,
      decimalText (igRandRange d.totalBytes 5000000 90000000).toNat⟩,
    ⟨literal "X-IG-Bandwidth-TotalTime-MS", 128,
      decimalText (igRandRange d.totalTime 2000 9000).toNat⟩,
    ⟨literal "X-IG-SALT-IDS", 144,
      decimalText (igRandRange d.salt 1061162222 1061262222).toNat⟩,
    ⟨literal "X-CM-Latency", 160, decimalText (igRandRange d.latency 1 5).toNat⟩]

theorem fits_number {v : UInt32} {n : Nat} (room : (decimalText v.toNat).length < n) :
    Fits ⟨n, n, literal "%lu", [.word v]⟩ (decimalText v.toNat) :=
  ⟨output_number v, plain_of_digits (decimalText_isDigit _), room, le_refl n⟩

theorem fits_wide (v : UInt32) :
    Fits ⟨16, 16, literal "%lu", [.word v]⟩ (decimalText v.toNat) :=
  fits_number (Nat.lt_of_le_of_lt (decimalText_length_le v.toNat_lt) (by decide))

theorem fits_thousandths (a : UInt32) {b : UInt32} (small : b.toNat < 1000) {n : Nat}
    (room : 14 < n) :
    Fits ⟨n, n, literal "%lu.%03lu", [.word a, .word b]⟩ (thousandthsText a b) :=
  ⟨output_thousandths a b, thousandthsText_plain a b,
    Nat.lt_of_le_of_lt (thousandthsText_length a small) room, le_refl n⟩

theorem fits_session (b : Nat → UInt8) :
    Fits ⟨64, 64, literal "UFS-%s-1", [.str (some (uuidText b ++ [0]))]⟩ (sessionText b) where
  printed := by
    have text : cstr (uuidText b ++ [0]) 0 = uuidText b := by
      rw [cstr_append (uuidText_plain b)]
      exact List.append_nil _
    rw [output_session, text, sessionText]
  plain := by
    rw [sessionText, List.mem_append, List.mem_append, not_or, not_or]
    exact ⟨by decide, uuidText_plain b, by decide⟩
  room := by
    have size : (sessionText b).length = 42 := by
      rw [sessionText, List.length_append, List.length_append, uuidText_length]
      decide
    rw [size]
    exact (by decide : 42 < 64)
  slice := le_refl 64

/-- Whatever is drawn, each value fits its slice. -/
theorem freshValues_fit (nowMs : UInt64) (d : Draws) :
    List.Forall₂ Fits (freshValues (uuidText d.uuid ++ [0]) nowMs d)
      ((freshHeaders nowMs d).map Fresh.text) := by
  have millis : (nowMs % 1000).toUInt32.toNat < 1000 := by
    have := Nat.mod_lt nowMs.toNat (show 0 < 1000 by decide)
    simp only [UInt64.toNat_toUInt32, UInt64.toNat_mod, UInt64.reduceToNat]
    omega
  have fraction : (igRandRange d.thousandths 0 999).toNat < 1000 :=
    Nat.lt_succ_of_le (igRandRange_bounds d.thousandths (by decide) (by decide)).2
  have latency : (igRandRange d.latency 1 5).toNat < 10 ^ 1 :=
    Nat.lt_of_le_of_lt (igRandRange_bounds d.latency (by decide) (by decide)).2 (by decide)
  refine .cons (fits_session d.uuid) (.cons (fits_thousandths _ millis (by decide))
    (.cons (fits_thousandths _ fraction (by decide)) (.cons (fits_wide _) (.cons (fits_wide _)
      (.cons (fits_wide _) (.cons (fits_number ?_) .nil))))))
  exact Nat.lt_of_le_of_lt (decimalText_short (by decide) latency) (by decide)

/-! ### Entries -/

/-- A header of the session, without compression. -/
def staticHeader (h : List UInt8 × List UInt8) : HttpHeader :=
  ⟨h.1, .constant (if Http1.SameText (cstr h.1 0) (literal "Accept-Encoding")
    then literal "identity" else h.2)⟩

theorem ciEq_eq (a : List UInt8) {b : List UInt8} (plain : 0 ∉ b) :
    ciEq a b = decide (Http1.SameText (cstr a 0) b) := by
  have whole : cstr b 0 = b := cstr_whole plain
  rw [Bool.eq_iff_iff, decide_eq_true_iff, ciEq, whole]
  refine Http.ciEq_iff (cstr_plain a 0) ?_ [] []
  rintro c member rfl
  exact plain member

theorem putHeader_room {cap : Int} {out : List HttpHeader} (room : (out.length : Int) < cap)
    (h : HttpHeader) : putHeader cap out h = some (out ++ [h]) := if_pos room

/-- The loop writes as many headers of the session as there is room for. -/
theorem staticLoop_eq (cap : Int) (statics : List (List UInt8 × List UInt8))
    (out : List HttpHeader) :
    staticLoop cap statics out =
      some (out ++ (statics.map staticHeader).take (cap - out.length).toNat) := by
  induction statics generalizing out with
  | nil => simp [staticLoop]
  | cons h statics ih =>
    obtain ⟨name, value⟩ := h
    rw [staticLoop]
    by_cases room : (out.length : Int) < cap
    · obtain ⟨k, count⟩ : ∃ k, (cap - out.length).toNat = k + 1 :=
        ⟨(cap - out.length).toNat - 1, by omega⟩
      have next : (cap - (out ++ [staticHeader (name, value)]).length).toNat = k := by
        rw [List.length_append, List.length_singleton]
        omega
      have entry : (⟨name, .constant (if ciEq name (literal "Accept-Encoding")
          then literal "identity" else value)⟩ : HttpHeader) = staticHeader (name, value) := by
        simp only [staticHeader, ciEq_eq name (show 0 ∉ literal "Accept-Encoding" by decide),
          decide_eq_true_eq]
      rw [if_pos room]
      dsimp only
      rw [entry, putHeader_room room, Option.bind_eq_bind, Option.bind_some, ih, next, count,
        List.map_cons, List.take_succ_cons, List.append_assoc]
      rfl
    · have full : (cap - out.length).toNat = 0 := by omega
      rw [if_neg room, full, List.take_zero, List.append_nil]

/-- The entries of the fresh headers are written where there is room for all of them. -/
theorem putHeaders_room {cap : Int} {fresh : List (List UInt8 × Nat)} {out : List HttpHeader}
    (room : (out.length + fresh.length : Nat) ≤ cap) :
    fresh.foldlM (fun out (h : List UInt8 × Nat) => putHeader cap out ⟨h.1, .scratch h.2⟩) out =
      some (out ++ fresh.map fun h => ⟨h.1, .scratch h.2⟩) := by
  induction fresh generalizing out with
  | nil => simp
  | cons h fresh ih =>
    rw [List.length_cons] at room
    rw [List.foldlM_cons, putHeader_room (by omega), Option.bind_eq_bind, Option.bind_some,
      ih (by rw [List.length_append, List.length_singleton]; omega), List.append_assoc]
    rfl

/-! ### All headers -/

def Fresh.header (f : Fresh) : HttpHeader := ⟨f.name, .scratch f.place⟩

/-- Seconds, a point and three digits that make `ms` milliseconds. -/
def ReadsMillis (text : List UInt8) (ms : Nat) : Prop :=
  ∃ sec frac, text = sec ++ 0x2E :: frac ∧ sec ≠ [] ∧ frac.length = 3 ∧
    (∀ b ∈ sec ++ frac, IsDigit b) ∧ decimal sec * 1000 + decimal frac = ms

theorem thousandthsText_reads {nowMs : UInt64} (clock : nowMs.toNat / 1000 < 2 ^ 32) :
    ReadsMillis (thousandthsText (nowMs / 1000).toUInt32 (nowMs % 1000).toUInt32)
      nowMs.toNat := by
  have below := Nat.mod_lt nowMs.toNat (show 0 < 1000 by decide)
  have seconds : (nowMs / 1000).toUInt32.toNat = nowMs.toNat / 1000 := by
    simp only [UInt64.toNat_toUInt32, UInt64.toNat_div, UInt64.reduceToNat]
    exact Nat.mod_eq_of_lt clock
  have millis : (nowMs % 1000).toUInt32.toNat = nowMs.toNat % 1000 := by
    simp only [UInt64.toNat_toUInt32, UInt64.toNat_mod, UInt64.reduceToNat]
    omega
  obtain ⟨some, digits, value⟩ := decimalText_spec (nowMs.toNat / 1000)
  refine ⟨_, _, rfl, ?_, ?_, ?_, ?_⟩
  · rwa [seconds]
  · rw [millis]
    exact padded_length below
  · rw [seconds, millis]
    exact fun b member => (List.mem_append.mp member).elim (digits b) (padded_isDigit _ _ b)
  · rw [seconds, millis, decimal_padded, value]
    omega

/-- The values are carved out of `scratch`, and each can be read at its place. -/
theorem carve_fresh (nowMs : UInt64) (d : Draws) {scratch : List UInt8}
    (room : 224 ≤ scratch.length) :
    ∃ scratch', carve (freshValues (uuidText d.uuid ++ [0]) nowMs d) 0 scratch =
        some ((freshHeaders nowMs d).map Fresh.place, scratch') ∧
      scratch'.length = scratch.length ∧
      ∀ f ∈ freshHeaders nowMs d, PointsTo scratch' f.place f.text := by
  have inside : 0 + total (freshValues (uuidText d.uuid ++ [0]) nowMs d) ≤ scratch.length :=
    Nat.le_trans (show 168 ≤ 224 by decide) room
  obtain ⟨scratch', carved, size, -, there⟩ := carve_stores (freshValues_fit nowMs d) inside
  refine ⟨scratch', carved, size, ?_⟩
  have places : places (freshValues (uuidText d.uuid ++ [0]) nowMs d) 0 =
      (freshHeaders nowMs d).map Fresh.place := rfl
  rw [places, List.forall₂_map_left_iff, List.forall₂_map_right_iff, List.forall₂_same] at there
  exact there

theorem freshHeaders_apart (nowMs : UInt64) (d : Draws) :
    (freshHeaders nowMs d).Pairwise fun f g => f.place + f.text.length < g.place := by
  have apart := (places_apart (freshValues_fit nowMs d) 0).2
  have pairs : (places (freshValues (uuidText d.uuid ++ [0]) nowMs d) 0).zip
      ((freshHeaders nowMs d).map Fresh.text) =
      (freshHeaders nowMs d).map fun f => (f.place, f.text) := rfl
  rw [pairs, List.pairwise_map] at apart
  exact apart

/-- Without room for all headers only those of the session are written, as far as there is
room for them. Else the fresh headers follow, each with its whole value at a place of its own
in `scratch`. No store is outside of `out` or `scratch`. -/
theorem igBuildHeaders_fresh (statics : List (List UInt8 × List UInt8)) (outCap scratchCap : Int)
    (scratch : List UInt8) (size : scratch.length = scratchCap.toNat) (ticks : UInt64)
    (clock : (igNowMs ticks).toNat / 1000 < 2 ^ 32) (d : Draws) :
    ∃ out scratch', igBuildHeaders statics outCap scratch scratchCap ticks d =
        some (out, scratch') ∧
      out.length ≤ outCap.toNat ∧ scratch'.length = scratch.length ∧
      ((scratchCap < 224 ∨ outCap < statics.length + 7) ∧
          out = (statics.map staticHeader).take outCap.toNat ∧ scratch' = scratch ∨
        ¬(scratchCap < 224 ∨ outCap < statics.length + 7) ∧
          out = statics.map staticHeader ++
            (freshHeaders (igNowMs ticks) d).map Fresh.header ∧
          (∀ f ∈ freshHeaders (igNowMs ticks) d, PointsTo scratch' f.place f.text) ∧
          ((freshHeaders (igNowMs ticks) d).Pairwise fun f g =>
            f.place + f.text.length < g.place) ∧
          ∃ f ∈ freshHeaders (igNowMs ticks) d, f.name = literal "X-Pigeon-Rawclienttime" ∧
            ReadsMillis f.text (igNowMs ticks).toNat) := by
  have statics_ := staticLoop_eq outCap statics []
  rw [List.nil_append, List.length_nil, Nat.cast_zero, Int.sub_zero] at statics_
  have few : ((statics.map staticHeader).take outCap.toNat).length =
      min outCap.toNat statics.length := by
    rw [List.length_take, List.length_map]
  unfold igBuildHeaders
  rw [statics_, Option.bind_eq_bind, Option.bind_some]
  dsimp only
  rw [few]
  have count : igFreshHeadersCount = 7 := rfl
  by_cases short : scratchCap < 224 ∨ outCap < statics.length + 7
  · -- what counts is how many headers of the session there are, not how many were written:
    -- where some did not fit, seven more do not either
    refine ⟨_, scratch, ?_, ?_, rfl, .inl ⟨short, rfl, rfl⟩⟩
    · rw [if_pos (by omega)]
      rfl
    · omega
  · obtain ⟨scratch', carved, size', there⟩ :=
      carve_fresh (igNowMs ticks) d (show 224 ≤ scratch.length by omega)
    have all : (statics.map staticHeader).take outCap.toNat = statics.map staticHeader :=
      List.take_of_length_le (by rw [List.length_map]; omega)
    have room : ((statics.map staticHeader).length +
        (freshNames.zip ((freshHeaders (igNowMs ticks) d).map Fresh.place)).length : Nat) ≤
        outCap := by
      have seven : (freshNames.zip ((freshHeaders (igNowMs ticks) d).map Fresh.place)).length = 7 :=
        rfl
      rw [seven, List.length_map]
      omega
    have entries := putHeaders_room room
    refine ⟨_, scratch', ?_, ?_, size', .inr ⟨short, rfl, there, freshHeaders_apart _ _, ?_⟩⟩
    · rw [if_neg (by omega), all, igUuid4_eq, Option.bind_eq_bind, Option.bind_some, carved,
        Option.bind_eq_bind, Option.bind_some]
      dsimp only
      rw [entries]
      rfl
    · have seven : ((freshHeaders (igNowMs ticks) d).map Fresh.header).length = 7 := rfl
      rw [List.length_append, List.length_map, seven]
      omega
    · exact ⟨_, .tail _ (.head _), rfl, thousandthsText_reads clock⟩

/-- One header of the session, in November 2023. -/
theorem igBuildHeaders_fresh_eight :
    ∃ out scratch', igBuildHeaders [(literal "accept-encoding", literal "gzip")] 8
        (List.replicate 256 0) 256 133444736000000000 ⟨fun _ => 0, 0, 0, 0, 0, 0, 0⟩ =
          some (out, scratch') ∧
      out.head? = some ⟨literal "accept-encoding", .constant (literal "identity")⟩ ∧
      out.length = 8 ∧ PointsTo scratch' 64 (literal "1700000000.000") := by
  obtain ⟨out, scratch', run, -, -, ⟨short, -⟩ | ⟨-, rfl, there, -⟩⟩ := igBuildHeaders_fresh
    [(literal "accept-encoding", literal "gzip")] 8 256 (List.replicate 256 0) List.length_replicate
    133444736000000000 (by decide) ⟨fun _ => 0, 0, 0, 0, 0, 0, 0⟩
  · exact absurd short (by decide)
  · refine ⟨_, scratch', run, by decide, rfl, ?_⟩
    have time := there _ (.tail _ (.head _))
    have text : thousandthsText (igNowMs 133444736000000000 / 1000).toUInt32
        (igNowMs 133444736000000000 % 1000).toUInt32 = literal "1700000000.000" := by decide
    rwa [← text]

end InstagramNt40.IgPrivate
