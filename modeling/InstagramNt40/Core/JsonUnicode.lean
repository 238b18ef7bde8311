import InstagramNt40.Core.JsonBuffer
import InstagramNt40.Core.JsonRoundTrip
import InstagramNt40.Library.Utf8

/-!
# Surrogates in `parse_string_raw`

A string decodes to well-formed UTF-8, and no escape is taken into another one's pair,
exactly if every surrogate that the literal spells belongs to a pair.
-/
namespace InstagramNt40.Json

open Scanner Rfc8259 Ascii

def IsLowSurrogate (cp : UInt32) : Prop := 0xDC00 ≤ cp.toNat ∧ cp.toNat ≤ 0xDFFF

/-- A raw byte, an escape that is no surrogate, or a high surrogate directly before a
low one. -/
inductive PairedPiece : List UInt8 → Prop
  | byte {b} : b ≠ 0x22 → b ≠ 0x5C → PairedPiece [b]
  | short {e b} : shortEscape e = some b → PairedPiece [0x5C, e]
  | unicode {s cp} : HexQuad s cp → isHighSurrogate cp = false → ¬IsLowSurrogate cp →
      PairedPiece (0x5C :: 0x75 :: s)
  | pair {s s' cp lo} : HexQuad s cp → isHighSurrogate cp = true → HexQuad s' lo →
      IsLowSurrogate lo → PairedPiece (0x5C :: 0x75 :: (s ++ 0x5C :: 0x75 :: s'))

/-- Bodies whose surrogates come in pairs. -/
inductive Paired : List UInt8 → Prop
  | nil : Paired []
  | append {s r} : PairedPiece s → Paired r → Paired (s ++ r)

/-- Of two `\u` escapes that are no pair, the loop takes the first alone. -/
def TakenAlone (text : List UInt8) (cap : Nat) (x : Cursor) : Prop :=
  ∀ out next y z s s' cp lo r, LoopState text cap x out y →
    rest text y = 0x5C :: 0x75 :: (s ++ 0x5C :: 0x75 :: (s' ++ r)) → HexQuad s cp →
    HexQuad s' lo → ¬(isHighSurrogate cp = true ∧ IsLowSurrogate lo) →
    decodeStep cap out text y = .ok (some next) z → z = y.forward 6

/-- What the literal `"body"` at `x`, decoded to `out`, promises. -/
structure EscapesCorrect (text : List UInt8) (x : Cursor) (body out : List UInt8) : Prop where
  utf8 : Utf8.WellFormed out
  alone : TakenAlone text (body.length + 1) (x.forward 1)

/-! ### Code points -/

theorem HexQuad.eq {s s' r r' : List UInt8} {cp cp' : UInt32} (quad : HexQuad s cp)
    (quad' : HexQuad s' cp') (same : s ++ r = s' ++ r') : cp = cp' ∧ r = r' := by
  obtain ⟨rfl, rest⟩ := List.append_inj same (quad.1.trans quad'.1.symm)
  exact ⟨Option.some.inj (quad.2.symm.trans quad'.2), rest⟩

theorem HexQuad.lt {s : List UInt8} {cp : UInt32} (quad : HexQuad s cp) : cp.toNat < 0x10000 := by
  obtain ⟨a, b, c, d, rfl, ⟨k, ha⟩, ⟨l, hb⟩, ⟨m, hc⟩, ⟨n, hd⟩⟩ := quad.bytes
  obtain ⟨cp', quad', value⟩ := hexQuad_of_hex4 ⟨a, b, c, d, k, l, m, n, rfl, ha, hb, hc, hd, rfl⟩
  obtain ⟨rfl, -⟩ := quad.eq (r := []) quad' rfl
  have := (hexDigit_val ha).1
  have := (hexDigit_val hb).1
  have := (hexDigit_val hc).1
  have := (hexDigit_val hd).1
  omega

theorem putUtf8_wellFormed {cp : UInt32}
    (scalar : cp.toNat < 0xD800 ∨ 0xDFFF < cp.toNat ∧ cp.toNat < 0x110000) :
    Utf8.WellFormed (putUtf8 cp) := by
  obtain ⟨c, rfl⟩ := Utf8.exists_char scalar
  rw [putUtf8_char rfl]
  exact .char c

/-- A code unit that is no surrogate is a character. -/
theorem HexQuad.wellFormed {s : List UInt8} {cp : UInt32} (quad : HexQuad s cp)
    (notHigh : isHighSurrogate cp = false) (notLow : ¬IsLowSurrogate cp) :
    Utf8.WellFormed (putUtf8 cp) := by
  have small := quad.lt
  rw [Bool.eq_false_iff, Ne, isHighSurrogate_iff] at notHigh
  unfold IsLowSurrogate at notLow
  apply putUtf8_wellFormed
  omega

/-- A pair is a character beyond the basic plane. -/
theorem combineSurrogates_wellFormed {cp lo : UInt32} (high : isHighSurrogate cp = true)
    (low : IsLowSurrogate lo) : Utf8.WellFormed (putUtf8 (combineSurrogates cp lo)) := by
  rw [isHighSurrogate_iff] at high
  unfold IsLowSurrogate at low
  have value : (combineSurrogates cp lo).toNat =
      0x10000 + (cp.toNat - 0xD800) * 0x400 + (lo.toNat - 0xDC00) := by
    apply combineSurrogates_toNat <;> omega
  apply putUtf8_wellFormed
  omega

/-- A surrogate is written as three bytes that no character has. -/
theorem putUtf8_surrogate {cp : UInt32} (low : 0xD800 ≤ cp.toNat) (top : cp.toNat ≤ 0xDFFF) :
    ∃ b c, putUtf8 cp = [0xED, b, c] ∧ ¬b < 0xA0 := by
  have shift6 := shiftRight_toNat cp (n := 6) (k := 6) rfl (by decide)
  have shift12 := shiftRight_toNat cp (n := 12) (k := 12) rfl (by decide)
  have lead := or_byte (i := 4) (a := 14) (m := 0xE0) (v := cp >>> 12) rfl (by omega)
  have block : cp.toNat / 2 ^ 12 = 13 := by omega
  rw [shift12, block] at lead
  refine ⟨continuation (cp >>> 6), continuation cp, ?_, ?_⟩
  · unfold putUtf8
    simp only [UInt32.lt_iff_toNat_lt, UInt32.reduceToNat]
    rw [if_neg (by omega), if_neg (by omega), if_pos (by omega), lead]
    rfl
  · rw [continuation_eq, shift6, UInt8.lt_iff_toNat_lt, Utf8.toNat_byte (by omega)]
    simp only [UInt8.reduceToNat]
    omega

/-- So a surrogate that stands for itself spoils the output. -/
theorem not_wellFormed_surrogate {cp : UInt32} {pre post : List UInt8} (low : 0xD800 ≤ cp.toNat)
    (top : cp.toNat ≤ 0xDFFF) : ¬Utf8.WellFormed (pre ++ (putUtf8 cp ++ post)) := by
  intro wellFormed
  obtain ⟨b, c, bytes, outside⟩ := putUtf8_surrogate low top
  have clean := wellFormed.noSurrogate
  rw [bytes] at clean
  exact outside clean.behind

/-! ### Paired bodies decode to UTF-8 -/

theorem HexQuad.ascii {s : List UInt8} {cp : UInt32} (quad : HexQuad s cp) : ∀ b ∈ s, b < 0x80 :=
  fun b member => (quad.hex b member).ascii

theorem shortEscape_ascii {e b : UInt8} (short : shortEscape e = some b) : e < 0x80 ∧ b < 0x80 := by
  rcases shortEscape_isShort short with rfl | rfl | rfl | rfl | rfl | rfl | rfl | rfl <;>
    cases short <;> decide

/-- A paired piece is a raw byte or is ASCII and decodes to UTF-8. -/
theorem PairedPiece.decodes {s : List UInt8} (piece : PairedPiece s) :
    (∃ b, s = [b] ∧ b ≠ 0x22 ∧ b ≠ 0x5C) ∨
      ∃ e s' bytes, s = 0x5C :: e :: s' ∧ (∀ post, Escape e s' bytes post) ∧
        (∀ b ∈ s, b < 0x80) ∧ Utf8.WellFormed bytes := by
  cases piece with
  | byte hq hb => exact .inl ⟨_, rfl, hq, hb⟩
  | @short e b short =>
    right
    obtain ⟨ascii, plain⟩ := shortEscape_ascii short
    refine ⟨e, [], [b], rfl, fun _ => .short short, ?_, Utf8.wellFormed_ascii plain⟩
    simp [ascii]
  | @unicode s cp quad notHigh notLow =>
    right
    refine ⟨_, s, _, rfl, fun _ => .unicode quad notHigh, ?_, quad.wellFormed notHigh notLow⟩
    simpa using quad.ascii
  | @pair s s' cp lo quad high quad' low =>
    right
    refine ⟨_, _, _, rfl, fun _ => .pair quad high quad', ?_, combineSurrogates_wellFormed high low⟩
    have first := quad.ascii
    have second := quad'.ascii
    intro b member
    simp only [List.mem_cons, List.mem_append] at member
    rcases member with rfl | rfl | member | rfl | rfl | member
    · decide
    · decide
    · exact first b member
    · decide
    · decide
    · exact second b member

theorem PairedPiece.piece {s : List UInt8} (piece : PairedPiece s) :
    ∃ bytes, ∀ post, Piece s bytes post := by
  rcases piece.decodes with ⟨b, rfl, hq, hb⟩ | ⟨e, s', bytes, rfl, escape, -, -⟩
  · exact ⟨[b], fun _ => .byte hq hb⟩
  · exact ⟨bytes, fun post => .escape (escape post)⟩

/-- Behind the raw bytes `pre` of an unfinished character. -/
theorem Paired.decoded {body : List UInt8} (paired : Paired body) (pre : List UInt8)
    (raw : Utf8.WellFormed (pre ++ body)) :
    ∃ out, Decoded body out ∧ Utf8.WellFormed (pre ++ out) := by
  induction paired generalizing pre with
  | nil => exact ⟨[], .nil, raw⟩
  | @append s r piece later ih =>
    rcases piece.decodes with ⟨b, rfl, hq, hb⟩ | ⟨e, s', bytes, rfl, escape, ascii, utf8⟩
    · -- a raw byte stays what it is, and the next piece may finish its character
      rw [← List.append_assoc] at raw
      obtain ⟨out, decoded, all⟩ := ih (pre ++ [b]) raw
      refine ⟨b :: out, .byte hq hb decoded, ?_⟩
      rwa [List.append_assoc] at all
    · -- an escape stands between two characters
      obtain ⟨before, after⟩ := raw.split_ascii (by simp) ascii
      obtain ⟨out, decoded, all⟩ := ih [] after
      exact ⟨bytes ++ out, .escape (escape r) decoded, before.append (utf8.append all)⟩

/-! ### The rounds -/

section Rounds

variable {text out : List UInt8} {k : Nat} {s y : Cursor}

/-- A round that starts with a piece takes it. -/
theorem LoopState.run_round (state : LoopState text (k + 1) s out y)
    (quote : closeQuote (rest text s) = some k) {p bytes r : List UInt8} (piece : Piece p bytes r)
    (left : rest text y = p ++ r) :
    decodeStep (k + 1) out text y = .ok (some (out ++ bytes)) (y.forward p.length) := by
  obtain ⟨j, here, away, written⟩ := state.bounds quote
  have short := piece.length_le
  rw [left, piece.closeQuote] at here
  obtain ⟨i, -, rfl⟩ := Option.map_eq_some_iff.mp here
  exact run_decodeStep piece left (by omega)

theorem LoopState.paired {body post : List UInt8} (state : LoopState text (k + 1) s out y)
    (quote : closeQuote (rest text s) = some k) (paired : Paired body)
    (left : rest text s = body ++ 0x22 :: post) :
    ∃ body', Paired body' ∧ rest text y = body' ++ 0x22 :: post := by
  induction state with
  | start => exact ⟨body, paired, left⟩
  | @round out _ y z state round ih =>
    obtain ⟨_, paired', left'⟩ := ih
    cases paired' with
    | nil =>
      rw [run_decodeStep_end left'] at round
      cases round
    | @append p r piece later =>
      obtain ⟨bytes, piece⟩ := piece.piece
      rw [List.append_assoc] at left'
      rw [state.run_round quote (piece _) left'] at round
      cases round
      exact ⟨r, later, rest_forward left'⟩

theorem Paired.takenAlone {body post : List UInt8} (paired : Paired body)
    (quote : closeQuote (rest text s) = some k) (left : rest text s = body ++ 0x22 :: post) :
    TakenAlone text (k + 1) s := by
  intro out next y z d d' cp lo r state here quad quad' noPair round
  obtain ⟨_, paired', left'⟩ := state.paired quote paired left
  cases paired' with
  | nil =>
    rw [here] at left'
    cases left'
  | @append p r' piece later =>
    obtain ⟨bytes, taken⟩ := piece.piece
    rw [List.append_assoc] at left'
    rw [state.run_round quote (taken _) left'] at round
    cases round
    rw [left'] at here
    cases piece with
    | byte _ notBackslash =>
      rw [List.singleton_append, List.cons.injEq] at here
      exact absurd here.1 notBackslash
    | short short =>
      rw [List.cons_append, List.cons_append, List.cons.injEq, List.cons.injEq] at here
      rw [here.2.1] at short
      cases short
    | unicode single =>
      rw [List.length_cons, List.length_cons, single.1]
    | pair first high second low =>
      -- the two escapes are the pair itself
      simp only [List.cons_append, List.append_assoc, List.cons.injEq, true_and] at here
      obtain ⟨rfl, here⟩ := first.eq quad here
      simp only [List.cons.injEq, true_and] at here
      obtain ⟨rfl, -⟩ := second.eq quad' here
      exact absurd ⟨high, low⟩ noPair

/-! ### Bodies that decode correctly are paired -/

theorem Decoded.paired {body o post : List UInt8} (decoded : Decoded body o)
    (quote : closeQuote (rest text s) = some k) (alone : TakenAlone text (k + 1) s)
    (state : LoopState text (k + 1) s out y) (left : rest text y = body ++ 0x22 :: post)
    (utf8 : Utf8.WellFormed (out ++ o)) : Paired body := by
  induction decoded generalizing out y with
  | nil => exact .nil
  | @byte b r o hq hb later ih =>
    have run := state.run_round quote (.byte hq hb) left
    have paired := ih (state.round run) (rest_forward (s := [b]) left) (by simpa using utf8)
    exact .append (.byte hq hb) paired
  | @escape e p bytes r o escape later ih =>
    have piece := (Piece.escape escape).append_quote post
    have left' : rest text y = (0x5C :: e :: p) ++ (r ++ 0x22 :: post) := by
      rw [left]
      simp
    have run := state.run_round quote piece left'
    rw [← List.append_assoc] at utf8
    have paired := ih (state.round run) (rest_forward left') utf8
    rw [List.append_assoc] at utf8
    cases escape with
    | short short => exact .append (.short short) paired
    | @unicode _ cp _ quad notHigh =>
      apply Paired.append (.unicode quad notHigh _) paired
      intro low
      unfold IsLowSurrogate at low
      exact not_wellFormed_surrogate (by omega) (by omega) utf8
    | @lone _ cp _ quad high =>
      rw [isHighSurrogate_iff] at high
      exact absurd utf8 (not_wellFormed_surrogate (by omega) (by omega))
    | @pair d d' cp lo _ quad high quad' =>
      have low : IsLowSurrogate lo := by
        by_contra notLow
        have taken := alone _ _ _ _ d d' cp lo (r ++ 0x22 :: post) state (by rw [left']; simp)
          quad quad' (fun both => notLow both.2) run
        have moved := congrArg Cursor.pos taken
        have size := quad.1
        have size' := quad'.1
        simp only [Cursor.forward_pos, List.length_cons, List.length_append] at moved
        omega
      have append := Paired.append (.pair quad high quad' low) paired
      simpa using append

end Rounds

/-- The escapes of a parsed literal are decoded correctly exactly if its surrogates are
paired. -/
theorem escapesCorrect_iff {text body out : List UInt8} {x y : Cursor}
    (run : parseStringRaw text x = .ok out y)
    (reads : Reads text x (0x22 :: (body ++ [0x22])) y) (raw : Utf8.WellFormed body) :
    EscapesCorrect text x body out ↔ Paired body := by
  obtain ⟨body', reads', decoded⟩ := (parseStringRaw_safe text x).elim run
  have left : rest text x = 0x22 :: (body ++ 0x22 :: rest text y) := by
    rw [reads.bytes]
    simp
  obtain rfl : body' = body := by
    have same := reads'.bytes.symm.trans reads.bytes
    simpa using same
  have left' := rest_forward_one left
  have quote := decoded.relaxed.closeQuote (rest text y)
  rw [← left'] at quote
  constructor
  · rintro ⟨utf8, alone⟩
    exact decoded.paired quote alone .start left' utf8
  · intro paired
    constructor
    · obtain ⟨out', decoded', utf8⟩ := paired.decoded [] raw
      rw [run_parseStringRaw decoded' left] at run
      cases run
      exact utf8
    · exact paired.takenAlone quote left'

/-- `"\ud83d\ude00"`, a face. -/
theorem escapesCorrect_iff_face :
    EscapesCorrect
      [0x22, 0x5C, 0x75, 0x64, 0x38, 0x33, 0x64, 0x5C, 0x75, 0x64, 0x65, 0x30, 0x30, 0x22] ⟨0, 0, 0⟩
      [0x5C, 0x75, 0x64, 0x38, 0x33, 0x64, 0x5C, 0x75, 0x64, 0x65, 0x30, 0x30]
      [0xF0, 0x9F, 0x98, 0x80] := by
  have raw : Utf8.WellFormed
      [0x5C, 0x75, 0x64, 0x38, 0x33, 0x64, 0x5C, 0x75, 0x64, 0x65, 0x30, 0x30] :=
    ⟨"\\ud83d\\ude00".toList, by decide⟩
  have high : HexQuad [0x64, 0x38, 0x33, 0x64] 0xD83D := ⟨rfl, rfl⟩
  have low : HexQuad [0x64, 0x65, 0x30, 0x30] 0xDE00 := ⟨rfl, rfl⟩
  have run : parseStringRaw
      [0x22, 0x5C, 0x75, 0x64, 0x38, 0x33, 0x64, 0x5C, 0x75, 0x64, 0x65, 0x30, 0x30, 0x22]
      ⟨0, 0, 0⟩ = .ok [0xF0, 0x9F, 0x98, 0x80] ⟨14, 0, 0⟩ := by decide +kernel
  have paired := Paired.append (.pair high rfl low (by unfold IsLowSurrogate; decide)) .nil
  exact (escapesCorrect_iff run ⟨rfl, rfl⟩ raw).mpr paired

/-- `"\ud800\u0041"` decodes to one character, and the `A` is lost in it. -/
theorem not_escapesCorrect : ¬∀ (text body out : List UInt8) (x y : Cursor),
    parseStringRaw text x = .ok out y → Reads text x (0x22 :: (body ++ [0x22])) y →
    Utf8.WellFormed body → EscapesCorrect text x body out := by
  intro all
  have raw : Utf8.WellFormed
      [0x5C, 0x75, 0x64, 0x38, 0x30, 0x30, 0x5C, 0x75, 0x30, 0x30, 0x34, 0x31] :=
    ⟨"\\ud800\\u0041".toList, by decide⟩
  have run : parseStringRaw
      [0x22, 0x5C, 0x75, 0x64, 0x38, 0x30, 0x30, 0x5C, 0x75, 0x30, 0x30, 0x34, 0x31, 0x22]
      ⟨0, 0, 0⟩ = .ok [0xE2, 0x91, 0x81] ⟨14, 0, 0⟩ := by decide +kernel
  have correct := all _ _ _ _ _ run ⟨rfl, rfl⟩ raw
  have high : HexQuad [0x64, 0x38, 0x30, 0x30] 0xD800 := ⟨rfl, rfl⟩
  have letter : HexQuad [0x30, 0x30, 0x34, 0x31] 0x41 := ⟨rfl, rfl⟩
  have step : decodeStep 13 []
      [0x22, 0x5C, 0x75, 0x64, 0x38, 0x30, 0x30, 0x5C, 0x75, 0x30, 0x30, 0x34, 0x31, 0x22]
      ⟨1, 0, 0⟩ = .ok (some [0xE2, 0x91, 0x81]) ⟨13, 0, 0⟩ := by decide +kernel
  have taken := correct.alone _ _ _ _ _ _ _ _ [0x22] .start rfl high letter
    (by unfold IsLowSurrogate; decide) step
  cases taken

end InstagramNt40.Json
