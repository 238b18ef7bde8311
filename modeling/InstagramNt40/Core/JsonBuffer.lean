import InstagramNt40.Core.JsonString

/-!
# The buffer of `parse_string_raw`

The sizing scan counts a `\u` escape as two bytes and four more, the decoding loop takes
six or twelve at once. They still agree on the closing quote, and no round of the loop
writes more than it takes.
-/
namespace InstagramNt40.Json

open Scanner Rfc8259

/-- The states of the decoding loop: what has been written, and where it reads next. -/
inductive LoopState (text : List UInt8) (cap : Nat) (s : Cursor) : List UInt8 → Cursor → Prop
  | start : LoopState text cap s [] s
  | round {out out' : List UInt8} {y z : Cursor} : LoopState text cap s out y →
      decodeStep cap out text y = .ok (some out') z → LoopState text cap s out' z

section Rounds

variable {text out : List UInt8} {k : Nat} {s y : Cursor}

/-- Every state is as far from the quote as the scan says, and has written no more than
it has read. -/
theorem LoopState.bounds (state : LoopState text (k + 1) s out y)
    (quote : closeQuote (rest text s) = some k) :
    ∃ j, closeQuote (rest text y) = some j ∧ y.pos + j = s.pos + k ∧
      out.length + s.pos ≤ y.pos := by
  induction state with
  | start => exact ⟨k, quote, rfl, by simp⟩
  | @round out _ y z _ round ih =>
    obtain ⟨j, here, away, written⟩ := ih
    have safe := decodeStep_safe text (k + 1) j out y here (by omega)
    obtain ⟨piece, bytes, j', reads, taken, there, rfl, rfl⟩ := safe.elim round
    have short := taken.length_le
    have moved := reads.pos
    refine ⟨j', there, by omega, ?_⟩
    rw [List.length_append]
    omega

theorem LoopState.step_safe (state : LoopState text (k + 1) s out y)
    (quote : closeQuote (rest text s) = some k) :
    decodeStep (k + 1) out text y ≠ .fault := by
  obtain ⟨j, here, away, written⟩ := state.bounds quote
  have safe := decodeStep_safe text (k + 1) j out y here (by omega)
  intro fault
  simp [Safe, fault] at safe

end Rounds

/-- Decoding after an opening quote at `x` stays inside a buffer for `k` bytes and the
NUL, and reads up to the quote at distance `k`. -/
structure StaysInBuffer (text : List UInt8) (x : Cursor) (k : Nat) : Prop where
  written : ∀ out y, LoopState text (k + 1) (x.forward 1) out y →
    out.length ≤ y.pos - (x.pos + 1) ∧ y.pos ≤ x.pos + 1 + k
  round : ∀ out y, LoopState text (k + 1) (x.forward 1) out y →
    decodeStep (k + 1) out text y ≠ .fault
  stops : decodeLoop (k + 1) (text.length - (x.pos + 1) + 1) [] text (x.forward 1) = .null ∨
    ∃ out y, decodeLoop (k + 1) (text.length - (x.pos + 1) + 1) [] text (x.forward 1) = .ok out y ∧
      y.pos = x.pos + 1 + k ∧ text[y.pos]? = some 0x22 ∧ out.length ≤ k
  result : parseStringRaw text x = .null ∨
    ∃ out, parseStringRaw text x = .ok out (x.forward (k + 2)) ∧ out.length ≤ k

section Body

variable {text : List UInt8} {x : Cursor} {k : Nat}

theorem decodeLoop_stops {s : Cursor} (quote : closeQuote (rest text s) = some k) :
    decodeLoop (k + 1) (text.length - s.pos + 1) [] text s = .null ∨
      ∃ out y, decodeLoop (k + 1) (text.length - s.pos + 1) [] text s = .ok out y ∧
        y.pos = s.pos + k ∧ text[y.pos]? = some 0x22 ∧ out.length ≤ k := by
  have size : (rest text s).length = text.length - s.pos := rest_length
  have safe := decodeLoop_safe text (k + 1) (text.length - s.pos + 1) k [] s quote
    (by simp) (by omega)
  rcases safe.returns_or_null with null |
    ⟨out, y, run, body, o, post, reads, len, stop, decoded, rfl⟩
  · exact .inl null
  · right
    have short := decoded.length_le
    refine ⟨_, y, run, ?_, (rest_cons stop).1, ?_⟩
    · rw [reads.pos, len]
    · omega

/-- A body that the scan found to end in `k` bytes. -/
theorem parseStringRaw_bounded (quote : closeQuote (rest text (x.forward 1)) = some k) :
    parseStringRaw text x = .null ∨
      ∃ out, parseStringRaw text x = .ok out (x.forward (k + 2)) ∧ out.length ≤ k := by
  have safe := parseStringRaw_safe text x
  rcases safe.returns_or_null with null | ⟨out, y, run, body, reads, decoded⟩
  · exact .inl null
  · right
    have short := decoded.length_le
    -- the body ends at the quote that the scan found
    have left : rest text x = 0x22 :: (body ++ 0x22 :: rest text y) := by
      rw [reads.bytes]
      simp
    have found := decoded.relaxed.closeQuote (rest text y)
    rw [← rest_forward_one left, quote] at found
    cases found
    rw [run_parseStringRaw decoded left] at run ⊢
    exact ⟨_, rfl, short⟩

/-- Whenever the sizing scan finds the closing quote, decoding stays inside its buffer. -/
theorem string_staysInBuffer
    (sized : scanQuote (text.length - (x.pos + 1)) (x.pos + 1) text (x.forward 1) =
      .ok (x.pos + 1 + k) (x.forward 1))
    (inside : x.pos + 1 + k < text.length) : StaysInBuffer text x k := by
  obtain ⟨j, run, found⟩ := run_scanQuote text (text.length - (x.pos + 1)) (x.pos + 1) (x.forward 1)
    (Nat.le_refl _)
  rw [sized] at run
  cases run
  have quote : closeQuote (rest text (x.forward 1)) = some k := by
    rcases found with ⟨k', found, same⟩ | ⟨-, outside⟩
    · have eq : k = k' := by omega
      rw [eq]
      exact found
    · omega
  constructor
  · intro out y state
    obtain ⟨j, -, away, written⟩ := state.bounds quote
    rw [Cursor.forward_pos] at away written
    omega
  · intro out y state
    exact state.step_safe quote
  · have stops := decodeLoop_stops quote
    rwa [Cursor.forward_pos] at stops
  · exact parseStringRaw_bounded quote

end Body

/-- A high surrogate before an escape that is no low one. -/
theorem string_staysInBuffer_surrogate :
    StaysInBuffer
      [0x22, 0x5C, 0x75, 0x64, 0x38, 0x30, 0x30, 0x5C, 0x75, 0x30, 0x30, 0x34, 0x31, 0x22]
      ⟨0, 0, 0⟩ 12 :=
  string_staysInBuffer (by decide) (by decide)

end InstagramNt40.Json
