import InstagramNt40.Core.Http

/-!
# What `dechunk` decodes

The chunk decoder as a function of the bytes alone. The loop computes exactly this,
without leaving its input or its buffer.
-/
namespace InstagramNt40.Http

open Scanner Crt

def isSizeDigit (c : UInt8) : Bool := (chunkDigit c).isSome

/-- The accumulator after the digits `ds`. -/
def sizeFrom (clen : Int) (ds : List UInt8) : Int :=
  ds.foldl (fun n c => wrap32 (n * 16 + (chunkDigit c).getD 0)) clen

/-- The bytes after a chunk-size line. -/
def afterSize (s : List UInt8) : List UInt8 :=
  ((s.dropWhile isSizeDigit).dropWhile (· != 0x0A)).drop 1

theorem length_dropWhile_le (p : UInt8 → Bool) (s : List UInt8) :
    (s.dropWhile p).length ≤ s.length := (List.dropWhile_suffix p).length_le

theorem afterSize_lt {s : List UInt8} (some : s ≠ []) : (afterSize s).length < s.length := by
  have first := length_dropWhile_le isSizeDigit s
  have second := length_dropWhile_le (· != 0x0A) (s.dropWhile isSizeDigit)
  have positive := List.length_pos_iff.mpr some
  rw [afterSize, List.length_drop]
  omega

/-- The size a chunk-size line gives. -/
def chunkLength (s : List UInt8) : Int := sizeFrom 0 (s.takeWhile isSizeDigit)

/-- The decoded body. -/
def dechunkBytes (s : List UInt8) : List UInt8 :=
  if _h : s = [] then []
  else if chunkLength s ≤ 0 then []
  else (afterSize s).take (chunkLength s).toNat ++
    dechunkBytes (((afterSize s).drop (chunkLength s).toNat).dropWhile isCrLf)
termination_by s.length
decreasing_by
  apply Nat.lt_of_le_of_lt (length_dropWhile_le _ _)
  rw [List.length_drop]
  have := afterSize_lt _h
  omega

theorem dechunkBytes_nil : dechunkBytes [] = [] := by rw [dechunkBytes, dif_pos rfl]

/-- A chunk of size zero, or of one that wraps to a negative number, ends the body. -/
theorem dechunkBytes_last {s : List UInt8} (last : chunkLength s ≤ 0) : dechunkBytes s = [] := by
  rw [dechunkBytes, if_pos last]
  exact ite_self []

theorem dechunkBytes_chunk {s : List UInt8} (some : s ≠ []) (more : ¬chunkLength s ≤ 0) :
    dechunkBytes s = (afterSize s).take (chunkLength s).toNat ++
      dechunkBytes (((afterSize s).drop (chunkLength s).toNat).dropWhile isCrLf) := by
  rw [dechunkBytes, dif_neg some, if_neg more]

/-- What is left after a chunk is shorter than before it. -/
theorem afterChunk_lt {s : List UInt8} (some : s ≠ []) (n : Nat) :
    (((afterSize s).drop n).dropWhile isCrLf).length < s.length := by
  have shorter := afterSize_lt some
  have below := length_dropWhile_le isCrLf ((afterSize s).drop n)
  rw [List.length_drop] at below
  omega

/-- No decoded byte is invented. -/
theorem dechunkBytes_length_le (s : List UInt8) : (dechunkBytes s).length ≤ s.length := by
  induction size : s.length using Nat.strong_induction_on generalizing s with
  | _ n ih =>
    subst size
    by_cases empty : s = []
    · subst empty
      rw [dechunkBytes_nil]
    by_cases last : chunkLength s ≤ 0
    · rw [dechunkBytes_last last]
      simp
    · -- the size line alone makes up for the bytes of the chunk
      have shorter := afterSize_lt empty
      have below := length_dropWhile_le isCrLf ((afterSize s).drop (chunkLength s).toNat)
      have inner := ih _ (afterChunk_lt empty (chunkLength s).toNat) _ rfl
      rw [dechunkBytes_chunk empty last, List.length_append, List.length_take]
      rw [List.length_drop] at below
      omega

theorem run_chunkSize (text : List UInt8) (fuel : Nat) (clen : Int) (x : Cursor)
    (enough : (rest text x).length ≤ fuel) :
    chunkSize fuel clen text x =
      .ok (sizeFrom clen ((rest text x).takeWhile isSizeDigit))
        (x.forward ((rest text x).takeWhile isSizeDigit).length) := by
  induction fuel generalizing clen x with
  | zero =>
    have done : rest text x = [] := List.eq_nil_of_length_eq_zero (by omega)
    simp [chunkSize, done, sizeFrom]
  | succ fuel ih =>
    unfold chunkSize
    cases left : rest text x with
    | nil =>
      rw [bind_ok (run_peek_nil left)]
      simp [sizeFrom]
    | cons c r =>
      rw [bind_ok (run_peek_cons left)]
      dsimp only
      cases digit : chunkDigit c with
      | none =>
        have other : isSizeDigit c = false := by simp [isSizeDigit, digit]
        simp [other, sizeFrom]
      | some d =>
        have passes : isSizeDigit c = true := by simp [isSizeDigit, digit]
        dsimp only
        rw [bind_ok (run_advance_one left), ih _ _ (by
          rw [rest_forward_one left]
          rw [left, List.length_cons] at enough
          omega), rest_forward_one left]
        simp [passes, sizeFrom, digit, Nat.add_comm]

/-- Reading a chunk-size line. -/
theorem run_chunkLine (text : List UInt8) (x : Cursor) :
    ∃ s z, chunkLine text x = .ok (chunkLength (rest text x)) z ∧ Reads text x s z ∧
      rest text z = afterSize (rest text x) := by
  have digits : rest text x =
      (rest text x).takeWhile isSizeDigit ++ (rest text x).dropWhile isSizeDigit :=
    List.takeWhile_append_dropWhile.symm
  have line : (rest text x).dropWhile isSizeDigit =
      ((rest text x).dropWhile isSizeDigit).takeWhile (· != 0x0A) ++
        ((rest text x).dropWhile isSizeDigit).dropWhile (· != 0x0A) :=
    List.takeWhile_append_dropWhile.symm
  have here := rest_forward ((rest_forward digits).trans line)
  have reads := (Reads.of_rest digits).trans (.of_rest ((rest_forward digits).trans line))
  unfold chunkLine afterSize
  rw [bind_ok (run_limit text x), bind_ok (run_cursor text x),
    bind_ok (run_chunkSize text _ 0 x (by rw [rest_length])), bind_ok (run_skipWhile _ text _),
    rest_forward digits]
  cases last : ((rest text x).dropWhile isSizeDigit).dropWhile (· != 0x0A) with
  | nil =>
    rw [last] at here
    rw [bind_ok (run_accept_nil _ here)]
    exact ⟨_, _, rfl, reads, by simpa using here⟩
  | cons c r =>
    rw [last] at here
    -- the run of other bytes stopped at an LF
    have stop := List.head_dropWhile_not (· != 0x0A) (l := (rest text x).dropWhile isSizeDigit)
      (by rw [last]; simp)
    simp only [last, List.head_cons, bne_eq_false_iff_eq] at stop
    subst stop
    rw [bind_ok (run_accept_one rfl here)]
    exact ⟨_, _, rfl, reads.trans (.one here), by simpa using rest_forward_one here⟩

/-- Copying a chunk. -/
theorem run_copyChunk {text : List UInt8} {z : Cursor} (cap : Nat) (out : List UInt8) {clen : Int}
    (inside : z.pos ≤ text.length) (room : out.length + (rest text z).length ≤ cap)
    (positive : ¬clen ≤ 0) :
    ∃ s y, copyChunk cap clen out text z = .ok (out ++ (rest text z).take clen.toNat) y ∧
      Reads text z s y ∧ rest text y = ((rest text z).drop clen.toNat).dropWhile isCrLf := by
  have size : (rest text z).length = text.length - z.pos := rest_length
  have data : rest text z = (rest text z).take clen.toNat ++ (rest text z).drop clen.toNat :=
    (List.take_append_drop _ _).symm
  -- the clamped size is the length of what is really there
  have clamp : (if clen > ((text.length - z.pos : Nat) : Int) then text.length - z.pos
      else clen.toNat) = ((rest text z).take clen.toNat).length := by
    rw [List.length_take, size]
    split <;> omega
  have short : ((rest text z).take clen.toNat).length ≤ (rest text z).length :=
    List.length_take_le' _ _
  have after := rest_forward data
  have ends : (rest text z).drop clen.toNat =
      ((rest text z).drop clen.toNat).takeWhile isCrLf ++
        ((rest text z).drop clen.toNat).dropWhile isCrLf :=
    List.takeWhile_append_dropWhile.symm
  unfold copyChunk
  rw [bind_ok (run_cursor text z), bind_ok (run_limit text z)]
  rw [clamp, bind_ok (run_slice z inside data), bind_ok (run_emit text z (by omega)),
    bind_ok (run_advance (by omega)), bind_ok (run_skipWhile _ text _), after]
  exact ⟨_, _, rfl, (Reads.of_rest data).trans (.of_rest (after.trans ends)),
    rest_forward (after.trans ends)⟩

/-- From any cursor the loop appends the decoded rest of the input; its buffer is
never overrun, as a chunk takes more input than it gives output. -/
theorem run_dechunkLoop (text : List UInt8) (cap fuel : Nat) (out : List UInt8) (x : Cursor)
    (inside : x.pos ≤ text.length) (room : out.length + (rest text x).length ≤ cap)
    (enough : (rest text x).length < fuel) :
    ∃ y, dechunkLoop cap fuel out text x = .ok (out ++ dechunkBytes (rest text x)) y := by
  -- the induction is on the fuel; `room` carries that the output and the bytes left
  -- together fit the buffer
  induction fuel generalizing out x with
  | zero => omega
  | succ fuel ih =>
    unfold dechunkLoop
    by_cases empty : rest text x = []
    · rw [bind_ok (run_peek_nil empty), empty, dechunkBytes_nil]
      exact ⟨x, by simp⟩
    obtain ⟨c, r, left⟩ := List.exists_cons_of_ne_nil empty
    obtain ⟨line, z, run, reads, after⟩ := run_chunkLine text x
    rw [bind_ok (run_peek_cons left)]
    dsimp only
    rw [bind_ok run]
    by_cases last : chunkLength (rest text x) ≤ 0
    · rw [if_pos last, dechunkBytes_last last]
      exact ⟨z, by simp⟩
    have shorter := afterSize_lt empty
    obtain ⟨chunk, y, copied, reads', after'⟩ := run_copyChunk cap out (reads.inside inside)
      (by rw [after]; omega) last
    rw [if_neg last, bind_ok copied, dechunkBytes_chunk empty last]
    rw [after] at after' ⊢
    -- the rest is shorter, and the output has grown by less than that
    have less := afterChunk_lt empty (chunkLength (rest text x)).toNat
    have below := length_dropWhile_le isCrLf
      ((afterSize (rest text x)).drop (chunkLength (rest text x)).toNat)
    rw [List.length_drop] at below
    obtain ⟨u, done⟩ := ih (out ++ (afterSize (rest text x)).take (chunkLength (rest text x)).toNat)
      y (reads'.inside (reads.inside inside))
      (by rw [after', List.length_append, List.length_take]; omega) (by rw [after']; omega)
    rw [after'] at done
    exact ⟨u, by rw [done, List.append_assoc]⟩

/-- The decoder always succeeds, within its input and its buffer. -/
theorem run_dechunk (text : List UInt8) (fuel : Nat) (enough : text.length < fuel) :
    ∃ y, dechunk fuel text ⟨0, 0, 0⟩ = .ok (dechunkBytes text) y := by
  have start : rest text ⟨0, 0, 0⟩ = text := by simp [rest]
  obtain ⟨y, run⟩ := run_dechunkLoop text (text.length + 1) fuel [] ⟨0, 0, 0⟩ (Nat.zero_le _)
    (by rw [start, List.length_nil]; omega) (by rw [start]; exact enough)
  rw [start, List.nil_append] at run
  have short := dechunkBytes_length_le text
  unfold dechunk
  rw [bind_ok (run_limit text _), bind_ok run,
    bind_ok (run_emit text y (by simp only [List.length_singleton]; omega))]
  exact ⟨y, rfl⟩

end InstagramNt40.Http
