import InstagramNt40.Core.HttpChunks

/-!
# The rounds of `dechunk`

The decoder round by round, over any bytes: no round leaves the input or the buffer, each
takes at least one byte, and what has been written is a part of what has been taken.
-/
namespace InstagramNt40.Http

open Scanner

/-- A round of the loop of `dechunk`; `none` is its end. -/
def dechunkStep (cap : Nat) (out : List UInt8) : Scan (Option (List UInt8)) := do
  match ← peek with
  | none => pure none
  | some _ => do
    let clen ← chunkLine
    if clen ≤ 0 then pure none
    else do
      let out ← copyChunk cap clen out
      pure (some out)

/-- The loop repeats the round. -/
theorem dechunkLoop_succ (cap fuel : Nat) (out : List UInt8) :
    dechunkLoop cap (fuel + 1) out =
      dechunkStep cap out >>= fun next =>
        match next with
        | some out' => dechunkLoop cap fuel out'
        | none => pure out := by
  unfold dechunkStep
  rw [Scan.bind_assoc]
  conv_lhs => unfold dechunkLoop
  congr 1
  funext next
  cases next with
  | none => rfl
  | some c =>
    dsimp only
    rw [Scan.bind_assoc]
    congr 1
    funext clen
    split
    · rfl
    · rw [Scan.bind_assoc]
      rfl

/-- The states of the loop: what has been written, and where it reads next. -/
inductive ChunkState (text : List UInt8) (cap : Nat) : List UInt8 → Cursor → Prop
  | start : ChunkState text cap [] ⟨0, 0, 0⟩
  | round {out out' : List UInt8} {x y : Cursor} : ChunkState text cap out x →
      dechunkStep cap out text x = .ok (some out') y → ChunkState text cap out' y

section Rounds

variable {text : List UInt8} {cap : Nat} {out : List UInt8} {x : Cursor}

theorem dechunkStep_nil (done : rest text x = []) : dechunkStep cap out text x = .ok none x := by
  unfold dechunkStep
  rw [bind_ok (run_peek_nil done)]
  rfl

/-- A run that leaves less than it found has taken some bytes. -/
theorem reads_ne_nil {s : List UInt8} {y : Cursor} (reads : Reads text x s y)
    (shorter : (rest text y).length < (rest text x).length) : s ≠ [] := by
  rintro rfl
  rw [reads.bytes, List.nil_append] at shorter
  exact Nat.lt_irrefl _ shorter

/-- A size that is not positive ends the loop behind its line. -/
theorem dechunkStep_last (cap : Nat) (out : List UInt8) (left : rest text x ≠ [])
    (last : chunkLength (rest text x) ≤ 0) :
    ∃ s y, dechunkStep cap out text x = .ok none y ∧ Reads text x s y ∧ s ≠ [] := by
  obtain ⟨c, r, cons⟩ := List.exists_cons_of_ne_nil left
  obtain ⟨line, z, run, reads, after⟩ := run_chunkLine text x
  refine ⟨line, z, ?_, reads, reads_ne_nil reads ?_⟩
  · unfold dechunkStep
    rw [bind_ok (run_peek_cons cons)]
    dsimp only
    rw [bind_ok run, if_pos last]
    rfl
  · rw [after]
    exact afterSize_lt left

/-- Otherwise the round takes a chunk, and writes bytes that it takes. -/
theorem dechunkStep_chunk (inside : x.pos ≤ text.length)
    (room : out.length + (rest text x).length ≤ cap) (left : rest text x ≠ [])
    (more : ¬chunkLength (rest text x) ≤ 0) :
    ∃ s y, dechunkStep cap out text x =
        .ok (some (out ++ (afterSize (rest text x)).take (chunkLength (rest text x)).toNat)) y ∧
      Reads text x s y ∧ s ≠ [] ∧
      ((afterSize (rest text x)).take (chunkLength (rest text x)).toNat).Sublist s := by
  obtain ⟨c, r, cons⟩ := List.exists_cons_of_ne_nil left
  obtain ⟨line, z, run, reads, after⟩ := run_chunkLine text x
  have shorter := afterSize_lt left
  obtain ⟨chunk, y, copied, reads', after'⟩ := run_copyChunk cap out (reads.inside inside)
    (by rw [after]; omega) more
  rw [after] at copied after'
  refine ⟨line ++ chunk, y, ?_, reads.trans reads', reads_ne_nil (reads.trans reads') ?_, ?_⟩
  · unfold dechunkStep
    rw [bind_ok (run_peek_cons cons)]
    dsimp only
    rw [bind_ok run, if_neg more, bind_ok copied]
    rfl
  · rw [after']
    exact afterChunk_lt left _
  · -- the bytes of the chunk come first in what follows the size line
    have taken : afterSize (rest text x) = chunk ++ rest text y := after ▸ reads'.bytes
    have below := length_dropWhile_le isCrLf
      ((afterSize (rest text x)).drop (chunkLength (rest text x)).toNat)
    rw [← after', List.length_drop] at below
    have sizes := congrArg List.length taken
    rw [List.length_append] at sizes
    have starts := List.prefix_of_prefix_length_le
      (List.take_prefix (chunkLength (rest text x)).toNat (afterSize (rest text x)))
      ⟨rest text y, taken.symm⟩ (by rw [List.length_take]; omega)
    exact starts.sublist.trans (List.sublist_append_right line chunk)

/-- A round returns, and takes at least one byte if there is one. What it writes is a part
of what it takes. -/
theorem run_dechunkStep (inside : x.pos ≤ text.length)
    (room : out.length + (rest text x).length ≤ cap) (left : rest text x ≠ []) :
    ∃ s y, Reads text x s y ∧ s ≠ [] ∧
      (dechunkStep cap out text x = .ok none y ∨
        ∃ data, data.Sublist s ∧ dechunkStep cap out text x = .ok (some (out ++ data)) y) := by
  by_cases last : chunkLength (rest text x) ≤ 0
  · obtain ⟨s, y, run, reads, taken⟩ := dechunkStep_last cap out left last
    exact ⟨s, y, reads, taken, .inl run⟩
  · obtain ⟨s, y, run, reads, taken, part⟩ := dechunkStep_chunk inside room left last
    exact ⟨s, y, reads, taken, .inr ⟨_, part, run⟩⟩

/-- Every state has written a part of the bytes before its position, in their order. -/
theorem ChunkState.written (state : ChunkState text (text.length + 1) out x) :
    x.pos ≤ text.length ∧ out.Sublist (text.take x.pos) := by
  induction state with
  | start => exact ⟨Nat.zero_le _, List.Sublist.refl _⟩
  | @round out out' x y _ run ih =>
    obtain ⟨inside, part⟩ := ih
    have short := part.length_le
    rw [List.length_take] at short
    by_cases done : rest text x = []
    · rw [dechunkStep_nil done] at run
      cases run
    · have room : out.length + (rest text x).length ≤ text.length + 1 := by
        rw [rest_length]
        omega
      obtain ⟨s, z, reads, -, stop | ⟨data, taken, step⟩⟩ := run_dechunkStep inside room done
      · rw [stop] at run
        cases run
      · rw [step] at run
        cases run
        refine ⟨reads.inside inside, ?_⟩
        have before : text.take y.pos = text.take x.pos ++ s := by
          rw [reads.pos, List.take_add]
          congr 1
          have bytes : text.drop x.pos = s ++ rest text y := reads.bytes
          rw [bytes, List.take_left]
        rw [before]
        exact part.append taken

/-- The buffer has room for the bytes that are left. -/
theorem ChunkState.bounds (state : ChunkState text (text.length + 1) out x) :
    out.length ≤ x.pos ∧ x.pos ≤ text.length ∧
      out.length + (rest text x).length ≤ text.length + 1 := by
  obtain ⟨inside, part⟩ := state.written
  have short := part.length_le
  rw [List.length_take] at short
  rw [rest_length]
  omega

end Rounds

/-- Decoding the bytes `text` returns, and keeps its bounds in every round. -/
structure DecodesSafely (text : List UInt8) : Prop where
  /-- The loop of the decoder is its rounds. -/
  loop : ∀ fuel out, dechunkLoop (text.length + 1) (fuel + 1) out =
    dechunkStep (text.length + 1) out >>= fun next =>
      match next with
      | some out' => dechunkLoop (text.length + 1) fuel out'
      | none => pure out
  /-- It returns, as soon as the fuel is one more than the number of bytes. -/
  returns : ∀ fuel, text.length < fuel → ∃ out y, dechunk fuel text ⟨0, 0, 0⟩ = .ok out y ∧
    out.length ≤ text.length ∧ out.Sublist text
  /-- What has been written is a part of the bytes taken so far. -/
  written : ∀ out x, ChunkState text (text.length + 1) out x →
    out.length ≤ x.pos ∧ x.pos ≤ text.length ∧ out.Sublist (text.take x.pos)
  /-- With bytes left a round neither faults nor stands still. -/
  round : ∀ out x, ChunkState text (text.length + 1) out x → x.pos < text.length →
    ∃ next y, dechunkStep (text.length + 1) out text x = .ok next y ∧ x.pos < y.pos ∧
      y.pos ≤ text.length

/-- The decoded bytes are a part of the input. -/
theorem dechunkBytes_sublist (s : List UInt8) : (dechunkBytes s).Sublist s := by
  induction size : s.length using Nat.strong_induction_on generalizing s with
  | _ n ih =>
    subst size
    by_cases empty : s = []
    · subst empty
      simp only [dechunkBytes_nil, List.Sublist.refl]
    by_cases last : chunkLength s ≤ 0
    · rw [dechunkBytes_last last]
      exact List.nil_sublist s
    · have line : (afterSize s).Sublist s :=
        (List.drop_sublist _ _).trans ((List.dropWhile_sublist _).trans (List.dropWhile_sublist _))
      have inner := ih _ (afterChunk_lt empty (chunkLength s).toNat) _ rfl
      have others := inner.trans (List.dropWhile_sublist isCrLf)
      rw [dechunkBytes_chunk empty last]
      calc
        List.Sublist _ ((afterSize s).take (chunkLength s).toNat ++
            (afterSize s).drop (chunkLength s).toNat) := (List.Sublist.refl _).append others
        _ = afterSize s := List.take_append_drop _ _
        List.Sublist _ s := line

/-- Decoding is safe for any bytes. -/
theorem dechunk_safe (text : List UInt8) : DecodesSafely text where
  loop := dechunkLoop_succ _
  returns := by
    intro fuel enough
    obtain ⟨y, run⟩ := run_dechunk text fuel enough
    exact ⟨_, y, run, dechunkBytes_length_le text, dechunkBytes_sublist text⟩
  written := by
    intro out x state
    obtain ⟨short, inside, -⟩ := state.bounds
    exact ⟨short, inside, state.written.2⟩
  round := by
    intro out x state before
    obtain ⟨-, inside, room⟩ := state.bounds
    have left : rest text x ≠ [] := by
      rw [← List.length_pos_iff, rest_length]
      omega
    obtain ⟨s, y, reads, taken, step⟩ := run_dechunkStep inside room left
    have some := List.length_pos_iff.mpr taken
    have moved := reads.pos
    rcases step with stop | ⟨data, -, run⟩
    · exact ⟨_, y, stop, by omega, reads.inside inside⟩
    · exact ⟨_, y, run, by omega, reads.inside inside⟩

end InstagramNt40.Http
