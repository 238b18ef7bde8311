import InstagramNt40.Net.IgTimestamps
import InstagramNt40.Pal.Memory

/-!
# The buffer of a timeline request

The assembly of the body again, in a buffer of 4096 bytes: a store outside of the buffer and
a position that an `int` cannot hold are the result `none`. A piece that does not fit is
skipped but counted, so that no later piece fits either and no body is returned.
-/
namespace InstagramNt40.IgPrivate

open Crt Printf

namespace Mem

/-- `append`: the buffer and the position afterwards. -/
def append (cap : Nat) (buf : List UInt8 × Nat) (s : List UInt8) : Option (List UInt8 × Nat) := do
  let len := (cstr s 0).length
  if buf.2 + len < 2 ^ 31 then
    -- a piece that does not fit is skipped, but the position moves on
    let mem ← (if buf.2 + len < cap then memcpy buf.1 buf.2 s 0 len else pure buf.1)
    pure (mem, buf.2 + len)
  else none

/-- The appends, the check behind them, and the copy into a block of the heap, whose bytes
are `block` before. -/
def finishBody (heap : Heap) (block : Nat → UInt8) (buf : List UInt8)
    (pieces : List (List UInt8)) : Option (Returned (List UInt8 × Nat)) := do
  let (buf, p) ← pieces.foldlM (append bodyCap) (buf, 0)
  if p ≥ bodyCap then pure .null
  else if ¬heap.grants (p + 1) then pure .null
  else do
    let out ← memcpy ((List.range (p + 1)).map block) 0 buf 0 p
    let out ← Copy.store out p 0
    pure (.value (out, p))

/-- The strings that are appended. -/
def pieces (b : IgBody) (nowMs : UInt64) (random : UInt32) : Option (List (List UInt8)) := do
  let ts ← mbedtlsNt4Snprintf 24 (literal "%llu") (Arg.wide nowMs)
  let battery ← mbedtlsNt4Snprintf 16 (literal "%d") [.word b.batteryLevel]
  let charging ← mbedtlsNt4Snprintf 16 (literal "%d") [.word b.isCharging]
  let dark ← mbedtlsNt4Snprintf 16 (literal "%d") [.word b.isDarkMode]
  let sound ← mbedtlsNt4Snprintf 4 (literal "%d") [.word (igRandRange random 0 1)]
  some (bodyPieces b ts.buf battery.buf charging.buf dark.buf sound.buf)

/-- `ig_build_timeline_body`: the block, with its NUL, and `*out_len`. -/
def igBuildTimelineBody (heap : Heap) (block : Nat → UInt8) (buf : List UInt8) (b : IgBody)
    (nowMs : UInt64) (random : UInt32) : Option (Returned (List UInt8 × Nat)) := do
  finishBody heap block buf (← pieces b nowMs random)

/-! ### One piece -/

theorem memcpy_cstr {mem s : List UInt8} {pos : Nat}
    (room : pos + (cstr s 0).length ≤ mem.length) :
    memcpy mem pos s 0 (cstr s 0).length =
      some (mem.take pos ++ (cstr s 0 ++ mem.drop (pos + (cstr s 0).length))) := by
  have start : cstr s 0 <+: s := by
    rw [cstr, List.drop_zero]
    exact List.takeWhile_prefix _
  have whole : (s.drop 0).take (cstr s 0).length = cstr s 0 := by
    rw [List.drop_zero]
    exact (List.prefix_iff_eq_take.mp start).symm
  have within : 0 + (cstr s 0).length ≤ s.length := by
    rw [Nat.zero_add]
    exact cstr_length_le s
  rw [memcpy, Copy.into_eq room within, whole]

/-- A piece that fits is written behind the others. -/
theorem append_copies {cap pos : Nat} {mem s : List UInt8} (size : mem.length = cap)
    (small : cap < 2 ^ 31) (fits : pos + (cstr s 0).length < cap) :
    append cap (mem, pos) s =
      some (mem.take pos ++ (cstr s 0 ++ mem.drop (pos + (cstr s 0).length)),
        pos + (cstr s 0).length) := by
  rw [append]
  dsimp only
  rw [if_pos (by omega), if_pos fits, memcpy_cstr (by omega)]
  rfl

/-- A piece that does not fit is counted. -/
theorem append_skips {cap pos : Nat} {mem s : List UInt8}
    (total : pos + (cstr s 0).length < 2 ^ 31) (full : cap ≤ pos + (cstr s 0).length) :
    append cap (mem, pos) s = some (mem, pos + (cstr s 0).length) := by
  rw [append]
  dsimp only
  rw [if_pos total, if_neg (Nat.not_lt.mpr full)]
  rfl

/-! ### All pieces -/

section Pieces

variable {cap : Nat} {ps : List (List UInt8)} {mem : List UInt8} {pos : Nat}

/-- No store is outside of the buffer. -/
theorem appends_inside (size : mem.length = cap) (small : cap < 2 ^ 31)
    (total : pos + (text ps).length < 2 ^ 31) :
    ∃ mem', ps.foldlM (append cap) (mem, pos) = some (mem', pos + (text ps).length) ∧
      mem'.length = cap := by
  induction ps generalizing mem pos with
  | nil => exact ⟨mem, rfl, size⟩
  | cons s ps ih =>
    rw [text_cons, List.length_append] at total ⊢
    -- copied or skipped, the piece moves the position by its length
    obtain ⟨mem₁, first, size₁⟩ : ∃ mem₁,
        append cap (mem, pos) s = some (mem₁, pos + (cstr s 0).length) ∧ mem₁.length = cap := by
      by_cases fits : pos + (cstr s 0).length < cap
      · refine ⟨_, append_copies size small fits, ?_⟩
        rw [List.length_append, List.length_append, List.length_take, List.length_drop]
        omega
      · exact ⟨mem, append_skips (by omega) (Nat.not_lt.mp fits), size⟩
    obtain ⟨mem', others, size'⟩ := ih size₁
      (show pos + (cstr s 0).length + (text ps).length < 2 ^ 31 by omega)
    refine ⟨mem', ?_, size'⟩
    rw [List.foldlM_cons, first, Option.bind_eq_bind, Option.bind_some, others, Nat.add_assoc]

/-- Where all pieces fit, they stand in the buffer one after the other. -/
theorem appends_fit (size : mem.length = cap) (small : cap < 2 ^ 31)
    (fits : pos + (text ps).length < cap) :
    ps.foldlM (append cap) (mem, pos) =
      some (mem.take pos ++ (text ps ++ mem.drop (pos + (text ps).length)),
        pos + (text ps).length) := by
  induction ps generalizing mem pos with
  | nil => simp [text]
  | cons s ps ih =>
    rw [text_cons, List.length_append] at fits ⊢
    have first := append_copies size small (show pos + (cstr s 0).length < cap by omega)
    -- the next piece starts where this one ends
    have start : (mem.take pos ++ cstr s 0).length = pos + (cstr s 0).length := by
      rw [List.length_append, List.length_take, Nat.min_eq_left (by omega)]
    rw [← List.append_assoc] at first
    have size₁ : ((mem.take pos ++ cstr s 0) ++ mem.drop (pos + (cstr s 0).length)).length =
        cap := by
      rw [List.length_append, start, List.length_drop]
      omega
    rw [List.foldlM_cons, first, Option.bind_eq_bind, Option.bind_some,
      ih size₁ (by omega), List.take_left' start, ← start, ← List.drop_drop, List.drop_left,
      start, List.drop_drop]
    simp only [List.append_assoc, Nat.add_assoc]

end Pieces

/-- The copy into a block with one byte more. -/
theorem memcpy_block (block : Nat → UInt8) (t r : List UInt8) :
    memcpy ((List.range (t.length + 1)).map block) 0 (t ++ r) 0 t.length =
      some (t ++ [block t.length]) := by
  have room : 0 + t.length ≤ ((List.range (t.length + 1)).map block).length := by simp
  have within : 0 + t.length ≤ (t ++ r).length := by simp
  have size : ((List.range t.length).map block).length = t.length := by simp
  rw [memcpy, Copy.into_eq room within, Nat.zero_add, List.drop_zero, List.take_left,
    List.range_succ, List.map_append, List.drop_left' size]
  rfl

/-- With a block for the body it is returned exactly if it is shorter than the buffer: then
the block holds all pieces and a NUL. -/
theorem finishBody_eq {heap : Heap} (block : Nat → UInt8) {buf : List UInt8}
    {ps : List (List UInt8)} (size : buf.length = bodyCap) (total : (text ps).length < 2 ^ 31) :
    finishBody heap block buf ps = some (
      if (text ps).length < bodyCap ∧ heap.grants ((text ps).length + 1) then
        .value (text ps ++ [0], (text ps).length)
      else .null) := by
  have small : bodyCap < 2 ^ 31 := by decide
  unfold finishBody
  by_cases fits : (text ps).length < bodyCap
  · have appended := appends_fit size small (show 0 + (text ps).length < bodyCap by omega)
    rw [List.take_zero, List.nil_append, Nat.zero_add] at appended
    rw [appended, Option.bind_eq_bind, Option.bind_some]
    dsimp only
    rw [if_neg (Nat.not_le.mpr fits)]
    cases granted : heap.grants ((text ps).length + 1) with
    | false => simp
    | true =>
      have stored : Copy.store (text ps ++ [block (text ps).length]) (text ps).length 0 =
          some (text ps ++ [0]) := by
        rw [Copy.store_inside (by simp), List.set_append_right _ _ (le_refl _), Nat.sub_self]
        rfl
      rw [if_neg (by simp), if_pos ⟨fits, rfl⟩, memcpy_block, Option.bind_eq_bind, Option.bind_some,
        stored]
      rfl
  · -- the position is past the end whatever was skipped
    obtain ⟨mem, appended, -⟩ :=
      appends_inside size small (show 0 + (text ps).length < 2 ^ 31 by omega)
    rw [Nat.zero_add] at appended
    rw [appended, if_neg (fun h => fits h.1), Option.bind_eq_bind, Option.bind_some]
    exact if_pos (Nat.not_lt.mp fits)

theorem pieces_eq (b : IgBody) (nowMs : UInt64) (random : UInt32) :
    ∃ ps, pieces b nowMs random = some ps ∧ ∀ heap,
      IgPrivate.igBuildTimelineBody heap b nowMs random = IgPrivate.finishBody heap ps := by
  obtain ⟨_, battery⟩ := number_text 16 b.batteryLevel
  obtain ⟨_, charging⟩ := number_text 16 b.isCharging
  obtain ⟨_, dark⟩ := number_text 16 b.isDarkMode
  obtain ⟨_, sound⟩ := number_text 4 (igRandRange random 0 1)
  unfold pieces IgPrivate.igBuildTimelineBody
  rw [timestamp_text, battery, charging, dark, sound]
  exact ⟨_, rfl, fun _ => rfl⟩

/-- The body in its block, and its length. -/
def terminated : Returned (List UInt8) → Returned (List UInt8 × Nat)
  | .value body => .value (body ++ [0], body.length)
  | .null => .null
  | .fault => .fault

/-- In a buffer the body is the one over lists. -/
theorem igBuildTimelineBody_list (heap : Heap) (block : Nat → UInt8) {buf : List UInt8} (b : IgBody)
    (nowMs : UInt64) (random : UInt32) (size : buf.length = bodyCap)
    (total : ∀ ps, pieces b nowMs random = some ps → (text ps).length < 2 ^ 31) :
    igBuildTimelineBody heap block buf b nowMs random =
      some (terminated (IgPrivate.igBuildTimelineBody heap b nowMs random)) := by
  obtain ⟨ps, built, list⟩ := pieces_eq b nowMs random
  rw [igBuildTimelineBody, built, Option.bind_eq_bind, Option.bind_some,
    finishBody_eq block size (total ps built), list, IgPrivate.finishBody_eq]
  split_ifs <;> rfl

end Mem

open Mem in
/-- Whatever the pieces are, `append` stays within the buffer, and a body is returned exactly if
all of them together are shorter than the buffer: then it is all of them. So it is for the
pieces of a timeline request. -/
theorem igBuildTimelineBody_allOrNothing (buf : List UInt8) (size : buf.length = bodyCap)
    (block : Nat → UInt8) :
    (∀ ps, (text ps).length < 2 ^ 31 →
      (∃ buf', ps.foldlM (Mem.append bodyCap) (buf, 0) = some (buf', (text ps).length) ∧
        buf'.length = bodyCap) ∧
      ∀ heap : Heap, heap.grants ((text ps).length + 1) = true →
        Mem.finishBody heap block buf ps = some (
          if (text ps).length < bodyCap then .value (text ps ++ [0], (text ps).length)
          else .null)) ∧
    ∀ (heap : Heap) (b : IgBody) (nowMs : UInt64) (random : UInt32), ∃ ps,
      pieces b nowMs random = some ps ∧
        ((text ps).length < 2 ^ 31 → heap.grants ((text ps).length + 1) = true →
          Mem.igBuildTimelineBody heap block buf b nowMs random = some (
            if (text ps).length < bodyCap then .value (text ps ++ [0], (text ps).length)
            else .null)) := by
  have small : bodyCap < 2 ^ 31 := by decide
  have returned (ps : List (List UInt8)) (total : (text ps).length < 2 ^ 31) (heap : Heap)
      (granted : heap.grants ((text ps).length + 1) = true) :
      Mem.finishBody heap block buf ps = some (
        if (text ps).length < bodyCap then .value (text ps ++ [0], (text ps).length)
        else .null) := by
    rw [Mem.finishBody_eq block size total, granted]
    simp
  refine ⟨fun ps total => ⟨?_, returned ps total⟩, fun heap b nowMs random => ?_⟩
  · obtain ⟨buf', appended, size'⟩ :=
      appends_inside size small (show 0 + (text ps).length < 2 ^ 31 by omega)
    rw [Nat.zero_add] at appended
    exact ⟨buf', appended, size'⟩
  · obtain ⟨ps, built, -⟩ := pieces_eq b nowMs random
    refine ⟨ps, built, fun total granted => ?_⟩
    rw [Mem.igBuildTimelineBody, built, Option.bind_eq_bind, Option.bind_some]
    exact returned ps total heap granted

/-- Two pieces, and the body of an empty session. -/
theorem igBuildTimelineBody_allOrNothing_empty :
    (∃ buf', [literal "\x7b", literal "\x7d"].foldlM (Mem.append bodyCap)
      (List.replicate bodyCap 0, 0) = some (buf', 2) ∧ buf'.length = bodyCap) ∧
    ∃ ps, Mem.pieces emptyBody 1700000000000 0 = some ps ∧
      Mem.igBuildTimelineBody .roomy (fun _ => 0) (List.replicate bodyCap 0) emptyBody 1700000000000
        0 = some (.value (text ps ++ [0], (text ps).length)) := by
  obtain ⟨appends, bodies⟩ := igBuildTimelineBody_allOrNothing (List.replicate bodyCap 0)
    List.length_replicate fun _ => 0
  obtain ⟨ps, built, body⟩ := bodies .roomy emptyBody 1700000000000 0
  refine ⟨(appends _ (by decide)).1, ps, built, ?_⟩
  have size : (text ps).length < bodyCap := by
    obtain rfl : ps = _ := (Option.some.inj built).symm
    decide +kernel
  have cap : bodyCap = 4096 := rfl
  rw [body (by omega) (decide_eq_true (by omega)), if_pos size]

end InstagramNt40.IgPrivate
