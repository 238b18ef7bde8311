import InstagramNt40.Library.Copy

/-!
# The memory functions of pal/nt4_crt.c

Over the bytes of an object; a pointer is an offset into it. An access outside of the object
is the result `none`.
-/
namespace InstagramNt40.Crt

/-- `memcpy` from one object into another: the destination afterwards. -/
def memcpy (mem : List UInt8) (dst : Nat) (other : List UInt8) (src n : Nat) :
    Option (List UInt8) :=
  Copy.into other n dst src mem

/-- `memmove` within an object: the object afterwards and the pointer that is returned. -/
def memmove (mem : List UInt8) (dst src n : Nat) : Option (List UInt8 × Nat) := do
  let mem ← if dst < src then Copy.up n dst src mem else Copy.down n (dst + n) (src + n) mem
  pure (mem, dst)

/-- However the ranges overlap, the destination holds what the source held, and no other
byte has changed. -/
theorem memmove_moved (mem : List UInt8) (dst src n : Nat) (dstIn : dst + n ≤ mem.length)
    (srcIn : src + n ≤ mem.length) :
    ∃ mem', memmove mem dst src n = some (mem', dst) ∧ Copy.Moved mem dst src n mem' := by
  unfold memmove
  by_cases below : dst < src
  · obtain ⟨mem', run, moved⟩ := Copy.up_moved dstIn srcIn (.inl (Nat.le_of_lt below))
    exact ⟨mem', by rw [if_pos below, run]; rfl, moved⟩
  · obtain ⟨mem', run, moved⟩ := Copy.down_moved dstIn srcIn (.inl (Nat.not_lt.mp below))
    exact ⟨mem', by rw [if_neg below, run]; rfl, moved⟩

/-- Four bytes moved up by one over themselves. -/
theorem memmove_moved_overlap :
    ∃ mem', memmove [1, 2, 3, 4, 5] 1 0 4 = some (mem', 1) ∧
      Copy.Moved [1, 2, 3, 4, 5] 1 0 4 mem' :=
  memmove_moved _ _ _ _ (by decide) (by decide)

example : memmove [1, 2, 3, 4, 5] 0 1 4 = some ([2, 3, 4, 5, 5], 0) := by decide

end InstagramNt40.Crt
