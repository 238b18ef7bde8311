import InstagramNt40.Library.Ownership

/-!
# What the program asks the system for

The allocator of pal/nt4_crt.c, and the kinds of things the other functions of pal/ hand
out. Every request may be refused, whatever was granted before.
-/
namespace InstagramNt40.Alloc

open Ownership

/-- What has to be given back. -/
inductive Kind where
  | block
  | socket
  | context
  | file
  deriving DecidableEq, Repr

abbrev Block : Type := Name Kind

abbrev Proc (α : Type) : Type := Prog Kind α

/-- `malloc`, and `calloc`. -/
def malloc : Proc (Option Block) := acquire .block

/-- `realloc` to another size than zero. -/
def realloc (p : Option Block) : Proc (Option Block) := resize .block p

/-- A request that is always refused. -/
def refuse : Proc (Option Block) := fun w => .ok none w.answered true

/-- `malloc(n)`, where a block of 2 GiB does not fit the address space. -/
def mallocSize (n : Nat) : Proc (Option Block) := if n < 2 ^ 31 then malloc else refuse

def reallocSize (p : Option Block) (n : Nat) : Proc (Option Block) :=
  if n < 2 ^ 31 then realloc p else refuse

def free (p : Option Block) : Proc Unit := releaseOption p

/-- Read a field through a pointer. -/
def look (p : Option Block) : Proc Unit :=
  match p with
  | some block => touch block
  | none => fault

/-- Memory and the bytes written to it; where they are a string, without its NUL. -/
structure Buf where
  block : Block
  bytes : List UInt8

/-- A world in which nothing is held yet and every request is granted. -/
def plenty : World Kind where
  live := 0
  next := 0
  answers _ := true
  fresh _ member := by simp at member
  nodup := Multiset.nodup_zero

/-! ### What they do -/

theorem refuse_spec : Triple 0 refuse owned fun r o => r = true ∧ o = none := by
  intro w others live
  refine ⟨none, w.answered, true, rfl, ?_, rfl, rfl⟩
  rw [owned_none]
  exact live

/-- A block that is granted has a size below 2 GiB. -/
theorem mallocSize_spec (n : Nat) :
    Triple 0 (mallocSize n) owned fun r o => r = o.isNone ∧ (o.isSome = true → n < 2 ^ 31) := by
  unfold mallocSize
  split_ifs with small
  · exact Triple.acquire.mono rfl fun o r answer => ⟨rfl, answer, fun _ => small⟩
  · refine refuse_spec.mono rfl fun o r none => ?_
    obtain ⟨rfl, rfl⟩ := none
    exact ⟨rfl, rfl, fun some => by cases some⟩

theorem reallocSize_spec (p : Option Block) (n : Nat) :
    Triple (owned p) (reallocSize p n) (fun o => if o.isSome then owned o else owned p)
      fun r o => r = o.isNone ∧ (o.isSome = true → n < 2 ^ 31) := by
  unfold reallocSize
  split_ifs with small
  · exact (Triple.resize p).mono rfl fun o r answer => ⟨rfl, answer, fun _ => small⟩
  · refine (refuse_spec.framed (owned p)).mono (zero_add _).symm fun o r none => ?_
    obtain ⟨rfl, rfl⟩ := none
    exact ⟨by simp, rfl, fun some => by cases some⟩

end InstagramNt40.Alloc
