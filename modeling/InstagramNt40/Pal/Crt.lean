import Mathlib.Data.List.TakeWhile
import Mathlib.Tactic.Ring

/-!
# pal/nt4_crt.c

The C string functions the program links against, over a block of memory given as
its bytes. A pointer is an offset into the block; a walk that leaves the block
before a terminating NUL finds nothing.
-/
namespace InstagramNt40.Crt

/-- The C string at `p`: the bytes up to the next NUL. -/
def cstr (mem : List UInt8) (p : Nat) : List UInt8 := (mem.drop p).takeWhile (· != 0)

/-- The bytes of a string literal. -/
def literal (s : String) : List UInt8 := s.toUTF8.data.toList

/-- `strcmp` over two strings and what stands behind them; where a list ends, the NUL. -/
def strcmp : List UInt8 → List UInt8 → Int
  | a :: s, b :: t => if a ≠ 0 ∧ a = b then strcmp s t else (a.toNat : Int) - b.toNat
  | a :: _, [] => a.toNat
  | [], b :: _ => -b.toNat
  | [], [] => 0

/-- `strncmp`; where a list ends, the NUL. -/
def strncmp : List UInt8 → List UInt8 → Nat → Int
  | _, _, 0 => 0
  | a :: s, b :: t, n + 1 =>
    if a ≠ 0 ∧ a = b then strncmp s t n else (a.toNat : Int) - b.toNat
  | a :: _, [], _ => a.toNat
  | [], b :: _, _ => -b.toNat
  | [], [], _ => 0

/-- The loop of `strchr` from the bytes `s` at address `p` on. -/
def strchrFrom (c : UInt8) : List UInt8 → Nat → Option Nat
  | [], _ => none
  | b :: s, p => if b = c then some p else if b = 0 then none else strchrFrom c s (p + 1)

def strchr (mem : List UInt8) (p : Nat) (c : UInt8) : Option Nat := strchrFrom c (mem.drop p) p

/-- The inner loop of `strstr`: does the needle stand here? -/
def matchesHere : List UInt8 → List UInt8 → Bool
  | _, [] => true
  | [], _ :: _ => false
  | h :: hay, n :: needle => if h ≠ 0 ∧ h = n then matchesHere hay needle else false

/-- The outer loop of `strstr`. -/
def strstrFrom (needle : List UInt8) : List UInt8 → Nat → Option Nat
  | [], _ => none
  | b :: hay, p =>
    if b = 0 then none
    else if matchesHere (b :: hay) needle then some p
    else strstrFrom needle hay (p + 1)

def strstr (mem : List UInt8) (p : Nat) (needle : List UInt8) : Option Nat :=
  if needle = [] then some p else strstrFrom needle (mem.drop p) p

/-! ### What they find -/

/-- At `p` the memory holds the string `s` and its NUL. -/
def PointsTo (mem : List UInt8) (p : Nat) (s : List UInt8) : Prop :=
  ∃ pre post, mem = pre ++ (s ++ 0 :: post) ∧ p = pre.length ∧ ∀ b ∈ s, b ≠ 0

theorem PointsTo.drop {mem s : List UInt8} {p : Nat} (h : PointsTo mem p s) :
    ∃ post, mem.drop p = s ++ 0 :: post ∧ ∀ b ∈ s, b ≠ 0 := by
  obtain ⟨pre, post, rfl, rfl, notNul⟩ := h
  exact ⟨post, List.drop_left, notNul⟩

theorem PointsTo.cstr {mem s : List UInt8} {p : Nat} (h : PointsTo mem p s) :
    Crt.cstr mem p = s := by
  obtain ⟨post, dropped, notNul⟩ := h.drop
  have all : ∀ b ∈ s, (b != 0) = true := fun b hb => by simpa using notNul b hb
  rw [Crt.cstr, dropped, List.takeWhile_append_of_pos all]
  simp

/-- A C string has no NUL in it. -/
theorem cstr_plain (mem : List UInt8) (p : Nat) : ∀ b ∈ cstr mem p, b ≠ 0 := by
  intro b hb
  simpa using List.mem_takeWhile_imp hb

theorem cstr_zero_cons (b : UInt8) (s : List UInt8) :
    cstr (b :: s) 0 = if b = 0 then [] else b :: cstr s 0 := by
  unfold cstr
  by_cases nul : b = 0
  · simp [nul]
  · simp [nul]

theorem cstr_whole {s : List UInt8} (plain : 0 ∉ s) : cstr s 0 = s := by
  rw [cstr, List.drop_zero, List.takeWhile_eq_self_iff]
  intro b member
  rw [bne_iff_ne]
  rintro rfl
  exact plain member

theorem zero_notMem_cstr (s : List UInt8) : 0 ∉ cstr s 0 := fun member =>
  cstr_plain s 0 0 member rfl

theorem cstr_append {s : List UInt8} (plain : 0 ∉ s) (r : List UInt8) :
    cstr (s ++ r) 0 = s ++ cstr r 0 := by
  unfold cstr
  rw [List.drop_zero, List.drop_zero, List.takeWhile_append_of_pos]
  intro b member
  rw [bne_iff_ne]
  rintro rfl
  exact plain member

theorem cstr_append_of_mem {s : List UInt8} (nul : 0 ∈ s) (r : List UInt8) :
    cstr (s ++ r) 0 = cstr s 0 := by
  induction s with
  | nil => cases nul
  | cons b s ih =>
    rw [List.cons_append, cstr_zero_cons, cstr_zero_cons]
    by_cases zero : b = 0
    · rw [if_pos zero, if_pos zero]
    · rw [if_neg zero, if_neg zero, ih ((List.mem_cons.mp nul).resolve_left (Ne.symm zero))]

theorem cstr_length_le (s : List UInt8) : (cstr s 0).length ≤ s.length := by
  rw [cstr, List.drop_zero]
  exact (List.takeWhile_prefix _).length_le

/-- A C string is as long as the memory only if there is no NUL. -/
theorem cstr_length_iff {s : List UInt8} : (cstr s 0).length = s.length ↔ 0 ∉ s := by
  constructor
  · intro whole member
    have same : cstr s 0 = s := by
      have start : cstr s 0 <+: s := by
        rw [cstr, List.drop_zero]
        exact List.takeWhile_prefix _
      exact start.eq_of_length whole
    rw [← same] at member
    exact zero_notMem_cstr s member
  · intro plain
    rw [cstr_whole plain]

/-- `strcmp` finds two C strings equal exactly if they are. -/
theorem strcmp_eq_zero_iff {s t : List UInt8} : strcmp s t = 0 ↔ cstr s 0 = cstr t 0 := by
  have positive {b : UInt8} (notNul : b ≠ 0) : b.toNat ≠ 0 := fun eq => notNul (by
    rw [← UInt8.toNat_inj]
    exact eq)
  induction s generalizing t with
  | nil =>
    cases t with
    | nil => simp [strcmp]
    | cons b t =>
      rw [strcmp, cstr_zero_cons]
      split_ifs with nul
      · simp [nul, cstr]
      · have := positive nul
        simp only [cstr, List.drop_nil, List.takeWhile_nil, List.nil_eq, reduceCtorEq, iff_false]
        omega
  | cons a s ih =>
    cases t with
    | nil =>
      rw [strcmp, cstr_zero_cons]
      split_ifs with nul
      · simp [nul, cstr]
      · have := positive nul
        simp only [cstr, List.drop_nil, List.takeWhile_nil, reduceCtorEq, iff_false]
        omega
    | cons b t =>
      rw [strcmp, cstr_zero_cons, cstr_zero_cons]
      by_cases same : a = b
      · subst same
        by_cases nul : a = 0
        · simp [nul]
        · simp [nul, ih]
      · -- the strings part here, even if one of them ends
        have differ : a.toNat ≠ b.toNat := fun eq => same (UInt8.toNat_inj.mp eq)
        rw [if_neg (fun both => same both.2)]
        have apart : (if a = 0 then [] else a :: cstr s 0) ≠
            if b = 0 then [] else b :: cstr t 0 := by
          split_ifs with nul nul' nul'
          · exact absurd (nul.trans nul'.symm) same
          all_goals simp [same]
        simp only [apart, iff_false]
        omega

/-- `strncmp` against all of a literal finds it at the start. -/
theorem strncmp_literal_iff {s lit : List UInt8} (notNul : ∀ b ∈ lit, b ≠ 0) :
    strncmp s lit lit.length = 0 ↔ lit <+: s := by
  induction lit generalizing s with
  | nil => simp [strncmp]
  | cons b lit ih =>
    rw [List.forall_mem_cons] at notNul
    have differ {c d : UInt8} (apart : c ≠ d) : c.toNat ≠ d.toNat :=
      fun eq => apart (UInt8.toNat_inj.mp eq)
    cases s with
    | nil =>
      have positive := differ notNul.1
      rw [UInt8.toNat_zero] at positive
      simp only [strncmp, List.length_cons, List.prefix_nil, reduceCtorEq, iff_false]
      omega
    | cons a s =>
      rw [List.length_cons, strncmp, List.cons_prefix_cons]
      by_cases same : b = a
      · subst same
        rw [if_pos ⟨notNul.1, rfl⟩, ih notNul.2]
        simp
      · have := differ same
        rw [if_neg fun both => same both.2.symm]
        simp only [same, false_and, iff_false]
        omega

/-- Memory after the string does not matter. -/
theorem PointsTo.append {mem s : List UInt8} {p : Nat} (h : PointsTo mem p s)
    (more : List UInt8) : PointsTo (mem ++ more) p s := by
  obtain ⟨pre, post, rfl, rfl, notNul⟩ := h
  exact ⟨pre, post ++ more, by simp, rfl, notNul⟩

theorem strchrFrom_append {c : UInt8} {s post : List UInt8} (h : ∀ b ∈ s, b ≠ 0 ∧ b ≠ c)
    (p : Nat) : strchrFrom c (s ++ post) p = strchrFrom c post (p + s.length) := by
  induction s generalizing p with
  | nil => rfl
  | cons b s ih =>
    have hb := h b (by simp)
    rw [List.cons_append, strchrFrom, if_neg hb.2, if_neg hb.1, ih fun d hd => h d (by simp [hd])]
    simp [Nat.add_assoc, Nat.add_comm 1]

/-- The character is found at its first place. -/
theorem strchr_found {c : UInt8} {s : List UInt8} (pre post : List UInt8)
    (h : ∀ b ∈ s, b ≠ 0 ∧ b ≠ c) :
    strchr (pre ++ (s ++ c :: post)) pre.length c = some (pre.length + s.length) := by
  rw [strchr, List.drop_left, strchrFrom_append h, strchrFrom, if_pos rfl]

/-- A string without the character has none. -/
theorem strchr_none {c : UInt8} {s : List UInt8} (pre post : List UInt8) (notNul : c ≠ 0)
    (h : ∀ b ∈ s, b ≠ 0 ∧ b ≠ c) :
    strchr (pre ++ (s ++ 0 :: post)) pre.length c = none := by
  rw [strchr, List.drop_left, strchrFrom_append h, strchrFrom, if_neg (Ne.symm notNul), if_pos rfl]

/-! ### Results -/

/-- What a function returns that builds something: a pointer to it, NULL, or, after
undefined behaviour, anything. -/
inductive Returned (α : Type) where
  | value (a : α)
  | null
  | fault
  deriving DecidableEq

/-! ### The heap -/

/-- Which sizes an allocation is granted. A block of 2 GiB or more does not fit the
address space. -/
structure Heap where
  grants : Nat → Bool
  small : ∀ n, grants n = true → n < 2 ^ 31

/-- The heap that grants whatever fits. -/
def Heap.roomy : Heap := ⟨fun n => n < 2 ^ 31, fun _ => of_decide_eq_true⟩

end InstagramNt40.Crt
