import InstagramNt40.Net.Printf
import Mathlib.Data.List.TakeDrop

/-!
# The buffer and the format of `mbedtls_nt4_vsnprintf`

The formatter over a buffer and a format in memory: a store outside of the buffer and a
load behind the NUL of the format are faults, and the width wraps around like an `int`.
The code is given over whatever emits; emitting into a buffer cuts off what emitting
without a bound collects.
-/
namespace InstagramNt40.Printf

open Crt

namespace Mem

inductive Fault where
  /-- A load or a store outside. -/
  | access
  /-- An argument that is not there, or of another type. -/
  | argument
  | fuel
  deriving DecidableEq

/-! ### The code -/

section Code

variable {σ : Type} (emit : σ → List UInt8 → Except Fault σ)

def emitUint (out : σ) (v base : UInt32) (upper : Bool) (width : Int) (zeroPad : Bool) :
    Except Fault σ := do
  let hex := if upper then literal "0123456789ABCDEF" else literal "0123456789abcdef"
  let digits := uintDigits hex base 32 v
  let pad := (width - digits.length).bmod (2 ^ 32)
  let out ← emit out (List.replicate pad.toNat (if zeroPad then 0x30 else 0x20))
  emit out digits.reverse

/-- `if (*p == c) p++;`, and whether it did. -/
def skipByte (c : UInt8) : List UInt8 → Except Fault (Bool × List UInt8)
  | [] => .error .access
  | b :: p => .ok (if b = c then (true, p) else (false, b :: p))

/-- The loop over the digits of the width. -/
def readWidth : List UInt8 → Int → Except Fault (Int × List UInt8)
  | [], _ => .error .access
  | c :: p, width =>
    if 0x30 ≤ c ∧ c ≤ 0x39 then
      readWidth p ((width * 10 + ((c.toNat : Int) - 0x30)).bmod (2 ^ 32))
    else .ok (width, c :: p)

/-- `va_arg` -/
def va {α : Type} (slot : Option α) : Except Fault α :=
  match slot with
  | some a => .ok a
  | none => .error .argument

/-- The `switch` over the byte of a conversion, which may be the NUL. -/
def convert (out : σ) (zeroPad : Bool) (width : Int) (c : UInt8) (args : List Arg) :
    Except Fault (σ × List Arg) :=
  if c = 0x25 then do
    let out ← emit out [0x25]
    pure (out, args)
  else if c = 0x63 then do
    let (v, args) ← va (vaWord args)
    let out ← emit out [v.toUInt8]
    pure (out, args)
  else if c = 0x73 then do
    let (s, args) ← va (vaString args)
    let out ← emit out (cstr (s.getD (literal "(null)")) 0)
    pure (out, args)
  else if c = 0x64 ∨ c = 0x69 then do
    let (v, args) ← va (vaWord args)
    if v ≥ 0x80000000 then do
      let out ← emit out [0x2D]
      let out ← emitUint emit out (0 - v) 10 false width zeroPad
      pure (out, args)
    else do
      let out ← emitUint emit out v 10 false width zeroPad
      pure (out, args)
  else if c = 0x75 then do
    let (v, args) ← va (vaWord args)
    let out ← emitUint emit out v 10 false width zeroPad
    pure (out, args)
  else if c = 0x78 then do
    let (v, args) ← va (vaWord args)
    let out ← emitUint emit out v 16 false width zeroPad
    pure (out, args)
  else if c = 0x58 then do
    let (v, args) ← va (vaWord args)
    let out ← emitUint emit out v 16 true width zeroPad
    pure (out, args)
  else do
    let out ← emit out [0x25]
    if c ≠ 0 then do
      let out ← emit out [c]
      pure (out, args)
    else pure (out, args)

/-- The conversion behind a percent sign, up to its last byte. -/
def conversion (p : List UInt8) (args : List Arg) (out : σ) :
    Except Fault (UInt8 × List UInt8 × List Arg × σ) := do
  let (zeroPad, p) ← skipByte 0x30 p
  let (width, p) ← readWidth p 0
  let (_, p) ← skipByte 0x6C p
  let (_, p) ← skipByte 0x7A p
  match p with
  | [] => .error .access
  | c :: p => do
    let (out, args) ← convert emit out zeroPad width c args
    pure (c, p, args, out)

/-- The loop over the format, in the memory from `p` on. -/
def formatLoop : Nat → List UInt8 → List Arg → σ → Except Fault σ
  | 0, _, _, _ => .error .fuel
  | _ + 1, [], _, _ => .error .access
  | fuel + 1, c :: p, args, out =>
    if c = 0 then .ok out
    else if c ≠ 0x25 then do
      let out ← emit out [c]
      formatLoop fuel p args out
    else do
      let (c, p, args, out) ← conversion emit p args out
      if c = 0 then .ok out else formatLoop fuel p args out

end Code

/-! ### The buffer -/

/-- The buffer, all of its bytes, and the cursor. -/
structure Sink where
  buf : List UInt8
  pos : Nat
  deriving DecidableEq

def store (buf : List UInt8) (i : Nat) (b : UInt8) : Except Fault (List UInt8) :=
  if i < buf.length then .ok (buf.set i b) else .error .access

/-- A round of the loop of `emit`. -/
def emitByte (cap : Nat) (out : Sink) (b : UInt8) : Except Fault Sink :=
  if out.pos < cap then do
    let buf ← store out.buf out.pos b
    pure ⟨buf, out.pos + 1⟩
  else pure ⟨out.buf, out.pos + 1⟩

def emit (cap : Nat) (out : Sink) (s : List UInt8) : Except Fault Sink :=
  s.foldlM (emitByte cap) out

/-- `mbedtls_nt4_vsnprintf` into a buffer, its length being `n`: the buffer afterwards and
the length that is returned. The format is the C string in `fmt`, with its NUL. -/
def mbedtlsNt4Vsnprintf (buf fmt : List UInt8) (args : List Arg) :
    Except Fault (List UInt8 × Nat) := do
  let n := buf.length
  let cap := if n > 0 then n - 1 else 0
  let format := cstr fmt 0 ++ [0]
  let out ← formatLoop (emit cap) format.length format args ⟨buf, 0⟩
  if n > 0 then do
    let buf ← store out.buf (if out.pos < cap then out.pos else cap) 0
    pure (buf, out.pos)
  else pure (out.buf, out.pos)

/-! ### Output without a bound -/

def collect (out s : List UInt8) : Except Fault (List UInt8) := .ok (out ++ s)

/-- All that is emitted for a format. -/
def output (fmt : List UInt8) (args : List Arg) : Except Fault (List UInt8) :=
  formatLoop collect (cstr fmt 0 ++ [0]).length (cstr fmt 0 ++ [0]) args []

/-! ### The cases of the `switch` -/

inductive SwitchCase where
  | percent
  | char
  | string
  | signed
  | unsigned (base : UInt32) (upper : Bool)
  | unknown

def switchCase (c : UInt8) : SwitchCase :=
  if c = 0x25 then .percent
  else if c = 0x63 then .char
  else if c = 0x73 then .string
  else if c = 0x64 ∨ c = 0x69 then .signed
  else if c = 0x75 then .unsigned 10 false
  else if c = 0x78 then .unsigned 16 false
  else if c = 0x58 then .unsigned 16 true
  else .unknown

/-- The three unsigned conversions differ only in base and letter case. -/
theorem convert_cases {σ : Type} (emit : σ → List UInt8 → Except Fault σ) (out : σ)
    (zeroPad : Bool) (width : Int) (c : UInt8) (args : List Arg) :
    convert emit out zeroPad width c args =
      (match switchCase c with
      | .percent => do
        let out ← emit out [0x25]
        pure (out, args)
      | .char => do
        let (v, args) ← va (vaWord args)
        let out ← emit out [v.toUInt8]
        pure (out, args)
      | .string => do
        let (s, args) ← va (vaString args)
        let out ← emit out (cstr (s.getD (literal "(null)")) 0)
        pure (out, args)
      | .signed => do
        let (v, args) ← va (vaWord args)
        if v ≥ 0x80000000 then do
          let out ← emit out [0x2D]
          let out ← emitUint emit out (0 - v) 10 false width zeroPad
          pure (out, args)
        else do
          let out ← emitUint emit out v 10 false width zeroPad
          pure (out, args)
      | .unsigned base upper => do
        let (v, args) ← va (vaWord args)
        let out ← emitUint emit out v base upper width zeroPad
        pure (out, args)
      | .unknown => do
        let out ← emit out [0x25]
        if c ≠ 0 then do
          let out ← emit out [c]
          pure (out, args)
        else pure (out, args)) := by
  unfold convert switchCase
  by_cases percent : c = 0x25
  · rw [if_pos percent, if_pos percent]
  rw [if_neg percent, if_neg percent]
  by_cases char : c = 0x63
  · rw [if_pos char, if_pos char]
  rw [if_neg char, if_neg char]
  by_cases string : c = 0x73
  · rw [if_pos string, if_pos string]
  rw [if_neg string, if_neg string]
  by_cases signed : c = 0x64 ∨ c = 0x69
  · rw [if_pos signed, if_pos signed]
  rw [if_neg signed, if_neg signed]
  by_cases unsigned : c = 0x75
  · rw [if_pos unsigned, if_pos unsigned]
  rw [if_neg unsigned, if_neg unsigned]
  by_cases lower : c = 0x78
  · rw [if_pos lower, if_pos lower]
  rw [if_neg lower, if_neg lower]
  by_cases upper : c = 0x58
  · rw [if_pos upper, if_pos upper]
  rw [if_neg upper, if_neg upper]

/-! ### The code does not look at its output -/

section Simulation

variable {σ τ α β α' β' : Type}

theorem bind_hom {x : Except Fault α} {g : α → Except Fault β} {g' : α' → Except Fault β'}
    {f : α → α'} {f' : β → β'} (next : ∀ a, g' (f a) = (g a).map f') :
    (x.map f >>= g') = (x >>= g).map f' := by
  cases x with
  | error e => rfl
  | ok a => exact next a

theorem bind_same {x : Except Fault α} {g : α → Except Fault β} {g' : α → Except Fault β'}
    {f' : β → β'} (next : ∀ a, g' a = (g a).map f') : (x >>= g') = (x >>= g).map f' := by
  cases x with
  | error e => rfl
  | ok a => exact next a

theorem bind_pure {x : Except Fault α} {f : α → α'} {g : α' → Except Fault β} {h : α → β}
    (next : ∀ a, g (f a) = .ok (h a)) : (x.map f >>= g) = x.map h := by
  cases x with
  | error e => rfl
  | ok a => exact next a

variable {emit : σ → List UInt8 → Except Fault σ} {emit' : τ → List UInt8 → Except Fault τ}
  {f : σ → τ}

theorem emitUint_hom (hom : ∀ out s, emit' (f out) s = (emit out s).map f) (out : σ)
    (v base : UInt32) (upper : Bool) (width : Int) (zeroPad : Bool) :
    emitUint emit' (f out) v base upper width zeroPad =
      (emitUint emit out v base upper width zeroPad).map f := by
  unfold emitUint
  dsimp only
  rw [hom]
  exact bind_hom fun out => hom out _

theorem convert_hom (hom : ∀ out s, emit' (f out) s = (emit out s).map f) (out : σ)
    (zeroPad : Bool) (width : Int) (c : UInt8) (args : List Arg) :
    convert emit' (f out) zeroPad width c args =
      (convert emit out zeroPad width c args).map fun (out, args) => (f out, args) := by
  have number := emitUint_hom hom
  rw [convert_cases, convert_cases]
  cases switchCase c with
  | percent =>
    dsimp only
    rw [hom]
    exact bind_hom fun _ => rfl
  | char =>
    refine bind_same fun (v, args) => ?_
    dsimp only
    rw [hom]
    exact bind_hom fun _ => rfl
  | string =>
    refine bind_same fun (s, args) => ?_
    dsimp only
    rw [hom]
    exact bind_hom fun _ => rfl
  | signed =>
    refine bind_same fun (v, args) => ?_
    dsimp only
    split_ifs with negative
    · rw [hom]
      refine bind_hom fun out => ?_
      rw [number]
      exact bind_hom fun _ => rfl
    · rw [number]
      exact bind_hom fun _ => rfl
  | unsigned base upper =>
    refine bind_same fun (v, args) => ?_
    dsimp only
    rw [number]
    exact bind_hom fun _ => rfl
  | unknown =>
    dsimp only
    rw [hom]
    refine bind_hom fun out => ?_
    split_ifs with more
    · rw [hom]
      exact bind_hom fun _ => rfl
    · rfl

theorem conversion_hom (hom : ∀ out s, emit' (f out) s = (emit out s).map f)
    (p : List UInt8) (args : List Arg) (out : σ) :
    conversion emit' p args (f out) =
      (conversion emit p args out).map fun (c, p, args, out) => (c, p, args, f out) := by
  unfold conversion
  refine bind_same fun (zeroPad, p) => ?_
  refine bind_same fun (width, p) => ?_
  refine bind_same fun (_, p) => ?_
  refine bind_same fun (_, p) => ?_
  cases p with
  | nil => rfl
  | cons c p =>
    dsimp only
    rw [convert_hom hom]
    exact bind_hom fun _ => rfl

/-- An output that follows another one byte for byte follows it through the whole code. -/
theorem formatLoop_hom (hom : ∀ out s, emit' (f out) s = (emit out s).map f) (fuel : Nat)
    (p : List UInt8) (args : List Arg) (out : σ) :
    formatLoop emit' fuel p args (f out) = (formatLoop emit fuel p args out).map f := by
  induction fuel generalizing p args out with
  | zero => rfl
  | succ fuel ih =>
    cases p with
    | nil => rfl
    | cons c p =>
      unfold formatLoop
      split_ifs with stop plain
      · rfl
      · rw [hom]
        exact bind_hom fun out => ih p args out
      · rw [conversion_hom hom]
        refine bind_hom fun (c, p, args, out) => ?_
        dsimp only
        split_ifs with last
        · rfl
        · exact ih p args out

end Simulation

/-! ### Cutting off -/

/-- What is in the buffer, and where the cursor is, when `text` has been emitted. -/
def Sink.holding (cap : Nat) (buf text : List UInt8) : Sink :=
  ⟨text.take cap ++ buf.drop (min text.length cap), text.length⟩

@[simp] theorem Sink.pos_holding (cap : Nat) (buf text : List UInt8) :
    (Sink.holding cap buf text).pos = text.length := rfl

theorem Sink.holding_of_lt {cap : Nat} (buf : List UInt8) {text : List UInt8}
    (inside : text.length ≤ cap) :
    Sink.holding cap buf text = ⟨text ++ buf.drop text.length, text.length⟩ := by
  rw [Sink.holding, List.take_of_length_le inside, Nat.min_eq_left inside]

theorem store_append {buf : List UInt8} {text : List UInt8} (room : text.length < buf.length)
    (b : UInt8) :
    store (text ++ buf.drop text.length) text.length b =
      .ok (text ++ b :: buf.drop (text.length + 1)) := by
  rw [store, if_pos (by simp; omega), List.drop_eq_getElem_cons room,
    List.set_append_right _ _ (le_refl _), Nat.sub_self, List.set_cons_zero]

theorem emitByte_holding {cap : Nat} {buf : List UInt8} (room : cap ≤ buf.length)
    (text : List UInt8) (b : UInt8) :
    emitByte cap (.holding cap buf text) b = .ok (.holding cap buf (text ++ [b])) := by
  by_cases inside : text.length < cap
  · rw [Sink.holding_of_lt buf (le_of_lt inside), Sink.holding_of_lt buf (by simp; omega)]
    simp only [emitByte, if_pos inside]
    rw [store_append (by omega), List.length_append, List.append_assoc]
    rfl
  · have full : (text ++ [b]).take cap = text.take cap :=
      List.take_append_of_le_length (by omega)
    have last : min (text ++ [b]).length cap = min text.length cap := by
      rw [List.length_append]
      omega
    unfold Sink.holding
    rw [full, last]
    simp [emitByte, inside]
    rfl

theorem emit_holding {cap : Nat} {buf : List UInt8} (room : cap ≤ buf.length)
    (text s : List UInt8) :
    emit cap (.holding cap buf text) s = .ok (.holding cap buf (text ++ s)) := by
  unfold emit
  induction s generalizing text with
  | nil => rw [List.append_nil]; rfl
  | cons b s ih =>
    rw [List.foldlM_cons, emitByte_holding room]
    have rest := ih (text ++ [b])
    rw [List.append_assoc] at rest
    exact rest

/-! ### What a format takes -/

inductive Slot where
  | word
  | string
  deriving DecidableEq

def slotOf : Arg → Slot
  | .word _ => .word
  | .str _ => .string

/-- The arguments of a conversion, by its last byte. -/
def taken (c : UInt8) : List Slot :=
  if c = 0x73 then [.string]
  else if c = 0x63 ∨ c = 0x64 ∨ c = 0x69 ∨ c = 0x75 ∨ c = 0x78 ∨ c = 0x58 then [.word]
  else []

def dropByte (c : UInt8) : List UInt8 → List UInt8
  | [] => []
  | b :: p => if b = c then p else b :: p

def inWidth (c : UInt8) : Bool := 0x30 ≤ c ∧ c ≤ 0x39

/-- A conversion from its last byte on: the flag, the width and the modifiers are in front. -/
def lastByte (p : List UInt8) : List UInt8 :=
  dropByte 0x7A (dropByte 0x6C ((dropByte 0x30 p).dropWhile inWidth))

theorem dropByte_suffix (c : UInt8) (p : List UInt8) : dropByte c p <:+ p := by
  cases p with
  | nil => exact List.suffix_rfl
  | cons b p =>
    rw [dropByte]
    split_ifs
    · exact List.suffix_cons b p
    · exact List.suffix_rfl

theorem lastByte_suffix (p : List UInt8) : lastByte p <:+ p :=
  (dropByte_suffix _ _).trans ((dropByte_suffix _ _).trans
    ((List.dropWhile_suffix _).trans (dropByte_suffix _ _)))

/-- The arguments that a format takes, in order. -/
def wanted : List UInt8 → List Slot
  | [] => []
  | c :: p =>
    if c ≠ 0x25 then wanted p
    else
      match _h : lastByte p with
      | [] => []
      | c :: p' => taken c ++ wanted p'
termination_by p => p.length
decreasing_by
  · exact Nat.lt_succ_self p.length
  · have shorter := (lastByte_suffix p).length_le
    rw [_h] at shorter
    exact Nat.lt_succ_of_lt shorter

/-- Every conversion of the format finds an argument of its type. -/
def Provided (fmt : List UInt8) (args : List Arg) : Prop :=
  wanted (cstr fmt 0) <+: args.map slotOf

theorem wanted_plain {c : UInt8} (plain : c ≠ 0x25) (p : List UInt8) :
    wanted (c :: p) = wanted p := by
  rw [wanted, if_pos plain]

theorem wanted_stop {p : List UInt8} (stop : lastByte p = []) : wanted (0x25 :: p) = [] := by
  rw [wanted, if_neg (by decide)]
  split <;> simp_all

theorem wanted_conversion {p p' : List UInt8} {c : UInt8} (last : lastByte p = c :: p') :
    wanted (0x25 :: p) = taken c ++ wanted p' := by
  rw [wanted, if_neg (by decide)]
  split <;> simp_all

/-! ### Loads from the format -/

theorem skipByte_plain {c : UInt8} (nonzero : c ≠ 0) (p : List UInt8) :
    ∃ found, skipByte c (p ++ [0]) = .ok (found, dropByte c p ++ [0]) := by
  cases p with
  | nil => exact ⟨false, by simp [skipByte, dropByte, Ne.symm nonzero]⟩
  | cons b p =>
    by_cases same : b = c
    · exact ⟨true, by simp [skipByte, dropByte, same]⟩
    · exact ⟨false, by simp [skipByte, dropByte, same]⟩

/-- The width ends in front of the NUL. -/
theorem readWidth_plain (p : List UInt8) (width : Int) :
    ∃ width', readWidth (p ++ [0]) width = .ok (width', p.dropWhile inWidth ++ [0]) := by
  induction p generalizing width with
  | nil => exact ⟨width, rfl⟩
  | cons c p ih =>
    rw [List.cons_append, readWidth]
    by_cases digit : 0x30 ≤ c ∧ c ≤ 0x39
    · have inside : inWidth c = true := decide_eq_true digit
      rw [if_pos digit, List.dropWhile_cons_of_pos inside]
      exact ih _
    · have outside : ¬inWidth c = true := fun inside => digit (of_decide_eq_true inside)
      rw [if_neg digit, List.dropWhile_cons_of_neg outside]
      exact ⟨width, rfl⟩

/-- What a conversion reads: its last byte is that of the format, or the NUL. -/
theorem conversion_reads (p : List UInt8) : ∃ zeroPad width, ∀ (c : UInt8) (p' : List UInt8),
    lastByte p ++ [0] = c :: p' →
      ∀ {σ : Type} (emit : σ → List UInt8 → Except Fault σ) args out,
        conversion emit (p ++ [0]) args out =
          convert emit out zeroPad width c args >>= fun (out, args) => pure (c, p', args, out) := by
  obtain ⟨zeroPad, skip⟩ := skipByte_plain (c := 0x30) (by decide) p
  obtain ⟨width, read⟩ := readWidth_plain (dropByte 0x30 p) 0
  obtain ⟨_, long⟩ := skipByte_plain (c := 0x6C) (by decide)
    ((dropByte 0x30 p).dropWhile inWidth)
  obtain ⟨_, size⟩ := skipByte_plain (c := 0x7A) (by decide)
    (dropByte 0x6C ((dropByte 0x30 p).dropWhile inWidth))
  refine ⟨zeroPad, width, fun c p' last {σ} emit args out => ?_⟩
  change dropByte 0x7A _ ++ [0] = c :: p' at last
  unfold conversion
  rw [skip]
  dsimp only [bind, Except.bind]
  rw [read]
  dsimp only
  rw [long]
  dsimp only
  rw [size, last]

/-! ### Arguments -/

/-- The arguments of a case of the `switch`. -/
def SwitchCase.slots : SwitchCase → List Slot
  | .percent | .unknown => []
  | .string => [.string]
  | .char | .signed | .unsigned _ _ => [.word]

theorem taken_eq (c : UInt8) : taken c = (switchCase c).slots := by
  unfold taken switchCase
  by_cases percent : c = 0x25
  · subst percent
    decide
  by_cases char : c = 0x63
  · subst char
    decide
  by_cases string : c = 0x73
  · subst string
    decide
  by_cases signed : c = 0x64 ∨ c = 0x69
  · rcases signed with rfl | rfl <;> decide
  by_cases unsigned : c = 0x75
  · subst unsigned
    decide
  by_cases lower : c = 0x78
  · subst lower
    decide
  by_cases upper : c = 0x58
  · subst upper
    decide
  rw [not_or] at signed
  simp [percent, char, string, signed, unsigned, lower, upper, SwitchCase.slots]

theorem vaWord_takes (args : List Arg) :
    (∃ w, [Slot.word] <+: args.map slotOf ∧ vaWord args = some (w, args.drop 1)) ∨
      (¬[Slot.word] <+: args.map slotOf ∧ vaWord args = none) := by
  cases args with
  | nil => exact .inr ⟨by simp, rfl⟩
  | cons arg args =>
    cases arg with
    | word w => exact .inl ⟨w, by simp [slotOf], rfl⟩
    | str s => exact .inr ⟨by simp [slotOf], rfl⟩

theorem vaString_takes (args : List Arg) :
    (∃ s, [Slot.string] <+: args.map slotOf ∧ vaString args = some (s, args.drop 1)) ∨
      (¬[Slot.string] <+: args.map slotOf ∧ vaString args = none) := by
  cases args with
  | nil => exact .inr ⟨by simp, rfl⟩
  | cons arg args =>
    cases arg with
    | word w => exact .inr ⟨by simp [slotOf], rfl⟩
    | str s => exact .inl ⟨s, by simp [slotOf], rfl⟩

/-- A run that takes some arguments is finished if they are there, and stops for want of
one otherwise. -/
def Takes {α : Type} (slots : List Slot) (args : List Arg) (run : Except Fault α)
    (done : α → Prop) : Prop :=
  (slots <+: args.map slotOf ∧ ∃ a, run = .ok a ∧ done a) ∨
    (¬slots <+: args.map slotOf ∧ run = .error .argument)

theorem convert_takes (out : List UInt8) (zeroPad : Bool) (width : Int) (c : UInt8)
    (args : List Arg) :
    Takes (taken c) args (convert collect out zeroPad width c args) fun converted =>
      converted.2 = args.drop (taken c).length := by
  rw [taken_eq, convert_cases]
  cases switchCase c with
  | percent => exact .inl ⟨List.nil_prefix, _, rfl, rfl⟩
  | char =>
    rcases vaWord_takes args with ⟨w, first, found⟩ | ⟨missing, none⟩
    · exact .inl ⟨first, _, by rw [found]; rfl, rfl⟩
    · exact .inr ⟨missing, by rw [none]; rfl⟩
  | string =>
    rcases vaString_takes args with ⟨s, first, found⟩ | ⟨missing, none⟩
    · exact .inl ⟨first, _, by rw [found]; rfl, rfl⟩
    · exact .inr ⟨missing, by rw [none]; rfl⟩
  | signed =>
    rcases vaWord_takes args with ⟨w, first, found⟩ | ⟨missing, none⟩
    · rw [found]
      by_cases negative : w ≥ 0x80000000
      · exact .inl ⟨first, _, if_pos negative, rfl⟩
      · exact .inl ⟨first, _, if_neg negative, rfl⟩
    · exact .inr ⟨missing, by rw [none]; rfl⟩
  | unsigned base upper =>
    rcases vaWord_takes args with ⟨w, first, found⟩ | ⟨missing, none⟩
    · exact .inl ⟨first, _, by rw [found]; rfl, rfl⟩
    · exact .inr ⟨missing, by rw [none]; rfl⟩
  | unknown =>
    refine .inl ⟨List.nil_prefix, ?_⟩
    by_cases more : c ≠ 0
    · exact ⟨_, if_pos more, rfl⟩
    · exact ⟨_, if_neg more, rfl⟩

/-- Some arguments and then others. -/
theorem append_prefix_iff {α : Type} {s t r : List α} :
    s ++ t <+: r ↔ s <+: r ∧ t <+: r.drop s.length := by
  constructor
  · rintro ⟨u, rfl⟩
    refine ⟨⟨t ++ u, (List.append_assoc s t u).symm⟩, ⟨u, ?_⟩⟩
    rw [List.append_assoc, List.drop_left]
  · rintro ⟨⟨u, rfl⟩, rest⟩
    rw [List.drop_left] at rest
    exact (List.prefix_append_right_inj s).mpr rest

theorem formatLoop_takes {fuel : Nat} {p : List UInt8} (noNul : 0 ∉ p) (enough : p.length < fuel)
    (args : List Arg) (out : List UInt8) :
    Takes (wanted p) args (formatLoop collect fuel (p ++ [0]) args out) fun _ => True := by
  induction fuel generalizing p args out with
  | zero => omega
  | succ fuel ih =>
    cases p with
    | nil => exact .inl ⟨by rw [wanted]; exact List.nil_prefix, out, rfl, trivial⟩
    | cons c p =>
      obtain ⟨nonzero, tail⟩ := not_or.mp (mt List.mem_cons.mpr noNul)
      rw [List.length_cons] at enough
      rw [List.cons_append, formatLoop, if_neg (Ne.symm nonzero)]
      by_cases percent : c = 0x25
      · subst percent
        rw [if_neg (by decide)]
        obtain ⟨zeroPad, width, reads⟩ := conversion_reads p
        have suffix := lastByte_suffix p
        cases last : lastByte p with
        | nil =>
          -- the format ends in the conversion
          rw [reads 0 [] (by rw [last]; rfl), wanted_stop last]
          exact .inl ⟨List.nil_prefix, _, rfl, trivial⟩
        | cons c p' =>
          rw [last] at suffix
          have nonzero : c ≠ 0 := fun zero => tail (suffix.subset (by simp [zero]))
          have noNul' : 0 ∉ p' := fun zero => tail (suffix.subset (List.mem_cons_of_mem c zero))
          have shorter := suffix.length_le
          rw [List.length_cons] at shorter
          rw [reads c (p' ++ [0]) (by rw [last]; rfl), wanted_conversion last]
          rcases convert_takes out zeroPad width c args with ⟨first, ⟨out', args'⟩, run, rfl⟩ |
            ⟨missing, run⟩
          · rw [run]
            have rest := ih noNul' (by omega) (args.drop (taken c).length) out'
            unfold Takes at rest ⊢
            rw [append_prefix_iff, ← List.map_drop]
            dsimp only [bind, Except.bind, pure, Except.pure]
            rw [if_neg nonzero]
            simpa only [first, true_and] using rest
          · rw [run]
            exact .inr ⟨fun both => missing (append_prefix_iff.mp both).1, rfl⟩
      · rw [if_pos percent, wanted_plain percent]
        exact ih tail (by omega) args _

/-! ### The buffer afterwards -/

theorem output_takes (fmt : List UInt8) (args : List Arg) :
    Takes (wanted (cstr fmt 0)) args (output fmt args) fun _ => True :=
  formatLoop_takes (fun member => cstr_plain fmt 0 0 member rfl) (by simp) args []

/-- The bytes of a buffer after `text` has been written into it: as much of the text as
leaves room for a NUL, the NUL, and what was there. An empty buffer has no room. -/
def stored (buf text : List UInt8) : List UInt8 :=
  match buf.length with
  | 0 => buf
  | room + 1 => text.take room ++ 0 :: buf.drop (min text.length room + 1)

theorem store_stored {buf : List UInt8} {cap : Nat} (size : buf.length = cap + 1)
    (text : List UInt8) :
    store (Sink.holding cap buf text).buf (min text.length cap) 0 = .ok (stored buf text) := by
  have length : (text.take cap).length = min text.length cap := by
    rw [List.length_take, Nat.min_comm]
  have room : min text.length cap < buf.length := by omega
  have last := @store_append buf (text.take cap) (length.symm ▸ room) 0
  rw [length] at last
  rw [stored, size]
  exact last

theorem vsnprintf_eq (buf fmt : List UInt8) (args : List Arg) :
    mbedtlsNt4Vsnprintf buf fmt args =
      (output fmt args).map fun text => (stored buf text, text.length) := by
  -- the run into the buffer follows the one without a bound
  have run (cap : Nat) (room : cap ≤ buf.length) :
      formatLoop (emit cap) (cstr fmt 0 ++ [0]).length (cstr fmt 0 ++ [0]) args ⟨buf, 0⟩ =
        (output fmt args).map (Sink.holding cap buf) := by
    have start : (⟨buf, 0⟩ : Sink) = Sink.holding cap buf [] := by simp [Sink.holding]
    rw [start]
    exact formatLoop_hom (fun text s => emit_holding room text s) _ _ _ _
  unfold mbedtlsNt4Vsnprintf
  dsimp only
  rcases size : buf.length with _ | cap
  · rw [if_neg (Nat.lt_irrefl 0), run 0 (Nat.zero_le _)]
    refine bind_pure fun text => ?_
    have empty : buf = [] := List.length_eq_zero_iff.mp size
    rw [if_neg (Nat.lt_irrefl 0), stored, size, empty]
    simp [Sink.holding]
    rfl
  · rw [if_pos (Nat.succ_pos cap), run _ (by omega)]
    refine bind_pure fun text => ?_
    rw [if_pos (Nat.succ_pos cap), Nat.add_sub_cancel]
    have cursor (i : Nat) : (if i < cap then i else cap) = min i cap := by
      split_ifs <;> omega
    rw [cursor]
    dsimp only [Sink.pos_holding]
    rw [store_stored size]
    rfl

/-- For every format, all arguments and every buffer: where the arguments are those that the
conversions take, the length that is returned is that of the whole output, whatever the size
of the buffer; the buffer holds as much of it as leaves room for the NUL, and a buffer of no
bytes holds nothing. No load is behind the NUL of the format and no store outside of the
buffer, which would be a fault. Otherwise taking the argument is undefined, for every buffer. -/
theorem mbedtlsNt4Vsnprintf_truncates (fmt : List UInt8) (args : List Arg) :
    (Provided fmt args ∧ ∃ text, output fmt args = .ok text ∧
      ∀ buf, mbedtlsNt4Vsnprintf buf fmt args = .ok (stored buf text, text.length)) ∨
    (¬Provided fmt args ∧ output fmt args = .error .argument ∧
      ∀ buf, mbedtlsNt4Vsnprintf buf fmt args = .error .argument) := by
  rcases output_takes fmt args with ⟨provided, text, run, -⟩ | ⟨missing, run⟩
  · exact .inl ⟨provided, text, run, fun buf => by rw [vsnprintf_eq, run]; rfl⟩
  · exact .inr ⟨missing, run, fun buf => by rw [vsnprintf_eq, run]; rfl⟩

end Mem

end InstagramNt40.Printf
