import InstagramNt40.Net.PrintfC99

/-!
# The two views of `mbedtls_nt4_vsnprintf`

The formatter that keeps only what is stored, over a format without its NUL, agrees with the
one over memory as long as an `int` can count the output.
-/
namespace InstagramNt40.Printf

open Crt
open Http1 (decimalText decimalText_length_le)

/-- `emit` cannot fail. -/
def emitOk (cap : Nat) (out : Out) (s : List UInt8) : Except Mem.Fault Out := .ok (emit cap out s)

theorem emit_pos (cap : Nat) (out : Out) (s : List UInt8) :
    (emit cap out s).pos = out.pos + s.length := by
  unfold emit
  induction s generalizing out with
  | nil => rfl
  | cons b s ih =>
    have step : (emitByte cap out b).pos = out.pos + 1 := rfl
    rw [List.foldl_cons, ih, step, List.length_cons]
    omega

theorem skipByte_memory {c : UInt8} (nonzero : c ≠ 0) (p : List UInt8) :
    Mem.skipByte c (p ++ [0]) = .ok ((skipByte c p).1, (skipByte c p).2 ++ [0]) := by
  cases p with
  | nil => exact congrArg Except.ok (if_neg (Ne.symm nonzero))
  | cons b p =>
    rw [List.cons_append, Mem.skipByte, skipByte]
    split_ifs <;> rfl

/-- The width wraps around in an `int`. -/
theorem readWidth_memory (p : List UInt8) (width : Nat) :
    Mem.readWidth (p ++ [0]) ((width : Int).bmod (2 ^ 32)) =
      .ok (((readWidth p width).1 : Int).bmod (2 ^ 32), (readWidth p width).2 ++ [0]) := by
  induction p generalizing width with
  | nil => rfl
  | cons c p ih =>
    rw [List.cons_append, Mem.readWidth, readWidth]
    by_cases digit : 0x30 ≤ c ∧ c ≤ 0x39
    · have least := UInt8.le_iff_toNat_le.mp digit.1
      simp only [UInt8.reduceToNat] at least
      have next : ((width : Int).bmod (2 ^ 32) * 10 + ((c.toNat : Int) - 0x30)).bmod (2 ^ 32) =
          ((width * 10 + (c.toNat - 0x30) : Nat) : Int).bmod (2 ^ 32) := by
        rw [← Int.bmod_add_bmod, Int.bmod_mul_bmod, Int.bmod_add_bmod]
        congr 1
        omega
      rw [if_pos digit, if_pos digit, next, ih]
    · rw [if_neg digit, if_neg digit]
      rfl

section Agree

variable {cap : Nat} {out out' : Out}

/-- The length of the output counts the padding, so the width has not wrapped around. -/
theorem emitUint_memory {v base : UInt32} {upper : Bool} {width : Nat} {zeroPad : Bool}
    (small : (emitUint cap out v base upper width zeroPad).pos < 2 ^ 31) :
    Mem.emitUint (emitOk cap) out v base upper ((width : Int).bmod (2 ^ 32)) zeroPad =
      .ok (emitUint cap out v base upper width zeroPad) := by
  unfold emitUint at small ⊢
  unfold Mem.emitUint
  dsimp only at small ⊢
  rw [emit_pos, emit_pos, List.length_replicate, List.length_reverse] at small
  generalize uintDigits _ base 32 v = digits at small ⊢
  have count : (((width : Int).bmod (2 ^ 32) - digits.length).bmod (2 ^ 32)).toNat =
      width - digits.length := by
    rw [Int.bmod_sub_bmod, Int.bmod_eq_of_le] <;> omega
  rw [count]
  rfl

theorem emitUint_pos (v base : UInt32) (upper : Bool) (width : Nat) (zeroPad : Bool) :
    out.pos ≤ (emitUint cap out v base upper width zeroPad).pos := by
  unfold emitUint
  dsimp only
  rw [emit_pos, emit_pos]
  omega

/-- The cursor moves on, and as long as an `int` can count it the conversions agree. -/
def Agrees (out : Out) (run : Option (Out × List Arg))
    (memory : Except Mem.Fault (Out × List Arg)) : Prop :=
  ∀ out' args', run = some (out', args') →
    out.pos ≤ out'.pos ∧ (out'.pos < 2 ^ 31 → memory = .ok (out', args'))

theorem agrees_emit (s : List UInt8) (args : List Arg) :
    Agrees out (some (emit cap out s, args)) (emitOk cap out s >>= fun o => pure (o, args)) := by
  rintro out' args' ⟨⟩
  exact ⟨by rw [emit_pos]; omega, fun _ => rfl⟩

theorem agrees_emitUint (v base : UInt32) (upper : Bool) (width : Nat) (zeroPad : Bool)
    (args : List Arg) :
    Agrees out (some (emitUint cap out v base upper width zeroPad, args))
      (Mem.emitUint (emitOk cap) out v base upper ((width : Int).bmod (2 ^ 32)) zeroPad >>=
        fun o => pure (o, args)) := by
  rintro out' args' ⟨⟩
  exact ⟨emitUint_pos .., fun small => by rw [emitUint_memory small]; rfl⟩

theorem agrees_then (s : List UInt8) {run : Option (Out × List Arg)}
    {next : Out → Except Mem.Fault (Out × List Arg)}
    (agrees : Agrees (emit cap out s) run (next (emit cap out s))) :
    Agrees out run (emitOk cap out s >>= next) := by
  intro out' args' done
  obtain ⟨further, same⟩ := agrees out' args' done
  rw [emit_pos] at further
  exact ⟨by omega, same⟩

theorem agrees_va {α : Type} {slot : Option α} {f : α → Option (Out × List Arg)}
    {g : α → Except Mem.Fault (Out × List Arg)} (next : ∀ a, Agrees out (f a) (g a)) :
    Agrees out (slot >>= f) (Mem.va slot >>= g) := by
  cases slot with
  | none => rintro out' args' ⟨⟩
  | some a => exact next a

theorem convert_memory (zeroPad : Bool) (width : Nat) {c : UInt8} (nonzero : c ≠ 0)
    (args : List Arg) :
    Agrees out (convert cap out zeroPad width c args)
      (Mem.convert (emitOk cap) out zeroPad ((width : Int).bmod (2 ^ 32)) c args) := by
  unfold convert Mem.convert
  by_cases percent : c = 0x25
  · rw [if_pos percent, if_pos percent]
    exact agrees_emit _ _
  rw [if_neg percent, if_neg percent]
  by_cases char : c = 0x63
  · rw [if_pos char, if_pos char]
    exact agrees_va fun (v, args) => agrees_emit _ _
  rw [if_neg char, if_neg char]
  by_cases string : c = 0x73
  · rw [if_pos string, if_pos string]
    exact agrees_va fun (s, args) => agrees_emit _ _
  rw [if_neg string, if_neg string]
  by_cases signed : c = 0x64 ∨ c = 0x69
  · rw [if_pos signed, if_pos signed]
    refine agrees_va fun (v, args) => ?_
    dsimp only
    split_ifs with negative
    · exact agrees_then [0x2D] (agrees_emitUint (0 - v) 10 false width zeroPad args)
    · exact agrees_emitUint _ _ _ _ _ _
  rw [if_neg signed, if_neg signed]
  by_cases unsigned : c = 0x75
  · rw [if_pos unsigned, if_pos unsigned]
    exact agrees_va fun (v, args) => agrees_emitUint _ _ _ _ _ _
  rw [if_neg unsigned, if_neg unsigned]
  by_cases lower : c = 0x78
  · rw [if_pos lower, if_pos lower]
    exact agrees_va fun (v, args) => agrees_emitUint _ _ _ _ _ _
  rw [if_neg lower, if_neg lower]
  by_cases upper : c = 0x58
  · rw [if_pos upper, if_pos upper]
    exact agrees_va fun (v, args) => agrees_emitUint _ _ _ _ _ _
  rw [if_neg upper, if_neg upper]
  rintro out' args' ⟨⟩
  refine ⟨by rw [emit_pos]; omega, fun _ => ?_⟩
  show (if c ≠ 0 then emitOk cap (emit cap out [0x25]) [c] >>= fun o => pure (o, args)
    else pure (emit cap out [0x25], args)) = _
  rw [if_pos nonzero]
  rfl

theorem skipByte_suffix (c : UInt8) (p : List UInt8) : (skipByte c p).2 <:+ p := by
  cases p with
  | nil => exact List.suffix_rfl
  | cons b p =>
    rw [skipByte]
    split_ifs
    · exact List.suffix_cons b p
    · exact List.suffix_rfl

theorem readWidth_suffix (p : List UInt8) (width : Nat) : (readWidth p width).2 <:+ p := by
  induction p generalizing width with
  | nil => exact List.suffix_rfl
  | cons c p ih =>
    rw [readWidth]
    split_ifs
    · exact (ih _).trans (List.suffix_cons c p)
    · exact List.suffix_rfl

/-- The flags, the width and the modifiers of a conversion, and its last byte. -/
theorem conversion_memory (p : List UInt8) :
    ∃ zeroPad width p', p' <:+ p ∧
      (∀ fuel args, formatLoop cap (fuel + 1) (0x25 :: p) args out =
        (match p' with
        | [] => some (emit cap out [0x25])
        | c :: p => do
          let (out, args) ← convert cap out zeroPad width c args
          formatLoop cap fuel p args out)) ∧
      ∀ args, Mem.conversion (emitOk cap) (p ++ [0]) args out =
        (match p' ++ [0] with
        | [] => .error .access
        | c :: p => do
          let (out, args) ←
            Mem.convert (emitOk cap) out zeroPad ((width : Int).bmod (2 ^ 32)) c args
          pure (c, p, args, out)) := by
  have skip := skipByte_memory (c := 0x30) (by decide) p
  have zeros := skipByte_suffix 0x30 p
  rcases first : skipByte 0x30 p with ⟨zeroPad, p₁⟩
  rw [first] at skip zeros
  have read := readWidth_memory p₁ 0
  have digits := readWidth_suffix p₁ 0
  rcases second : readWidth p₁ 0 with ⟨width, p₂⟩
  rw [second] at read digits
  have long := skipByte_memory (c := 0x6C) (by decide) p₂
  have longs := skipByte_suffix 0x6C p₂
  rcases third : skipByte 0x6C p₂ with ⟨isLong, p₃⟩
  rw [third] at long longs
  have size := skipByte_memory (c := 0x7A) (by decide) p₃
  have sizes := skipByte_suffix 0x7A p₃
  rcases fourth : skipByte 0x7A p₃ with ⟨isSize, p₄⟩
  rw [fourth] at size sizes
  refine ⟨zeroPad, width, p₄, sizes.trans (longs.trans (digits.trans zeros)), ?_, ?_⟩
  · intro fuel args
    rw [formatLoop, if_neg (by decide)]
    cases p₄ <;> simp only [first, second, third, fourth]
  · intro args
    unfold Mem.conversion
    rw [skip]
    dsimp only [bind, Except.bind]
    rw [show (0 : Int) = ((0 : Nat) : Int).bmod (2 ^ 32) from rfl, read]
    dsimp only
    rw [long]
    dsimp only
    rw [size]
    rfl

theorem formatLoop_memory {fuel : Nat} {p : List UInt8} (plain : 0 ∉ p) {args : List Arg}
    (run : formatLoop cap fuel p args out = some out') :
    out.pos ≤ out'.pos ∧ (out'.pos < 2 ^ 31 →
      Mem.formatLoop (emitOk cap) fuel (p ++ [0]) args out = .ok out') := by
  induction fuel generalizing p args out with
  | zero => cases run
  | succ fuel ih =>
    cases p with
    | nil =>
      cases run
      exact ⟨le_refl _, fun _ => rfl⟩
    | cons c p =>
      obtain ⟨nonzero, tail⟩ := not_or.mp (mt List.mem_cons.mpr plain)
      rw [List.cons_append, Mem.formatLoop, if_neg (Ne.symm nonzero)]
      by_cases percent : c = 0x25
      · subst percent
        obtain ⟨zeroPad, width, p', suffix, old, memory⟩ := @conversion_memory cap out p
        rw [old] at run
        rw [if_neg (by decide), memory]
        cases p' with
        | nil =>
          cases run
          exact ⟨by rw [emit_pos]; omega, fun _ => rfl⟩
        | cons c p' =>
          obtain ⟨nonzero, tail⟩ := not_or.mp (mt List.mem_cons.mpr (mt (suffix.subset ·) tail))
          -- the cursor only moves on, so it was small all the way
          obtain ⟨⟨out₁, args₁⟩, converted, rest⟩ := Option.bind_eq_some_iff.mp run
          obtain ⟨moved, same⟩ := convert_memory zeroPad width (Ne.symm nonzero) args _ _ converted
          obtain ⟨further, later⟩ := ih tail rest
          refine ⟨by omega, fun small => ?_⟩
          rw [List.cons_append]
          dsimp only
          rw [same (by omega)]
          show (if c = 0 then _ else _) = _
          rw [if_neg (Ne.symm nonzero)]
          exact later small
      · rw [formatLoop, if_pos percent] at run
        rw [if_pos percent]
        obtain ⟨further, same⟩ := ih tail run
        rw [emit_pos] at further
        exact ⟨by omega, same⟩

end Agree

/-! ### All of the output -/

/-- What is kept of a text, and its length. -/
def Out.cut (cap : Nat) (text : List UInt8) : Out := ⟨text.take cap, text.length⟩

theorem emit_cut (cap : Nat) (text s : List UInt8) :
    emit cap (.cut cap text) s = .cut cap (text ++ s) := by
  unfold emit
  induction s generalizing text with
  | nil => rw [List.append_nil]; rfl
  | cons b s ih =>
    have step : emitByte cap (.cut cap text) b = .cut cap (text ++ [b]) := by
      unfold emitByte Out.cut
      by_cases inside : text.length < cap
      · rw [if_pos inside, List.take_of_length_le (le_of_lt inside),
          List.take_of_length_le (by simp; omega), List.length_append]
        rfl
      · rw [if_neg inside, List.take_append_of_le_length (by omega), List.length_append]
        rfl
    rw [List.foldl_cons, step, ih, List.append_assoc]
    rfl

theorem emitOk_cut (cap : Nat) (text s : List UInt8) :
    emitOk cap (.cut cap text) s = (Mem.collect text s).map (Out.cut cap) :=
  congrArg Except.ok (emit_cut cap text s)

/-- What is kept is the beginning of the whole output. -/
theorem mbedtlsNt4Snprintf_output {n : Nat} {fmt : List UInt8} (plain : 0 ∉ fmt)
    {args : List Arg} {out : Out} (run : mbedtlsNt4Snprintf n fmt args = some out)
    (small : out.pos < 2 ^ 31) :
    ∃ text, Mem.output fmt args = .ok text ∧ out = .cut (n - 1) text := by
  have cap : (if n > 0 then n - 1 else 0) = n - 1 := by split_ifs <;> omega
  have format : cstr fmt 0 ++ [0] = fmt ++ [0] := by rw [cstr_whole plain]
  have length : (fmt ++ [0]).length = fmt.length + 1 := List.length_append
  unfold mbedtlsNt4Snprintf at run
  dsimp only at run
  rw [cap] at run
  -- the run in memory is cut off from the one without a bound
  have memory := (formatLoop_memory plain run).2 small
  have start : (⟨[], 0⟩ : Out) = .cut (n - 1) [] := by rw [Out.cut, List.take_nil]; rfl
  rw [start, Mem.formatLoop_hom (emitOk_cut (n - 1))] at memory
  unfold Mem.output
  rw [format, length]
  cases whole : Mem.formatLoop Mem.collect (fmt.length + 1) (fmt ++ [0]) args [] with
  | error e =>
    rw [whole] at memory
    cases memory
  | ok text =>
    rw [whole] at memory
    exact ⟨text, rfl, (Except.ok.inj memory).symm⟩

/-- An `int` in decimal. -/
def intText (n : Int) : List UInt8 := (if n < 0 then [0x2D] else []) ++ decimalText n.natAbs

theorem intText_length (w : UInt32) : (intText w.toBitVec.toInt).length ≤ 11 := by
  have small : w.toBitVec.toInt.natAbs < 2 ^ 32 := by
    rw [BitVec.toInt_eq_toNat_cond, UInt32.toNat_toBitVec]
    have := w.toNat_lt
    split_ifs <;> omega
  have digits := decimalText_length_le small
  unfold intText
  rw [List.length_append]
  split_ifs <;> simp only [List.length_singleton, List.length_nil] <;> omega

theorem uintDigits_length_le (hex : List UInt8) (base : UInt32) (room : Nat) (v : UInt32) :
    (uintDigits hex base room v).length ≤ room := by
  induction room generalizing v with
  | zero => exact le_refl 0
  | succ room ih =>
    rw [uintDigits, List.length_cons]
    split_ifs
    · exact Nat.succ_le_succ (ih _)
    · exact Nat.succ_le_succ (Nat.zero_le _)

theorem emitUint_pos_le (cap : Nat) (out : Out) (v : UInt32) :
    (emitUint cap out v 10 false 0 false).pos ≤ out.pos + 32 := by
  unfold emitUint
  dsimp only
  have digits := uintDigits_length_le (literal "0123456789abcdef") 10 32 v
  rw [emit_pos, emit_pos, List.length_replicate, List.length_reverse, Nat.zero_sub]
  exact Nat.add_le_add_left digits _

theorem snprintf_int_pos {n : Nat} {w : UInt32} {out : Out}
    (run : mbedtlsNt4Snprintf n (literal "%d") [.word w] = some out) : out.pos ≤ 33 := by
  have format : literal "%d" = [0x25, 0x64] := by decide
  rw [format] at run
  unfold mbedtlsNt4Snprintf at run
  by_cases negative : w ≥ 0x80000000
  · simp [formatLoop, skipByte, readWidth, convert, vaWord, negative] at run
    rw [← run]
    exact emitUint_pos_le _ _ _
  · simp [formatLoop, skipByte, readWidth, convert, vaWord, negative] at run
    rw [← run]
    exact (emitUint_pos_le _ _ _).trans (by decide)

/-- `%d` into a buffer with room for it. -/
theorem snprintf_int {n : Nat} (room : 12 ≤ n) (w : UInt32) {out : Out}
    (run : mbedtlsNt4Snprintf n (literal "%d") [.word w] = some out) :
    out.buf = intText w.toBitVec.toInt := by
  have short := snprintf_int_pos run
  obtain ⟨text, whole, rfl⟩ := mbedtlsNt4Snprintf_output (by decide) run (by omega)
  have printed := output_formatOf [.number ⟨0, 0, .none, .d, w⟩]
    (List.forall_mem_singleton.mpr (show 0 < 2 ^ 31 by decide))
  have same : [Piece.number ⟨0, 0, .none, .d, w⟩].flatMap Piece.printed =
      intText w.toBitVec.toInt := by
    rw [List.flatMap_singleton]
    simp only [Piece.printed, Number.printed, padded, Nat.zero_sub, List.replicate_zero,
      List.nil_append]
    rfl
  have format : formatOf [.number ⟨0, 0, .none, .d, w⟩] = literal "%d" := by
    simp [formatOf, Piece.format, Number.format, Number.widthText, Number.modifierText,
      Number.letter]
    decide
  rw [format, same] at printed
  obtain rfl := Except.ok.inj (whole.symm.trans printed)
  have length := intText_length w
  exact List.take_of_length_le (by omega)

end InstagramNt40.Printf
