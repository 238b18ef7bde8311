import InstagramNt40.Core.Json
import InstagramNt40.Library.JsonTokens

/-!
# Numbers, literals and white space

`parse_number` reads exactly the relaxed numbers, `parse_lit` exactly its literal
and `skip_ws` exactly the white space in front of it.
-/
namespace InstagramNt40.Json

open Scanner Rfc8259 Ascii

theorem isWs_iff {b : UInt8} : isWs b = true ↔ IsWs b := by
  simp [isWs, IsWs, or_assoc]

theorem isDigit_iff {b : UInt8} : isDigit b = true ↔ IsDigit b := by
  simp [isDigit, IsDigit]

theorem isDigit_false {b : UInt8} (h : ¬IsDigit b) : isDigit b = false := by
  rw [← isDigit_iff] at h
  simpa using h

/-! ### White space -/

theorem skipWs_safe {β : Type} {text : List UInt8} {x : Cursor} {k : Unit → Scan β}
    {post : β → Cursor → Prop}
    (next : ∀ w y, Reads text x w y → Ws w → Safe text y (k ()) post) :
    Safe text x (skipWs >>= k) post :=
  (skipWhile_safe text x isWs).bind fun _ y ⟨w, reads, all⟩ =>
    next w y reads fun b hb => isWs_iff.mp (all b hb)

theorem run_skipWs {text w post : List UInt8} {x : Cursor} (hw : Ws w)
    (stop : ∀ b ∈ post.head?, ¬IsWs b) (left : rest text x = w ++ post) :
    skipWs text x = .ok () (x.forward w.length) := by
  unfold skipWs
  rw [run_skipWhile, left,
    takeWhile_append_stop (fun b hb => isWs_iff.mpr (hw b hb)) fun b hb => ?_]
  rw [Bool.eq_false_iff, Ne, isWs_iff]
  exact stop b hb

/-! ### Numbers -/

theorem skipDigits_safe (text : List UInt8) (x : Cursor) :
    Safe text x (skipWhile isDigit) fun _ y => ∃ ds, Reads text x ds y ∧ Digits ds :=
  (skipWhile_safe text x isDigit).mono fun _ _ ⟨ds, reads, all⟩ =>
    ⟨ds, reads, fun b hb => isDigit_iff.mp (all b hb)⟩

theorem run_skipDigits {text ds post : List UInt8} {x : Cursor} (hds : Digits ds)
    (stop : ∀ b ∈ post.head?, ¬IsDigit b) (left : rest text x = ds ++ post) :
    skipWhile isDigit text x = .ok () (x.forward ds.length) := by
  rw [run_skipWhile, left, takeWhile_append_stop (fun b hb => isDigit_iff.mpr (hds b hb))
    fun b hb => isDigit_false (stop b hb)]

theorem skipFraction_safe (text : List UInt8) (x : Cursor) :
    Safe text x skipFraction fun _ y => ∃ f, Reads text x f y ∧ Fraction Digits f := by
  unfold skipFraction
  refine .accept (fun b r left dot => ?_) fun _ => .pure ⟨[], .refl text x, Or.inl rfl⟩
  have dot : b = 0x2E := by simpa using dot
  subst dot
  rw [if_pos rfl]
  apply (skipDigits_safe text _).mono
  rintro _ y ⟨ds, reads, hds⟩
  exact ⟨_, (Reads.one left).trans reads, Or.inr ⟨ds, rfl, hds⟩⟩

theorem skipExponent_safe (text : List UInt8) (x : Cursor) :
    Safe text x skipExponent fun _ y => ∃ e, Reads text x e y ∧ Exponent Digits e := by
  unfold skipExponent
  refine .accept (fun m r left mark => ?_) fun _ => .pure ⟨[], .refl text x, Or.inl rfl⟩
  have mark : m = 0x65 ∨ m = 0x45 := by simpa using mark
  -- with or without a sign the digits come next
  have afterSign {s : List UInt8} {y : Cursor} (reads : Reads text (x.forward 1) s y)
      (sign : ExpSign s) :
      Safe text y (skipWhile isDigit) fun _ z => ∃ e, Reads text x e z ∧ Exponent Digits e := by
    refine (skipDigits_safe text y).mono fun _ z ⟨ds, reads', hds⟩ => ⟨m :: (s ++ ds), ?_, ?_⟩
    · exact (Reads.one left).trans (reads.trans reads')
    · exact Or.inr ⟨m, s, ds, rfl, mark, sign, hds⟩
  rw [if_pos rfl]
  refine .accept (fun c q left' sign => afterSign (.one left') ?_) fun _ =>
    afterSign (.refl text _) (Or.inl rfl)
  have sign : c = 0x2B ∨ c = 0x2D := by simpa using sign
  rcases sign with rfl | rfl
  · exact Or.inr (Or.inl rfl)
  · exact Or.inr (Or.inr rfl)

theorem takeNumber_safe {text s r : List UInt8} {x y : Cursor} {c : UInt8}
    (left : rest text x = c :: r) (first : c = 0x2D ∨ IsDigit c)
    (reads : Reads text x s y) (shape : NumberOf Digits Digits s) :
    Safe text y (takeNumber x.pos) fun v z =>
      Reads text x s z ∧ RelaxedNumber s ∧ v = .num s s.length := by
  obtain ⟨found, inside, -⟩ := rest_cons left
  have size : y.pos - x.pos = s.length := by
    have := reads.pos
    omega
  have kept : slice x.pos s.length text y = .ok s y := run_slice y (by omega) reads.bytes
  have head {b : UInt8} {q : List UInt8} (eq : s = b :: q) : b = c := by
    have same := reads.bytes
    rw [left, eq, List.cons_append, List.cons.injEq] at same
    exact same.1.symm
  unfold takeNumber
  apply Safe.bind_ok (run_cursor text y)
  dsimp only
  rw [size]
  split
  next => exact .fail
  next some =>
    obtain ⟨b, q, eq⟩ :=
      List.exists_cons_of_ne_nil fun nil => some (List.length_eq_zero_iff.mpr nil)
    have starts : ∃ b ∈ s.head?, b = 0x2D ∨ IsDigit b :=
      ⟨b, by simp [eq], by rw [head eq]; exact first⟩
    split
    -- one byte: it is the first one, so it is not the minus sign
    next one =>
      apply Safe.bind_ok (run_deref y found)
      split
      next => exact .fail
      next notMinus =>
        refine .bind_ok kept (.pure ⟨reads, ⟨shape, fun alone => ?_, starts⟩, rfl⟩)
        exact notMinus (head alone).symm
    next many =>
      refine .bind_ok kept (.pure ⟨reads, ⟨shape, fun alone => ?_, starts⟩, rfl⟩)
      exact many (by rw [alone]; rfl)

/-- From a minus sign or a digit on, the parser reads a relaxed number and keeps
its text. -/
theorem parseNumber_safe {text r : List UInt8} {x : Cursor} {c : UInt8}
    (left : rest text x = c :: r) (first : c = 0x2D ∨ IsDigit c) :
    Safe text x parseNumber fun v y =>
      ∃ s, Reads text x s y ∧ RelaxedNumber s ∧ v = .num s s.length := by
  -- the sign does not change what the four parts after it do
  have afterSign {sign : List UInt8} {y : Cursor} (reads : Reads text x sign y)
      (hsign : sign = [] ∨ sign = [0x2D]) :
      Safe text y (do skipWhile isDigit; skipFraction; skipExponent; takeNumber x.pos) fun v y =>
        ∃ s, Reads text x s y ∧ RelaxedNumber s ∧ v = .num s s.length := by
    apply (skipDigits_safe text y).bind
    rintro _ y₁ ⟨i, reads₁, hi⟩
    apply (skipFraction_safe text y₁).bind
    rintro _ y₂ ⟨f, reads₂, hf⟩
    apply (skipExponent_safe text y₂).bind
    rintro _ y₃ ⟨e, reads₃, he⟩
    have total := reads.trans (reads₁.trans (reads₂.trans reads₃))
    exact (takeNumber_safe left first total ⟨sign, i, f, e, rfl, hsign, hi, hf, he⟩).mono
      fun v z done => ⟨_, done⟩
  unfold parseNumber
  refine .bind_ok (run_cursor text x) (.accept (fun b q left' minus => ?_) fun _ => ?_)
  · have minus : b = 0x2D := by simpa using minus
    subst minus
    exact afterSign (.one left') (Or.inr rfl)
  · exact afterSign (.refl text x) (Or.inl rfl)

theorem run_skipFraction {text f post : List UInt8} {x : Cursor} (hf : Fraction Digits f)
    (stop : ∀ b ∈ post.head?, b ≠ 0x2E ∧ ¬IsDigit b) (left : rest text x = f ++ post) :
    skipFraction text x = .ok () (x.forward f.length) := by
  unfold skipFraction
  rcases hf with rfl | ⟨ds, rfl, hds⟩
  · rw [bind_ok (run_accept_stop fun b hb => ?_)]
    · simp
    · rw [left] at hb
      simpa using (stop b hb).1
  · rw [bind_ok (run_accept_one (by simp) left), if_pos rfl,
      run_skipDigits hds (fun b hb => (stop b hb).2) (rest_forward_one left),
      Cursor.forward_forward, List.length_cons, Nat.add_comm]

theorem run_skipExponent {text e post : List UInt8} {x : Cursor} (he : Exponent Digits e)
    (stop : Stops post) (left : rest text x = e ++ post) :
    skipExponent text x = .ok () (x.forward e.length) := by
  have digit {b : UInt8} (hb : b ∈ post.head?) : ¬IsDigit b :=
    fun h => stop b hb (numberByte_of_digit h)
  unfold skipExponent
  rcases he with rfl | ⟨m, s, ds, rfl, mark, sign, hds⟩
  · rw [bind_ok (run_accept_stop fun b hb => ?_)]
    · simp
    · rw [left] at hb
      have other := stop b hb
      simp only [IsNumberByte, not_or] at other
      simp [other]
  · rw [bind_ok (run_accept_one (by rcases mark with rfl | rfl <;> rfl) left), if_pos rfl]
    rw [List.cons_append, List.append_assoc] at left
    have left' := rest_forward_one left
    -- the three signs differ only in where the digits start
    have step {y : Cursor} (here : rest text y = ds ++ post) :
        skipWhile isDigit text y = .ok () (y.forward ds.length) :=
      run_skipDigits hds (fun b hb => digit hb) here
    rcases sign with rfl | rfl | rfl
    · rw [bind_ok (run_accept_stop fun b hb => ?_), step left']
      · simp [Nat.add_comm]
      · -- what follows an absent sign is a digit or the end of the number
        rw [left', List.nil_append] at hb
        cases ds with
        | nil =>
          have other := stop b hb
          simp only [IsNumberByte, not_or] at other
          simp [other]
        | cons d ds =>
          simp only [List.cons_append, List.head?_cons, Option.mem_def, Option.some.injEq] at hb
          subst hb
          have hd := hds d (by simp)
          have plus : d ≠ 0x2B := by rintro rfl; revert hd; decide
          have minus : d ≠ 0x2D := by rintro rfl; revert hd; decide
          simp [plus, minus]
    · rw [bind_ok (run_accept_one rfl left'), step (rest_forward_one left')]
      simp [Nat.add_comm, Nat.add_left_comm]
    · rw [bind_ok (run_accept_one rfl left'), step (rest_forward_one left')]
      simp [Nat.add_comm, Nat.add_left_comm]

/-- Behind a fraction comes the exponent part, or what ends the number. -/
theorem exponent_head {e post : List UInt8} (he : Exponent Digits e) (stop : Stops post) :
    ∀ b ∈ (e ++ post).head?, b ≠ 0x2E ∧ ¬IsDigit b := by
  intro b hb
  rcases he with rfl | ⟨m, s, ds, rfl, mark, -⟩
  · have other := stop b hb
    simp only [IsNumberByte, not_or] at other
    exact ⟨other.2.2.2.1, other.1⟩
  · simp only [List.cons_append, List.head?_cons, Option.mem_def, Option.some.injEq] at hb
    subst hb
    rcases mark with rfl | rfl <;> decide

/-- Behind an integer part comes no digit. -/
theorem fraction_head {f post : List UInt8} (hf : Fraction Digits f)
    (stop : ∀ b ∈ post.head?, b ≠ 0x2E ∧ ¬IsDigit b) : ∀ b ∈ (f ++ post).head?, ¬IsDigit b := by
  intro b hb
  rcases hf with rfl | ⟨ds, rfl, -⟩
  · exact (stop b hb).2
  · simp only [List.cons_append, List.head?_cons, Option.mem_def, Option.some.injEq] at hb
    subst hb
    decide

/-- Without its sign a number does not begin with a minus. -/
theorem unsigned_head {i f e post : List UInt8} (hi : Digits i) (hf : Fraction Digits f)
    (he : Exponent Digits e) (stop : Stops post) : 0x2D ∉ (i ++ (f ++ (e ++ post))).head? := by
  intro minus
  cases i with
  | cons d i =>
    obtain rfl : d = 0x2D := Option.some.inj minus
    exact absurd (hi 0x2D List.mem_cons_self) (by decide)
  | nil =>
    rcases hf with rfl | ⟨ds, rfl, -⟩
    · rcases he with rfl | ⟨m, s, ds, rfl, mark, -⟩
      · exact stop 0x2D minus (by decide)
      · obtain rfl : m = 0x2D := Option.some.inj minus
        revert mark
        decide
    · cases minus

/-- The sign is taken if and only if the number has one. -/
theorem run_sign {text sign s : List UInt8} {x : Cursor} (hsign : sign = [] ∨ sign = [0x2D])
    (unsigned : 0x2D ∉ s.head?) (left : rest text x = sign ++ s) :
    ∃ b, accept (· == 0x2D) text x = .ok b (x.forward sign.length) := by
  rcases hsign with rfl | rfl
  · refine ⟨false, run_accept_stop fun b hb => ?_⟩
    rw [left, List.nil_append] at hb
    rw [beq_eq_false_iff_ne]
    rintro rfl
    exact unsigned hb
  · exact ⟨true, run_accept_one rfl left⟩

theorem run_parseNumber {text s post : List UInt8} {x : Cursor} (number : RelaxedNumber s)
    (stop : Stops post) (left : rest text x = s ++ post) :
    parseNumber text x = .ok (.num s s.length) (x.forward s.length) := by
  obtain ⟨⟨sign, i, f, e, shape, hsign, hi, hf, he⟩, notMinus, c, hc, -⟩ := number
  obtain ⟨r, rfl⟩ : ∃ r, s = c :: r := List.head?_eq_some_iff.mp hc
  obtain ⟨found, inside, -⟩ := rest_cons left
  -- the text is copied from the start, wherever the cursor has gone
  have kept (y : Cursor) : slice x.pos (c :: r).length text y = .ok (c :: r) y :=
    run_slice y (by omega) left
  have total := left
  rw [shape] at total
  simp only [List.append_assoc] at total
  -- after each part comes a byte that ends it
  have stopExp := exponent_head he stop
  have stopFrac := fraction_head hf stopExp
  obtain ⟨b, signRun⟩ := run_sign hsign (unsigned_head hi hf he stop) total
  have size : (c :: r).length = sign.length + i.length + f.length + e.length := by
    rw [shape]
    simp only [List.length_append]
    omega
  -- now the five parts in turn, each from where the last one stopped
  unfold parseNumber
  rw [bind_ok (run_cursor text x), bind_ok signRun,
    bind_ok (run_skipDigits hi stopFrac (rest_forward total)),
    bind_ok (run_skipFraction hf stopExp (rest_forward (rest_forward total))),
    bind_ok (run_skipExponent he stop (rest_forward (rest_forward (rest_forward total))))]
  simp only [Cursor.forward_forward, ← size]
  unfold takeNumber
  rw [bind_ok (run_cursor text _)]
  simp only [Cursor.forward_pos, Nat.add_sub_cancel_left]
  rw [if_neg (by simp)]
  split
  next one =>
    have alone : r = [] := by simpa using one
    subst alone
    rw [bind_ok (run_deref _ found), if_neg (by simpa using notMinus), bind_ok (kept _)]
    rfl
  next =>
    rw [bind_ok (kept _)]
    rfl

/-! ### Literals -/

theorem parseLit_safe {text : List UInt8} {x : Cursor} (lit : List UInt8) (v : JsonValue)
    (inside : x.pos ≤ text.length) :
    Safe text x (parseLit lit v) fun w y => Reads text x lit y ∧ w = v := by
  unfold parseLit
  refine .bind_ok (run_cursor text x) (.bind_ok (run_limit text x) ?_)
  have size : (rest text x).length = text.length - x.pos := rest_length
  split
  next => exact .fail
  -- enough bytes are left: compare them
  next room =>
    have split : rest text x = (rest text x).take lit.length ++ (rest text x).drop lit.length :=
      (List.take_append_drop _ _).symm
    have run := run_slice x inside split
    rw [List.length_take, Nat.min_eq_left (by omega)] at run
    apply Safe.bind_ok run
    split
    next same =>
      rw [same] at split
      exact .bind_ok (run_advance (by omega)) (.pure ⟨.of_rest split, rfl⟩)
    next => exact .fail

theorem run_parseLit {text lit post : List UInt8} {x : Cursor} {v : JsonValue}
    (inside : x.pos ≤ text.length) (left : rest text x = lit ++ post) :
    parseLit lit v text x = .ok v (x.forward lit.length) := by
  have size := congrArg List.length left
  rw [rest_length, List.length_append] at size
  unfold parseLit
  rw [bind_ok (run_cursor text x), bind_ok (run_limit text x), if_neg (by omega),
    bind_ok (run_slice x inside left), if_pos rfl, bind_ok (run_advance (by omega))]
  rfl

end InstagramNt40.Json
