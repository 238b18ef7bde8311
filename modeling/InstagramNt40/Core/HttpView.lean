import InstagramNt40.Core.HttpChunks
import InstagramNt40.Library.HttpMessage
import Mathlib.Data.List.Forall2

/-!
# What `http_parse_response` reads

The parser as a function of the bytes alone, without memory or pointers: lines are
split off the front, header lines are cut at their colon, and the body is what the
framing leaves. `httpParseResponse` computes exactly this.
-/
namespace InstagramNt40.Http

open Scanner Crt

/-! ### Lines and headers -/

/-- The bytes before the first CRLF and those after it; nothing when a NUL or the end
of the input comes first. -/
def splitLine : List UInt8 → Option (List UInt8 × List UInt8)
  | [] => none
  | b :: s =>
    if b = 0 then none
    else if b = 0x0D ∧ s.head? = some 0x0A then some ([], s.tail)
    else (splitLine s).map fun l => (b :: l.1, l.2)

theorem splitLine_eq {s line r : List UInt8} (h : splitLine s = some (line, r)) :
    s = line ++ 0x0D :: 0x0A :: r ∧ ∀ b ∈ line, b ≠ 0 := by
  fun_induction splitLine s generalizing line with
  | case1 => cases h
  | case2 => cases h
  | case3 b s notNul found =>
    cases h
    obtain ⟨rfl, hs⟩ := found
    obtain ⟨t, rfl⟩ := List.head?_eq_some_iff.mp hs
    exact ⟨rfl, by simp⟩
  | case4 b s notNul other ih =>
    obtain ⟨⟨line', r'⟩, found, eq⟩ := Option.map_eq_some_iff.mp h
    cases eq
    obtain ⟨rfl, plain⟩ := ih found
    exact ⟨rfl, by simpa [notNul] using plain⟩

theorem splitLine_lt {s line r : List UInt8} (h : splitLine s = some (line, r)) :
    r.length < s.length := by
  rw [(splitLine_eq h).1]
  simp only [List.length_append, List.length_cons]
  omega

/-- A header line without a colon is dropped. -/
def readField (line : List UInt8) : List (List UInt8 × List UInt8) :=
  if 0x3A ∈ line then
    [(line.takeWhile (· != 0x3A), ((line.dropWhile (· != 0x3A)).drop 1).dropWhile isBlank)]
  else []

/-- The header lines up to the blank one, and what follows it. -/
def readHeaders (s : List UInt8) : Option (List (List UInt8 × List UInt8) × List UInt8) :=
  match _h : splitLine s with
  | none => none
  | some (line, r) =>
    if line = [] then some ([], r)
    else (readHeaders r).map fun found => (readField line ++ found.1, found.2)
termination_by s.length
decreasing_by exact splitLine_lt _h

theorem readHeaders_none {s : List UInt8} (h : splitLine s = none) : readHeaders s = none := by
  rw [readHeaders]
  split
  · rfl
  · simp_all

theorem readHeaders_blank {s r : List UInt8} (h : splitLine s = some ([], r)) :
    readHeaders s = some ([], r) := by
  rw [readHeaders]
  split <;> simp_all

theorem readHeaders_line {s line r : List UInt8} (h : splitLine s = some (line, r))
    (some : line ≠ []) :
    readHeaders s = (readHeaders r).map fun found => (readField line ++ found.1, found.2) := by
  conv_lhs => rw [readHeaders]
  split <;> simp_all

/-- The bytes of a response before its body is framed. -/
structure HeadRead where
  status : Int
  reason : List UInt8
  headers : List (List UInt8 × List UInt8)
  rest : List UInt8

/-- The status line. -/
def readStatus (line : List UInt8) : Option (Int × List UInt8) :=
  if 0x20 ∈ line then
    let after := (line.dropWhile (· != 0x20)).drop 1
    some (wrap32 (parseLong after), (after.dropWhile (· != 0x20)).drop 1)
  else none

def readHead (data : List UInt8) : Option HeadRead :=
  if data.length < 12 then none
  else
    match splitLine data with
    | none => none
    | some (line, r) =>
      match readStatus line with
      | none => none
      | some (status, reason) =>
        (readHeaders r).map fun found => ⟨status, reason, found.1, found.2⟩

/-- Induction over the lines of headers that end: the blank line, and a line before others. -/
theorem readHeaders_induction
    {motive : List UInt8 → List (List UInt8 × List UInt8) → List UInt8 → Prop}
    (blank : ∀ {s r}, splitLine s = some ([], r) → motive s [] r)
    (field : ∀ {s line r headers body}, splitLine s = some (line, r) → line ≠ [] →
      motive r headers body → motive s (readField line ++ headers) body)
    {s body : List UInt8} {headers : List (List UInt8 × List UInt8)}
    (h : readHeaders s = some (headers, body)) : motive s headers body := by
  induction size : s.length using Nat.strong_induction_on generalizing s headers with
  | _ n ih =>
    subst size
    cases split : splitLine s with
    | none =>
      rw [readHeaders_none split] at h
      cases h
    | some l =>
      obtain ⟨line, r⟩ := l
      by_cases empty : line = []
      · subst empty
        rw [readHeaders_blank split] at h
        cases h
        exact blank split
      · rw [readHeaders_line split empty] at h
        obtain ⟨⟨headers', body'⟩, found, eq⟩ := Option.map_eq_some_iff.mp h
        cases eq
        exact field split empty (ih _ (splitLine_lt split) found rfl)

theorem readHeaders_length {s body : List UInt8} {headers : List (List UInt8 × List UInt8)}
    (h : readHeaders s = some (headers, body)) : body.length ≤ s.length := by
  apply readHeaders_induction (motive := fun s _ body => body.length ≤ s.length) _ _ h
  · intro s r split
    exact Nat.le_of_lt (splitLine_lt split)
  · intro s line r headers body split _ below
    exact below.trans (Nat.le_of_lt (splitLine_lt split))

theorem readHead_length {data : List UInt8} {head : HeadRead} (h : readHead data = some head) :
    head.rest.length ≤ data.length := by
  unfold readHead at h
  split at h
  · cases h
  split at h
  · cases h
  next line r split =>
    split at h
    · cases h
    next =>
      obtain ⟨⟨headers, body⟩, read, eq⟩ := Option.map_eq_some_iff.mp h
      cases eq
      have below := readHeaders_length read
      have shorter := splitLine_lt split
      dsimp only
      omega

/-- The body in its framing. -/
def readBody (headers : List (List UInt8 × List UInt8)) (rest : List UInt8) : List UInt8 :=
  if Http1.IsChunked headers then dechunkBytes rest
  else
    match Http1.lookup headers Http1.contentLength with
    | some value => rest.take (clampLength (wrap32 (parseLong value)) rest.length)
    | none => rest

/-! ### Lines in memory -/

theorem strstrFrom_crlf (s : List UInt8) (p : Nat) :
    strstrFrom crlf (s ++ [0]) p = (splitLine s).map fun l => p + l.1.length := by
  induction s generalizing p with
  | nil => rfl
  | cons b s ih =>
    -- the needle stands here exactly where `splitLine` ends its line
    have here : matchesHere (b :: (s ++ [0])) crlf = true ↔ b = 0x0D ∧ s.head? = some 0x0A := by
      cases s with
      | nil => simp [matchesHere, crlf]
      | cons c s =>
        simp only [matchesHere, crlf, List.cons_append, List.head?_cons, Option.some.injEq]
        by_cases hb : b = 0x0D
        · by_cases hc : c = 0x0A
          · simp [hb, hc]
          · simp [hb, hc]
        · simp [hb]
    rw [List.cons_append, strstrFrom, splitLine]
    by_cases nul : b = 0
    · rw [if_pos nul, if_pos nul]
      rfl
    rw [if_neg nul, if_neg nul]
    by_cases found : b = 0x0D ∧ s.head? = some 0x0A
    · rw [if_pos (here.mpr found), if_pos found]
      rfl
    · rw [if_neg (mt here.mp found), if_neg found, ih, Option.map_map]
      congr 1
      funext l
      simp [Nat.add_assoc, Nat.add_comm 1]

/-- `strstr` finds the end of the line that `splitLine` splits off. -/
theorem strstr_crlf (pre s : List UInt8) :
    strstr (pre ++ (s ++ [0])) pre.length crlf =
      (splitLine s).map fun l => pre.length + l.1.length := by
  rw [strstr, if_neg (by decide), List.drop_left, strstrFrom_crlf]

/-- A string without NULs in front of more memory, cut at its first `c`. -/
theorem split_at {c : UInt8} {s : List UInt8} (member : c ∈ s) :
    s = s.takeWhile (· != c) ++ c :: (s.dropWhile (· != c)).drop 1 ∧
      ∀ b ∈ s.takeWhile (· != c), b ≠ c := by
  have whole : s = s.takeWhile (· != c) ++ s.dropWhile (· != c) :=
    List.takeWhile_append_dropWhile.symm
  have some : s.dropWhile (· != c) ≠ [] := by
    intro empty
    rw [List.dropWhile_eq_nil_iff] at empty
    simpa using empty c member
  obtain ⟨d, r, eq⟩ := List.exists_cons_of_ne_nil some
  have stop := List.head_dropWhile_not (· != c) some
  simp only [eq, List.head_cons, bne_eq_false_iff_eq] at stop
  subst stop
  refine ⟨?_, fun b hb => by simpa using List.mem_takeWhile_imp hb⟩
  conv_lhs => rw [whole, eq]
  rw [eq, List.drop_one, List.tail_cons]

/-- Skipping blanks stops at the NUL. -/
theorem takeWhile_blank {s post : List UInt8} (notNul : ∀ b ∈ s, b ≠ 0) :
    (s ++ 0 :: post).takeWhile isBlank = s.takeWhile isBlank := by
  induction s with
  | nil => rfl
  | cons b s ih =>
    rw [List.cons_append, List.takeWhile_cons, List.takeWhile_cons,
      ih fun c hc => notNul c (by simp [hc])]

/-- The pointers of a header hold its name and its value. -/
def HeaderAt (mem : List UInt8) (h : Nat × Nat) (header : List UInt8 × List UInt8) : Prop :=
  PointsTo mem h.1 header.1 ∧ PointsTo mem h.2 header.2

theorem HeaderAt.append {mem : List UInt8} {h : Nat × Nat} {header : List UInt8 × List UInt8}
    (at_ : HeaderAt mem h header) (more : List UInt8) : HeaderAt (mem ++ more) h header :=
  ⟨at_.1.append more, at_.2.append more⟩

/-- One header line: it is cut at its end and at its colon, and the pointers kept for
it hold its name and value. -/
theorem headerLoop_line {s line r : List UInt8} (split : splitLine s = some (line, r))
    (some : line ≠ []) (fuel : Nat) (pre : List UInt8) (headers : List (Nat × Nat)) :
    ∃ mid ptrs, headerLoop (fuel + 1) (pre ++ (s ++ [0])) headers pre.length =
        headerLoop fuel ((pre ++ mid) ++ (r ++ [0])) (headers ++ ptrs) (pre ++ mid).length ∧
      s.length = mid.length + r.length ∧
      List.Forall₂ (HeaderAt (pre ++ mid)) ptrs (readField line) := by
  have found := strstr_crlf pre s
  rw [split, Option.map_some] at found
  obtain ⟨rfl, notNul⟩ := splitLine_eq split
  -- a line that is not empty ends further on
  have further : ¬pre.length + line.length = pre.length := by
    have := List.length_pos_iff.mpr some
    omega
  have cut : (pre ++ (line ++ 0x0D :: 0x0A :: r ++ [0])).set (pre.length + line.length) 0 =
      pre ++ (line ++ 0 :: 0x0A :: (r ++ [0])) := by
    simp
  rw [headerLoop, found]
  dsimp only
  rw [if_neg further, cut]
  unfold readField
  by_cases colon : 0x3A ∈ line
  · obtain ⟨shape, before⟩ := split_at colon
    generalize line.takeWhile (· != 0x3A) = name at shape before ⊢
    generalize (line.dropWhile (· != 0x3A)).drop 1 = tail at shape ⊢
    subst shape
    have plain : ∀ b ∈ name, b ≠ 0 ∧ b ≠ 0x3A := fun b hb => ⟨notNul b (by simp [hb]), before b hb⟩
    have tailPlain : ∀ b ∈ tail, b ≠ 0 := fun b hb => notNul b (by simp [hb])
    have layout : pre ++ (name ++ 0x3A :: tail ++ 0 :: 0x0A :: (r ++ [0])) =
        pre ++ (name ++ 0x3A :: (tail ++ 0 :: 0x0A :: (r ++ [0]))) := by simp
    -- the two writes of the loop
    have cutColon : (pre ++ (name ++ 0x3A :: (tail ++ 0 :: 0x0A :: (r ++ [0])))).set
        (pre.length + name.length) 0 = pre ++ (name ++ 0 :: (tail ++ 0 :: 0x0A :: (r ++ [0]))) := by
      simp
    have afterColon : (pre ++ (name ++ 0 :: (tail ++ 0 :: 0x0A :: (r ++ [0])))).drop
        (pre.length + name.length + 1) = tail ++ 0 :: 0x0A :: (r ++ [0]) := by
      simp [Nat.add_assoc]
    rw [layout, strchr_found _ _ plain, if_pos colon]
    dsimp only
    rw [cutColon, afterColon, takeWhile_blank tailPlain]
    have blanks : tail = tail.takeWhile isBlank ++ tail.dropWhile isBlank :=
      List.takeWhile_append_dropWhile.symm
    -- what is behind the loop: name, NUL, blanks and value, NUL, LF
    refine ⟨name ++ 0 :: (tail ++ [0, 0x0A]),
      [(pre.length, pre.length + name.length + 1 + (tail.takeWhile isBlank).length)], ?_, ?_,
      .cons ⟨?_, ?_⟩ .nil⟩
    · simp [Nat.add_assoc, Nat.add_comm 1]
    · simp
      omega
    · exact ⟨pre, tail ++ [0, 0x0A], by simp, rfl, fun b hb => (plain b hb).1⟩
    · refine ⟨pre ++ (name ++ 0 :: tail.takeWhile isBlank), [0x0A], ?_, ?_, ?_⟩
      · have joined : tail ++ [0, 0x0A] =
            tail.takeWhile isBlank ++ (tail.dropWhile isBlank ++ [0, 0x0A]) := by
          rw [← List.append_assoc, ← blanks]
        rw [joined]
        simp only [List.append_assoc, List.cons_append]
      · simp only [List.length_append, List.length_cons]
        omega
      · exact fun b hb => tailPlain b (List.dropWhile_suffix _ |>.subset hb)
  · have plain : ∀ b ∈ line, b ≠ 0 ∧ b ≠ 0x3A :=
      fun b hb => ⟨notNul b hb, fun eq => colon (eq ▸ hb)⟩
    rw [strchr_none _ _ (by decide) plain, if_neg colon]
    refine ⟨line ++ [0, 0x0A], [], ?_, by simp; omega, .nil⟩
    simp [Nat.add_assoc]

/-- The loop over the header lines reads what `readHeaders` reads. It cuts the lines
at their ends and colons, so that its pointers hold the headers whatever follows. -/
theorem headerLoop_eq (fuel : Nat) (pre s : List UInt8) (headers : List (Nat × Nat))
    (enough : s.length < fuel) :
    (readHeaders s = none → headerLoop fuel (pre ++ (s ++ [0])) headers pre.length = none) ∧
    ∀ found body, readHeaders s = some (found, body) → ∃ mid ptrs,
      headerLoop fuel (pre ++ (s ++ [0])) headers pre.length =
        some ((pre ++ mid) ++ (body ++ [0]), headers ++ ptrs, (pre ++ mid).length) ∧
      s.length = mid.length + body.length ∧ List.Forall₂ (HeaderAt (pre ++ mid)) ptrs found := by
  -- `pre` is the memory that the loop has left behind, which it does not touch again, and
  -- `s` the lines it has still to read
  induction fuel generalizing pre s headers with
  | zero => omega
  | succ fuel ih =>
    cases split : splitLine s with
    | none =>
      unfold headerLoop
      rw [strstr_crlf, split]
      refine ⟨fun _ => rfl, fun found body some => ?_⟩
      rw [readHeaders_none split] at some
      cases some
    | some l =>
      obtain ⟨line, r⟩ := l
      by_cases blank : line = []
      · subst blank
        rw [readHeaders_blank split]
        refine ⟨nofun, fun found body some => ?_⟩
        cases some
        refine ⟨[0x0D, 0x0A], [], ?_, ?_, .nil⟩
        · unfold headerLoop
          rw [strstr_crlf, split]
          obtain ⟨rfl, -⟩ := splitLine_eq split
          simp
        · rw [(splitLine_eq split).1]
          simp
          omega
      · obtain ⟨mid, ptrs, step, size, kept⟩ := headerLoop_line split blank fuel pre headers
        have shorter := splitLine_lt split
        obtain ⟨none, some⟩ := ih (pre ++ mid) r (headers ++ ptrs) (by omega)
        rw [readHeaders_line split blank, step]
        refine ⟨fun no => none (Option.map_eq_none_iff.mp no), fun found body eq => ?_⟩
        obtain ⟨⟨found', body'⟩, eq', same⟩ := Option.map_eq_some_iff.mp eq
        cases same
        -- this line and the lines after it
        obtain ⟨mid', ptrs', run, size', kept'⟩ := some _ _ eq'
        refine ⟨mid ++ mid', ptrs ++ ptrs', ?_, ?_, ?_⟩
        · rw [run]
          simp
        · rw [List.length_append]
          dsimp only
          omega
        · rw [List.append_assoc] at kept'
          refine List.rel_append (kept.imp fun h header at_ => ?_) kept'
          rw [← List.append_assoc]
          exact at_.append mid'

/-! ### Header lookup and numbers in memory -/

theorem lowerByte_eq : lowerByte = Ascii.lower := rfl

theorem lowerByte_eq_zero {b : UInt8} : lowerByte b = 0 ↔ b = 0 := by
  unfold lowerByte
  split
  next upper =>
    have low := UInt8.le_iff_toNat_le.mp upper.1
    have high := UInt8.le_iff_toNat_le.mp upper.2
    rw [← UInt8.toNat_inj, ← UInt8.toNat_inj, UInt8.toNat_add]
    simp only [UInt8.reduceToNat] at low high ⊢
    omega
  next => rfl

/-- On NUL-terminated strings `ci_eq` compares without regard to case. -/
theorem ciEq_iff {a b : List UInt8} (ha : ∀ c ∈ a, c ≠ 0) (hb : ∀ c ∈ b, c ≠ 0)
    (post post' : List UInt8) :
    ciEq (a ++ 0 :: post) (b ++ 0 :: post') = true ↔ Http1.SameText a b := by
  have zero : lowerByte 0 = 0 := rfl
  unfold Http1.SameText
  rw [← lowerByte_eq]
  induction a generalizing b with
  | nil =>
    cases b with
    | nil => simp [ciEq, zero]
    | cons d b =>
      have := hb d (by simp)
      have differ : ¬(0 : UInt8) = lowerByte d := fun eq => this (lowerByte_eq_zero.mp eq.symm)
      simp [ciEq, zero, differ]
  | cons c a ih =>
    have some := mt lowerByte_eq_zero.mp (ha c (by simp))
    cases b with
    | nil => simp [ciEq, zero, some]
    | cons d b =>
      have more := ih (b := b) (fun e he => ha e (by simp [he])) fun e he => hb e (by simp [he])
      simp only [List.cons_append, ciEq, some, if_false, List.map_cons, List.cons.injEq]
      by_cases same : lowerByte c = lowerByte d
      · simp only [same, ne_eq, not_true_eq_false, if_false, true_and]
        exact more
      · simp [same]

theorem ciEq_pointsTo {mem s name : List UInt8} {p : Nat} (h : PointsTo mem p s)
    (plain : ∀ b ∈ name, b ≠ 0) :
    ciEq (mem.drop p) (name ++ [0]) = decide (Http1.SameText s name) := by
  obtain ⟨post, dropped, notNul⟩ := h.drop
  rw [dropped, Bool.eq_iff_iff, decide_eq_true_iff]
  exact ciEq_iff notNul plain post []

/-- The lookup returns a pointer to the value that `lookup` finds. -/
theorem httpHeader_eq {mem name : List UInt8} {ptrs : List (Nat × Nat)}
    {headers : List (List UInt8 × List UInt8)} (kept : List.Forall₂ (HeaderAt mem) ptrs headers)
    (plain : ∀ b ∈ name, b ≠ 0) :
    (Http1.lookup headers name = none → httpHeader mem ptrs name = none) ∧
    ∀ value, Http1.lookup headers name = some value →
      ∃ p, httpHeader mem ptrs name = some p ∧ PointsTo mem p value := by
  induction kept with
  | nil => exact ⟨fun _ => rfl, nofun⟩
  | @cons ptr header ptrs headers at_ _ ih =>
    have first := ciEq_pointsTo at_.1 plain
    -- both take the first header whose name compares equal
    unfold Http1.lookup httpHeader at ih ⊢
    rw [List.find?_cons, List.find?_cons, first]
    cases decide (Http1.SameText header.1 name) with
    | true =>
      refine ⟨nofun, fun value eq => ⟨ptr.2, rfl, ?_⟩⟩
      cases eq
      exact at_.2
    | false => exact ih

/-- A number ends at the NUL. -/
theorem parseDigits_nul {s : List UInt8} (n : Int) (post : List UInt8) :
    parseDigits (s ++ 0 :: post) n = parseDigits s n := by
  induction s generalizing n with
  | nil => rfl
  | cons c s ih =>
    simp only [List.cons_append, parseDigits, ih]

theorem dropWhile_blank {s post : List UInt8} :
    (s ++ 0 :: post).dropWhile isBlank = s.dropWhile isBlank ++ 0 :: post := by
  induction s with
  | nil => rfl
  | cons b s ih =>
    rw [List.cons_append, List.dropWhile_cons, List.dropWhile_cons, ih]
    split <;> simp

theorem parseLong_nul (s post : List UInt8) : parseLong (s ++ 0 :: post) = parseLong s := by
  unfold parseLong
  rw [dropWhile_blank]
  cases s.dropWhile isBlank with
  | nil => rfl
  | cons c r =>
    have whole := parseDigits_nul (s := c :: r) 0 post
    rw [List.cons_append] at whole
    simp only [List.cons_append, whole, parseDigits_nul]

/-! ### The whole response -/

theorem plain_transferEncoding : ∀ b ∈ transferEncoding, b ≠ 0 := by simp [transferEncoding]

theorem plain_contentLength : ∀ b ∈ contentLength, b ≠ 0 := by simp [contentLength]

theorem plain_chunked : ∀ b ∈ chunked, b ≠ 0 := by simp [chunked]

theorem clampLength_le (n : Int) (remaining : Nat) : clampLength n remaining ≤ remaining := by
  unfold clampLength
  dsimp only
  split_ifs <;> omega

theorem isChunked_eq {mem : List UInt8} {ptrs : List (Nat × Nat)}
    {headers : List (List UInt8 × List UInt8)} (kept : List.Forall₂ (HeaderAt mem) ptrs headers) :
    isChunked mem ptrs = decide (Http1.IsChunked headers) := by
  obtain ⟨absent, present⟩ := httpHeader_eq kept plain_transferEncoding
  rw [Bool.eq_iff_iff, decide_eq_true_iff, Http1.isChunked_iff]
  unfold isChunked
  change _ ↔ (Http1.lookup headers transferEncoding).any _ = true
  cases found : Http1.lookup headers transferEncoding with
  | none => simp [absent found]
  | some te =>
    obtain ⟨p, eq, at_⟩ := present te found
    simp only [eq, ciEq_pointsTo at_ plain_chunked, Option.any_some]
    rfl

/-- The framing, on the memory that the header loop leaves. -/
theorem frameBody_eq {pre body : List UInt8} {ptrs : List (Nat × Nat)}
    {headers : List (List UInt8 × List UInt8)}
    (kept : List.Forall₂ (HeaderAt (pre ++ (body ++ [0]))) ptrs headers) :
    ∃ b n, frameBody (pre ++ (body ++ [0])) ptrs pre.length body.length = some (b, n) ∧
      n = (readBody headers body).length ∧
      b.bytes (pre ++ (body ++ [0])) n = readBody headers body := by
  obtain ⟨absent, present⟩ := httpHeader_eq kept plain_contentLength
  have name : contentLength = Http1.contentLength := rfl
  rw [name] at absent present
  -- a body inside the raw copy stops before the NUL that follows the data
  have inRaw {n : Nat} (short : n ≤ body.length) :
      Body.bytes (pre ++ (body ++ [0])) n (.inRaw pre.length) = body.take n := by
    rw [Body.bytes, List.drop_left, List.take_append_of_le_length short]
  unfold frameBody readBody
  rw [isChunked_eq kept, List.drop_left, List.take_left]
  by_cases framed : Http1.IsChunked headers
  · obtain ⟨y, run⟩ := run_dechunk body (body.length + 1) (Nat.lt_succ_self _)
    rw [if_pos (decide_eq_true framed), if_pos framed, run]
    exact ⟨_, _, rfl, rfl, List.take_length⟩
  rw [if_neg (by simpa using framed), if_neg framed, name]
  cases found : Http1.lookup headers Http1.contentLength with
  | none =>
    rw [absent found]
    exact ⟨_, _, rfl, rfl, by rw [inRaw (Nat.le_refl _), List.take_length]⟩
  | some value =>
    obtain ⟨p, eq, at_⟩ := present value found
    obtain ⟨post, dropped, -⟩ := at_.drop
    have short := clampLength_le (wrap32 (parseLong value)) body.length
    rw [eq]
    dsimp only
    rw [dropped, parseLong_nul]
    exact ⟨_, _, rfl, by rw [List.length_take, Nat.min_eq_left short], inRaw short⟩

/-- The reason is held by its pointer, or empty. -/
def ReasonAt (mem : List UInt8) (reason : List UInt8) : Option Nat → Prop
  | none => reason = []
  | some p => PointsTo mem p reason

theorem statusLine_eq {line : List UInt8} (notNul : ∀ b ∈ line, b ≠ 0) (post : List UInt8) :
    (readStatus line = none → statusLine (line ++ 0 :: post) = none) ∧
    ∀ status reason, readStatus line = some (status, reason) →
      ∃ p, statusLine (line ++ 0 :: post) = some (status, p) ∧ ReasonAt (line ++ [0]) reason p := by
  unfold readStatus statusLine
  by_cases space : 0x20 ∈ line
  · rw [if_pos space]
    obtain ⟨shape, before⟩ := split_at space
    generalize line.takeWhile (· != 0x20) = version at shape before
    generalize (line.dropWhile (· != 0x20)).drop 1 = after at shape ⊢
    subst shape
    have plain : ∀ b ∈ version, b ≠ 0 ∧ b ≠ 0x20 :=
      fun b hb => ⟨notNul b (by simp [hb]), before b hb⟩
    have afterPlain : ∀ b ∈ after, b ≠ 0 := fun b hb => notNul b (by simp [hb])
    -- the first space ends the version
    have first : strchr (version ++ 0x20 :: after ++ 0 :: post) 0 0x20 = some version.length := by
      have found := strchr_found [] (after ++ 0 :: post) plain
      simpa using found
    have dropped : (version ++ 0x20 :: after ++ 0 :: post).drop (version.length + 1) =
        after ++ 0 :: post := by simp
    rw [first]
    dsimp only
    rw [dropped, parseLong_nul]
    refine ⟨nofun, fun status reason eq => ?_⟩
    cases eq
    have size : version.length + 1 = (version ++ [0x20]).length := by simp
    by_cases space' : 0x20 ∈ after
    · obtain ⟨shape, before'⟩ := split_at space'
      generalize after.takeWhile (· != 0x20) = code at shape before'
      generalize (after.dropWhile (· != 0x20)).drop 1 = reason at shape ⊢
      subst shape
      have plain' : ∀ b ∈ code, b ≠ 0 ∧ b ≠ 0x20 :=
        fun b hb => ⟨afterPlain b (by simp [hb]), before' b hb⟩
      -- the second one starts the reason
      have second := strchr_found (version ++ [0x20]) (reason ++ 0 :: post) plain'
      have layout : version ++ 0x20 :: (code ++ 0x20 :: reason) ++ 0 :: post =
          (version ++ [0x20]) ++ (code ++ 0x20 :: (reason ++ 0 :: post)) := by simp
      rw [size, layout, second]
      refine ⟨_, rfl, version ++ 0x20 :: (code ++ [0x20]), [], by simp, by simp; omega, ?_⟩
      exact fun b hb => afterPlain b (by simp [hb])
    · have plain' : ∀ b ∈ after, b ≠ 0 ∧ b ≠ 0x20 :=
        fun b hb => ⟨afterPlain b hb, fun eq => space' (eq ▸ hb)⟩
      have second := strchr_none (version ++ [0x20]) post (by decide) plain'
      have layout : version ++ 0x20 :: after ++ 0 :: post =
          (version ++ [0x20]) ++ (after ++ 0 :: post) := by simp
      have empty : after.dropWhile (· != 0x20) = [] := by
        rw [List.dropWhile_eq_nil_iff]
        exact fun b hb => by simpa using (plain' b hb).2
      rw [size, layout, second, empty]
      exact ⟨none, rfl, rfl⟩
  · rw [if_neg space]
    have plain : ∀ b ∈ line, b ≠ 0 ∧ b ≠ 0x20 :=
      fun b hb => ⟨notNul b hb, fun eq => space (eq ▸ hb)⟩
    have none : strchr (line ++ 0 :: post) 0 0x20 = none :=
      strchr_none [] post (by decide) plain
    rw [none]
    exact ⟨fun _ => rfl, nofun⟩

/-- A response holds what was read of its bytes. -/
structure Holds (r : HttpResponse) (head : HeadRead) : Prop where
  status : r.status = head.status
  reason : r.reasonText = head.reason
  headers : r.headerList = head.headers
  body : r.bodyBytes = readBody head.headers head.rest
  bodyLen : r.bodyLen = (readBody head.headers head.rest).length

theorem headerList_eq {mem : List UInt8} {ptrs : List (Nat × Nat)}
    {headers : List (List UInt8 × List UInt8)} (kept : List.Forall₂ (HeaderAt mem) ptrs headers) :
    ptrs.map (fun h => (cstr mem h.1, cstr mem h.2)) = headers := by
  induction kept with
  | nil => rfl
  | cons at_ _ ih => rw [List.map_cons, ih, at_.1.cstr, at_.2.cstr]

/-- The calls that lead to the response `r`: where the status line ends and where the body
starts. -/
structure Steps (data : List UInt8) (r : HttpResponse) (eol start : Nat) : Prop where
  long : ¬data.length < 12
  status : strstr (data ++ [0]) 0 crlf = some eol
  line : statusLine ((data ++ [0]).set eol 0) = some (r.status, r.reason)
  headers : headerLoop data.length ((data ++ [0]).set eol 0) [] (eol + 2) =
    some (r.raw, r.headers, start)
  body : frameBody r.raw r.headers start (data.length - start) = some (r.body, r.bodyLen)

theorem Steps.parsed {data : List UInt8} {r : HttpResponse} {eol start : Nat}
    (steps : Steps data r eol start) : httpParseResponse data = some r := by
  rw [httpParseResponse, if_neg steps.long]
  dsimp only
  rw [steps.status]
  dsimp only
  rw [steps.line]
  dsimp only
  rw [steps.headers]
  dsimp only
  rw [steps.body]

/-- Where there is no head to read one of the calls fails, and otherwise they read the head,
with pointers to the headers. -/
theorem httpParseResponse_steps (data : List UInt8) :
    (readHead data = none → httpParseResponse data = none) ∧
    ∀ head, readHead data = some head → ∃ r eol start, Steps data r eol start ∧ Holds r head ∧
      List.Forall₂ (HeaderAt r.raw) r.headers head.headers ∧
      data.length - start = head.rest.length := by
  unfold readHead
  by_cases short : data.length < 12
  · rw [if_pos short]
    refine ⟨fun _ => ?_, nofun⟩
    rw [httpParseResponse, if_pos short]
  rw [if_neg short]
  have found := strstr_crlf [] data
  simp only [List.nil_append, List.length_nil, Nat.zero_add] at found
  cases split : splitLine data with
  | none =>
    rw [split] at found
    refine ⟨fun _ => ?_, nofun⟩
    rw [httpParseResponse, if_neg short]
    dsimp only
    rw [found]
    rfl
  | some l =>
    obtain ⟨line, r⟩ := l
    obtain ⟨layout, notNul⟩ := splitLine_eq split
    rw [split, Option.map_some] at found
    -- the status line is cut before it is searched
    have cut : (data ++ [0]).set line.length 0 = line ++ 0 :: 0x0A :: (r ++ [0]) := by
      rw [layout]
      simp
    obtain ⟨noStatus, someStatus⟩ := statusLine_eq notNul (0x0A :: (r ++ [0]))
    rw [← cut] at noStatus someStatus
    cases status : readStatus line with
    | none =>
      refine ⟨fun _ => ?_, fun head eq => ?_⟩
      · rw [httpParseResponse, if_neg short]
        dsimp only
        rw [found]
        dsimp only
        rw [noStatus status]
      · simp only [status, reduceCtorEq] at eq
    | some readLine =>
      obtain ⟨code, reason⟩ := readLine
      obtain ⟨p, eq, reasonAt⟩ := someStatus code reason status
      have enough : r.length < data.length := splitLine_lt split
      obtain ⟨noHeaders, someHeaders⟩ := headerLoop_eq data.length (line ++ [0, 0x0A]) r [] enough
      have layout' : line ++ [0, 0x0A] ++ (r ++ [0]) = (data ++ [0]).set line.length 0 := by
        rw [cut]
        simp
      have start : (line ++ [0, 0x0A]).length = line.length + 2 := by simp
      rw [layout', start] at noHeaders someHeaders
      dsimp only
      simp only [status]
      cases read : readHeaders r with
      | none =>
        refine ⟨fun _ => ?_, nofun⟩
        rw [httpParseResponse, if_neg short]
        dsimp only
        rw [found]
        dsimp only
        rw [eq]
        dsimp only
        rw [noHeaders read]
      | some fields =>
        obtain ⟨headers, body⟩ := fields
        obtain ⟨mid, ptrs, run, size, kept⟩ := someHeaders headers body read
        refine ⟨nofun, fun head eq' => ?_⟩
        cases eq'
        -- the pointers still hold the headers in the whole copy
        have kept' : List.Forall₂ (HeaderAt ((line ++ [0, 0x0A] ++ mid) ++ (body ++ [0]))) ptrs
            headers := kept.imp fun h header at_ => at_.append _
        obtain ⟨b, n, framed, len, bytes⟩ := frameBody_eq kept'
        have left : data.length - (line ++ [0, 0x0A] ++ mid).length = body.length := by
          rw [layout]
          simp only [List.length_append, List.length_cons, List.length_nil]
          omega
        rw [← left] at framed
        refine ⟨⟨code, p, ptrs, b, n, _⟩, line.length, _, ⟨short, found, eq, run, framed⟩,
          ⟨rfl, ?_, headerList_eq kept', bytes, len⟩, kept', left⟩
        cases p with
        | none => exact reasonAt.symm
        | some p =>
          -- and so does the pointer to the reason
          have longer := reasonAt.append (0x0A :: (mid ++ (body ++ [0])))
          have same : line ++ [0] ++ 0x0A :: (mid ++ (body ++ [0])) =
              line ++ [0, 0x0A] ++ mid ++ (body ++ [0]) := by simp
          rw [same] at longer
          exact longer.cstr

/-- `http_parse_response` fails where there is no head to read, and otherwise returns
what is read of the bytes, with pointers to the headers. -/
theorem httpParseResponse_kept (data : List UInt8) :
    (readHead data = none → httpParseResponse data = none) ∧
    ∀ head, readHead data = some head → ∃ r, httpParseResponse data = some r ∧ Holds r head ∧
      List.Forall₂ (HeaderAt r.raw) r.headers head.headers := by
  obtain ⟨none, some⟩ := httpParseResponse_steps data
  refine ⟨none, fun head read => ?_⟩
  obtain ⟨r, eol, start, steps, holds, kept, -⟩ := some head read
  exact ⟨r, steps.parsed, holds, kept⟩

theorem httpParseResponse_eq (data : List UInt8) :
    (readHead data = none → httpParseResponse data = none) ∧
    ∀ head, readHead data = some head → ∃ r, httpParseResponse data = some r ∧ Holds r head := by
  obtain ⟨none, some⟩ := httpParseResponse_kept data
  refine ⟨none, fun head read => ?_⟩
  obtain ⟨r, parsed, holds, -⟩ := some head read
  exact ⟨r, parsed, holds⟩

end InstagramNt40.Http
