import InstagramNt40.Core.Json
import InstagramNt40.Library.JsonTokens

/-!
# What `parse_string_raw` decodes

`Decoded body out` says what a string body decodes to, without cursors or
buffers. The sizing scan finds the closing quote; the decoding loop stops at the
same quote, inside its buffer, exactly on the bodies that decode.
-/
namespace InstagramNt40.Json

open Scanner Rfc8259 Ascii

/-! ### The decoding relation -/

/-- The value of a run of hex digits after `cp`, in 32-bit arithmetic. -/
def hexFold : UInt32 → List UInt8 → Option UInt32
  | cp, [] => some cp
  | cp, h :: r =>
    match hexDigit h with
    | some d => hexFold ((cp <<< 4) ||| d) r
    | none => none

/-- `s` are four hex digits of value `cp`. -/
def HexQuad (s : List UInt8) (cp : UInt32) : Prop := s.length = 4 ∧ hexFold 0 s = some cp

/-- `Escape e s bytes post`: after a backslash and `e`, the bytes `s` complete the
escape, which decodes to `bytes`, when `post` follows. -/
inductive Escape : UInt8 → List UInt8 → List UInt8 → List UInt8 → Prop
  | short {e b post} : shortEscape e = some b → Escape e [] [b] post
  | unicode {s cp post} : HexQuad s cp → isHighSurrogate cp = false →
      Escape 0x75 s (putUtf8 cp) post
  | pair {s s' cp lo post} : HexQuad s cp → isHighSurrogate cp = true → HexQuad s' lo →
      Escape 0x75 (s ++ 0x5C :: 0x75 :: s') (putUtf8 (combineSurrogates cp lo)) post
  | lone {s cp post} : HexQuad s cp → isHighSurrogate cp = true → ¬[0x5C, 0x75] <+: post →
      Escape 0x75 s (putUtf8 cp) post

inductive Decoded : List UInt8 → List UInt8 → Prop
  | nil : Decoded [] []
  | byte {b r out} : b ≠ 0x22 → b ≠ 0x5C → Decoded r out → Decoded (b :: r) (b :: out)
  | escape {e s bytes r out} : Escape e s bytes r → Decoded r out →
      Decoded (0x5C :: e :: (s ++ r)) (bytes ++ out)

theorem hexDigit_isSome {h : UInt8} {d : UInt32} (eq : hexDigit h = some d) : IsHex h := by
  unfold hexDigit at eq
  unfold IsHex hexVal
  split_ifs at eq ⊢ <;> simp

theorem hexFold_hex {s : List UInt8} {cp d : UInt32} (h : hexFold cp s = some d) :
    ∀ b ∈ s, IsHex b := by
  induction s generalizing cp with
  | nil => simp
  | cons b s ih =>
    simp only [hexFold] at h
    split at h
    next d hd =>
      intro c hc
      rcases List.mem_cons.mp hc with rfl | hc
      · exact hexDigit_isSome hd
      · exact ih h c hc
    · cases h

theorem HexQuad.hex {s : List UInt8} {cp : UInt32} (h : HexQuad s cp) : ∀ b ∈ s, IsHex b :=
  hexFold_hex h.2

theorem HexQuad.plain {s : List UInt8} {cp : UInt32} (h : HexQuad s cp) :
    ∀ b ∈ s, b ≠ 0x22 ∧ b ≠ 0x5C := fun b hb => (h.hex b hb).plain

/-- Four hex digits, taken apart. -/
theorem HexQuad.bytes {s : List UInt8} {cp : UInt32} (h : HexQuad s cp) :
    ∃ a b c d, s = [a, b, c, d] ∧ IsHex a ∧ IsHex b ∧ IsHex c ∧ IsHex d := by
  obtain ⟨a, b, c, d, rfl⟩ := List.length_eq_four.mp h.1
  have hex := h.hex
  simp only [List.mem_cons, List.not_mem_nil, or_false, forall_eq_or_imp, forall_eq] at hex
  exact ⟨a, b, c, d, rfl, hex⟩

theorem shortEscape_isShort {e b : UInt8} (h : shortEscape e = some b) : IsShortEscape e := by
  unfold shortEscape at h
  unfold IsShortEscape
  split_ifs at h <;> simp_all

theorem putUtf8_length (cp : UInt32) : (putUtf8 cp).length ≤ 4 := by
  unfold putUtf8
  split_ifs <;> simp

theorem closeQuote_plain {s : List UInt8} (h : ∀ b ∈ s, b ≠ 0x22 ∧ b ≠ 0x5C) (r : List UInt8) :
    closeQuote (s ++ r) = (closeQuote r).map (· + s.length) := by
  induction s with
  | nil => simp
  | cons b s ih =>
    have hb := h b (by simp)
    rw [List.cons_append, closeQuote_byte hb.1 hb.2, ih fun c hc => h c (by simp [hc]),
      Option.map_map]
    rfl

/-- An escape is skipped by the sizing scan as a whole. -/
theorem Escape.closeQuote {e : UInt8} {s bytes post : List UInt8} (h : Escape e s bytes post)
    (r : List UInt8) :
    closeQuote (0x5C :: e :: (s ++ r)) = (closeQuote r).map (· + (s.length + 2)) := by
  rw [closeQuote_escape]
  cases h with
  | short => simp
  | unicode hs | lone hs =>
    rw [closeQuote_plain hs.plain, Option.map_map]
    rfl
  -- the scan meets two escapes and the digits between them
  | pair hs _ hs' =>
    rw [List.append_assoc, List.cons_append, List.cons_append, closeQuote_plain hs.plain,
      closeQuote_escape, closeQuote_plain hs'.plain, Option.map_map, Option.map_map, Option.map_map]
    congr 1
    funext n
    simp only [Function.comp, List.length_append, List.length_cons]
    omega

/-- An escape writes no more bytes than it takes. -/
theorem Escape.length_le {e : UInt8} {s bytes post : List UInt8} (h : Escape e s bytes post) :
    bytes.length ≤ s.length + 2 := by
  cases h with
  | short => simp
  | @unicode _ cp _ hs | @lone _ cp _ hs =>
    have := putUtf8_length cp
    have := hs.1
    omega
  -- twelve bytes for at most four
  | @pair _ _ cp lo _ hs _ hs' =>
    have := putUtf8_length (combineSurrogates cp lo)
    have := hs.1
    simp only [List.length_append, List.length_cons]
    omega

/-- An escape does not see past the end of the body. -/
theorem Escape.of_append {e : UInt8} {s bytes r : List UInt8} (post : List UInt8)
    (h : Escape e s bytes (r ++ post)) : Escape e s bytes r := by
  cases h with
  | short h => exact .short h
  | unicode hs low => exact .unicode hs low
  | pair hs high hs' => exact .pair hs high hs'
  -- what does not follow in more bytes does not follow in fewer
  | lone hs high no => exact .lone hs high fun pre => no (pre.trans (List.prefix_append r post))

theorem Escape.append_quote {e : UInt8} {s bytes r : List UInt8} (h : Escape e s bytes r)
    (post : List UInt8) : Escape e s bytes (r ++ 0x22 :: post) := by
  cases h with
  | short h => exact .short h
  | unicode hs low => exact .unicode hs low
  | pair hs high hs' => exact .pair hs high hs'
  | lone hs high no =>
    -- the quote does not start an escape, so the two bytes lie in the body
    refine .lone hs high fun pre => no ?_
    match r, pre with
    | [], pre => simp at pre
    | [a], pre => simp at pre
    | a :: b :: r, pre =>
      simp only [List.cons_append, List.cons_prefix_cons, List.nil_prefix, and_true] at pre ⊢
      exact pre

theorem Escape.relaxed {e : UInt8} {s bytes post r : List UInt8} (h : Escape e s bytes post)
    (hr : RelaxedBody r) : RelaxedBody (0x5C :: e :: (s ++ r)) := by
  cases h with
  | short h => exact .short (shortEscape_isShort h) hr
  | unicode hs | lone hs =>
    obtain ⟨a, b, c, d, rfl, ha, hb, hc, hd⟩ := hs.bytes
    exact .unicode ha hb hc hd hr
  | pair hs _ hs' =>
    obtain ⟨a, b, c, d, rfl, ha, hb, hc, hd⟩ := hs.bytes
    obtain ⟨a', b', c', d', rfl, ha', hb', hc', hd'⟩ := hs'.bytes
    -- without pairing the grammar sees two escapes
    exact .unicode ha hb hc hd (.unicode ha' hb' hc' hd' hr)

theorem Decoded.relaxed {s out : List UInt8} (h : Decoded s out) : RelaxedBody s := by
  induction h with
  | nil => exact .nil
  | byte hq hb _ ih => exact .byte hq hb ih
  | escape he _ ih => exact he.relaxed ih

theorem Decoded.length_le {s out : List UInt8} (h : Decoded s out) : out.length ≤ s.length := by
  induction h with
  | nil => simp
  | byte _ _ _ ih => simpa using ih
  | escape he _ ih =>
    have := he.length_le
    simp only [List.length_append, List.length_cons]
    omega

theorem hexDigit_of_hex {h : UInt8} (hex : IsHex h) : ∃ d, hexDigit h = some d := by
  obtain ⟨n, hn⟩ := hex
  unfold hexVal at hn
  unfold hexDigit
  split_ifs at hn ⊢ <;> simp

theorem hexFold_of_hex {s : List UInt8} (hex : ∀ b ∈ s, IsHex b) (cp : UInt32) :
    ∃ d, hexFold cp s = some d := by
  induction s generalizing cp with
  | nil => exact ⟨cp, rfl⟩
  | cons b s ih =>
    obtain ⟨d, hd⟩ := hexDigit_of_hex (hex b (by simp))
    simp only [hexFold, hd]
    exact ih (fun c hc => hex c (by simp [hc])) _

theorem hexQuad_of_hex {a b c d : UInt8} (ha : IsHex a) (hb : IsHex b) (hc : IsHex c)
    (hd : IsHex d) : ∃ cp, HexQuad [a, b, c, d] cp := by
  obtain ⟨cp, h⟩ := hexFold_of_hex (s := [a, b, c, d]) (by simp [ha, hb, hc, hd]) 0
  exact ⟨cp, rfl, h⟩

theorem shortEscape_of_isShort {e : UInt8} (h : IsShortEscape e) : ∃ b, shortEscape e = some b := by
  rcases h with rfl | rfl | rfl | rfl | rfl | rfl | rfl | rfl <;> exact ⟨_, rfl⟩

/-- Every relaxed body decodes. The induction is on the length, as a pair takes two
escapes of the body at once. -/
theorem decoded_of_relaxed {s : List UInt8} (h : RelaxedBody s) : ∃ out, Decoded s out := by
  induction size : s.length using Nat.strong_induction_on generalizing s with
  | _ n ih =>
    subst size
    cases h with
    | nil => exact ⟨[], .nil⟩
    | byte hq hb hr =>
      obtain ⟨out, ho⟩ := ih _ (by simp) hr rfl
      exact ⟨_, .byte hq hb ho⟩
    | short he hr =>
      obtain ⟨b, hb⟩ := shortEscape_of_isShort he
      obtain ⟨out, ho⟩ := ih _ (by simp only [List.length_cons]; omega) hr rfl
      exact ⟨_, .escape (.short hb) ho⟩
    | @unicode a b c d r ha hb hc hd hr =>
      obtain ⟨cp, hcp⟩ := hexQuad_of_hex ha hb hc hd
      obtain ⟨out, ho⟩ := ih _ (by simp only [List.length_cons]; omega) hr rfl
      cases high : isHighSurrogate cp with
      | false => exact ⟨_, .escape (.unicode hcp high) ho⟩
      | true =>
        -- a high surrogate takes the escape after it, if there is one
        by_cases next : [0x5C, 0x75] <+: r
        · cases hr with
          | nil => simp at next
          | byte _ notBackslash => simp [Ne.symm notBackslash] at next
          | short he =>
            simp only [List.cons_prefix_cons, List.nil_prefix, and_true, true_and] at next
            -- `u` is no short escape
            exact absurd he (by rw [← next]; unfold IsShortEscape; decide)
          | @unicode a' b' c' d' r' ha' hb' hc' hd' hr' =>
            obtain ⟨lo, hlo⟩ := hexQuad_of_hex ha' hb' hc' hd'
            obtain ⟨out', ho'⟩ := ih _ (by simp only [List.length_cons]; omega) hr' rfl
            exact ⟨_, .escape (.pair hcp high hlo) ho'⟩
        · exact ⟨_, .escape (.lone hcp high next) ho⟩

/-! ### The scanner decodes nothing else -/

theorem readHex_safe (text : List UInt8) (n : Nat) (cp : UInt32) (x : Cursor) :
    Safe text x (readHex n cp) fun v y =>
      ∃ s, Reads text x s y ∧ s.length = n ∧ hexFold cp s = some v := by
  induction n generalizing cp x with
  | zero => exact .pure ⟨[], .refl text x, rfl, rfl⟩
  | succ n ih =>
    -- the digit is consumed before it is looked at
    refine .peek (fun _ => .fail) fun h r left => .bind_ok (run_advance_one left) ?_
    cases digit : hexDigit h with
    | none => exact .fail
    | some d =>
      refine (ih _ _).mono fun v y ⟨s, reads, size, value⟩ => ⟨h :: s, ?_, by simp [size], ?_⟩
      · exact (Reads.one left).trans reads
      · simpa only [hexFold, digit] using value

theorem readHex_quad_safe (text : List UInt8) (x : Cursor) :
    Safe text x (readHex 4 0) fun v y => ∃ s, Reads text x s y ∧ HexQuad s v :=
  (readHex_safe text 4 0 x).mono fun _ _ ⟨s, reads, size, value⟩ => ⟨s, reads, size, value⟩

theorem run_atUnicodeEscape (text : List UInt8) (x : Cursor) :
    atUnicodeEscape text x = .ok (decide ([0x5C, 0x75] <+: rest text x)) x := by
  unfold atUnicodeEscape
  rw [bind_ok (run_cursor text x), bind_ok (run_limit text x)]
  have size : (rest text x).length = text.length - x.pos := rest_length
  -- the two reads are in bounds only if two bytes are left
  match left : rest text x with
  | [] =>
    rw [left] at size
    rw [if_neg (by simp only [List.length_nil] at size; omega)]
    simp
  | [a] =>
    rw [left] at size
    rw [if_neg (by simp only [List.length_cons, List.length_nil] at size; omega)]
    simp
  | a :: b :: r =>
    rw [left] at size
    obtain ⟨first, -, after⟩ := rest_cons left
    have second : text[x.pos + 1]? = some b := (rest_cons (rest_forward_one left)).1
    rw [if_pos (by simp only [List.length_cons] at size; omega), bind_ok (run_deref x first)]
    by_cases ha : a = 0x5C
    · rw [if_pos ha, bind_ok (run_deref x second)]
      by_cases hb : b = 0x75
      · simp [ha, hb]
      · rw [if_neg hb]
        simp [Ne.symm hb]
    · rw [if_neg ha]
      simp [Ne.symm ha]

theorem pairSurrogate_safe (text : List UInt8) (cp : UInt32) (x : Cursor)
    (high : isHighSurrogate cp = true) :
    Safe text x (pairSurrogate cp) fun v y =>
      (∃ s lo, Reads text x (0x5C :: 0x75 :: s) y ∧ HexQuad s lo ∧
        v = combineSurrogates cp lo) ∨
      (Reads text x [] y ∧ v = cp ∧ ¬[0x5C, 0x75] <+: rest text y) := by
  unfold pairSurrogate
  rw [high, if_pos rfl]
  apply Safe.bind_ok (run_atUnicodeEscape text x)
  by_cases next : [0x5C, 0x75] <+: rest text x
  · rw [decide_eq_true next, if_pos rfl]
    obtain ⟨r, hr⟩ := next
    have size := congrArg List.length hr
    rw [rest_length, List.length_append] at size
    simp only [List.length_cons, List.length_nil] at size
    apply Safe.bind_ok (run_advance (by omega))
    have marks : Reads text x [0x5C, 0x75] (x.forward 2) := .of_rest hr.symm
    refine (readHex_quad_safe text _).bind fun lo y ⟨s, reads, quad⟩ => .pure (Or.inl ?_)
    exact ⟨s, lo, marks.trans reads, quad, rfl⟩
  · rw [decide_eq_false next, if_neg Bool.false_ne_true]
    exact .pure (Or.inr ⟨.refl text x, rfl, next⟩)

theorem decodeEscape_safe (text : List UInt8) (e : UInt8) (x : Cursor) :
    Safe text x (decodeEscape e) fun bytes y =>
      ∃ s, Reads text x s y ∧ Escape e s bytes (rest text y) := by
  unfold decodeEscape
  cases short : shortEscape e with
  | some b => exact .pure ⟨[], .refl text x, .short short⟩
  | none =>
    dsimp only
    split
    next unicode =>
      subst unicode
      apply (readHex_quad_safe text x).bind
      rintro cp y ⟨s, reads, quad⟩
      cases high : isHighSurrogate cp with
      | false =>
        apply Safe.bind_ok (y := y) (a := cp) (by simp [pairSurrogate, high])
        exact .pure ⟨s, reads, .unicode quad high⟩
      | true =>
        refine (pairSurrogate_safe text cp y high).bind fun v z found => .pure ?_
        rcases found with ⟨s', lo, reads', quad', rfl⟩ | ⟨reads', rfl, alone⟩
        · exact ⟨_, reads.trans reads', .pair quad high quad'⟩
        · exact ⟨_, reads.trans reads', by simpa using .lone quad high alone⟩
    next => exact .fail

/-! ### One round of the loop -/

/-- What one round takes and writes: a raw byte, or an escape. -/
inductive Piece : List UInt8 → List UInt8 → List UInt8 → Prop
  | byte {b post} : b ≠ 0x22 → b ≠ 0x5C → Piece [b] [b] post
  | escape {e s bytes post} : Escape e s bytes post → Piece (0x5C :: e :: s) bytes post

theorem Piece.decoded {s bytes r out : List UInt8} (piece : Piece s bytes r)
    (later : Decoded r out) : Decoded (s ++ r) (bytes ++ out) := by
  cases piece with
  | byte hq hb => exact .byte hq hb later
  | escape h => exact .escape h later

/-- The sizing scan passes over a piece as a whole. -/
theorem Piece.closeQuote {s bytes post : List UInt8} (piece : Piece s bytes post)
    (r : List UInt8) : closeQuote (s ++ r) = (closeQuote r).map (· + s.length) := by
  cases piece with
  | byte hq hb => exact closeQuote_byte hq hb r
  | escape h => exact h.closeQuote r

theorem Piece.length_le {s bytes post : List UInt8} (piece : Piece s bytes post) :
    bytes.length ≤ s.length := by
  cases piece with
  | byte => exact Nat.le_refl 1
  | escape h => exact h.length_le

theorem Piece.length_pos {s bytes post : List UInt8} (piece : Piece s bytes post) :
    0 < s.length := by
  cases piece <;> exact Nat.succ_pos _

theorem Piece.of_append {s bytes r : List UInt8} (post : List UInt8)
    (piece : Piece s bytes (r ++ post)) : Piece s bytes r := by
  cases piece with
  | byte hq hb => exact .byte hq hb
  | escape h => exact .escape (h.of_append post)

theorem Piece.append_quote {s bytes r : List UInt8} (piece : Piece s bytes r) (post : List UInt8) :
    Piece s bytes (r ++ 0x22 :: post) := by
  cases piece with
  | byte hq hb => exact .byte hq hb
  | escape h => exact .escape (h.append_quote post)

/-- A body that decodes is empty or begins with a piece. -/
theorem Decoded.cases_piece {body o : List UInt8} (decoded : Decoded body o) :
    (body = [] ∧ o = []) ∨ ∃ s bytes r out, body = s ++ r ∧ o = bytes ++ out ∧ Piece s bytes r ∧
      Decoded r out := by
  cases decoded with
  | nil => exact .inl ⟨rfl, rfl⟩
  | byte hq hb later => exact .inr ⟨[_], [_], _, _, rfl, rfl, .byte hq hb, later⟩
  | escape h later => exact .inr ⟨_ :: _ :: _, _, _, _, rfl, rfl, .escape h, later⟩

/-- The body of the loop: the output after a round, or nothing at the end. -/
def decodeStep (cap : Nat) (out : List UInt8) : Scan (Option (List UInt8)) := do
  match ← peek with
  | none => pure none
  | some c =>
    if c = 0x22 then pure none
    else if c ≠ 0x5C then do
      let out ← emit cap out [c]
      advance 1
      pure (some out)
    else do
      advance 1
      match ← peek with
      | none => fail
      | some e => do
        advance 1
        let bytes ← decodeEscape e
        let out ← emit cap out bytes
        pure (some out)

theorem decodeLoop_step (cap fuel : Nat) (out : List UInt8) :
    decodeLoop cap (fuel + 1) out = decodeStep cap out >>= fun next =>
      match next with
      | none => pure out
      | some out => decodeLoop cap fuel out := by
  rw [decodeLoop, decodeStep, Scan.bind_assoc]
  congr 1
  funext next
  cases next with
  | none => rfl
  | some c =>
    dsimp only
    by_cases isQuote : c = 0x22
    · rw [if_pos isQuote, if_pos isQuote]
      rfl
    rw [if_neg isQuote, if_neg isQuote]
    by_cases raw : c ≠ 0x5C
    · rw [if_pos raw, if_pos raw]
      simp only [Scan.bind_assoc]
      rfl
    · rw [if_neg raw, if_neg raw, Scan.bind_assoc]
      congr 1
      funext _
      rw [Scan.bind_assoc]
      congr 1
      funext next
      cases next with
      | none => rfl
      | some e =>
        simp only [Scan.bind_assoc]
        rfl

/-- Before the quote that the sizing scan found, a round takes and writes a piece. -/
theorem decodeStep_safe (text : List UInt8) (cap k : Nat) (out : List UInt8) (x : Cursor)
    (quote : closeQuote (rest text x) = some k) (room : out.length + k + 1 ≤ cap) :
    Safe text x (decodeStep cap out) fun next y =>
      match next with
      | none => k = 0 ∧ y = x ∧ ∃ post, rest text x = 0x22 :: post
      | some out' => ∃ s bytes j, Reads text x s y ∧ Piece s bytes (rest text y) ∧
          closeQuote (rest text y) = some j ∧ k = s.length + j ∧ out' = out ++ bytes := by
  unfold decodeStep
  refine .peek (fun left => ?_) fun c r left => ?_
  · rw [left] at quote
    cases quote
  rw [left] at quote
  dsimp only
  split
  next isQuote =>
    subst isQuote
    rw [closeQuote_quote] at quote
    cases quote
    exact .pure ⟨rfl, rfl, r, left⟩
  next notQuote =>
  split
  next notBackslash =>
    -- a raw byte: one byte read, one written
    rw [closeQuote_byte notQuote notBackslash] at quote
    obtain ⟨j, hj, rfl⟩ := Option.map_eq_some_iff.mp quote
    apply Safe.bind_ok (run_emit text x (by simp only [List.length_singleton]; omega))
    apply Safe.bind_ok (run_advance_one left)
    refine .pure ⟨[c], [c], j, .one left, .byte notQuote notBackslash, ?_, Nat.add_comm j 1, rfl⟩
    rw [rest_forward_one left, hj]
  next backslash =>
    rw [not_ne_iff] at backslash
    subst backslash
    refine .bind_ok (run_advance_one left) (.peek (fun _ => .fail) fun e q left' => ?_)
    apply Safe.bind_ok (run_advance_one left')
    apply (decodeEscape_safe text e _).bind
    rintro bytes y ⟨s, reads, escape⟩
    have all : Reads text x (0x5C :: e :: s) y :=
      ((Reads.one left).trans (Reads.one left')).trans reads
    have piece := Piece.escape escape
    -- the whole escape lies in front of the quote
    have skipped := piece.closeQuote (rest text y)
    rw [← all.bytes, left, quote] at skipped
    obtain ⟨j, hj, rfl⟩ := Option.map_eq_some_iff.mp skipped.symm
    have short := piece.length_le
    apply Safe.bind_ok (run_emit text y (by omega))
    exact .pure ⟨_, bytes, j, all, piece, hj, Nat.add_comm j _, rfl⟩

/-- Within the sizing scan's span the loop stays inside its buffer and stops at the
quote that the scan found. -/
theorem decodeLoop_safe (text : List UInt8) (cap fuel k : Nat) (out : List UInt8) (x : Cursor)
    (quote : closeQuote (rest text x) = some k) (room : out.length + k + 1 ≤ cap)
    (enough : (rest text x).length < fuel) :
    Safe text x (decodeLoop cap fuel out) fun all y =>
      ∃ body o post, Reads text x body y ∧ body.length = k ∧ rest text y = 0x22 :: post ∧
        Decoded body o ∧ all = out ++ o := by
  -- the induction is on the fuel; `k`, the distance to the quote, sinks with every byte, and
  -- `room` says that what is written stays `k + 1` short of the capacity
  induction fuel generalizing k out x with
  | zero => omega
  | succ fuel ih =>
    rw [decodeLoop_step]
    apply (decodeStep_safe text cap k out x quote room).bind
    intro next y found
    cases next with
    | none =>
      obtain ⟨rfl, rfl, post, left⟩ := found
      exact .pure ⟨[], [], post, .refl text y, rfl, left, .nil, by simp⟩
    | some out' =>
      obtain ⟨s, bytes, j, reads, piece, quote', rfl, rfl⟩ := found
      have short := piece.length_le
      have progress := piece.length_pos
      have size := congrArg List.length reads.bytes
      rw [List.length_append] at size
      have later := ih j (out ++ bytes) y quote'
        (by rw [List.length_append]; omega) (by omega)
      apply later.mono
      rintro all z ⟨body, o, post, reads', len, stop, decoded, rfl⟩
      refine ⟨s ++ body, bytes ++ o, post, reads.trans reads', by simp [len], stop, ?_,
        List.append_assoc out bytes o⟩
      -- the piece was read with all the text behind it, but needs only the body
      rw [reads'.bytes, stop] at piece
      exact (piece.of_append (0x22 :: post)).decoded decoded

theorem run_scanQuote (text : List UInt8) (fuel i : Nat) (x : Cursor)
    (enough : text.length - i ≤ fuel) :
    ∃ j, scanQuote fuel i text x = .ok j x ∧
      ((∃ k, closeQuote (text.drop i) = some k ∧ j = i + k) ∨
        (closeQuote (text.drop i) = none ∧ text.length ≤ j)) := by
  induction fuel generalizing i with
  | zero =>
    have done : text.drop i = [] := List.drop_eq_nil_of_le (by omega)
    exact ⟨i, rfl, Or.inr ⟨by simp [done, closeQuote], by omega⟩⟩
  | succ fuel ih =>
    unfold scanQuote
    rw [bind_ok (run_limit text x)]
    by_cases inside : i < text.length
    · rw [if_pos inside]
      have here : text.drop i = text[i] :: text.drop (i + 1) := List.drop_eq_getElem_cons inside
      rw [bind_ok (run_deref x (List.getElem?_eq_getElem inside))]
      generalize text[i] = b at here
      rw [here]
      by_cases isQuote : b = 0x22
      · rw [if_pos isQuote]
        subst isQuote
        exact ⟨i, rfl, Or.inl ⟨0, closeQuote_quote _, rfl⟩⟩
      rw [if_neg isQuote]
      by_cases backslash : b = 0x5C
      · -- the byte after a backslash is stepped over, and may be past the end
        rw [if_pos backslash]
        subst backslash
        obtain ⟨j, run, found⟩ := ih (i + 2) (by omega)
        refine ⟨j, run, ?_⟩
        cases after : text.drop (i + 1) with
        | nil =>
          have beyond : text.drop (i + 2) = [] := by
            rw [show i + 2 = i + 1 + 1 from rfl, ← List.drop_drop, after]
            rfl
          rw [beyond] at found
          rcases found with ⟨k, hk, -⟩ | ⟨-, outside⟩
          · cases hk
          · exact Or.inr ⟨by simp [closeQuote], outside⟩
        | cons e r =>
          have same : text.drop (i + 2) = r := by
            rw [show i + 2 = i + 1 + 1 from rfl, ← List.drop_drop, after]
            rfl
          rw [same] at found
          rw [closeQuote_escape]
          rcases found with ⟨k, hk, rfl⟩ | ⟨none, outside⟩
          · exact Or.inl ⟨k + 2, by rw [hk]; rfl, by omega⟩
          · exact Or.inr ⟨by rw [none]; rfl, outside⟩
      · rw [if_neg backslash]
        obtain ⟨j, run, found⟩ := ih (i + 1) (by omega)
        refine ⟨j, run, ?_⟩
        rw [closeQuote_byte isQuote backslash]
        rcases found with ⟨k, hk, rfl⟩ | ⟨none, outside⟩
        · exact Or.inl ⟨k + 1, by rw [hk]; rfl, by omega⟩
        · exact Or.inr ⟨by rw [none]; rfl, outside⟩
    · rw [if_neg inside]
      have done : text.drop i = [] := List.drop_eq_nil_of_le (by omega)
      exact ⟨i, rfl, Or.inr ⟨by simp [done, closeQuote], by omega⟩⟩

theorem parseStringBody_safe (text : List UInt8) (x : Cursor) :
    Safe text x parseStringBody fun out y =>
      ∃ body, Reads text x (body ++ [0x22]) y ∧ Decoded body out := by
  unfold parseStringBody
  refine .bind_ok (run_cursor text x) (.bind_ok (run_limit text x) ?_)
  obtain ⟨j, run, found⟩ := run_scanQuote text (text.length - x.pos) x.pos x (Nat.le_refl _)
  refine .bind_ok run (.bind_ok (run_limit text x) ?_)
  rcases found with ⟨k, quote, rfl⟩ | ⟨-, outside⟩
  · -- a quote was found: the loop stops there
    have inside := closeQuote_lt quote
    rw [List.length_drop] at inside
    rw [if_neg (by omega)]
    have size : (rest text x).length = text.length - x.pos := rest_length
    refine (decodeLoop_safe text _ _ k [] x quote (by simp only [List.length_nil]; omega)
      (by omega)).bind fun out y ⟨body, o, post, reads, len, stop, decoded, eq⟩ => ?_
    rw [List.nil_append] at eq
    subst eq
    refine .bind_ok (run_peek_cons stop) (.bind_ok (run_advance_one stop) ?_)
    have fits := decoded.length_le
    apply Safe.bind_ok (run_emit text _ (by simp only [List.length_singleton]; omega))
    exact .pure ⟨body, reads.trans (.one stop), decoded⟩
  · -- no quote is left in the text
    rw [if_pos outside]
    exact .fail

theorem parseStringRaw_safe (text : List UInt8) (x : Cursor) :
    Safe text x parseStringRaw fun out y =>
      ∃ body, Reads text x (0x22 :: (body ++ [0x22])) y ∧ Decoded body out := by
  unfold parseStringRaw
  apply Safe.peek (fun _ => .fail)
  intro b r left
  dsimp only
  split
  next isQuote =>
    subst isQuote
    apply Safe.bind_ok (run_advance_one left)
    exact (parseStringBody_safe text _).mono fun out y ⟨body, reads, decoded⟩ =>
      ⟨body, (Reads.one left).trans reads, decoded⟩
  next => exact .fail

/-! ### The scanner decodes every body -/

theorem run_readHex (text : List UInt8) (s post : List UInt8) (cp d : UInt32) (x : Cursor)
    (value : hexFold cp s = some d) (left : rest text x = s ++ post) :
    readHex s.length cp text x = .ok d (x.forward s.length) := by
  induction s generalizing cp x with
  | nil =>
    cases value
    rfl
  | cons h s ih =>
    rw [List.length_cons]
    unfold readHex
    rw [bind_ok (run_peek_cons left)]
    dsimp only
    rw [bind_ok (run_advance_one left)]
    simp only [hexFold] at value
    cases digit : hexDigit h with
    | none =>
      rw [digit] at value
      cases value
    | some e =>
      rw [digit] at value
      dsimp only
      rw [ih _ _ value (rest_forward_one left), Cursor.forward_forward, Nat.add_comm]

theorem run_readHex_quad {text s post : List UInt8} {cp : UInt32} {x : Cursor}
    (quad : HexQuad s cp) (left : rest text x = s ++ post) :
    readHex 4 0 text x = .ok cp (x.forward s.length) := by
  have run := run_readHex text s post 0 cp x quad.2 left
  rwa [quad.1] at run ⊢

theorem run_decodeEscape {text : List UInt8} {e : UInt8} {s bytes post : List UInt8} {x : Cursor}
    (escape : Escape e s bytes post) (left : rest text x = s ++ post) :
    decodeEscape e text x = .ok bytes (x.forward s.length) := by
  have noShort : shortEscape 0x75 = none := rfl
  unfold decodeEscape
  cases escape with
  | short h => simp [h]
  | unicode quad low =>
    simp only [noShort, if_true]
    rw [bind_ok (run_readHex_quad quad left)]
    simp only [pairSurrogate, low, Bool.false_eq_true, if_false]
    rfl
  -- the lookahead fails and the surrogate is written as it is
  | lone quad high alone =>
    simp only [noShort, if_true]
    rw [bind_ok (run_readHex_quad quad left)]
    simp only [pairSurrogate, high, if_true]
    have look := run_atUnicodeEscape text (x.forward s.length)
    rw [rest_forward left, decide_eq_false alone] at look
    simp only [run_bind, Scan.bind, look]
    rfl
  -- the lookahead succeeds and reads the second quad
  | @pair s s' cp lo _ quad high quad' =>
    rw [List.append_assoc] at left
    have here := rest_forward left
    have after : rest text ((x.forward s.length).forward 2) = s' ++ post :=
      rest_forward (s := [0x5C, 0x75]) here
    have look := run_atUnicodeEscape text (x.forward s.length)
    rw [here, decide_eq_true (by simp)] at look
    have moved : advance 2 text (x.forward s.length) = .ok () ((x.forward s.length).forward 2) := by
      have size := congrArg List.length here
      rw [rest_length] at size
      simp only [List.length_append, List.length_cons] at size
      exact run_advance (by omega)
    simp only [noShort, if_true]
    rw [bind_ok (run_readHex_quad quad left)]
    simp only [pairSurrogate, high, if_true]
    simp only [run_bind, Scan.bind, look, if_true, moved, run_readHex_quad quad' after, run_pure]
    simp only [Cursor.forward_forward, List.length_append, List.length_cons]
    congr 2
    omega

theorem run_decodeStep {text : List UInt8} {cap : Nat} {s bytes r out : List UInt8} {x : Cursor}
    (piece : Piece s bytes r) (left : rest text x = s ++ r)
    (room : out.length + bytes.length ≤ cap) :
    decodeStep cap out text x = .ok (some (out ++ bytes)) (x.forward s.length) := by
  unfold decodeStep
  cases piece with
  | @byte b _ notQuote notBackslash =>
    rw [List.singleton_append] at left
    rw [bind_ok (run_peek_cons left)]
    dsimp only
    rw [if_neg notQuote, if_pos notBackslash, bind_ok (run_emit text x room),
      bind_ok (run_advance_one left)]
    rfl
  | @escape e s bytes _ escape =>
    rw [List.cons_append, List.cons_append] at left
    have left' := rest_forward_one left
    have after := rest_forward_one left'
    rw [bind_ok (run_peek_cons left)]
    simp only [show ¬((0x5C : UInt8) = 0x22) by decide, if_false, ne_eq, not_true_eq_false]
    rw [bind_ok (run_advance_one left), bind_ok (run_peek_cons left')]
    dsimp only
    rw [bind_ok (run_advance_one left'), bind_ok (run_decodeEscape escape after),
      bind_ok (run_emit text _ room), run_pure]
    simp only [Cursor.forward_forward, List.length_cons]
    congr 2
    omega

theorem run_decodeStep_end {text : List UInt8} {cap : Nat} {out post : List UInt8} {x : Cursor}
    (left : rest text x = 0x22 :: post) : decodeStep cap out text x = .ok none x := by
  unfold decodeStep
  rw [bind_ok (run_peek_cons left)]
  rfl

theorem run_decodeLoop {text : List UInt8} {cap : Nat} {body o : List UInt8}
    (decoded : Decoded body o) (post : List UInt8) (fuel : Nat) (out : List UInt8) (x : Cursor)
    (left : rest text x = body ++ 0x22 :: post) (room : out.length + body.length + 1 ≤ cap)
    (enough : body.length < fuel) :
    decodeLoop cap fuel out text x = .ok (out ++ o) (x.forward body.length) := by
  induction fuel generalizing body o out x with
  | zero => omega
  | succ fuel ih =>
    rw [decodeLoop_step]
    rcases decoded.cases_piece with ⟨rfl, rfl⟩ | ⟨s, bytes, r, o', rfl, rfl, piece, later⟩
    · rw [bind_ok (run_decodeStep_end left)]
      simp
    · rw [List.append_assoc] at left
      rw [List.length_append] at room enough
      have short := piece.length_le
      have progress := piece.length_pos
      rw [bind_ok (run_decodeStep (piece.append_quote post) left (by omega))]
      dsimp only
      rw [ih later (out ++ bytes) _ (rest_forward left) (by rw [List.length_append]; omega)
        (by omega), Cursor.forward_forward, List.append_assoc, List.length_append]

theorem run_parseStringRaw {text body out post : List UInt8} {x : Cursor}
    (decoded : Decoded body out) (left : rest text x = 0x22 :: (body ++ 0x22 :: post)) :
    parseStringRaw text x = .ok out (x.forward (body.length + 2)) := by
  have left' := rest_forward_one left
  have stop := rest_forward left'
  have size := congrArg List.length left'
  rw [rest_length] at size
  simp only [List.length_append, List.length_cons] at size
  obtain ⟨j, run, found⟩ := run_scanQuote text (text.length - (x.forward 1).pos) (x.forward 1).pos
    (x.forward 1) (Nat.le_refl _)
  -- the sizing scan finds the quote behind the body
  have quote := decoded.relaxed.closeQuote post
  rw [← left', rest] at quote
  rw [quote] at found
  rcases found with ⟨k, hk, rfl⟩ | ⟨none, -⟩
  swap
  · cases none
  cases hk
  have fits := decoded.length_le
  unfold parseStringRaw
  rw [bind_ok (run_peek_cons left)]
  simp only [if_true]
  rw [bind_ok (run_advance_one left)]
  unfold parseStringBody
  rw [bind_ok (run_cursor text _), bind_ok (run_limit text _), bind_ok run,
    bind_ok (run_limit text _), if_neg (by omega),
    bind_ok (run_decodeLoop decoded post _ [] _ left' (by simp only [List.length_nil]; omega)
      (by omega)),
    bind_ok (run_peek_cons stop)]
  dsimp only
  rw [bind_ok (run_advance_one stop),
    bind_ok (run_emit text _ (by simp only [List.nil_append, List.length_singleton]; omega))]
  simp only [List.nil_append, run_pure, Cursor.forward_forward]
  congr 2
  omega

end InstagramNt40.Json
