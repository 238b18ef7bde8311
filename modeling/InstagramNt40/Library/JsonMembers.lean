import InstagramNt40.Library.JsonTokens

/-!
# Members of a serialised object

What the text of an object says about its members, read from left to right: where a string
ends, how long its content is, and which member a text begins with.
-/
namespace Rfc8259

open Ascii

/-! ### Spelled strings -/

instance : DecidablePred Unescaped := fun c => by unfold Unescaped; infer_instance

theorem Hex4.hex {s : List UInt8} {n : Nat} (h : Hex4 s n) :
    ∃ a b c d, s = [a, b, c, d] ∧ IsHex a ∧ IsHex b ∧ IsHex c ∧ IsHex d := by
  obtain ⟨a, b, c, d, x, y, z, w, rfl, ha, hb, hc, hd, -⟩ := h
  exact ⟨a, b, c, d, rfl, ⟨x, ha⟩, ⟨y, hb⟩, ⟨z, hc⟩, ⟨w, hd⟩⟩

theorem shortEscapes_spec : ∀ p ∈ shortEscapes, IsShortEscape p.1 ∧ p.2 < 0x80 := by
  unfold IsShortEscape
  decide

theorem Spells.relaxed {s : List UInt8} {cs : List Char} (h : Spells s cs) : RelaxedBody s := by
  induction h with
  | nil => exact .nil
  | raw hc _ ih => exact .bytes_append hc.bytes ih
  | short member _ ih => exact .short (shortEscapes_spec _ member).1 ih
  | unicode digits _ ih =>
    obtain ⟨a, b, c, d, rfl, ha, hb, hc, hd⟩ := digits.hex
    exact .unicode ha hb hc hd ih
  | pair _ high low _ ih =>
    obtain ⟨a, b, c, d, rfl, ha, hb, hc, hd⟩ := high.hex
    obtain ⟨a', b', c', d', rfl, ha', hb', hc', hd'⟩ := low.hex
    exact .unicode ha hb hc hd (.unicode ha' hb' hc' hd' ih)

theorem utf8_cons (c : Char) (cs : List Char) :
    utf8 (c :: cs) = String.utf8EncodeChar c ++ utf8 cs := List.flatMap_cons

theorem utf8_append (s r : List Char) : utf8 (s ++ r) = utf8 s ++ utf8 r := List.flatMap_append

theorem mem_utf8 {c : Char} {b : UInt8} {s : List Char} (member : c ∈ s)
    (byte : b ∈ String.utf8EncodeChar c) : b ∈ utf8 s :=
  List.mem_flatMap.mpr ⟨c, member, byte⟩

/-- Characters from the space on have no control bytes. -/
theorem le_of_mem_utf8 {cs : List Char} (printable : ∀ c ∈ cs, 0x20 ≤ c.toNat) :
    ∀ b ∈ utf8 cs, 0x20 ≤ b.toNat := by
  intro b member
  obtain ⟨c, inside, byte⟩ := List.mem_flatMap.mp member
  have large := printable c inside
  rcases utf8EncodeChar_bytes c with ⟨small, eq⟩ | high
  · rw [eq, List.mem_singleton] at byte
    rw [byte, UInt8.toNat_ofNat', Nat.mod_eq_of_lt (by omega)]
    exact large
  · exact (high b byte).trans' (by decide)

theorem utf8EncodeChar_length_le (c : Char) : (String.utf8EncodeChar c).length ≤ 4 := by
  rw [String.length_utf8EncodeChar]
  exact Char.utf8Size_le_four c

theorem utf8_injective {cs ds : List Char} (same : utf8 cs = utf8 ds) : cs = ds := by
  have bytes : cs.utf8Encode = ds.utf8Encode := congrArg List.toByteArray same
  apply String.ofList_injective
  rw [← String.toByteArray_inj, String.toByteArray_ofList, String.toByteArray_ofList, bytes]

/-- A string without escapes is its content, and one with escapes is longer. -/
theorem Spells.raw_or_shorter {s : List UInt8} {cs : List Char} (h : Spells s cs) :
    (0x5C ∉ s ∧ utf8 cs = s) ∨ (0x5C ∈ s ∧ (utf8 cs).length < s.length) := by
  have le {s : List UInt8} {cs : List Char}
      (ih : (0x5C ∉ s ∧ utf8 cs = s) ∨ (0x5C ∈ s ∧ (utf8 cs).length < s.length)) :
      (utf8 cs).length ≤ s.length := by
    rcases ih with ⟨-, same⟩ | ⟨-, less⟩
    · rw [same]
    · exact le_of_lt less
  induction h with
  | nil => exact Or.inl ⟨List.not_mem_nil, rfl⟩
  | raw hc _ ih =>
    rw [utf8_cons]
    rcases ih with ⟨plain, same⟩ | ⟨escape, less⟩
    · left
      rw [same, List.mem_append, not_or]
      exact ⟨⟨fun member => (hc.bytes _ member).2 rfl, plain⟩, rfl⟩
    · refine Or.inr ⟨List.mem_append_right _ escape, ?_⟩
      rw [List.length_append, List.length_append]
      omega
  | @short e c r cs member _ ih =>
    refine Or.inr ⟨List.mem_cons_self, ?_⟩
    have one : (String.utf8EncodeChar c).length = 1 := by
      have small := (shortEscapes_spec _ member).2
      rw [String.length_utf8EncodeChar, Char.utf8Size_eq_one_iff, UInt32.le_iff_toNat_le]
      exact Nat.le_of_lt_succ small
    have rest := le ih
    rw [utf8_cons, List.length_append, List.length_cons, List.length_cons]
    omega
  | @unicode ds c r cs digits _ ih =>
    refine Or.inr ⟨List.mem_cons_self, ?_⟩
    obtain ⟨a, b, c', d, rfl, -⟩ := digits.hex
    have short := utf8EncodeChar_length_le c
    have rest := le ih
    rw [utf8_cons, List.length_append]
    simp only [List.length_cons, List.length_append, List.length_nil]
    omega
  | @pair hi lo c r cs _ high low _ ih =>
    refine Or.inr ⟨List.mem_cons_self, ?_⟩
    obtain ⟨a, b, c', d, rfl, -⟩ := high.hex
    obtain ⟨a', b', c'', d', rfl, -⟩ := low.hex
    have short := utf8EncodeChar_length_le c
    have rest := le ih
    rw [utf8_cons, List.length_append]
    simp only [List.length_cons, List.length_append, List.length_nil]
    omega

theorem Spells.length_le {s : List UInt8} {cs : List Char} (h : Spells s cs) :
    (utf8 cs).length ≤ s.length := by
  rcases h.raw_or_shorter with ⟨-, same⟩ | ⟨-, less⟩
  · rw [same]
  · exact le_of_lt less

theorem Spells.eq_utf8 {s : List UInt8} {cs : List Char} (h : Spells s cs) (plain : 0x5C ∉ s) :
    utf8 cs = s := by
  rcases h.raw_or_shorter with ⟨-, same⟩ | ⟨escape, -⟩
  · exact same
  · exact absurd escape plain

/-- Characters that need no escape spell themselves. -/
theorem spells_utf8 {cs : List Char} (plain : ∀ c ∈ cs, Unescaped c) : Spells (utf8 cs) cs := by
  induction cs with
  | nil => exact .nil
  | cons c cs ih =>
    rw [List.forall_mem_cons] at plain
    rw [utf8_cons]
    exact .raw plain.1 (ih plain.2)

/-- Without a backslash there is no quote. -/
theorem RelaxedBody.no_quote {s : List UInt8} (h : RelaxedBody s) (plain : 0x5C ∉ s) :
    0x22 ∉ s := by
  induction h with
  | nil => exact List.not_mem_nil
  | byte notQuote _ _ ih =>
    rw [List.mem_cons, not_or] at plain ⊢
    exact ⟨Ne.symm notQuote, ih plain.2⟩
  | short | unicode => exact absurd List.mem_cons_self plain

/-- No escape ends in a comma. -/
theorem Spells.comma {s : List UInt8} {cs : List Char} (h : Spells s cs)
    (last : s.getLast? = some 0x2C) : (utf8 cs).getLast? = some 0x2C := by
  have step {front front' r : List UInt8} {cs : List Char} (rest : Spells r cs)
      (ih : r.getLast? = some 0x2C → (utf8 cs).getLast? = some 0x2C)
      (here : front.getLast? = some 0x2C → front'.getLast? = some 0x2C)
      (last : (front ++ r).getLast? = some 0x2C) :
      (front' ++ utf8 cs).getLast? = some 0x2C := by
    rw [List.getLast?_append] at last ⊢
    cases end_ : r.getLast? with
    | some b =>
      rw [end_] at last
      rw [ih (end_.trans last)]
      rfl
    | none =>
      rw [end_] at last
      -- nothing spells nothing
      have empty : utf8 cs = [] := by
        rw [List.getLast?_eq_none_iff] at end_
        subst end_
        exact List.eq_nil_of_length_eq_zero (Nat.le_zero.mp rest.length_le)
      rw [empty]
      exact here last
  have noDigit {b : UInt8} (hex : IsHex b) : b ≠ 0x2C := by
    rintro rfl
    obtain ⟨n, value⟩ := hex
    cases value
  induction h with
  | nil => cases last
  | @raw c r cs _ rest ih =>
    rw [utf8_cons]
    exact step rest ih id last
  | @short e c r cs member rest ih =>
    rw [utf8_cons]
    refine @step [0x5C, e] _ _ _ rest ih (fun comma => ?_) last
    have same : e = 0x2C := Option.some.inj comma
    rw [same] at member
    simp [shortEscapes] at member
  | @unicode ds c r cs digits rest ih =>
    rw [utf8_cons]
    obtain ⟨x, y, z, w, rfl, -, -, -, hex⟩ := digits.hex
    exact @step [0x5C, 0x75, x, y, z, w] _ _ _ rest ih
      (fun comma => absurd (Option.some.inj comma) (noDigit hex)) last
  | @pair hi lo c r cs _ high low rest ih =>
    rw [utf8_cons]
    obtain ⟨x, y, z, w, rfl, -⟩ := high.hex
    obtain ⟨x', y', z', w', rfl, -, -, -, hex⟩ := low.hex
    exact @step [0x5C, 0x75, x, y, z, w, 0x5C, 0x75, x', y', z', w'] _ _ _ rest ih
      (fun comma => absurd (Option.some.inj comma) (noDigit hex)) last

/-! ### Where a string ends -/

/-- In front of a quote a string ends, unless a backslash is before it. -/
theorem closeQuote_le {s post : List UInt8} {k : Nat}
    (found : closeQuote (s ++ 0x22 :: post) = some k) :
    k ≤ s.length ∨ ∃ j, closeQuote post = some j ∧ k = s.length + 1 + j ∧
      s.getLast? = some 0x5C := by
  fun_induction closeQuote s generalizing k with
  | case1 =>
    rw [List.nil_append, closeQuote_quote] at found
    cases found
    exact Or.inl (le_refl 0)
  | case2 =>
    rw [List.singleton_append, closeQuote_quote] at found
    cases found
    exact Or.inl (Nat.zero_le _)
  | case3 b plain =>
    rw [List.singleton_append] at found
    by_cases escape : b = 0x5C
    · subst escape
      rw [closeQuote_escape] at found
      obtain ⟨j, rest, rfl⟩ := Option.map_eq_some_iff.mp found
      exact Or.inr ⟨j, rest, by rw [List.length_singleton]; omega, rfl⟩
    · rw [closeQuote_byte plain escape, closeQuote_quote] at found
      cases found
      exact Or.inl (le_refl 1)
  | case4 =>
    rw [List.cons_append, closeQuote_quote] at found
    cases found
    exact Or.inl (Nat.zero_le _)
  -- a backslash and the byte after it
  | case5 e r _ ih =>
    rw [List.cons_append, List.cons_append, closeQuote_escape] at found
    obtain ⟨j, rest, rfl⟩ := Option.map_eq_some_iff.mp found
    rw [List.length_cons, List.length_cons]
    rcases ih rest with inside | ⟨i, later, rfl, last⟩
    · exact Or.inl (by omega)
    · refine Or.inr ⟨i, later, by omega, ?_⟩
      rw [List.getLast?_cons, List.getLast?_cons, last]
      rfl
  -- a plain byte
  | case6 b e r plain escape ih =>
    rw [List.cons_append, closeQuote_byte plain escape] at found
    obtain ⟨j, rest, rfl⟩ := Option.map_eq_some_iff.mp found
    rw [List.length_cons]
    rcases ih rest with inside | ⟨i, later, rfl, last⟩
    · exact Or.inl (by omega)
    · refine Or.inr ⟨i, later, by omega, ?_⟩
      rw [List.getLast?_cons, last]
      rfl

/-! ### Values -/

section Read

variable {s post rest : List UInt8}

/-- White space ends where another byte is. -/
theorem Ws.eq_nil {w : List UInt8} {b : UInt8} (hw : Ws w) (notWs : ¬IsWs b) {r r' : List UInt8}
    (same : w ++ r = b :: r') : w = [] := by
  cases w with
  | nil => rfl
  | cons c w =>
    have first : c = b := (List.cons.inj same).1
    exact absurd (hw c List.mem_cons_self) (first ▸ notWs)

/-- Two strings that close at the same quote are the same. -/
theorem closed_unique {k k' r r' : List UInt8}
    (closed : closeQuote (k ++ 0x22 :: r) = some k.length)
    (closed' : closeQuote (k' ++ 0x22 :: r') = some k'.length)
    (same : k ++ 0x22 :: r = k' ++ 0x22 :: r') : k = k' ∧ r = r' := by
  rw [same, closed'] at closed
  obtain ⟨key, tail⟩ := List.append_inj same (Option.some.inj closed).symm
  exact ⟨key, (List.cons.inj tail).2⟩

theorem member_key {m : List Char × JsonTree (List Char)} (d : Derives .serial s (.member m))
    {k : List UInt8} (closed : ∀ r, closeQuote (k ++ 0x22 :: r) = some k.length)
    (same : s ++ post = 0x22 :: (k ++ 0x22 :: 0x3A :: rest)) :
    ∃ v, Spells k m.1 ∧ Derives .serial v (.padded m.2) ∧ v ++ post = rest := by
  cases d with
  | @member w k' c w' v t hw hk hw' value =>
    have none : w = [] := hw.eq_nil (by decide) ((List.append_assoc _ _ _).symm.trans same)
    subst none
    rw [List.nil_append, List.cons_append, List.append_assoc, List.cons_append] at same
    -- a key ends at the first quote that is not escaped
    obtain ⟨rfl, tail⟩ := closed_unique (hk.relaxed.closeQuote _) (closed _) (List.cons.inj same).2
    have none : w' = [] := hw'.eq_nil (by decide) ((List.append_assoc _ _ _).symm.trans tail)
    subst none
    exact ⟨v, hk, value, (List.cons.inj tail).2⟩

theorem padded_string {t : JsonTree (List Char)} (d : Derives .serial s (.padded t))
    (same : s ++ post = 0x22 :: rest) :
    ∃ cs s' w, Spells s' cs ∧ t = .str cs ∧ Ws w ∧ rest = s' ++ 0x22 :: (w ++ post) := by
  cases d with
  | @padded w v w' t hw value hw' =>
    have none : w = [] := hw.eq_nil (by decide) ((List.append_assoc _ _ _).symm.trans same)
    subst none
    rw [List.nil_append, List.append_assoc] at same
    cases value with
    | string h =>
      rw [List.cons_append, List.append_assoc] at same
      exact ⟨_, _, w', h, rfl, hw', (List.cons.inj same).2.symm⟩
    | number h =>
      obtain ⟨b, r, rfl, first, -⟩ := lexical_exact.number_bytes _ h
      rw [(List.cons.inj same).1] at first
      exact absurd first (by decide)
    | null | true | false | emptyArray | array | emptyObject | object =>
      exact absurd (List.cons.inj same).1 (by decide)

theorem Number.bytes {s : List UInt8} (number : Number s) : ∀ b ∈ s, IsNumberByte b :=
  number.relaxed.numberBytes

theorem padded_number {t : JsonTree (List Char)} (d : Derives .serial s (.padded t))
    (stops : Stops post) {num : List UInt8} (number : Number num) (ends : Stops rest)
    (same : s ++ post = num ++ rest) : ∃ w, t = .num num ∧ Ws w ∧ rest = w ++ post := by
  obtain ⟨b, r, eq, first, -⟩ := lexical_exact.number_bytes _ number
  have special : ¬IsWs b ∧ b ≠ 0x22 ∧ b ≠ 0x5B ∧ b ≠ 0x7B ∧ b ≠ 0x6E ∧ b ≠ 0x74 ∧ b ≠ 0x66 := by
    refine ⟨?_, ?_, ?_, ?_, ?_, ?_, ?_⟩
    · rintro (rfl | rfl | rfl | rfl) <;> exact absurd first (by decide)
    all_goals
      rintro rfl
      exact absurd first (by decide)
  obtain ⟨notWs, notQuote, notArray, notObject, notNull, notTrue, notFalse⟩ := special
  have head : s ++ post = b :: (r ++ rest) := by rw [same, eq]; rfl
  cases d with
  | @padded w v w' t hw value hw' =>
    have none : w = [] := hw.eq_nil notWs ((List.append_assoc _ _ _).symm.trans head)
    subst none
    rw [List.nil_append, List.append_assoc] at same head
    cases value with
    | number h =>
      -- both numbers take all number bytes
      have mine := Stops.takeWhile (Number.bytes h) (stops.ws_append hw')
      have other := Stops.takeWhile (Number.bytes number) ends
      rw [same] at mine
      exact ⟨w', congrArg JsonTree.num (mine.1.symm.trans other.1), hw',
        other.2.symm.trans mine.2⟩
    | string | emptyArray | array | emptyObject | object =>
      exact absurd (List.cons.inj head).1.symm (by assumption)
    | null | true | false => exact absurd (List.cons.inj head).1.symm (by assumption)

/-- An object that has members, from its first byte on. -/
theorem padded_object {ms : List (List Char × JsonTree (List Char))}
    (d : Derives .serial (0x7B :: rest) (.padded (.obj ms))) (some : ms ≠ []) :
    ∃ s w, Derives .serial s (.members ms) ∧ Ws w ∧ s ++ 0x7D :: w = rest := by
  generalize whole : 0x7B :: rest = text at d
  cases d with
  | @padded w v w' t hw value hw' =>
    have none : w = [] := hw.eq_nil (by decide) whole.symm
    subst none
    cases value with
    | emptyObject => exact absurd rfl some
    | @object s _ members =>
      rw [List.nil_append, List.cons_append, List.append_assoc] at whole
      exact ⟨s, w', members, hw', (List.cons.inj whole).2.symm⟩

theorem string_member {k s : List UInt8} {c cs : List Char} (key : Spells k c)
    (spelled : Spells s cs) : Derives .serial
      (0x22 :: (k ++ 0x22 :: 0x3A :: 0x22 :: (s ++ [0x22]))) (.member (c, .str cs)) := by
  have none : Ws [] := fun b member => absurd member List.not_mem_nil
  have value : Derives .serial (0x22 :: (s ++ [0x22])) (.padded (.str cs)) := by
    simpa using Derives.padded none (.string spelled) none
  exact .member none key none value

theorem number_member {k num : List UInt8} {c : List Char} (key : Spells k c)
    (number : Number num) :
    Derives .serial (0x22 :: (k ++ 0x22 :: 0x3A :: num)) (.member (c, .num num)) := by
  have none : Ws [] := fun b member => absurd member List.not_mem_nil
  have value : Derives .serial num (.padded (.num num)) := by
    simpa using @Derives.padded _ Tokens.serial _ _ _ _ none (.number number) none
  exact .member none key none value

/-! ### Members from left to right -/

/-- What follows the first member, in front of `post`: nothing, or a comma and the others. -/
inductive After (post : List UInt8) : List UInt8 → List (List Char × JsonTree (List Char)) → Prop
  | last : After post post []
  | next {r ms} : Derives .serial r (.members ms) → After post (0x2C :: (r ++ post)) ms

theorem After.stops {p : List UInt8} {ms : List (List Char × JsonTree (List Char))}
    (after : After post p ms) (stops : Stops post) : Stops p := by
  cases after with
  | last => exact stops
  | next => exact .cons (by decide) _

/-- Behind the first member is a comma, or what is behind all. -/
theorem After.head {w p : List UInt8} {ms : List (List Char × JsonTree (List Char))}
    (after : After post p ms) (hw : Ws w) {b : UInt8} (notWs : ¬IsWs b)
    (same : b :: rest = w ++ p) :
    (b = 0x2C ∧ ∃ r, rest = r ++ post ∧ Derives .serial r (.members ms)) ∨ b ∈ post.head? := by
  have none : w = [] := hw.eq_nil notWs same.symm
  subst none
  cases after with
  | last =>
    rw [List.nil_append] at same
    rw [← same]
    exact Or.inr rfl
  | @next r ms others =>
    exact Or.inl ⟨(List.cons.inj same).1, r, (List.cons.inj same).2, others⟩

variable {ms : List (List Char × JsonTree (List Char))}

theorem members_first (d : Derives .serial s (.members ms)) (post : List UInt8) :
    ∃ m ms' s' p, ms = m :: ms' ∧ Derives .serial s' (.member m) ∧ s ++ post = s' ++ p ∧
      After post p ms' := by
  cases d with
  | lastMember h => exact ⟨_, [], s, post, rfl, h, rfl, .last⟩
  | @nextMember s' r m ms' h others =>
    exact ⟨m, ms', s', _, rfl, h, by rw [List.append_assoc]; rfl, .next others⟩

variable (d : Derives .serial s (.members ms)) {k : List UInt8}
  (closed : ∀ r, closeQuote (k ++ 0x22 :: r) = some k.length)

include d closed

/-- The first member of a text that begins with a key and a quote. -/
theorem members_string (same : s ++ post = 0x22 :: (k ++ 0x22 :: 0x3A :: 0x22 :: rest)) :
    ∃ c cs s' w p ms', Spells k c ∧ Spells s' cs ∧ ms = (c, .str cs) :: ms' ∧ Ws w ∧
      rest = s' ++ 0x22 :: (w ++ p) ∧ After post p ms' := by
  obtain ⟨⟨c, t⟩, ms', s₁, p, rfl, member, split, after⟩ := members_first d post
  obtain ⟨v, key, value, tail⟩ := member_key member closed (split.symm.trans same)
  obtain ⟨cs, s', w, spelled, rfl, hw, eq⟩ := padded_string value tail
  exact ⟨c, cs, s', w, p, ms', key, spelled, rfl, hw, eq, after⟩

/-- The first member of a text that begins with a key and a number. -/
theorem members_number (stops : Stops post) {num : List UInt8} (number : Number num)
    (ends : Stops rest) (same : s ++ post = 0x22 :: (k ++ 0x22 :: 0x3A :: (num ++ rest))) :
    ∃ c w p ms', Spells k c ∧ ms = (c, .num num) :: ms' ∧ Ws w ∧ rest = w ++ p ∧
      After post p ms' := by
  obtain ⟨⟨c, t⟩, ms', s₁, p, rfl, member, split, after⟩ := members_first d post
  obtain ⟨v, key, value, tail⟩ := member_key member closed (split.symm.trans same)
  obtain ⟨w, rfl, hw, eq⟩ := padded_number value (after.stops stops) number ends tail
  exact ⟨c, w, p, ms', key, rfl, hw, eq, after⟩

end Read

end Rfc8259
