import InstagramNt40.Library.Ascii
import Mathlib.Data.List.TakeWhile

/-!
# The grammar of RFC 8259

JSON texts as byte strings, over arbitrary number and string tokens: a `Tokens S`
says which byte strings are numbers and which may stand between quotes for a
content of type `S`. The same rules then describe the RFC's texts, texts with
relaxed tokens, and the ways of writing down a given tree.
-/
namespace Rfc8259

open Ascii

def IsWs (b : UInt8) : Prop := b = 0x20 ∨ b = 0x09 ∨ b = 0x0A ∨ b = 0x0D

/-- The bytes a number token is made of. -/
def IsNumberByte (b : UInt8) : Prop :=
  IsDigit b ∨ b = 0x2D ∨ b = 0x2B ∨ b = 0x2E ∨ b = 0x65 ∨ b = 0x45

instance : DecidablePred IsWs := fun b => by unfold IsWs; infer_instance
instance : DecidablePred IsNumberByte := fun b => by unfold IsNumberByte; infer_instance

def Ws (s : List UInt8) : Prop := ∀ b ∈ s, IsWs b

def Digits (s : List UInt8) : Prop := ∀ b ∈ s, IsDigit b

/-! ### Trees and phrases -/

/-- A JSON value with strings of type `S`; numbers are kept as their text. -/
inductive JsonTree (S : Type) where
  | null
  | bool (b : Bool)
  | num (text : List UInt8)
  | str (content : S)
  | arr (items : List (JsonTree S))
  | obj (members : List (S × JsonTree S))

variable {S S' : Type}

mutual

/-- How deep arrays and objects are nested; a scalar has nesting 0. -/
def JsonTree.nesting : JsonTree S → Nat
  | .null => 0
  | .bool _ => 0
  | .num _ => 0
  | .str _ => 0
  | .arr items => nestingItems items + 1
  | .obj members => nestingMembers members + 1

def nestingItems : List (JsonTree S) → Nat
  | [] => 0
  | t :: ts => max t.nesting (nestingItems ts)

def nestingMembers : List (S × JsonTree S) → Nat
  | [] => 0
  | (_, t) :: ms => max t.nesting (nestingMembers ms)

end

mutual

def JsonTree.map (f : S → S') : JsonTree S → JsonTree S'
  | .null => .null
  | .bool b => .bool b
  | .num s => .num s
  | .str c => .str (f c)
  | .arr items => .arr (mapItems f items)
  | .obj members => .obj (mapMembers f members)

def mapItems (f : S → S') : List (JsonTree S) → List (JsonTree S')
  | [] => []
  | t :: ts => t.map f :: mapItems f ts

def mapMembers (f : S → S') : List (S × JsonTree S) → List (S' × JsonTree S')
  | [] => []
  | (c, t) :: ms => (f c, t.map f) :: mapMembers f ms

end

/-- What a stretch of JSON text can stand for. -/
inductive Phrase (S : Type) where
  | value (t : JsonTree S)
  | padded (t : JsonTree S)
  | elements (ts : List (JsonTree S))
  | member (m : S × JsonTree S)
  | members (ms : List (S × JsonTree S))

def Phrase.nesting : Phrase S → Nat
  | .value t => t.nesting
  | .padded t => t.nesting
  | .elements ts => nestingItems ts
  | .member m => m.2.nesting
  | .members ms => nestingMembers ms

def Phrase.map (f : S → S') : Phrase S → Phrase S'
  | .value t => .value (t.map f)
  | .padded t => .padded (t.map f)
  | .elements ts => .elements (mapItems f ts)
  | .member m => .member (f m.1, m.2.map f)
  | .members ms => .members (mapMembers f ms)

/-! ### The grammar -/

structure Tokens (S : Type) where
  number : List UInt8 → Prop
  /-- what may stand between the quotes of a string, and the content it denotes -/
  body : List UInt8 → S → Prop

def litTrue : List UInt8 := [0x74, 0x72, 0x75, 0x65]

def litFalse : List UInt8 := [0x66, 0x61, 0x6C, 0x73, 0x65]

def litNull : List UInt8 := [0x6E, 0x75, 0x6C, 0x6C]

/-- `Derives T s p`: the bytes `s` are the phrase `p`. A JSON text is a padded value. -/
inductive Derives (T : Tokens S) : List UInt8 → Phrase S → Prop
  | null : Derives T litNull (.value .null)
  | true : Derives T litTrue (.value (.bool true))
  | false : Derives T litFalse (.value (.bool false))
  | number {s} : T.number s → Derives T s (.value (.num s))
  | string {s c} : T.body s c → Derives T (0x22 :: (s ++ [0x22])) (.value (.str c))
  | emptyArray {w} : Ws w → Derives T (0x5B :: (w ++ [0x5D])) (.value (.arr []))
  | array {s ts} : Derives T s (.elements ts) →
      Derives T (0x5B :: (s ++ [0x5D])) (.value (.arr ts))
  | emptyObject {w} : Ws w → Derives T (0x7B :: (w ++ [0x7D])) (.value (.obj []))
  | object {s ms} : Derives T s (.members ms) →
      Derives T (0x7B :: (s ++ [0x7D])) (.value (.obj ms))
  | padded {w s w' t} : Ws w → Derives T s (.value t) → Ws w' →
      Derives T (w ++ (s ++ w')) (.padded t)
  | lastElement {s t} : Derives T s (.padded t) → Derives T s (.elements [t])
  | element {s r t ts} : Derives T s (.padded t) → Derives T r (.elements ts) →
      Derives T (s ++ 0x2C :: r) (.elements (t :: ts))
  | member {w k c w' s t} : Ws w → T.body k c → Ws w' → Derives T s (.padded t) →
      Derives T (w ++ (0x22 :: (k ++ 0x22 :: (w' ++ 0x3A :: s)))) (.member (c, t))
  | lastMember {s m} : Derives T s (.member m) → Derives T s (.members [m])
  | nextMember {s r m ms} : Derives T s (.member m) → Derives T r (.members ms) →
      Derives T (s ++ 0x2C :: r) (.members (m :: ms))

/-! White space in front of a padded phrase belongs to it. -/

theorem Ws.append {w w' : List UInt8} (hw : Ws w) (hw' : Ws w') : Ws (w ++ w') :=
  fun b hb => (List.mem_append.mp hb).elim (hw b) (hw' b)

theorem Derives.padded_ws {T : Tokens S} {w s : List UInt8} {t : JsonTree S} (hw : Ws w)
    (h : Derives T s (.padded t)) : Derives T (w ++ s) (.padded t) := by
  cases h with
  | padded hw' hs hw'' =>
    rw [← List.append_assoc]
    exact .padded (hw.append hw') hs hw''

theorem Derives.elements_ws {T : Tokens S} {w s : List UInt8} {ts : List (JsonTree S)} (hw : Ws w)
    (h : Derives T s (.elements ts)) : Derives T (w ++ s) (.elements ts) := by
  cases h with
  | lastElement hs => exact .lastElement (hs.padded_ws hw)
  | element hs hr =>
    rw [← List.append_assoc]
    exact .element (hs.padded_ws hw) hr

theorem Derives.member_ws {T : Tokens S} {w s : List UInt8} {m : S × JsonTree S} (hw : Ws w)
    (h : Derives T s (.member m)) : Derives T (w ++ s) (.member m) := by
  cases h with
  | member hw' hk hw'' hs =>
    rw [← List.append_assoc]
    exact .member (hw.append hw') hk hw'' hs

theorem Derives.members_ws {T : Tokens S} {w s : List UInt8} {ms : List (S × JsonTree S)}
    (hw : Ws w) (h : Derives T s (.members ms)) : Derives T (w ++ s) (.members ms) := by
  cases h with
  | lastMember hs => exact .lastMember (hs.member_ws hw)
  | nextMember hs hr =>
    rw [← List.append_assoc]
    exact .nextMember (hs.member_ws hw) hr

/-! ### Lexical tokens of a phrase -/

/-- The number and string tokens of a text, as they are spelled. -/
inductive Token where
  | number (s : List UInt8)
  | string (s : List UInt8)

mutual

/-- The tokens of a tree whose strings are kept as spelled, in text order. -/
def JsonTree.tokens : JsonTree (List UInt8) → List Token
  | .null => []
  | .bool _ => []
  | .num s => [.number s]
  | .str s => [.string s]
  | .arr items => tokensItems items
  | .obj members => tokensMembers members

def tokensItems : List (JsonTree (List UInt8)) → List Token
  | [] => []
  | t :: ts => t.tokens ++ tokensItems ts

def tokensMembers : List (List UInt8 × JsonTree (List UInt8)) → List Token
  | [] => []
  | (s, t) :: ms => .string s :: (t.tokens ++ tokensMembers ms)

end

def Phrase.tokens : Phrase (List UInt8) → List Token
  | .value t => t.tokens
  | .padded t => t.tokens
  | .elements ts => tokensItems ts
  | .member m => .string m.1 :: m.2.tokens
  | .members ms => tokensMembers ms

/-- Tokens whose strings stand for their own spelling. -/
def Tokens.spelled (number body : List UInt8 → Prop) : Tokens (List UInt8) where
  number := number
  body s c := c = s ∧ body s

def Token.Meets (number body : List UInt8 → Prop) : Token → Prop
  | .number s => number s
  | .string s => body s

mutual

theorem JsonTree.nesting_map (f : S → S') : ∀ t : JsonTree S, (t.map f).nesting = t.nesting
  | .null | .bool _ | .num _ | .str _ => rfl
  | .arr items => by simp only [JsonTree.map, JsonTree.nesting, mapItems_nesting f items]
  | .obj members => by simp only [JsonTree.map, JsonTree.nesting, mapMembers_nesting f members]

theorem mapItems_nesting (f : S → S') :
    ∀ ts : List (JsonTree S), nestingItems (mapItems f ts) = nestingItems ts
  | [] => rfl
  | t :: ts => by simp only [mapItems, nestingItems, t.nesting_map f, mapItems_nesting f ts]

theorem mapMembers_nesting (f : S → S') :
    ∀ ms : List (S × JsonTree S), nestingMembers (mapMembers f ms) = nestingMembers ms
  | [] => rfl
  | (_, t) :: ms => by
    simp only [mapMembers, nestingMembers, t.nesting_map f, mapMembers_nesting f ms]

end

/-- Translating the tokens translates the derivation. -/
theorem Derives.map {T : Tokens S} {T' : Tokens S'} (f : S → S')
    (number : ∀ s, T.number s → T'.number s) (body : ∀ s c, T.body s c → T'.body s (f c))
    {s : List UInt8} {p : Phrase S} (h : Derives T s p) : Derives T' s (p.map f) := by
  induction h with
  | null => exact .null
  | true => exact .true
  | false => exact .false
  | number h => exact .number (number _ h)
  | string h => exact .string (body _ _ h)
  | emptyArray hw => exact .emptyArray hw
  | array _ ih => exact .array ih
  | emptyObject hw => exact .emptyObject hw
  | object _ ih => exact .object ih
  | padded hw _ hw' ih => exact .padded hw ih hw'
  | lastElement _ ih => exact .lastElement ih
  | element _ _ ih ihr => exact .element ih ihr
  | member hw hk hw' _ ih => exact .member hw (body _ _ hk) hw' ih
  | lastMember _ ih => exact .lastMember ih
  | nextMember _ _ ih ihr => exact .nextMember ih ihr

/-- A derivation whose tokens all meet other conditions is one for those conditions. -/
theorem Derives.restrict {number body number' body' : List UInt8 → Prop} {s : List UInt8}
    {p : Phrase (List UInt8)} (h : Derives (.spelled number body) s p)
    (meets : ∀ k ∈ p.tokens, k.Meets number' body') : Derives (.spelled number' body') s p := by
  induction h with
  | null => exact .null
  | true => exact .true
  | false => exact .false
  | number h => exact .number (meets (.number _) (by simp [Phrase.tokens, JsonTree.tokens]))
  | string h =>
    obtain ⟨rfl, -⟩ := h
    exact .string ⟨rfl, meets (.string _) (by simp [Phrase.tokens, JsonTree.tokens])⟩
  | emptyArray hw => exact .emptyArray hw
  | array _ ih => exact .array (ih meets)
  | emptyObject hw => exact .emptyObject hw
  | object _ ih => exact .object (ih meets)
  | padded hw _ hw' ih => exact .padded hw (ih meets) hw'
  | lastElement _ ih =>
    exact .lastElement (ih fun k hk => meets k (by simpa [Phrase.tokens, tokensItems] using hk))
  | element _ _ ih ihr =>
    simp only [Phrase.tokens, tokensItems, List.mem_append] at meets ih ihr
    exact .element (ih fun k hk => meets k (Or.inl hk)) (ihr fun k hk => meets k (Or.inr hk))
  -- the key is a token too, the first of its member
  | member hw hk hw' _ ih =>
    obtain ⟨rfl, -⟩ := hk
    simp only [Phrase.tokens, List.mem_cons, forall_eq_or_imp] at meets ih
    exact .member hw ⟨rfl, meets.1⟩ hw' (ih meets.2)
  | @lastMember s m _ ih =>
    obtain ⟨c, t⟩ := m
    exact .lastMember (ih fun k hk => meets k (by simpa [Phrase.tokens, tokensMembers] using hk))
  | @nextMember s r m ms _ _ ih ihr =>
    obtain ⟨c, t⟩ := m
    simp only [Phrase.tokens, tokensMembers, List.mem_cons, List.mem_append, forall_eq_or_imp]
      at meets ih ihr
    exact .nextMember (ih ⟨meets.1, fun k hk => meets.2 k (Or.inl hk)⟩)
      (ihr fun k hk => meets.2 k (Or.inr hk))

/-- Conversely the tokens of a derivation meet its conditions. -/
theorem Derives.meets {number body : List UInt8 → Prop} {s : List UInt8}
    {p : Phrase (List UInt8)} (h : Derives (.spelled number body) s p) :
    ∀ k ∈ p.tokens, k.Meets number body := by
  induction h with
  | null | true | false | emptyArray | emptyObject =>
    simp [Phrase.tokens, JsonTree.tokens, tokensItems, tokensMembers]
  | number h =>
    intro k hk
    rw [List.mem_singleton.mp hk]
    exact h
  | string h =>
    obtain ⟨rfl, h⟩ := h
    intro k hk
    rw [List.mem_singleton.mp hk]
    exact h
  | array _ ih => exact ih
  | object _ ih => exact ih
  | padded _ _ _ ih => exact ih
  | lastElement _ ih => simpa [Phrase.tokens, tokensItems] using ih
  | element _ _ ih ihr =>
    simp only [Phrase.tokens, tokensItems, List.mem_append] at ih ihr ⊢
    rintro k (hk | hk)
    · exact ih k hk
    · exact ihr k hk
  | member _ hk _ _ ih =>
    obtain ⟨rfl, hk⟩ := hk
    simp only [Phrase.tokens, List.mem_cons, forall_eq_or_imp] at ih ⊢
    exact ⟨hk, ih⟩
  | @lastMember s m _ ih =>
    obtain ⟨c, t⟩ := m
    simpa [Phrase.tokens, tokensMembers] using ih
  | @nextMember s r m ms _ _ ih ihr =>
    obtain ⟨c, t⟩ := m
    simp only [Phrase.tokens, tokensMembers, List.mem_cons, List.mem_append,
      forall_eq_or_imp] at ih ihr ⊢
    refine ⟨ih.1, ?_⟩
    rintro k (hk | hk)
    · exact ih.2 k hk
    · exact ihr k hk

/-! ### Lexing -/

/-- The distance to the quote that closes a string, where a backslash skips the
byte after it. -/
def closeQuote : List UInt8 → Option Nat
  | [] => none
  | [b] => if b = 0x22 then some 0 else none
  | b :: e :: r =>
    if b = 0x22 then some 0
    else if b = 0x5C then (closeQuote r).map (· + 2)
    else (closeQuote (e :: r)).map (· + 1)

theorem closeQuote_quote (r : List UInt8) : closeQuote (0x22 :: r) = some 0 := by
  cases r <;> simp [closeQuote]

theorem closeQuote_escape (e : UInt8) (r : List UInt8) :
    closeQuote (0x5C :: e :: r) = (closeQuote r).map (· + 2) := by
  simp [closeQuote]

theorem closeQuote_byte {b : UInt8} (hq : b ≠ 0x22) (hb : b ≠ 0x5C) (r : List UInt8) :
    closeQuote (b :: r) = (closeQuote r).map (· + 1) := by
  cases r <;> simp [closeQuote, hq, hb]

theorem closeQuote_lt {s : List UInt8} {k : Nat} (h : closeQuote s = some k) :
    k < s.length := by
  fun_induction closeQuote s generalizing k with
  | case1 => cases h
  | case2 => simp_all
  | case3 => simp_all
  | case4 =>
    cases h
    simp
  -- a backslash and the byte after it
  | case5 =>
    rename_i ih
    obtain ⟨j, hj, rfl⟩ := Option.map_eq_some_iff.mp h
    have := ih hj
    simp only [List.length_cons]
    omega
  -- a plain byte
  | case6 =>
    rename_i ih
    obtain ⟨j, hj, rfl⟩ := Option.map_eq_some_iff.mp h
    have := ih hj
    simp only [List.length_cons] at this ⊢
    omega

/-- The tokens of a text, found from left to right. -/
def lex : List UInt8 → List Token
  | [] => []
  | b :: r =>
    if b = 0x22 then
      match closeQuote r with
      | some k => .string (r.take k) :: lex (r.drop (k + 1))
      | none => []
    else if b = 0x2D ∨ IsDigit b then
      .number (b :: r.takeWhile (fun c => decide (IsNumberByte c))) ::
        lex (r.dropWhile (fun c => decide (IsNumberByte c)))
    else lex r
termination_by s => s.length
decreasing_by
  · simp only [List.length_drop, List.length_cons]; omega
  · exact Nat.lt_succ_of_le (List.dropWhile_suffix _).length_le
  · simp

/-- What follows does not go on with a byte of a number. -/
def Stops (post : List UInt8) : Prop := ∀ b ∈ post.head?, ¬IsNumberByte b

theorem Stops.nil : Stops [] := by simp [Stops]

theorem Stops.cons {b : UInt8} (h : ¬IsNumberByte b) (post : List UInt8) : Stops (b :: post) := by
  simpa [Stops] using h

theorem IsWs.not_numberByte {b : UInt8} (h : IsWs b) : ¬IsNumberByte b := by
  rcases h with rfl | rfl | rfl | rfl <;> decide

theorem Stops.ws_append {w post : List UInt8} (hw : Ws w) (h : Stops post) :
    Stops (w ++ post) := by
  cases w with
  | nil => exact h
  | cons b w => exact .cons (hw b (by simp)).not_numberByte _

/-- The bytes of a number are found by reading on while there are number bytes. -/
theorem Stops.takeWhile {r post : List UInt8} (hr : ∀ c ∈ r, IsNumberByte c) (h : Stops post) :
    (r ++ post).takeWhile (fun c => decide (IsNumberByte c)) = r ∧
      (r ++ post).dropWhile (fun c => decide (IsNumberByte c)) = post := by
  have all : ∀ c ∈ r, decide (IsNumberByte c) = true := fun c hc => decide_eq_true (hr c hc)
  rw [List.takeWhile_append_of_pos all, List.dropWhile_append_of_pos all]
  cases post with
  | nil => simp
  | cons b post =>
    have stop : ¬IsNumberByte b := h b (by simp)
    simp [stop]

theorem lex_nil : lex [] = [] := by rw [lex]

theorem lex_skip {b : UInt8} (hq : b ≠ 0x22) (hn : ¬(b = 0x2D ∨ IsDigit b)) (r : List UInt8) :
    lex (b :: r) = lex r := by
  rw [lex, if_neg hq, if_neg hn]

theorem lex_ws {w : List UInt8} (hw : Ws w) (post : List UInt8) : lex (w ++ post) = lex post := by
  induction w with
  | nil => rfl
  | cons b w ih =>
    have special : b ≠ 0x22 ∧ ¬(b = 0x2D ∨ IsDigit b) := by
      rcases hw b (by simp) with rfl | rfl | rfl | rfl <;> decide
    rw [List.cons_append, lex_skip special.1 special.2]
    exact ih fun c hc => hw c (by simp [hc])

theorem lex_string {s : List UInt8} {post : List UInt8}
    (h : closeQuote (s ++ 0x22 :: post) = some s.length) :
    lex (0x22 :: (s ++ 0x22 :: post)) = .string s :: lex post := by
  rw [lex, if_pos rfl, h]
  simp

theorem lex_number {b : UInt8} {r post : List UInt8} (hb : b = 0x2D ∨ IsDigit b)
    (hr : ∀ c ∈ r, IsNumberByte c) (h : Stops post) :
    lex (b :: (r ++ post)) = .number (b :: r) :: lex post := by
  have notQuote : b ≠ 0x22 := by
    rintro rfl
    revert hb
    decide
  obtain ⟨taken, dropped⟩ := h.takeWhile hr
  rw [lex, if_neg notQuote, if_pos hb, taken, dropped]

/-- What the lexer needs to know about number and string tokens. -/
structure Lexical (number body : List UInt8 → Prop) : Prop where
  number_bytes : ∀ s, number s →
    ∃ b r, s = b :: r ∧ (b = 0x2D ∨ IsDigit b) ∧ ∀ c ∈ r, IsNumberByte c
  body_quote : ∀ s, body s → ∀ post, closeQuote (s ++ 0x22 :: post) = some s.length

/-- The lexer finds the tokens of every phrase. -/
theorem Derives.lex {number body : List UInt8 → Prop} (lexical : Lexical number body)
    {s : List UInt8} {p : Phrase (List UInt8)} (h : Derives (.spelled number body) s p) :
    ∀ post, Stops post → Rfc8259.lex (s ++ post) = p.tokens ++ Rfc8259.lex post := by
  -- the punctuation holds no token
  have skip {b : UInt8} {r : List UInt8} (special : b ≠ 0x22 ∧ ¬(b = 0x2D ∨ IsDigit b)) :
      Rfc8259.lex (b :: r) = Rfc8259.lex r := lex_skip special.1 special.2 r
  induction h with
  | null | true | false =>
    intro post _
    simp only [litNull, litTrue, litFalse, List.cons_append, List.nil_append]
    -- four letters, or five
    iterate 4 rw [skip (by decide)]
    try rw [skip (by decide)]
    rfl
  | number h =>
    obtain ⟨b, r, rfl, hb, hr⟩ := lexical.number_bytes _ h
    intro post stop
    exact lex_number hb hr stop
  | string h =>
    obtain ⟨rfl, h⟩ := h
    intro post _
    rw [List.cons_append, List.append_assoc]
    exact lex_string (lexical.body_quote _ h post)
  | emptyArray hw =>
    intro post _
    rw [List.cons_append, List.append_assoc, skip (by decide), lex_ws hw]
    exact skip (by decide)
  | emptyObject hw =>
    intro post _
    rw [List.cons_append, List.append_assoc, skip (by decide), lex_ws hw]
    exact skip (by decide)
  | array _ ih =>
    intro post _
    simp only [List.cons_append, List.append_assoc, List.nil_append]
    -- the closing bracket ends the last number inside
    rw [skip (by decide), ih (0x5D :: post) (.cons (by decide) _), skip (by decide)]
    rfl
  | object _ ih =>
    intro post _
    simp only [List.cons_append, List.append_assoc, List.nil_append]
    rw [skip (by decide), ih (0x7D :: post) (.cons (by decide) _), skip (by decide)]
    rfl
  | padded hw _ hw' ih =>
    intro post stop
    rw [List.append_assoc, List.append_assoc, lex_ws hw, ih _ (.ws_append hw' stop), lex_ws hw']
    rfl
  | lastElement _ ih =>
    intro post stop
    simpa [Phrase.tokens, tokensItems] using ih post stop
  | @element s r _ _ _ _ ih ihr =>
    intro post stop
    rw [List.append_assoc, List.cons_append, ih (0x2C :: (r ++ post)) (.cons (by decide) _),
      skip (by decide), ihr post stop]
    simp [Phrase.tokens, tokensItems]
  | @member w k c w' s t hw hk hw' _ ih =>
    obtain ⟨rfl, hk⟩ := hk
    intro post stop
    simp only [List.append_assoc, List.cons_append]
    rw [lex_ws hw, lex_string (lexical.body_quote _ hk _), lex_ws hw', skip (by decide),
      ih post stop]
    rfl
  | @lastMember s m _ ih =>
    obtain ⟨c, t⟩ := m
    intro post stop
    simpa [Phrase.tokens, tokensMembers] using ih post stop
  | @nextMember s r m ms _ _ ih ihr =>
    obtain ⟨c, t⟩ := m
    intro post stop
    rw [List.append_assoc, List.cons_append, ih (0x2C :: (r ++ post)) (.cons (by decide) _),
      skip (by decide), ihr post stop]
    simp [Phrase.tokens, tokensMembers]

/-- All derivations of one text have the same tokens, those the lexer finds. -/
theorem Derives.tokens_eq_lex {number body : List UInt8 → Prop}
    (lexical : Lexical number body) {s : List UInt8} {p : Phrase (List UInt8)}
    (h : Derives (.spelled number body) s p) : p.tokens = Rfc8259.lex s := by
  have found := h.lex lexical [] .nil
  rw [List.append_nil, lex_nil, List.append_nil] at found
  exact found.symm

end Rfc8259
