import InstagramNt40.Library.JsonGrammar
import Mathlib.Data.Bool.AllAny

/-!
# Brackets of JSON texts

The bracket that closes an array or an object can be found by counting, where strings are
skipped as a whole. So no array or object is the beginning of another one: they are a
prefix code.
-/
namespace Rfc8259

/-- The distance to the bracket that closes the innermost of `depth + 1` open ones which
all have to be closed. -/
def closeBracket : Nat → List UInt8 → Option Nat
  | _, [] => none
  | depth, b :: r =>
    if b = 0x22 then
      match closeQuote r with
      | some k => (closeBracket depth (r.drop (k + 1))).map (· + (k + 2))
      | none => none
    else if b = 0x5B ∨ b = 0x7B then (closeBracket (depth + 1) r).map (· + 1)
    else if b = 0x5D ∨ b = 0x7D then
      if depth = 0 then some 0 else (closeBracket (depth - 1) r).map (· + 1)
    else (closeBracket depth r).map (· + 1)
termination_by _ s => s.length

/-- Neither a quote nor a bracket. -/
def IsPlain (b : UInt8) : Prop :=
  b ≠ 0x22 ∧ b ≠ 0x5B ∧ b ≠ 0x7B ∧ b ≠ 0x5D ∧ b ≠ 0x7D

instance : DecidablePred IsPlain := fun b => by unfold IsPlain; infer_instance

theorem closeBracket_plain {b : UInt8} (plain : IsPlain b) (depth : Nat) (r : List UInt8) :
    closeBracket depth (b :: r) = (closeBracket depth r).map (· + 1) := by
  obtain ⟨quote, array, object, array', object'⟩ := plain
  rw [closeBracket, if_neg quote, if_neg (by simp [array, object]),
    if_neg (by simp [array', object'])]

theorem closeBracket_open {b : UInt8} (opens : b = 0x5B ∨ b = 0x7B) (depth : Nat)
    (r : List UInt8) :
    closeBracket depth (b :: r) = (closeBracket (depth + 1) r).map (· + 1) := by
  have quote : b ≠ 0x22 := by rcases opens with rfl | rfl <;> decide
  rw [closeBracket, if_neg quote, if_pos opens]

theorem closeBracket_close {b : UInt8} (closes : b = 0x5D ∨ b = 0x7D) (depth : Nat)
    (r : List UInt8) :
    closeBracket (depth + 1) (b :: r) = (closeBracket depth r).map (· + 1) := by
  have quote : b ≠ 0x22 := by rcases closes with rfl | rfl <;> decide
  have opens : ¬(b = 0x5B ∨ b = 0x7B) := by rcases closes with rfl | rfl <;> decide
  rw [closeBracket, if_neg quote, if_neg opens, if_pos closes, if_neg (Nat.succ_ne_zero depth)]
  rfl

theorem closeBracket_last {b : UInt8} (closes : b = 0x5D ∨ b = 0x7D) (r : List UInt8) :
    closeBracket 0 (b :: r) = some 0 := by
  have quote : b ≠ 0x22 := by rcases closes with rfl | rfl <;> decide
  have opens : ¬(b = 0x5B ∨ b = 0x7B) := by rcases closes with rfl | rfl <;> decide
  rw [closeBracket, if_neg quote, if_neg opens, if_pos closes, if_pos rfl]

/-! ### Balanced bytes -/

/-- Every bracket opened is closed again, and no other is. -/
def Balanced (s : List UInt8) : Prop :=
  ∀ depth post, closeBracket depth (s ++ post) = (closeBracket depth post).map (· + s.length)

namespace Balanced

variable {s s' : List UInt8}

theorem append (first : Balanced s) (second : Balanced s') : Balanced (s ++ s') := by
  intro depth post
  rw [List.append_assoc, first, second, Option.map_map, List.length_append]
  congr 1
  funext k
  simp only [Function.comp_apply]
  omega

theorem plain (all : ∀ b ∈ s, IsPlain b) : Balanced s := by
  induction s with
  | nil =>
    intro depth post
    simp
  | cons b s ih =>
    rw [List.forall_mem_cons] at all
    intro depth post
    rw [List.cons_append, closeBracket_plain all.1, ih all.2, Option.map_map]
    rfl

theorem cons {b : UInt8} (first : IsPlain b) (more : Balanced s) : Balanced (b :: s) :=
  (plain (s := [b]) (by simpa using first)).append more

theorem bracket {b b' : UInt8} (opens : b = 0x5B ∨ b = 0x7B) (closes : b' = 0x5D ∨ b' = 0x7D)
    (inner : Balanced s) : Balanced (b :: (s ++ [b'])) := by
  intro depth post
  rw [List.cons_append, List.append_assoc, closeBracket_open opens, inner, List.singleton_append,
    closeBracket_close closes, Option.map_map, Option.map_map]
  congr 1
  funext k
  simp only [Function.comp_apply, List.length_cons, List.length_append, List.length_nil]
  omega

theorem string (closing : ∀ post, closeQuote (s ++ 0x22 :: post) = some s.length) :
    Balanced (0x22 :: (s ++ [0x22])) := by
  intro depth post
  have behind : (s ++ 0x22 :: post).drop (s.length + 1) = post := by
    rw [List.drop_append]
    simp
  rw [List.cons_append, List.append_assoc, List.singleton_append, closeBracket, if_pos rfl,
    closing post]
  dsimp only
  rw [behind]
  simp

theorem ws {w : List UInt8} (hw : Ws w) : Balanced w := by
  apply plain
  intro b member
  rcases hw b member with rfl | rfl | rfl | rfl <;> decide

end Balanced

theorem IsNumberByte.plain {b : UInt8} (h : IsNumberByte b) : IsPlain b := by
  refine ⟨?_, ?_, ?_, ?_, ?_⟩ <;> (rintro rfl; revert h; decide)

/-- Every phrase closes the brackets it opens. -/
theorem Derives.balanced {number body : List UInt8 → Prop} (lexical : Lexical number body)
    {s : List UInt8} {p : Phrase (List UInt8)} (h : Derives (.spelled number body) s p) :
    Balanced s := by
  have comma : IsPlain 0x2C := by decide
  induction h with
  | null => exact .plain (List.all_iff_forall_prop.mp (by decide))
  | true => exact .plain (List.all_iff_forall_prop.mp (by decide))
  | false => exact .plain (List.all_iff_forall_prop.mp (by decide))
  | number h =>
    obtain ⟨b, r, rfl, first, more⟩ := lexical.number_bytes _ h
    have leading : IsPlain b := by
      refine ⟨?_, ?_, ?_, ?_, ?_⟩ <;> (rintro rfl; revert first; decide)
    exact .cons leading (.plain fun c member => (more c member).plain)
  | string h =>
    obtain ⟨rfl, h⟩ := h
    exact .string (lexical.body_quote _ h)
  | emptyArray hw => exact .bracket (.inl rfl) (.inl rfl) (.ws hw)
  | array _ ih => exact .bracket (.inl rfl) (.inl rfl) ih
  | emptyObject hw => exact .bracket (.inr rfl) (.inr rfl) (.ws hw)
  | object _ ih => exact .bracket (.inr rfl) (.inr rfl) ih
  | padded hw _ hw' ih => exact (Balanced.ws hw).append (ih.append (.ws hw'))
  | lastElement _ ih => exact ih
  | element _ _ ih ihr => exact ih.append (.cons comma ihr)
  | @member w k c w' s t hw hk hw' _ ih =>
    obtain ⟨rfl, hk⟩ := hk
    have key := Balanced.string (lexical.body_quote _ hk)
    have value := (Balanced.ws hw').append (.cons (b := 0x3A) (by decide) ih)
    have all := (Balanced.ws hw).append (key.append value)
    simpa using all
  | lastMember _ ih => exact ih
  | nextMember _ _ ih ihr => exact ih.append (.cons comma ihr)

/-! ### Containers -/

/-- An array or an object. -/
def JsonTree.IsContainer : JsonTree S → Prop
  | .arr _ => True
  | .obj _ => True
  | _ => False

/-- Balanced bytes between two brackets. -/
theorem Derives.container {number body : List UInt8 → Prop} (lexical : Lexical number body)
    {s : List UInt8} {t : JsonTree (List UInt8)} (h : Derives (.spelled number body) s (.value t))
    (container : t.IsContainer) : ∃ b inner b', s = b :: (inner ++ [b']) ∧
      (b = 0x5B ∨ b = 0x7B) ∧ (b' = 0x5D ∨ b' = 0x7D) ∧ Balanced inner := by
  cases h with
  | emptyArray hw => exact ⟨_, _, _, rfl, .inl rfl, .inl rfl, .ws hw⟩
  | array elements => exact ⟨_, _, _, rfl, .inl rfl, .inl rfl, elements.balanced lexical⟩
  | emptyObject hw => exact ⟨_, _, _, rfl, .inr rfl, .inr rfl, .ws hw⟩
  | object members => exact ⟨_, _, _, rfl, .inr rfl, .inr rfl, members.balanced lexical⟩
  | _ => cases container

/-- A value that begins with a bracket is a container. -/
theorem Derives.container_of_head {number body : List UInt8 → Prop}
    (lexical : Lexical number body) {s : List UInt8} {t : JsonTree (List UInt8)}
    (h : Derives (.spelled number body) s (.value t)) {b : UInt8}
    (opens : b = 0x5B ∨ b = 0x7B) (head : s.head? = some b) : t.IsContainer := by
  cases h with
  | number number =>
    obtain ⟨c, r, rfl, first, -⟩ := lexical.number_bytes _ number
    cases head
    exfalso
    rcases opens with rfl | rfl <;> (revert first; decide)
  | emptyArray | array | emptyObject | object => trivial
  | _ =>
    cases head
    rcases opens with eq | eq <;> cases eq

/-- No container is the beginning of another one. -/
theorem Derives.container_unique {number body : List UInt8 → Prop}
    (lexical : Lexical number body) {s s' post post' : List UInt8}
    {t t' : JsonTree (List UInt8)} (h : Derives (.spelled number body) s (.value t))
    (h' : Derives (.spelled number body) s' (.value t')) (container : t.IsContainer)
    (container' : t'.IsContainer) (same : s ++ post = s' ++ post') : s = s' := by
  obtain ⟨b, inner, e, rfl, -, closes, balanced⟩ := h.container lexical container
  obtain ⟨b', inner', e', rfl, -, closes', balanced'⟩ := h'.container lexical container'
  have left := balanced 0 (e :: post)
  have right := balanced' 0 (e' :: post')
  rw [closeBracket_last closes] at left
  rw [closeBracket_last closes'] at right
  simp only [List.cons_append, List.append_assoc, List.nil_append, List.cons.injEq] at same
  -- both closing brackets are the one that counting finds
  rw [same.2, right] at left
  have length : inner'.length = inner.length := by simpa using left
  obtain ⟨rfl, ends⟩ := List.append_inj same.2 length.symm
  rw [same.1, (List.cons.inj ends).1]

end Rfc8259
