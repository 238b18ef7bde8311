import InstagramNt40.Core.JsonOwnership

/-!
# Reading a tree that is still owned

The accessors of json.c over nodes with blocks. They look at a tree and hand out parts of
it: as long as the tree is not freed, what they give is what the accessors of `Json` give.
-/
namespace InstagramNt40.JsonHeap

open Ownership Alloc Crt Json

def jsonType (v : Option Node) : Proc JsonType :=
  match v with
  | none => pure .null
  | some v => do
    touch v.block
    pure v.type

/-- The loop of `json_get`. -/
def findKey (keys vals : Option Block) (key : List UInt8) :
    List (Option Buf × Node) → Proc (Option Node)
  | [] => pure none
  | (k, v) :: children => do
    look keys
    match k with
    | none => findKey keys vals key children
    | some k => do
      touch k.block
      if strcmp k.bytes key = 0 then do
        look vals
        pure (some v)
      else findKey keys vals key children

def jsonGet (obj : Option Node) (key : List UInt8) : Proc (Option Node) :=
  match obj with
  | none => pure none
  | some (.mk block type _ _ _ keys vals children) => do
    touch block
    if type ≠ .obj then pure none else findKey keys vals key children

def jsonAt (arr : Option Node) (index : Int) : Proc (Option Node) :=
  match arr with
  | none => pure none
  | some (.mk block type _ _ _ _ vals children) => do
    touch block
    if type ≠ .arr ∨ index < 0 ∨ index ≥ children.length then pure none
    else do
      look vals
      pure (children[index.toNat]?.map Prod.snd)

def jsonCount (v : Option Node) : Proc Nat :=
  match v with
  | none => pure 0
  | some v => do
    touch v.block
    pure (if v.type = .arr ∨ v.type = .obj then v.children.length else 0)

def jsonString (v : Option Node) : Proc (Option Buf) :=
  match v with
  | none => pure none
  | some (.mk block type str ..) => do
    touch block
    pure (if type ≠ .str then none else str)

def jsonInt (v : Option Node) (default : Int) : Proc Int :=
  match v with
  | none => pure default
  | some (.mk block type str _ _ _ _ _) => do
    touch block
    match type, str with
    | .num, some str => do
      touch str.block
      pure (Json.jsonInt (some (.num str.bytes str.bytes.length)) default)
    | _, _ => pure default

def jsonGetStr (obj : Option Node) (key : List UInt8) : Proc (Option Buf) := do
  jsonString (← jsonGet obj key)

def jsonGetInt (obj : Option Node) (key : List UInt8) (default : Int) : Proc Int := do
  jsonInt (← jsonGet obj key) default

/-! ### What they give is part of the tree -/

open Node

/-- The node is well built, and what it is made of is owned. -/
def Within (all : Multiset Block) (v : Option Node) : Prop :=
  ∀ n ∈ v, n.Built ∧ n.blocks ≤ all

theorem within_none (all : Multiset Block) : Within all none := fun _ member => by cases member

theorem Within.block {all : Multiset Block} {n : Node} (within : Within all (some n)) :
    n.block ∈ all := by
  obtain ⟨block, type, str, slen, boolean, keys, vals, children⟩ := n
  refine Multiset.mem_of_le (within _ rfl).2 ?_
  simp [Node.block, Node.blocks]

/-- What an accessor does with a tree it only looks at: it gives a part that stands for
what the accessor of `Json` gives. -/
def Reads {α β : Type} (all : Multiset Block) (m : Proc α) (good : α → Prop) (of : α → β)
    (b : β) : Prop := Looks all m fun a => good a ∧ of a = b

theorem Reads.pure {α β : Type} {all : Multiset Block} {a : α} {good : α → Prop} {of : α → β}
    {b : β} (holds : good a) (same : of a = b) :
    Reads all (Pure.pure a : Proc α) good of b := Looks.pure ⟨holds, same⟩

theorem Reads.touch {α β : Type} {all : Multiset Block} {n : Block} {k : Unit → Proc α}
    {good : α → Prop} {of : α → β} {b : β} (part : n ∈ all)
    (next : Reads all (k ()) good of b) : Reads all (Ownership.touch n >>= k) good of b :=
  Looks.touch part next

theorem Reads.bind {α β γ δ : Type} {all : Multiset Block} {m : Proc α} {k : α → Proc γ}
    {good : α → Prop} {of : α → β} {b : β} {good' : γ → Prop} {of' : γ → δ} {d : δ}
    (first : Reads all m good of b) (next : ∀ a, good a → of a = b → Reads all (k a) good' of' d) :
    Reads all (m >>= k) good' of' d :=
  Looks.bind first fun a holds => next a holds.1 holds.2

variable {all : Multiset Block}

theorem findKey_reads {keys vals : Block} (key : List UInt8) (hereKeys : keys ∈ all)
    (hereVals : vals ∈ all) : ∀ children : List (Option Buf × Node),
      AllBuilt .obj children → childBlocks (some keys) children ≤ all →
      Reads all (findKey (some keys) (some vals) key children) (Within all)
        (Option.map Node.value) (Json.findKey key (members children))
  | [], _, _ => .pure (within_none all) rfl
  | (k, v) :: children, built, part => by
    obtain ⟨k, rfl⟩ := Option.isSome_iff_exists.mp (built.1 rfl)
    rw [childBlocks] at part
    unfold findKey look
    refine .touch hereKeys (.touch ?_ ?_)
    · refine Multiset.mem_of_le part ?_
      simp [keyBlocks]
    · have held : bytes (some k) = k.bytes := rfl
      rw [members, Json.findKey, held]
      split_ifs with same
      · refine .touch hereVals (.pure ?_ rfl)
        rintro n ⟨⟩
        refine ⟨built.2.1, le_trans ?_ part⟩
        exact le_trans (Multiset.le_add_left _ _) (Multiset.le_add_right _ _)
      · exact findKey_reads key hereKeys hereVals children built.2.2
          (le_trans (Multiset.le_add_left _ _) part)

theorem within_parts {block : Block} {type : JsonType} {str : Option Buf} {slen : Nat}
    {boolean : Bool} {keys vals : Option Block} {children : List (Option Buf × Node)}
    (within : Within all (some (.mk block type str slen boolean keys vals children))) :
    block ∈ all ∧ (∀ s ∈ str, s.block ∈ all) ∧ (∀ k ∈ keys, k ∈ all) ∧ (∀ a ∈ vals, a ∈ all) ∧
      childBlocks keys children ≤ all := by
  have part := (within _ rfl).2
  rw [blocks] at part
  refine ⟨within.block, ?_, ?_, ?_, le_trans (Multiset.le_add_left _ _) part⟩
  · rintro s ⟨⟩
    exact Multiset.mem_of_le part (by simp)
  · rintro k ⟨⟩
    exact Multiset.mem_of_le part (by simp)
  · rintro a ⟨⟩
    exact Multiset.mem_of_le part (by simp)

theorem jsonGet_reads {obj : Option Node} (within : Within all obj) (key : List UInt8) :
    Reads all (jsonGet obj key) (Within all) (Option.map Node.value)
      (Json.jsonGet (obj.map Node.value) key) := by
  match obj with
  | none => exact .pure (within_none all) rfl
  | some (.mk block type str slen boolean keys vals children) =>
    obtain ⟨here, -, hereKeys, hereVals, part⟩ := within_parts within
    obtain ⟨array, keyed, -, built⟩ := (within _ rfl).1
    unfold jsonGet
    refine .touch here ?_
    split_ifs with other
    · refine .pure (within_none all) ?_
      cases type <;> first | rfl | exact absurd rfl other
    · obtain rfl : type = .obj := by simpa using other
      cases children with
      | nil => exact .pure (within_none all) rfl
      | cons child children =>
        obtain ⟨keys, rfl⟩ := Option.isSome_iff_exists.mp ((keyed rfl).resolve_left (by simp))
        obtain ⟨vals, rfl⟩ := Option.isSome_iff_exists.mp (array.resolve_left (by simp))
        exact findKey_reads key (hereKeys _ rfl) (hereVals _ rfl) _ built part

theorem jsonType_reads {v : Option Node} (within : Within all v) :
    Reads all (jsonType v) (fun _ => True) id (Json.jsonType (v.map Node.value)) := by
  match v with
  | none => exact .pure trivial rfl
  | some (.mk block type str slen boolean keys vals children) =>
    refine .touch within.block (.pure trivial ?_)
    cases type <;> rfl

theorem items_length (children : List (Option Buf × Node)) :
    (items children).length = children.length := by
  induction children with
  | nil => rfl
  | cons child children ih =>
    obtain ⟨key, val⟩ := child
    simp only [items, List.length_cons, ih]

theorem members_length (children : List (Option Buf × Node)) :
    (members children).length = children.length := by
  induction children with
  | nil => rfl
  | cons child children ih =>
    obtain ⟨key, val⟩ := child
    simp only [members, List.length_cons, ih]

theorem items_getElem? (children : List (Option Buf × Node)) (i : Nat) :
    (items children)[i]? = (children[i]?.map Prod.snd).map Node.value := by
  induction children generalizing i with
  | nil => rfl
  | cons child children ih =>
    obtain ⟨key, val⟩ := child
    cases i with
    | zero => rfl
    | succ i => simpa only [items, List.getElem?_cons_succ] using ih i

theorem child_within {type : JsonType} {keys : Option Block} {children : List (Option Buf × Node)}
    (built : AllBuilt type children) (part : childBlocks keys children ≤ all) (i : Nat) :
    Within all (children[i]?.map Prod.snd) := by
  induction children generalizing i with
  | nil => exact within_none all
  | cons child children ih =>
    obtain ⟨key, val⟩ := child
    rw [childBlocks] at part
    cases i with
    | zero =>
      rintro n ⟨⟩
      refine ⟨built.2.1, le_trans ?_ part⟩
      exact le_trans (Multiset.le_add_left _ _) (Multiset.le_add_right _ _)
    | succ i => exact ih built.2.2 (le_trans (Multiset.le_add_left _ _) part) i

theorem jsonAt_reads {arr : Option Node} (within : Within all arr) (index : Int) :
    Reads all (jsonAt arr index) (Within all) (Option.map Node.value)
      (Json.jsonAt (arr.map Node.value) index) := by
  match arr with
  | none => exact .pure (within_none all) rfl
  | some (.mk block type str slen boolean keys vals children) =>
    obtain ⟨here, -, -, hereVals, part⟩ := within_parts within
    obtain ⟨array, -, -, built⟩ := (within _ rfl).1
    unfold jsonAt
    refine .touch here ?_
    by_cases other : type = .arr
    · subst other
      split_ifs with outside
      · refine .pure (within_none all) ?_
        have outside' : index < 0 ∨ index ≥ ((items children).length : Int) := by
          rw [items_length]
          simpa using outside
        simp [Node.value, Json.jsonAt, outside']
      · have inside : ¬(index < 0 ∨ index ≥ ((items children).length : Int)) := by
          rw [items_length]
          simpa using outside
        cases children with
        | nil => simp at outside; omega
        | cons child children =>
          obtain ⟨vals, rfl⟩ := Option.isSome_iff_exists.mp (array.resolve_left (by simp))
          refine .touch (hereVals _ rfl) (.pure (child_within built part _) ?_)
          simp only [Option.map_some, Node.value, Json.jsonAt, if_neg inside, items_getElem?]
    · rw [if_pos (Or.inl other)]
      refine .pure (within_none all) ?_
      cases type <;> first | rfl | exact absurd rfl other

theorem jsonCount_reads {v : Option Node} (within : Within all v) :
    Reads all (jsonCount v) (fun _ => True) id (Json.jsonCount (v.map Node.value)) := by
  match v with
  | none => exact .pure trivial rfl
  | some (.mk block type str slen boolean keys vals children) =>
    refine .touch within.block (.pure trivial ?_)
    cases type with
    | null | bool | num | str => rfl
    | arr => exact (items_length children).symm
    | obj => exact (members_length children).symm

/-- The string is owned. -/
def Here (all : Multiset Block) (s : Option Buf) : Prop := ∀ b ∈ s, b.block ∈ all

theorem jsonString_reads {v : Option Node} (within : Within all v) :
    Reads all (jsonString v) (Here all) (Option.map Buf.bytes)
      (Json.jsonString (v.map Node.value)) := by
  match v with
  | none => exact .pure (fun b member => by cases member) rfl
  | some (.mk block type str slen boolean keys vals children) =>
    obtain ⟨here, hereStr, -⟩ := within_parts within
    obtain ⟨-, -, text, -⟩ := (within _ rfl).1
    unfold jsonString
    refine .touch here ?_
    split_ifs with other
    · refine .pure (fun b member => by cases member) ?_
      cases type <;> first | rfl | exact absurd rfl other
    · obtain rfl : type = .str := by simpa using other
      obtain ⟨str, rfl⟩ := Option.isSome_iff_exists.mp (text (Or.inr rfl))
      exact .pure hereStr rfl

theorem jsonInt_reads {v : Option Node} (within : Within all v) (default : Int) :
    Reads all (jsonInt v default) (fun _ => True) id
      (Json.jsonInt (v.map Node.value) default) := by
  match v with
  | none => exact .pure trivial rfl
  | some (.mk block type str slen boolean keys vals children) =>
    obtain ⟨here, hereStr, -⟩ := within_parts within
    obtain ⟨-, -, text, -⟩ := (within _ rfl).1
    unfold jsonInt
    refine .touch here ?_
    cases type with
    | num =>
      obtain ⟨str, rfl⟩ := Option.isSome_iff_exists.mp (text (Or.inl rfl))
      exact .touch (hereStr _ rfl) (.pure trivial rfl)
    | null | bool | str | arr | obj => exact .pure trivial rfl

theorem jsonGetStr_reads {obj : Option Node} (within : Within all obj) (key : List UInt8) :
    Reads all (jsonGetStr obj key) (Here all) (Option.map Buf.bytes)
      (Json.jsonGetStr (obj.map Node.value) key) := by
  refine (jsonGet_reads within key).bind fun v within' same => ?_
  rw [Json.jsonGetStr, ← same]
  exact jsonString_reads within'

theorem jsonGetInt_reads {obj : Option Node} (within : Within all obj) (key : List UInt8)
    (default : Int) :
    Reads all (jsonGetInt obj key default) (fun _ => True) id
      (Json.jsonGetInt (obj.map Node.value) key default) := by
  refine (jsonGet_reads within key).bind fun v within' same => ?_
  rw [Json.jsonGetInt, ← same]
  exact jsonInt_reads within' default

end InstagramNt40.JsonHeap
