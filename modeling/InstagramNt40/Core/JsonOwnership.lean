import InstagramNt40.Core.JsonHeap
import InstagramNt40.Core.JsonSound

/-!
# What json.c owns

Whatever allocations are refused, the parser neither leaks a block nor frees one twice
nor uses one it has freed: it implements the scanner of `Json`, and its result owns
exactly the blocks `json_free` gives back.
-/
namespace InstagramNt40.JsonHeap

open Scanner Ownership Alloc Json

namespace Node

/-- The block of a key, as far as `json_free` frees it. -/
def keyBlocks : Option Block → Option Buf → Multiset Block
  | some _, some key => {key.block}
  | _, _ => 0

mutual

/-- The blocks a node is made of. -/
def blocks : Node → Multiset Block
  | mk block _ str _ _ keys vals children =>
    {block} + owned (str.map Buf.block) + owned keys + owned vals + childBlocks keys children

def childBlocks (keys : Option Block) : List (Option Buf × Node) → Multiset Block
  | [] => 0
  | (key, val) :: children => keyBlocks keys key + blocks val + childBlocks keys children

end

mutual

/-- A node with children has the array they stand in, and an object one for their keys;
a number or a string has its text. -/
def Built : Node → Prop
  | mk _ type str _ _ keys vals children =>
    (children = [] ∨ vals.isSome = true) ∧ (type = .obj → children = [] ∨ keys.isSome = true) ∧
      (type = .num ∨ type = .str → str.isSome = true) ∧ AllBuilt type children

def AllBuilt (type : JsonType) : List (Option Buf × Node) → Prop
  | [] => True
  | (key, val) :: children =>
    (type = .obj → key.isSome = true) ∧ Built val ∧ AllBuilt type children

end

/-- The bytes of a string field. -/
def bytes (str : Option Buf) : List UInt8 := (str.map Buf.bytes).getD []

mutual

/-- The tree a node stands for, without its blocks. -/
def value : Node → JsonValue
  | mk _ type str slen boolean _ _ children =>
    match type with
    | .null => .null
    | .bool => .bool boolean
    | .num => .num (bytes str) slen
    | .str => .str (bytes str) slen
    | .arr => .arr (items children)
    | .obj => .obj (members children)

def items : List (Option Buf × Node) → List JsonValue
  | [] => []
  | (_, val) :: children => value val :: items children

def members : List (Option Buf × Node) → List (List UInt8 × JsonValue)
  | [] => []
  | (key, val) :: children => (bytes key, value val) :: members children

end

theorem childBlocks_append (keys : Option Block) (children more : List (Option Buf × Node)) :
    childBlocks keys (children ++ more) = childBlocks keys children + childBlocks keys more := by
  induction children with
  | nil => simp only [List.nil_append, childBlocks, zero_add]
  | cons child children ih =>
    obtain ⟨key, val⟩ := child
    simp only [List.cons_append, childBlocks, ih, add_assoc]

theorem allBuilt_append {type : JsonType} {children : List (Option Buf × Node)}
    {key : Option Buf} {val : Node} (built : AllBuilt type children)
    (keyed : type = .obj → key.isSome = true) (child : Built val) :
    AllBuilt type (children ++ [(key, val)]) := by
  induction children with
  | nil => exact ⟨keyed, child, trivial⟩
  | cons first children ih =>
    obtain ⟨key', val'⟩ := first
    exact ⟨built.1, built.2.1, ih built.2.2⟩

/-- A node without children is well built. -/
theorem built_leaf {block : Block} {type : JsonType} {str : Option Buf} {slen : Nat}
    {boolean : Bool} {keys vals : Option Block}
    (text : type = .num ∨ type = .str → str.isSome = true) :
    (mk block type str slen boolean keys vals []).Built :=
  ⟨Or.inl rfl, fun _ => Or.inl rfl, text, trivial⟩

theorem items_append (children : List (Option Buf × Node)) (key : Option Buf) (val : Node) :
    items (children ++ [(key, val)]) = items children ++ [value val] := by
  induction children with
  | nil => rfl
  | cons child children ih =>
    obtain ⟨key', val'⟩ := child
    simp only [List.cons_append, items, ih]

theorem members_append (children : List (Option Buf × Node)) (key : Option Buf) (val : Node) :
    members (children ++ [(key, val)]) = members children ++ [(bytes key, value val)] := by
  induction children with
  | nil => rfl
  | cons child children ih =>
    obtain ⟨key', val'⟩ := child
    simp only [List.cons_append, members, ih]

end Node

open Node

/-! ### Freeing -/

theorem freeKey_spec (keys : Block) (key : Option Buf) :
    Triple ({keys} + keyBlocks (some keys) key) (freeKey (some keys) key) (fun _ => {keys})
      fun r _ => r = false := by
  cases key with
  | none => exact .pure (by simp only [keyBlocks, add_zero]) rfl
  | some key =>
    refine (Triple.touch keys).quiet rfl fun _ => ?_
    exact ((Triple.release key.block).framed {keys}).mono (add_comm _ _)
      fun _ _ calm => ⟨zero_add _, calm⟩

mutual

/-- `json_free` gives back every block of the tree, each once. -/
theorem jsonFree_spec : ∀ v : Node, v.Built →
    Triple v.blocks (jsonFree v) (fun _ => 0) fun r _ => r = false
  | .mk block type str slen boolean keys vals children, built => by
    unfold jsonFree
    refine (Triple.touch block).quiet (F := owned (str.map Buf.block) + owned keys +
      owned vals + childBlocks keys children) (by rw [blocks]; abel) fun _ => ?_
    refine (Triple.releaseOption (str.map Buf.block)).quiet (F := {block} + owned keys +
      owned vals + childBlocks keys children) (by abel) fun _ => ?_
    refine (freeChildren_spec type block keys vals children built.1 built.2.2.2).quiet
      (F := 0)
      (by abel) fun _ => ?_
    refine (Triple.releaseOption keys).quiet (F := {block} + owned vals) (by abel) fun _ => ?_
    refine (Triple.releaseOption vals).quiet (F := {block}) (by abel) fun _ => ?_
    exact (Triple.release block).mono (zero_add _) fun _ _ calm => ⟨rfl, calm⟩

theorem freeChildren_spec (type : JsonType) (block : Block) (keys vals : Option Block) :
    ∀ children : List (Option Buf × Node), (children = [] ∨ vals.isSome = true) →
      AllBuilt type children →
      Triple ({block} + owned keys + owned vals + childBlocks keys children)
        (freeChildren block keys vals children) (fun _ => {block} + owned keys + owned vals)
        fun r _ => r = false
  | [], _, _ => by
    unfold freeChildren
    exact ((Triple.touch block).framed (owned keys + owned vals)).mono
      (by rw [childBlocks]; abel) fun _ _ calm => ⟨by abel, calm⟩
  | (key, val) :: children, array, built => by
    cases vals with
    | none => simp at array
    | some cells =>
      unfold freeChildren
      refine (Triple.touch block).quiet (F := owned keys + {cells} + keyBlocks keys key +
        val.blocks + childBlocks keys children) (by rw [childBlocks, owned_some]; abel) fun _ => ?_
      have key_spec : Triple (owned keys + keyBlocks keys key) (freeKey keys key)
          (fun _ => owned keys) fun r _ => r = false := by
        cases keys with
        | none => exact .pure rfl rfl
        | some keys => exact freeKey_spec keys key
      refine key_spec.quiet (F := {block} + {cells} + val.blocks + childBlocks keys children)
        (by abel) fun _ => ?_
      refine (Triple.touch cells).quiet (F := {block} + owned keys + val.blocks +
        childBlocks keys children) (by abel) fun _ => ?_
      refine (jsonFree_spec val built.2.1).quiet (F := {block} + owned keys + {cells} +
        childBlocks keys children) (by abel) fun _ => ?_
      exact (freeChildren_spec type block keys (some cells) children (Or.inr rfl)
        built.2.2).mono
        (by rw [owned_some]; abel) fun _ _ calm => ⟨rfl, calm⟩

end

theorem giveUp_discards {v : Node} (built : v.Built) : Discards v.blocks (giveUp v) :=
  .then (F := 0) (jsonFree_spec v built) (add_zero _).symm fun _ => .none (zero_add 0)

theorem free_discards {β : Type} {block : Block} {F : Multiset Block}
    {m : Proc (Option (β × Cursor))} (next : Discards F m) :
    Discards ({block} + F) (do free (some block); m) :=
  .then (F := F) (Triple.release block) rfl fun _ => next.owning (zero_add F)

/-- `if (!v) return NULL;` behind a `node`. -/
theorem node_request {α β : Type} {text : List UInt8} {x : Cursor} {s : Scan α}
    {pre : Multiset Block} {own : β → Multiset Block} {rel : β → α → Prop} {t : JsonType}
    {K : Option Node → Proc (Option (β × Cursor))}
    (granted : ∀ block, Implements text x s ({block} + pre)
      (K (some (.mk block t none 0 false none none []))) own rel)
    (refused : Discards pre (K none)) : Implements text x s pre (node t >>= K) own rel := by
  unfold node
  rw [Prog.bind_assoc]
  exact .request (fun block => by simpa only [Prog.pure_bind] using granted block)
    (by simpa only [Prog.pure_bind] using refused)

/-! ### Strings, numbers and literals -/

/-- The node is well built and stands for the tree. -/
def Stands (n : Node) (v : JsonValue) : Prop := n.Built ∧ n.value = v

theorem parseStringBody_eq :
    parseStringBody = sizeString >>= fun size => decodeString size.1 size.2 := by
  unfold parseStringBody sizeString decodeString
  simp only [Scan.bind_assoc]
  -- both fail where no closing quote is found
  refine bind_congr fun s => bind_congr fun left => bind_congr fun quote =>
    bind_congr fun last => ?_
  by_cases absent : quote ≥ last
  · rw [if_pos absent, if_pos absent, Scan.fail_bind]
  · rw [if_neg absent, if_neg absent]
    exact (Scan.pure_bind _ _).symm

theorem parseStringRaw_eq : Json.parseStringRaw = openQuote >>= fun _ => parseStringBody := by
  unfold Json.parseStringRaw openQuote
  rw [Scan.bind_assoc]
  congr 1
  funext o
  cases o with
  | none => rfl
  | some b =>
    simp only [Scan.ite_bind, Scan.fail_bind]

theorem parseNumber_eq : Json.parseNumber = numberSpan >>= fun span =>
    slice span.1 span.2 >>= fun str => pure (.num str span.2) := by
  unfold Json.parseNumber numberSpan takeNumber
  simp only [Scan.bind_assoc, Scan.ite_bind, Scan.fail_bind, Scan.pure_bind]

theorem parseLit_eq (lit : List UInt8) (v : JsonValue) :
    Json.parseLit lit v = matchLit lit >>= fun _ => pure v := by
  unfold Json.parseLit matchLit
  simp only [Scan.bind_assoc, Scan.ite_bind, Scan.fail_bind]

theorem parseStringRaw_implements (text : List UInt8) (x : Cursor) :
    Implements text x Json.parseStringRaw 0 (parseStringRaw text x) (fun s => {s.block})
      fun s bytes => s.bytes = bytes := by
  rw [parseStringRaw_eq]
  unfold parseStringRaw
  refine .scan (fun _ y _ => ?_) (.none rfl)
  rw [parseStringBody_eq]
  refine .scan (fun size z _ => ?_) (.none rfl)
  refine .request (fun out => ?_) (.none rfl)
  exact .last (fun bytes z' => .ok rfl rfl (add_zero _)) (free_discards (.none rfl))

theorem parseString_implements (text : List UInt8) (x : Cursor) :
    Implements text x Json.parseString 0 (parseString text x) Node.blocks Stands := by
  unfold Json.parseString parseString
  refine (parseStringRaw_implements text x).call (F := 0) rfl (fun s bytes y _ same => ?_)
    (.none rfl)
  subst same
  refine node_request (fun block => ?_) (free_discards (.none rfl))
  refine .ok rfl ⟨built_leaf fun _ => rfl, rfl⟩ ?_
  simp [Node.block, blocks, childBlocks]

theorem parseNumber_implements (text : List UInt8) (x : Cursor) :
    Implements text x Json.parseNumber 0 (parseNumber text x) Node.blocks Stands := by
  rw [parseNumber_eq]
  unfold parseNumber
  refine .scan (fun span y _ => ?_) (.none rfl)
  refine node_request (fun block => ?_) (.none rfl)
  refine .request (fun str => ?_) (free_discards (.none rfl))
  refine .certain (certain_slice _ _) fun bytes z _ => ?_
  refine .ok rfl ⟨built_leaf fun _ => rfl, rfl⟩ ?_
  simp [Node.block, blocks, childBlocks, add_comm]

theorem parseLit_implements (text : List UInt8) (x : Cursor) (lit : List UInt8) (t : JsonType)
    (boolean : Bool) (v : JsonValue)
    (plain : t = .num ∨ t = .str → (none : Option Buf).isSome = true)
    (stands : ∀ block, (Node.mk block t none 0 boolean none none []).value = v) :
    Implements text x (Json.parseLit lit v) 0 (parseLit lit t boolean text x) Node.blocks
      Stands := by
  rw [parseLit_eq]
  unfold parseLit
  refine .scan (fun _ y _ => ?_) (.none rfl)
  refine node_request (fun block => ?_) (.none rfl)
  refine .ok rfl ⟨built_leaf plain, stands block⟩ ?_
  simp [Node.block, blocks, childBlocks]

/-! ### Arrays and objects -/

/-- An array in the making that holds the values. -/
def Arr (n : Node) (vals : List JsonValue) : Prop :=
  ∃ block keys cells children, n = .mk block .arr none 0 false keys cells children ∧
    n.Built ∧ items children = vals

/-- An object in the making that holds the members. -/
def Obj (n : Node) (pairs : List (List UInt8 × JsonValue)) : Prop :=
  ∃ block keys cells children, n = .mk block .obj none 0 false keys cells children ∧
    n.Built ∧ members children = pairs

theorem Arr.stands {n : Node} {vals : List JsonValue} (arr : Arr n vals) :
    Stands n (.arr vals) := by
  obtain ⟨block, keys, cells, children, rfl, built, rfl⟩ := arr
  exact ⟨built, rfl⟩

theorem Obj.stands {n : Node} {pairs : List (List UInt8 × JsonValue)} (obj : Obj n pairs) :
    Stands n (.obj pairs) := by
  obtain ⟨block, keys, cells, children, rfl, built, rfl⟩ := obj
  exact ⟨built, rfl⟩

theorem childBlocks_keys {keys keys' : Option Block} (children : List (Option Buf × Node))
    (here : keys.isSome = true) (there : keys'.isSome = true) :
    childBlocks keys children = childBlocks keys' children := by
  obtain ⟨k, rfl⟩ := Option.isSome_iff_exists.mp here
  obtain ⟨k', rfl⟩ := Option.isSome_iff_exists.mp there
  induction children with
  | nil => rfl
  | cons child children ih =>
    obtain ⟨key, val⟩ := child
    cases key <;> simp only [childBlocks, keyBlocks, ih]

/-- The blocks of a node without a string. -/
theorem blocks_made (block : Block) (t : JsonType) (slen : Nat) (boolean : Bool)
    (keys cells : Option Block) (children : List (Option Buf × Node)) :
    (Node.mk block t none slen boolean keys cells children).blocks =
      {block} + owned keys + owned cells + childBlocks keys children := by
  simp only [blocks, Option.map_none, owned_none, add_zero]

/-- Another item, or, where the array could not be grown, the old array. -/
theorem push_item {arr child : Node} {vals : List JsonValue} {v : JsonValue}
    (array : Arr arr vals) (item : Stands child v) :
    Triple (arr.blocks + child.blocks) (pushChild arr none child)
      (fun res => if res.1 = true then res.2.blocks else res.2.blocks + child.blocks)
      fun r res => r = !res.1 ∧ res.2.Built ∧ (res.1 = true → Arr res.2 (vals ++ [v])) := by
  obtain ⟨block, keys, cells, children, rfl, built, rfl⟩ := array
  unfold pushChild
  refine (Triple.touch block).quiet (F := owned keys + owned cells +
    childBlocks keys children + child.blocks) (by rw [blocks_made]; abel) fun _ => ?_
  refine (Triple.resize cells).call (F := {block} + owned keys +
    childBlocks keys children + child.blocks) (by abel) fun nv r refused => ?_
  subst refused
  cases nv with
  | none =>
    refine .pure ?_ ⟨rfl, built, by simp⟩
    simp only [Option.isSome_none, Bool.false_eq_true, ↓reduceIte, blocks_made]
    abel
  | some nv =>
    have grown : AllBuilt .arr (children ++ [(none, child)]) :=
      allBuilt_append built.2.2.2 (fun type => by cases type) item.1
    have built' : (Node.mk block .arr none 0 false keys (some nv)
        (children ++ [(none, child)])).Built :=
      ⟨Or.inr rfl, (fun type => by cases type), (fun type => by simp at type), grown⟩
    refine .pure ?_ ⟨rfl, built', fun _ => ?_⟩
    · simp only [Option.isSome_some, ↓reduceIte, blocks_made, childBlocks_append, childBlocks,
        keyBlocks, owned_some]
      abel
    · refine ⟨block, keys, some nv, _, rfl, built', ?_⟩
      rw [items_append, item.2]

/-- Another member, or, where one of the arrays could not be grown, the old object. -/
theorem push_member {obj child : Node} {key : Buf} {pairs : List (List UInt8 × JsonValue)}
    {v : JsonValue} (object : Obj obj pairs) (member : Stands child v) :
    Triple (obj.blocks + {key.block} + child.blocks) (pushChild obj (some key) child)
      (fun res => if res.1 = true then res.2.blocks
        else res.2.blocks + {key.block} + child.blocks)
      fun r res => r = !res.1 ∧ res.2.Built ∧
        (res.1 = true → Obj res.2 (pairs ++ [(key.bytes, v)])) := by
  obtain ⟨block, keys, cells, children, rfl, built, rfl⟩ := object
  unfold pushChild
  refine (Triple.touch block).quiet (F := owned keys + owned cells +
    childBlocks keys children + {key.block} + child.blocks) (by rw [blocks_made]; abel) fun _ => ?_
  refine (Triple.resize cells).call (F := {block} + owned keys +
    childBlocks keys children + {key.block} + child.blocks) (by abel) fun nv r refused => ?_
  subst refused
  cases nv with
  | none =>
    refine .pure ?_ ⟨rfl, built, by simp⟩
    simp only [Option.isSome_none, Bool.false_eq_true, ↓reduceIte, blocks_made]
    abel
  | some nv =>
    refine (Triple.resize keys).call (F := {block} + {nv} + childBlocks keys children +
      {key.block} + child.blocks) (by simp only [Option.isSome_some, ↓reduceIte, owned_some]; abel)
      fun nk r refused => ?_
    subst refused
    cases nk with
    | none =>
      refine .pure ?_ ⟨rfl, ⟨Or.inr rfl, built.2⟩, by simp⟩
      simp only [Option.isSome_none, Bool.false_eq_true, ↓reduceIte, blocks_made, owned_some]
      abel
    | some nk =>
      have grown : AllBuilt .obj (children ++ [(some key, child)]) :=
        allBuilt_append built.2.2.2 (fun _ => rfl) member.1
      have built' : (Node.mk block .obj none 0 false (some nk) (some nv)
          (children ++ [(some key, child)])).Built :=
        ⟨Or.inr rfl, fun _ => Or.inr rfl, (fun type => by simp at type), grown⟩
      have same : childBlocks keys children = childBlocks (some nk) children := by
        rcases built.2.1 rfl with rfl | some
        · rfl
        · exact childBlocks_keys children some rfl
      refine .pure ?_ ⟨rfl, built', fun _ => ?_⟩
      · simp only [Option.isSome_some, ↓reduceIte, blocks_made, childBlocks_append, childBlocks,
          keyBlocks, owned_some, same]
        abel
      · refine ⟨block, some nk, some nv, _, rfl, built', ?_⟩
        rw [members_append, member.2]
        rfl

/-! ### Values -/

theorem closeNode_eq (v : JsonValue) : closeNode v = leaveNode >>= fun _ => pure v := by
  unfold closeNode leaveNode
  simp only [Scan.bind_assoc]

theorem certain_leaveNode : Certain leaveNode :=
  .bind (fun text x => by simp) fun d => .bind (certain_setDepth _) fun _ text x => by simp

/-- What a finished array or object is made of does not change any more. -/
theorem leave_implements {text : List UInt8} {x : Cursor} {n : Node} {v : JsonValue}
    (stands : Stands n v) :
    Implements text x (closeNode v) n.blocks
      (scan leaveNode text x >>= fun o => match o with
        | some (_, x) => pure (some (n, x))
        | none => fault) Node.blocks Stands := by
  rw [closeNode_eq]
  exact .certain certain_leaveNode fun _ y _ => .ok rfl stands rfl

/-- With this fuel the parser owns what it returns and nothing else. -/
structure Owns (text : List UInt8) (fuel : Nat) : Prop where
  value : ∀ x, Implements text x (Json.parseValue fuel) 0 (parseValue text fuel x)
    Node.blocks Stands
  array : ∀ x, Implements text x (Json.parseArray fuel) 0 (parseArray text fuel x)
    Node.blocks Stands
  items : ∀ x arr vals, Arr arr vals → Implements text x (Json.arrayItems fuel vals) arr.blocks
    (arrayItems text fuel arr x) Node.blocks Stands
  object : ∀ x, Implements text x (Json.parseObject fuel) 0 (parseObject text fuel x)
    Node.blocks Stands
  members : ∀ x obj pairs, Obj obj pairs →
    Implements text x (Json.objectMembers fuel pairs) obj.blocks
      (objectMembers text fuel obj x) Node.blocks Stands

theorem parseValue_owns {text : List UInt8} {fuel : Nat} (ih : Owns text fuel) (x : Cursor) :
    Implements text x (Json.parseValue (fuel + 1)) 0 (parseValue text (fuel + 1) x)
      Node.blocks Stands := by
  unfold Json.parseValue parseValue
  rw [← Scan.bind_assoc]
  refine .scan (fun c y _ => ?_) (.none rfl)
  cases c with
  | none => exact .null rfl (.none rfl)
  | some c =>
    simp only
    -- the first byte decides which kind of value it is
    split_ifs
    · exact ih.object y
    · exact ih.array y
    · exact parseString_implements text y
    · exact parseLit_implements text y _ _ _ _ (by simp) fun _ => rfl
    · exact parseLit_implements text y _ _ _ _ (by simp) fun _ => rfl
    · exact parseLit_implements text y _ _ _ _ (by simp) fun _ => rfl
    · exact parseNumber_implements text y
    · exact .null rfl (.none rfl)

theorem parseArray_owns {text : List UInt8} {fuel : Nat} (ih : Owns text fuel) (x : Cursor) :
    Implements text x (Json.parseArray (fuel + 1)) 0 (parseArray text (fuel + 1) x)
      Node.blocks Stands := by
  unfold Json.parseArray parseArray
  rw [← Scan.bind_assoc]
  refine .scan (fun _ y _ => ?_) (.none rfl)
  refine node_request (fun block => ?_) (.none rfl)
  have empty : Arr (.mk block .arr none 0 false none none []) [] :=
    ⟨block, none, none, [], rfl, built_leaf (by simp), rfl⟩
  have made : {block} + 0 = (Node.mk block .arr none 0 false none none []).blocks := by
    simp only [blocks_made, owned_none, childBlocks, add_zero]
  rw [← Scan.bind_assoc, made]
  refine .certain (.bind (certain_skipWhile _) fun _ => certain_accept _) fun closed z _ => ?_
  cases closed with
  | true => exact leave_implements empty.stands
  | false => exact ih.items z _ [] empty

theorem parseObject_owns {text : List UInt8} {fuel : Nat} (ih : Owns text fuel) (x : Cursor) :
    Implements text x (Json.parseObject (fuel + 1)) 0 (parseObject text (fuel + 1) x)
      Node.blocks Stands := by
  unfold Json.parseObject parseObject
  rw [← Scan.bind_assoc]
  refine .scan (fun _ y _ => ?_) (.none rfl)
  refine node_request (fun block => ?_) (.none rfl)
  have empty : Obj (.mk block .obj none 0 false none none []) [] :=
    ⟨block, none, none, [], rfl, built_leaf (by simp), rfl⟩
  have made : {block} + 0 = (Node.mk block .obj none 0 false none none []).blocks := by
    simp only [blocks_made, owned_none, childBlocks, add_zero]
  rw [← Scan.bind_assoc, made]
  refine .certain (.bind (certain_skipWhile _) fun _ => certain_accept _) fun closed z _ => ?_
  cases closed with
  | true => exact leave_implements empty.stands
  | false => exact ih.members z _ [] empty

theorem arrayItems_owns {text : List UInt8} {fuel : Nat} (ih : Owns text fuel) (x : Cursor)
    (arr : Node) (vals : List JsonValue) (array : Arr arr vals) :
    Implements text x (Json.arrayItems (fuel + 1) vals) arr.blocks
      (arrayItems text (fuel + 1) arr x) Node.blocks Stands := by
  unfold Json.arrayItems arrayItems
  have give {n : Node} (built : n.Built) : Discards n.blocks (giveUp n) := giveUp_discards built
  refine (ih.value x).call (F := arr.blocks) (zero_add _).symm (fun item v y _ stands => ?_)
    (give array.stands.1)
  refine .step (push_item array stands) (F := 0) (by abel) (fun res pushed => ?_)
    fun res refused => ?_
  · obtain ⟨done, arr'⟩ := res
    obtain ⟨worked, built, grown⟩ := pushed
    obtain rfl : done = true := by simpa using worked
    have array' := grown rfl
    simp only [↓reduceIte, add_zero]
    rw [← Scan.bind_assoc]
    refine .scan (fun c z _ => ?_) (give built)
    cases c with
    | none => exact .null rfl (give built)
    | some c =>
      simp only
      split_ifs
      · exact .certain (certain_advance 1) fun _ z' _ => ih.items z' arr' _ array'
      · rw [closeNode_eq, ← Scan.bind_assoc]
        exact .certain (.bind (certain_advance 1) fun _ => certain_leaveNode)
          fun _ z' _ => .ok rfl array'.stands rfl
      · exact .null rfl (give built)
  · obtain ⟨done, arr'⟩ := res
    obtain ⟨worked, built, -⟩ := refused
    obtain rfl : done = false := by simpa using worked
    simp only [Bool.false_eq_true, ↓reduceIte, add_zero]
    refine .then (F := arr'.blocks) (jsonFree_spec item stands.1) (by abel) fun _ => ?_
    exact (give built).owning (zero_add _)

theorem objectMembers_owns {text : List UInt8} {fuel : Nat} (ih : Owns text fuel) (x : Cursor)
    (obj : Node) (pairs : List (List UInt8 × JsonValue)) (object : Obj obj pairs) :
    Implements text x (Json.objectMembers (fuel + 1) pairs) obj.blocks
      (objectMembers text (fuel + 1) obj x) Node.blocks Stands := by
  unfold Json.objectMembers objectMembers
  have give {n : Node} (built : n.Built) : Discards n.blocks (giveUp n) := giveUp_discards built
  refine .certain (certain_skipWhile _) fun _ y _ => ?_
  refine (parseStringRaw_implements text y).call (F := obj.blocks) (zero_add _).symm
    (fun key bytes z _ same => ?_) (give object.stands.1)
  subst same
  rw [← Scan.bind_assoc]
  refine .certain (.bind (certain_skipWhile _) fun _ => certain_accept _) fun colon z' _ => ?_
  cases colon with
  | false => exact .null rfl (free_discards (give object.stands.1))
  | true =>
    refine (ih.value z').call (F := {key.block} + obj.blocks) (zero_add _).symm
      (fun val v w _ stands => ?_) (free_discards (give object.stands.1))
    refine .step (push_member object stands) (F := 0) (by abel) (fun res pushed => ?_)
      fun res refused => ?_
    · obtain ⟨done, obj'⟩ := res
      obtain ⟨worked, built, grown⟩ := pushed
      obtain rfl : done = true := by simpa using worked
      have object' := grown rfl
      simp only [↓reduceIte, add_zero]
      rw [← Scan.bind_assoc]
      refine .scan (fun c w' _ => ?_) (give built)
      cases c with
      | none => exact .null rfl (give built)
      | some c =>
        simp only
        split_ifs
        · exact .certain (certain_advance 1) fun _ w'' _ => ih.members w'' obj' _ object'
        · rw [closeNode_eq, ← Scan.bind_assoc]
          exact .certain (.bind (certain_advance 1) fun _ => certain_leaveNode)
            fun _ w'' _ => .ok rfl object'.stands rfl
        · exact .null rfl (give built)
    · obtain ⟨done, obj'⟩ := res
      obtain ⟨worked, built, -⟩ := refused
      obtain rfl : done = false := by simpa using worked
      simp only [Bool.false_eq_true, ↓reduceIte, add_zero]
      -- the key and the value are still the caller's to free
      refine Discards.owning (by abel) (free_discards (F := val.blocks + obj'.blocks) ?_)
      refine .then (F := obj'.blocks) (jsonFree_spec val stands.1) rfl fun _ => ?_
      exact (give built).owning (zero_add _)

theorem owns (text : List UInt8) (fuel : Nat) : Owns text fuel := by
  induction fuel with
  | zero =>
    refine ⟨fun x => ?_, fun x => ?_, fun x arr vals _ => ?_, fun x => ?_, fun x obj pairs _ => ?_⟩
    · unfold Json.parseValue; exact .timeout
    · unfold Json.parseArray; exact .timeout
    · unfold Json.arrayItems; exact .timeout
    · unfold Json.parseObject; exact .timeout
    · unfold Json.objectMembers; exact .timeout
  | succ fuel ih =>
    exact ⟨parseValue_owns ih, parseArray_owns ih, arrayItems_owns ih, parseObject_owns ih,
      objectMembers_owns ih⟩

/-- Whatever is refused, `json_parse` does nothing undefined; its tree, if there is one,
is the one `Json.jsonParse` finds, and owns what was allocated and not freed; without
one nothing is left, and an allocation failed or the text is no good. -/
theorem jsonParse_spec (text : List UInt8) :
    Triple 0 (jsonParse text) (fun o => match o with
        | some v => v.blocks
        | none => 0)
      fun r o => match o with
        | some v => r = false ∧ v.Built ∧ ∃ y, Json.jsonParse text = .ok v.value y
        | none => r = true ∨ Json.jsonParse text = .null := by
  have safe := jsonParseWith_safe text (parseFuel text.length) (Nat.le_refl _)
  unfold jsonParse
  have whole : Json.jsonParse text = jsonParseWith (parseFuel text.length) text ⟨0, 0, 0⟩ := rfl
  rw [whole]
  unfold jsonParseWith at safe ⊢
  rw [bind_ok (run_limit _ _)]
  have safe := (safe_bind_inv safe).elim (run_limit _ _)
  split_ifs at safe ⊢ with empty
  · exact .pure rfl (Or.inr rfl)
  · have first := safe_bind_inv safe
    refine (((owns text _).value _ (first.mono fun _ _ _ => trivial))).call (F := 0) rfl
      fun o r agrees => ?_
    cases o with
    | none =>
      refine .pure rfl ?_
      rw [Bool.or_false]
      refine agrees.imp_right fun run => ?_
      simp only [run_bind, Scan.bind, run]
    | some result =>
      obtain ⟨n, y⟩ := result
      obtain ⟨calm, v, run, built, rfl⟩ := agrees
      subst calm
      rw [bind_ok run]
      have skipped := run_skipWhile isWs text y
      have last : (skipWs >>= fun _ => cursor) text y = _ := bind_ok skipped
      rw [run_cursor] at last
      have ending : (skipWs >>= fun _ => cursor >>= fun p => limit >>= fun e =>
          if p ≠ e then fail else pure n.value) text y = _ := bind_ok skipped
      rw [ending, bind_ok (run_cursor _ _), bind_ok (run_limit _ _)]
      simp only [scan, last, Prog.pure_bind, add_zero]
      split_ifs
      · -- the text goes on behind the value: the tree is given back
        refine (jsonFree_spec n built).quiet (F := 0) (add_zero _).symm fun _ => ?_
        exact .pure rfl (Or.inr rfl)
      · exact .pure rfl ⟨rfl, built, _, rfl⟩

/-- Whatever allocations are refused, parsing a text and freeing the tree does nothing
undefined and leaves the heap as it was. The tree is the one that is found where nothing is
refused; there is none only if an allocation failed or the text is not accepted, and then
nothing is left allocated. -/
theorem jsonParse_keeps_the_heap (text : List UInt8) (w : World Kind) :
    ∃ o w' refused, jsonParse text w = .ok o w' refused ∧
      match o with
      | none => w'.live = w.live ∧ (refused = true ∨ Json.jsonParse text = .null)
      | some v => w'.live = v.blocks + w.live ∧ refused = false ∧
        (∃ y, Json.jsonParse text = .ok v.value y) ∧
        ∃ w'', jsonFree v w' = .ok () w'' false ∧ w''.live = w.live := by
  obtain ⟨o, w', refused, runs, live, holds⟩ := (jsonParse_spec text).run w
  refine ⟨o, w', refused, runs, ?_⟩
  cases o with
  | none => exact ⟨by rw [live, zero_add], holds⟩
  | some v =>
    obtain ⟨calm, built, found⟩ := holds
    obtain ⟨_, w'', r, freed, live', rfl⟩ := jsonFree_spec v built w' w.live live
    exact ⟨live, calm, found, w'', freed, by rw [live', zero_add]⟩

end InstagramNt40.JsonHeap
