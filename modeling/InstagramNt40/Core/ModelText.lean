import InstagramNt40.Core.ModelCorrect

/-!
# Decoded strings as C strings

Keys and strings are decoded with their lengths and then used as C strings. An escaped NUL
ends a C string early: a key is then found under a shorter name, and a copy is cut.
-/
namespace InstagramNt40.Model

open Scanner Crt Json Rfc8259

/-! ### The objects of a text -/

mutual

/-- The members of every object in a value, at any depth. -/
def objects : JsonValue → List (List (List UInt8 × JsonValue))
  | .arr vals => objectsItems vals
  | .obj members => members :: objectsMembers members
  | _ => []

def objectsItems : List JsonValue → List (List (List UInt8 × JsonValue))
  | [] => []
  | v :: vals => objects v ++ objectsItems vals

def objectsMembers : List (List UInt8 × JsonValue) → List (List (List UInt8 × JsonValue))
  | [] => []
  | (_, v) :: members => objects v ++ objectsMembers members

end

/-- Every object that `json_parse` returns for a text, itself or inside. -/
def objectsOf (text : List UInt8) : List (List (List UInt8 × JsonValue)) :=
  match jsonParse text with
  | .ok root _ => objects root
  | _ => []

mutual

theorem objects_dom {members : List (List UInt8 × JsonValue)} :
    ∀ t, members ∈ objects (dom t) → ∃ ms, members = domMembers ms
  | .null, member | .bool _, member | .num _, member | .str _, member => by
    simp [dom, objects] at member
  | .arr items, member => by
    rw [dom, objects] at member
    exact objectsItems_dom items member
  | .obj ms, member => by
    rw [dom, objects, List.mem_cons] at member
    rcases member with rfl | inside
    · exact ⟨ms, rfl⟩
    · exact objectsMembers_dom ms inside

theorem objectsItems_dom {members : List (List UInt8 × JsonValue)} :
    ∀ ts, members ∈ objectsItems (domItems ts) → ∃ ms, members = domMembers ms
  | [], member => by
    rw [domItems, objectsItems] at member
    cases member
  | t :: ts, member => by
    rw [domItems, objectsItems, List.mem_append] at member
    rcases member with first | later
    · exact objects_dom t first
    · exact objectsItems_dom ts later

theorem objectsMembers_dom {members : List (List UInt8 × JsonValue)} :
    ∀ ms, members ∈ objectsMembers (domMembers ms) → ∃ ms', members = domMembers ms'
  | [], member => by
    rw [domMembers, objectsMembers] at member
    cases member
  | (_, t) :: ms, member => by
    rw [domMembers, objectsMembers, List.mem_append] at member
    rcases member with first | later
    · exact objects_dom t first
    · exact objectsMembers_dom ms later

end

/-- The length of a string is kept with it. -/
theorem domMembers_length {key s : List UInt8} {slen : Nat}
    {ms : List (List UInt8 × JsonTree (List UInt8))}
    (member : (key, .str s slen) ∈ domMembers ms) : slen = s.length := by
  induction ms with
  | nil => cases member
  | cons m ms ih =>
    obtain ⟨k, t⟩ := m
    rw [domMembers, List.mem_cons] at member
    rcases member with here | later
    · have value : .str s slen = dom t := congrArg Prod.snd here
      cases t with
      | str content =>
        rw [dom] at value
        cases value
        rfl
      | null | bool _ | num _ | arr _ | obj _ =>
        rw [dom] at value
        cases value
    · exact ih later

theorem objectsOf_length {text key s : List UInt8} {slen : Nat}
    {members : List (List UInt8 × JsonValue)} (object : members ∈ objectsOf text)
    (member : (key, .str s slen) ∈ members) : slen = s.length := by
  unfold objectsOf at object
  rcases (jsonParseWith_safe text _ (Nat.le_refl _)).returns_or_null with
    null | ⟨root, y, run, t, -, rfl, -, -⟩
  · have none : jsonParse text = .null := null
    rw [none] at object
    cases object
  · have parsed : jsonParse text = .ok (dom (t.map Prod.snd)) y := run
    rw [parsed] at object
    obtain ⟨ms, rfl⟩ := objects_dom _ object
    exact domMembers_length member

/-! ### Finding a key -/

/-- Where the loop of `json_get` stops: the index `i` of the `vals[i]` it returns. -/
def keyIndex (key : List UInt8) : List (List UInt8 × JsonValue) → Option Nat
  | [] => none
  | (k, _) :: members => if strcmp k key = 0 then some 0 else (keyIndex key members).map (· + 1)

/-- The first member whose key is `key`, byte for byte. -/
def memberIndex (key : List UInt8) (members : List (List UInt8 × JsonValue)) : Option Nat :=
  members.findIdx? fun m => m.1 = key

section Members

variable {key : List UInt8} {members : List (List UInt8 × JsonValue)}

theorem keyIndex_eq (plain : 0 ∉ key) :
    keyIndex key members = members.findIdx? fun m => cstr m.1 0 = key := by
  induction members with
  | nil => rfl
  | cons m members ih =>
    have same : strcmp m.1 key = 0 ↔ cstr m.1 0 = key := by
      rw [strcmp_eq_zero_iff, cstr_whole plain]
    rw [keyIndex, List.findIdx?_cons, ih]
    simp only [same, decide_eq_true_eq]

/-- What `json_get` returns is the value at its index. -/
theorem jsonGet_keyIndex (plain : 0 ∉ key) : jsonGet (some (.obj members)) key =
    (keyIndex key members).bind fun i => members[i]?.map Prod.snd := by
  have found : jsonGet (some (.obj members)) key = findKey key members := rfl
  rw [found, findKey_eq, cstr_whole plain, List.find?_eq_bind_findIdx?_getElem?, keyIndex_eq plain]
  exact Option.map_bind

theorem find_memberIndex : (members.find? fun m => m.1 = key).map Prod.snd =
    (memberIndex key members).bind fun i => members[i]?.map Prod.snd := by
  rw [List.find?_eq_bind_findIdx?_getElem?, memberIndex]
  exact Option.map_bind

/-- The first member whose key has a property. -/
theorem findIdx_some {p : List UInt8 → Bool} {i : Nat} :
    (members.findIdx? fun m => p m.1) = some i ↔ ∃ k v, members[i]? = some (k, v) ∧ p k = true ∧
      ∀ j < i, ∀ k w, members[j]? = some (k, w) → p k ≠ true := by
  rw [List.findIdx?_eq_some_iff_getElem]
  constructor
  · rintro ⟨inside, holds, earlier⟩
    refine ⟨_, _, List.getElem?_eq_getElem inside, holds, ?_⟩
    intro j less k w found
    obtain ⟨_, here⟩ := List.getElem?_eq_some_iff.mp found
    have not := earlier j less
    rwa [here] at not
  · rintro ⟨k, v, found, holds, earlier⟩
    obtain ⟨inside, here⟩ := List.getElem?_eq_some_iff.mp found
    refine ⟨inside, by rwa [here], ?_⟩
    intro j less
    exact earlier j less _ _ (List.getElem?_eq_getElem (by omega))

theorem keyIndex_some {i : Nat} (plain : 0 ∉ key) : keyIndex key members = some i ↔
    ∃ k v, members[i]? = some (k, v) ∧ cstr k 0 = key ∧
      ∀ j < i, ∀ k w, members[j]? = some (k, w) → cstr k 0 ≠ key := by
  rw [keyIndex_eq plain, findIdx_some (p := fun k => cstr k 0 = key)]
  simp only [decide_eq_true_eq, ne_eq]

theorem memberIndex_some {i : Nat} : memberIndex key members = some i ↔
    ∃ v, members[i]? = some (key, v) ∧ ∀ j < i, ∀ w, members[j]? ≠ some (key, w) := by
  rw [memberIndex, findIdx_some (p := fun k => k = key)]
  simp only [decide_eq_true_eq, ne_eq]
  constructor
  · rintro ⟨_, v, found, rfl, earlier⟩
    exact ⟨v, found, fun j less w here => earlier j less _ w here rfl⟩
  · rintro ⟨v, found, earlier⟩
    refine ⟨key, v, found, rfl, ?_⟩
    rintro j less _ w here rfl
    exact earlier j less w here

end Members

/-! ### Strings used whole -/

/-- The keys and strings of an object are used with their full length. `value` and `index`
say which member `json_get` finds, `copy` what a feed model copies of it. -/
structure UsedWhole (members : List (List UInt8 × JsonValue)) : Prop where
  value : ∀ key, 0 ∉ key → jsonGet (some (.obj members)) key =
    (members.find? fun m => m.1 = key).map Prod.snd
  index : ∀ key, 0 ∉ key → keyIndex key members = memberIndex key members
  copy : ∀ key s slen, 0 ∉ key → jsonGet (some (.obj members)) key = some (.str s slen) →
    ∃ text, dupStr (jsonGetStr (some (.obj members)) key) = some text ∧ text.length = slen

/-- A key with a NUL comes after a member whose key is all that is seen of it, and no string
that can be found has a NUL. -/
structure NulsHidden (members : List (List UInt8 × JsonValue)) : Prop where
  keys : ∀ (i : Nat) key v, members[i]? = some (key, v) → 0 ∈ key →
    ∃ j < i, ∃ w, members[j]? = some (cstr key 0, w)
  strings : ∀ (i : Nat) key s slen, members[i]? = some (key, .str s slen) →
    (∀ j < i, ∀ k w, members[j]? = some (k, w) → cstr k 0 ≠ cstr key 0) → 0 ∉ s

section Whole

variable {members : List (List UInt8 × JsonValue)}

/-- The two searches agree if the keys with a NUL are hidden. -/
theorem keyIndex_memberIndex (hidden : NulsHidden members) {key : List UInt8} (plain : 0 ∉ key) :
    keyIndex key members = memberIndex key members := by
  cases found : keyIndex key members with
  | none =>
    rw [keyIndex_eq plain, List.findIdx?_eq_none_iff] at found
    symm
    rw [memberIndex, List.findIdx?_eq_none_iff]
    intro m member
    have other := found m member
    rw [decide_eq_false_iff_not] at other ⊢
    rintro rfl
    exact other (cstr_whole plain)
  | some i =>
    obtain ⟨k, v, here, same, earlier⟩ := (keyIndex_some plain).mp found
    have whole : 0 ∉ k := by
      intro nul
      obtain ⟨j, less, w, before⟩ := hidden.keys i k v here nul
      rw [same] at before
      exact earlier j less key w before (cstr_whole plain)
    rw [cstr_whole whole] at same
    subst same
    symm
    rw [memberIndex_some]
    exact ⟨v, here, fun j less w before => earlier j less k w before (cstr_whole plain)⟩

/-- A member that is not hidden by an earlier one is found under its key. -/
theorem jsonGet_unhidden {i : Nat} {key : List UInt8} {v : JsonValue}
    (here : members[i]? = some (key, v))
    (earlier : ∀ j < i, ∀ k w, members[j]? = some (k, w) → cstr k 0 ≠ cstr key 0) :
    jsonGet (some (.obj members)) (cstr key 0) = some v := by
  have plain := zero_notMem_cstr key
  rw [jsonGet_keyIndex plain, (keyIndex_some plain).mpr ⟨key, v, here, rfl, earlier⟩,
    Option.bind_some, here]
  rfl

theorem dupStr_found {key s : List UInt8} {slen : Nat}
    (found : jsonGet (some (.obj members)) key = some (.str s slen)) :
    dupStr (jsonGetStr (some (.obj members)) key) = some (cstr s 0) := by
  rw [jsonGetStr, found]
  rfl

/-- For an object whose strings have their lengths: it is used whole exactly if its NULs are
hidden. -/
theorem usedWhole_hidden
    (lengths : ∀ key s slen, (key, .str s slen) ∈ members → slen = s.length) :
    UsedWhole members ↔ NulsHidden members := by
  constructor
  · intro whole
    constructor
    · intro i key v here nul
      have plain := zero_notMem_cstr key
      -- the part before the NUL finds this member, or one before it
      obtain ⟨j, found⟩ : ∃ j, keyIndex (cstr key 0) members = some j := by
        rw [keyIndex_eq plain, ← Option.isSome_iff_exists, List.findIdx?_isSome, List.any_eq_true]
        exact ⟨(key, v), List.mem_of_getElem? here, decide_eq_true rfl⟩
      have exact_ := found
      rw [whole.index _ plain, memberIndex_some] at exact_
      obtain ⟨w, there, -⟩ := exact_
      obtain ⟨-, -, -, -, earlier⟩ := (keyIndex_some plain).mp found
      refine ⟨j, ?_, w, there⟩
      by_contra later
      rcases Nat.lt_or_ge i j with less | same
      · exact earlier i less key v here rfl
      · have equal : i = j := by omega
        subst equal
        rw [here] at there
        have keys : key = cstr key 0 := by simpa using congrArg (Option.map Prod.fst) there
        rw [← keys] at plain
        exact plain nul
    · intro i key s slen here earlier
      have found := jsonGet_unhidden here earlier
      obtain ⟨text, copied, full⟩ := whole.copy _ s slen (zero_notMem_cstr key) found
      rw [dupStr_found found] at copied
      cases copied
      rw [lengths key s slen (List.mem_of_getElem? here)] at full
      exact cstr_length_iff.mp full
  · intro hidden
    constructor
    · intro key plain
      rw [jsonGet_keyIndex plain, find_memberIndex, keyIndex_memberIndex hidden plain]
    · intro key plain
      exact keyIndex_memberIndex hidden plain
    · intro key s slen plain found
      refine ⟨_, dupStr_found found, ?_⟩
      rw [jsonGet_keyIndex plain, Option.bind_eq_some_iff] at found
      obtain ⟨i, stops, value⟩ := found
      obtain ⟨k, v, here, same, earlier⟩ := (keyIndex_some plain).mp stops
      rw [here, Option.map_some, Option.some.injEq] at value
      subst value
      rw [lengths k s slen (List.mem_of_getElem? here), cstr_length_iff]
      apply hidden.strings i k s slen here
      intro j less k' w before
      rw [same]
      exact earlier j less k' w before

end Whole

/-- For every text: the objects parsed from it are used whole exactly if their NULs are
hidden. -/
theorem objects_usedWhole_iff (text : List UInt8) :
    (∀ members ∈ objectsOf text, UsedWhole members) ↔
      ∀ members ∈ objectsOf text, NulsHidden members :=
  forall₂_congr fun _ object =>
    usedWhole_hidden fun _ _ _ member => objectsOf_length object member

/-- A member `a` that the object does not have: its key goes on behind an escaped NUL. -/
theorem not_usedWhole_escape :
    ¬∀ members ∈ objectsOf (literal "\x7b\"a\\u0000b\":1\x7d"), UsedWhole members := by
  have found : (objectsOf (literal "\x7b\"a\\u0000b\":1\x7d")).any (fun members =>
      (jsonGet (some (.obj members)) [0x61]).isSome &&
        (members.find? fun m => m.1 = [0x61]).isNone) = true := by
    decide +kernel
  obtain ⟨members, object, both⟩ := List.any_eq_true.mp found
  rw [Bool.and_eq_true, Option.isNone_iff_eq_none] at both
  intro whole
  have value := (whole members object).value [0x61] (by decide)
  rw [both.2] at value
  rw [value] at both
  exact absurd both.1 (by decide)

end InstagramNt40.Model
