import InstagramNt40.Core.JsonSound

/-!
# Every derivation is parsed

The converse of the soundness of the parser: along a derivation whose nesting fits
the depth counter, each function returns the DOM of its phrase and stops at the end
of it.
-/
namespace InstagramNt40.Json

open Scanner Rfc8259 Ascii

/-- The tokens the parser lets through, a string standing for what it decodes to. -/
def decodedTokens : Tokens (List UInt8) where
  number := RelaxedNumber
  body := Decoded

/-! ### First bytes -/

theorem Derives.value_head {s : List UInt8} {t : JsonTree (List UInt8)}
    (h : Derives decodedTokens s (.value t)) :
    ∃ c r, s = c :: r ∧ ¬IsWs c ∧ c ≠ 0x5D := by
  cases h with
  | null | true | false => exact ⟨_, _, rfl, by decide, by decide⟩
  | number h =>
    -- a number starts with a digit or a minus sign
    obtain ⟨b, r, rfl, first, -⟩ := lexical_relaxed.number_bytes _ h
    refine ⟨b, r, rfl, ?_, ?_⟩
    · rintro (rfl | rfl | rfl | rfl) <;> exact absurd first (by decide)
    · rintro rfl
      exact absurd first (by decide)
  | string | emptyArray | array | emptyObject | object =>
    exact ⟨_, _, rfl, by decide, by decide⟩

theorem Derives.padded_head {s : List UInt8} {t : JsonTree (List UInt8)}
    (h : Derives decodedTokens s (.padded t)) :
    ∃ w c r, s = w ++ c :: r ∧ Ws w ∧ ¬IsWs c ∧ c ≠ 0x5D := by
  cases h with
  | @padded w _ w' _ hw hs _ =>
    obtain ⟨c, r, rfl, notWs, notBracket⟩ := Derives.value_head hs
    exact ⟨w, c, r ++ w', rfl, hw, notWs, notBracket⟩

theorem Derives.elements_head {s : List UInt8} {ts : List (JsonTree (List UInt8))}
    (h : Derives decodedTokens s (.elements ts)) :
    ∃ w c r, s = w ++ c :: r ∧ Ws w ∧ ¬IsWs c ∧ c ≠ 0x5D := by
  cases h with
  | lastElement hs => exact Derives.padded_head hs
  | element hs _ =>
    obtain ⟨w, c, r, rfl, rest⟩ := Derives.padded_head hs
    exact ⟨w, c, _, by rw [List.append_assoc]; rfl, rest⟩

theorem Derives.members_head {s : List UInt8} {ms : List (List UInt8 × JsonTree (List UInt8))}
    (h : Derives decodedTokens s (.members ms)) : ∃ w r, s = w ++ 0x22 :: r ∧ Ws w := by
  cases h with
  | lastMember hs =>
    cases hs with
    | member hw => exact ⟨_, _, rfl, hw⟩
  | nextMember hs _ =>
    cases hs with
    | member hw => exact ⟨_, _, by rw [List.append_assoc]; rfl, hw⟩

/-! ### White space may be skipped ahead of a call -/

theorem run_skipWs_again {text w post : List UInt8} {x : Cursor}
    (stop : ∀ b ∈ post.head?, ¬IsWs b) (left : rest text x = w ++ post) :
    skipWs text (x.forward w.length) = .ok () (x.forward w.length) :=
  run_skipWs (w := []) (by simp [Ws]) stop (rest_forward left)

theorem parseValue_skip {text w post : List UInt8} {x : Cursor} (hw : Ws w)
    (stop : ∀ b ∈ post.head?, ¬IsWs b) (left : rest text x = w ++ post) (fuel : Nat) :
    parseValue fuel text (x.forward w.length) = parseValue fuel text x := by
  cases fuel with
  | zero => rfl
  | succ fuel =>
    unfold parseValue
    rw [bind_ok (run_skipWs_again stop left), bind_ok (run_skipWs hw stop left)]

theorem arrayItems_skip {text w post : List UInt8} {x : Cursor} (hw : Ws w)
    (stop : ∀ b ∈ post.head?, ¬IsWs b) (left : rest text x = w ++ post) (fuel : Nat)
    (vals : List JsonValue) :
    arrayItems fuel vals text (x.forward w.length) = arrayItems fuel vals text x := by
  cases fuel with
  | zero => rfl
  | succ fuel =>
    unfold arrayItems
    simp only [run_bind, Scan.bind, parseValue_skip hw stop left]

theorem objectMembers_skip {text w post : List UInt8} {x : Cursor} (hw : Ws w)
    (stop : ∀ b ∈ post.head?, ¬IsWs b) (left : rest text x = w ++ post) (fuel : Nat)
    (members : List (List UInt8 × JsonValue)) :
    objectMembers fuel members text (x.forward w.length) = objectMembers fuel members text x := by
  cases fuel with
  | zero => rfl
  | succ fuel =>
    unfold objectMembers
    rw [bind_ok (run_skipWs_again stop left), bind_ok (run_skipWs hw stop left)]

/-! ### What each phrase makes its function do -/

/-- What may follow a padded value: nothing, or a byte that ends it. -/
def Ends (post : List UInt8) : Prop := ∀ b ∈ post.head?, b = 0x2C ∨ b = 0x5D ∨ b = 0x7D

theorem Ends.nil : Ends [] := by simp [Ends]

theorem Ends.cons {b : UInt8} (h : b = 0x2C ∨ b = 0x5D ∨ b = 0x7D) (post : List UInt8) :
    Ends (b :: post) := by simpa [Ends] using h

theorem Ends.stops {post : List UInt8} (h : Ends post) : Stops post := by
  intro b hb
  rcases h b hb with rfl | rfl | rfl <;> decide

theorem Ends.not_ws {post : List UInt8} (h : Ends post) : ∀ b ∈ post.head?, ¬IsWs b := by
  intro b hb
  rcases h b hb with rfl | rfl | rfl <;> decide

/-- The run of a member: key, colon and value. -/
def ParsesMember (text : List UInt8) (fuel : Nat) (x : Cursor) (key : List UInt8) (v : JsonValue)
    (y : Cursor) : Prop :=
  ∃ x₁ x₂ x₃ x₄ x₅, skipWs text x = .ok () x₁ ∧ parseStringRaw text x₁ = .ok key x₂ ∧
    skipWs text x₂ = .ok () x₃ ∧ accept (· == 0x3A) text x₃ = .ok true x₄ ∧
    parseValue fuel text x₄ = .ok v x₅ ∧ skipWs text x₅ = .ok () y

/-- At every place where the bytes `s` stand for the phrase, its function returns
the phrase's DOM. -/
def Parses (s : List UInt8) (p : Phrase (List UInt8)) : Prop :=
  ∀ text x post fuel, Inside text x → x.depth + p.nesting ≤ jsonMaxDepth →
    3 * s.length + 2 ≤ fuel →
    match p with
    | .value t => ∀ w, Ws w → rest text x = w ++ (s ++ post) → Stops post →
        parseValue fuel text x = .ok (dom t) (x.forward (w.length + s.length))
    | .padded t => rest text x = s ++ post → Ends post →
        ∃ y, parseValue fuel text x = .ok (dom t) y ∧ skipWs text y = .ok () (x.forward s.length)
    | .elements ts => ∀ vals, rest text x = s ++ 0x5D :: post →
        arrayItems (fuel + 1) vals text x =
          .ok (.arr (vals ++ domItems ts)) (closed (x.forward (s.length + 1)))
    | .member m => rest text x = s ++ post → Ends post →
        ParsesMember text fuel x m.1 (dom m.2) (x.forward s.length)
    | .members ms => ∀ members, rest text x = s ++ 0x7D :: post →
        objectMembers (fuel + 1) members text x =
          .ok (.obj (members ++ domMembers ms)) (closed (x.forward (s.length + 1)))

/-- The dispatch on the first byte of a value. -/
theorem run_parseValue {text w r : List UInt8} {x : Cursor} {c : UInt8} (hw : Ws w)
    (notWs : ¬IsWs c) (left : rest text x = w ++ c :: r) (fuel : Nat) :
    parseValue (fuel + 1) text x =
      (if c = 0x7B then parseObject fuel
      else if c = 0x5B then parseArray fuel
      else if c = 0x22 then parseString
      else if c = 0x74 then parseLit litTrue (.bool true)
      else if c = 0x66 then parseLit litFalse (.bool false)
      else if c = 0x6E then parseLit litNull .null
      else if c = 0x2D ∨ isDigit c then parseNumber
      else fail) text (x.forward w.length) := by
  unfold parseValue
  rw [bind_ok (run_skipWs hw (by simpa using notWs) left),
    bind_ok (run_peek_cons (rest_forward left))]

/-- A bracket, a new level and white space. -/
theorem run_opening {text w post : List UInt8} {x : Cursor} {b : UInt8} {k : Scan JsonValue}
    (inside : Inside text x) (shallow : x.depth < jsonMaxDepth) (hw : Ws w)
    (stop : ∀ c ∈ post.head?, ¬IsWs c) (left : rest text x = b :: (w ++ post)) :
    (do advance 1; openNode; skipWs; k : Scan JsonValue) text x =
      k text (opened (x.forward (w.length + 1))) := by
  have left' : rest text (opened (x.forward 1)) = w ++ post := by
    rw [rest_opened, rest_forward_one left]
  rw [bind_ok (run_advance_one left),
    bind_ok (run_openNode (x := x.forward 1) text shallow inside.live),
    bind_ok (run_skipWs hw stop left')]
  simp only [opened, Cursor.forward, Nat.add_assoc, Nat.add_comm 1]

theorem run_parseArray_nil {text w post : List UInt8} {x : Cursor} (inside : Inside text x)
    (shallow : x.depth < jsonMaxDepth) (hw : Ws w)
    (left : rest text x = 0x5B :: (w ++ 0x5D :: post)) (fuel : Nat) :
    parseArray (fuel + 1) text x = .ok (.arr []) (x.forward (w.length + 2)) := by
  unfold parseArray
  rw [run_opening inside shallow hw (by simp; decide) left]
  have here : rest text (opened (x.forward (w.length + 1))) = 0x5D :: post := by
    have := rest_forward (s := 0x5B :: w) left
    simpa using this
  rw [bind_ok (run_accept_one rfl here)]
  rfl

theorem run_parseObject_nil {text w post : List UInt8} {x : Cursor} (inside : Inside text x)
    (shallow : x.depth < jsonMaxDepth) (hw : Ws w)
    (left : rest text x = 0x7B :: (w ++ 0x7D :: post)) (fuel : Nat) :
    parseObject (fuel + 1) text x = .ok (.obj []) (x.forward (w.length + 2)) := by
  unfold parseObject
  rw [run_opening inside shallow hw (by simp; decide) left]
  have here : rest text (opened (x.forward (w.length + 1))) = 0x7D :: post := by
    have := rest_forward (s := 0x7B :: w) left
    simpa using this
  rw [bind_ok (run_accept_one rfl here)]
  rfl

theorem run_parseArray {text s post : List UInt8} {x : Cursor} {ts : List (JsonTree (List UInt8))}
    (inside : Inside text x) (shallow : x.depth < jsonMaxDepth)
    (elements : Derives decodedTokens s (.elements ts))
    (left : rest text x = 0x5B :: (s ++ post)) (fuel : Nat) :
    parseArray (fuel + 1) text x = arrayItems fuel [] text (opened (x.forward 1)) := by
  obtain ⟨w, c, r, rfl, hw, notWs, notBracket⟩ := Derives.elements_head elements
  rw [List.append_assoc] at left
  have stop : ∀ b ∈ (c :: r ++ post).head?, ¬IsWs b := by simpa using notWs
  unfold parseArray
  rw [run_opening inside shallow hw stop left]
  have here : rest text (opened (x.forward (w.length + 1))) = c :: (r ++ post) := by
    have := rest_forward (s := 0x5B :: w) left
    simpa using this
  rw [bind_ok (run_accept_stop fun b hb => ?_), if_neg Bool.false_ne_true]
  · -- `parse_array` has skipped the white space that the first item starts with
    have skip := arrayItems_skip hw stop (x := opened (x.forward 1))
      (by rw [rest_opened, rest_forward_one left]) fuel []
    rw [← skip]
    simp only [opened, Cursor.forward, Nat.add_assoc, Nat.add_comm 1]
  · rw [here, List.head?_cons, Option.mem_def, Option.some.injEq] at hb
    rw [← hb]
    simpa using notBracket

theorem run_parseObject {text s post : List UInt8} {x : Cursor}
    {ms : List (List UInt8 × JsonTree (List UInt8))} (inside : Inside text x)
    (shallow : x.depth < jsonMaxDepth) (members : Derives decodedTokens s (.members ms))
    (left : rest text x = 0x7B :: (s ++ post)) (fuel : Nat) :
    parseObject (fuel + 1) text x = objectMembers fuel [] text (opened (x.forward 1)) := by
  obtain ⟨w, r, rfl, hw⟩ := Derives.members_head members
  rw [List.append_assoc] at left
  have stop : ∀ b ∈ (0x22 :: r ++ post).head?, ¬IsWs b := by simp; decide
  unfold parseObject
  rw [run_opening inside shallow hw stop left]
  have here : rest text (opened (x.forward (w.length + 1))) = 0x22 :: (r ++ post) := by
    have := rest_forward (s := 0x7B :: w) left
    simpa using this
  rw [bind_ok (run_accept_stop fun b hb => ?_), if_neg Bool.false_ne_true]
  · -- here too, and the loop skips it again
    have skip := objectMembers_skip hw stop (x := opened (x.forward 1))
      (by rw [rest_opened, rest_forward_one left]) fuel []
    rw [← skip]
    simp only [opened, Cursor.forward, Nat.add_assoc, Nat.add_comm 1]
  · rw [here, List.head?_cons, Option.mem_def, Option.some.injEq] at hb
    rw [← hb]
    rfl

/-- After an element: the comma or the bracket decides. -/
theorem run_arrayItems {text s post : List UInt8} {x y : Cursor} {v : JsonValue} {b : UInt8}
    {fuel : Nat} (vals : List JsonValue) (item : parseValue fuel text x = .ok v y)
    (spaces : skipWs text y = .ok () (x.forward s.length))
    (left : rest text x = s ++ b :: post) :
    arrayItems (fuel + 1) vals text x =
      (if b = 0x2C then do advance 1; arrayItems fuel (vals ++ [v])
      else if b = 0x5D then do advance 1; closeNode (.arr (vals ++ [v]))
      else fail) text (x.forward s.length) := by
  -- only the call on the left is taken apart, not the one in the comma's branch
  conv_lhs => unfold arrayItems
  rw [bind_ok item, bind_ok spaces, bind_ok (run_peek_cons (rest_forward left))]

theorem run_objectMembers {text s post : List UInt8} {x : Cursor} {key : List UInt8}
    {v : JsonValue} {b : UInt8} {fuel : Nat} (members : List (List UInt8 × JsonValue))
    (member : ParsesMember text fuel x key v (x.forward s.length))
    (left : rest text x = s ++ b :: post) :
    objectMembers (fuel + 1) members text x =
      (if b = 0x2C then do advance 1; objectMembers fuel (members ++ [(key, v)])
      else if b = 0x7D then do advance 1; closeNode (.obj (members ++ [(key, v)]))
      else fail) text (x.forward s.length) := by
  obtain ⟨x₁, x₂, x₃, x₄, x₅, ws₁, string, ws₂, colon, value, ws₃⟩ := member
  conv_lhs => unfold objectMembers
  rw [bind_ok ws₁, bind_ok string, bind_ok ws₂, bind_ok colon, if_pos rfl, bind_ok value,
    bind_ok ws₃, bind_ok (run_peek_cons (rest_forward left))]

/-! ### Every derivation -/

/-- One more unit of fuel than a bound on it. -/
private theorem fuel_succ {n fuel : Nat} (enough : n + 1 ≤ fuel) :
    ∃ f, fuel = f + 1 ∧ n ≤ f := ⟨fuel - 1, by omega, by omega⟩

theorem parses_literal {lit r : List UInt8} {c : UInt8} {v : JsonValue} {t : JsonTree (List UInt8)}
    (spelling : lit = c :: r) (result : dom t = v)
    (dispatch : ∀ (text : List UInt8) (x : Cursor) (w post : List UInt8) (fuel : Nat), Ws w →
      rest text x = w ++ c :: (r ++ post) →
      parseValue (fuel + 1) text x = parseLit lit v text (x.forward w.length)) :
    Parses lit (.value t) := by
  intro text x post fuel inside nesting enough w hw left stop
  obtain ⟨fuel, rfl, -⟩ := fuel_succ enough
  have inside' := inside.reads (.of_rest left)
  have here := rest_forward left
  rw [spelling, List.cons_append] at left
  rw [dispatch text x w post fuel hw left, run_parseLit inside'.pos here, result,
    Cursor.forward_forward]

theorem parses_number {s : List UInt8} (number : RelaxedNumber s) :
    Parses s (.value (.num s)) := by
  intro text x post fuel inside nesting enough w hw left stop
  obtain ⟨fuel, rfl, -⟩ := fuel_succ enough
  have run := run_parseNumber number stop (rest_forward left)
  obtain ⟨b, r, rfl, first, -⟩ := lexical_relaxed.number_bytes _ number
  -- the first byte is none of those that the dispatch tries before
  have other {c : UInt8} (no : ¬(c = 0x2D ∨ IsDigit c)) : b ≠ c := fun eq => no (eq ▸ first)
  rw [run_parseValue hw (c := b) ?_ left fuel, ← Cursor.forward_forward,
    if_neg (other (by decide)), if_neg (other (by decide)), if_neg (other (by decide)),
    if_neg (other (by decide)), if_neg (other (by decide)), if_neg (other (by decide)),
    if_pos (by rwa [isDigit_iff])]
  · exact run
  · rintro (eq | eq | eq | eq) <;> exact other (by decide) eq

theorem parses_string {s out : List UInt8} (decoded : Decoded s out) :
    Parses (0x22 :: (s ++ [0x22])) (.value (.str out)) := by
  intro text x post fuel inside nesting enough w hw left stop
  obtain ⟨fuel, rfl, -⟩ := fuel_succ enough
  rw [List.cons_append] at left
  have here := rest_forward left
  rw [List.append_assoc] at here
  rw [run_parseValue hw (by decide) left fuel, if_neg (by decide), if_neg (by decide), if_pos rfl]
  unfold parseString
  rw [bind_ok (run_parseStringRaw decoded here)]
  simp [dom]

theorem parses_emptyArray {w' : List UInt8} (hw' : Ws w') :
    Parses (0x5B :: (w' ++ [0x5D])) (.value (.arr [])) := by
  intro text x post fuel inside nesting enough w hw left stop
  obtain ⟨fuel, rfl⟩ : ∃ n, fuel = n + 1 + 1 := ⟨fuel - 2, by omega⟩
  have inside' := inside.reads (.of_rest left)
  rw [List.cons_append, List.append_assoc] at left
  rw [run_parseValue hw (by decide) left, if_neg (by decide), if_pos rfl,
    run_parseArray_nil inside' nesting hw' (rest_forward left)]
  simp [dom, domItems]

theorem parses_emptyObject {w' : List UInt8} (hw' : Ws w') :
    Parses (0x7B :: (w' ++ [0x7D])) (.value (.obj [])) := by
  intro text x post fuel inside nesting enough w hw left stop
  obtain ⟨fuel, rfl⟩ : ∃ n, fuel = n + 1 + 1 := ⟨fuel - 2, by omega⟩
  have inside' := inside.reads (.of_rest left)
  rw [List.cons_append, List.append_assoc] at left
  rw [run_parseValue hw (by decide) left, if_pos rfl,
    run_parseObject_nil inside' nesting hw' (rest_forward left)]
  simp [dom, domMembers]

theorem parses_array {s : List UInt8} {ts : List (JsonTree (List UInt8))}
    (elements : Derives decodedTokens s (.elements ts)) (ih : Parses s (.elements ts)) :
    Parses (0x5B :: (s ++ [0x5D])) (.value (.arr ts)) := by
  intro text x post fuel inside nesting enough w hw left stop
  simp only [List.length_cons, List.length_append, List.length_nil] at enough
  obtain ⟨fuel, rfl⟩ : ∃ n, fuel = n + 1 + 1 + 1 := ⟨fuel - 3, by omega⟩
  have inside' := inside.reads (.of_rest left)
  simp only [Phrase.nesting, JsonTree.nesting] at nesting
  rw [List.cons_append, List.append_assoc] at left
  have here := rest_forward left
  -- an array has at least nesting one, so its level is still to be had
  have shallow : (x.forward w.length).depth < jsonMaxDepth := by
    rw [Cursor.forward_depth]
    omega
  -- the loop runs one level deeper and closes it again
  have items := ih text (opened ((x.forward w.length).forward 1)) post fuel
    ((inside'.reads (.one here)).opened shallow)
    (by simp only [opened, Cursor.forward_depth, Phrase.nesting]; omega) (by omega) []
    (by rw [rest_opened, rest_forward_one here]; rfl)
  rw [run_parseValue hw (by decide) left, if_neg (by decide), if_pos rfl,
    run_parseArray inside' shallow elements here, items]
  simp only [closed_forward, closed_opened, Cursor.forward_forward, List.nil_append, dom,
    List.length_cons, List.length_append, List.length_nil]
  congr 2
  omega

theorem parses_object {s : List UInt8} {ms : List (List UInt8 × JsonTree (List UInt8))}
    (members : Derives decodedTokens s (.members ms)) (ih : Parses s (.members ms)) :
    Parses (0x7B :: (s ++ [0x7D])) (.value (.obj ms)) := by
  intro text x post fuel inside nesting enough w hw left stop
  simp only [List.length_cons, List.length_append, List.length_nil] at enough
  obtain ⟨fuel, rfl⟩ : ∃ n, fuel = n + 1 + 1 + 1 := ⟨fuel - 3, by omega⟩
  have inside' := inside.reads (.of_rest left)
  simp only [Phrase.nesting, JsonTree.nesting] at nesting
  rw [List.cons_append, List.append_assoc] at left
  have here := rest_forward left
  have shallow : (x.forward w.length).depth < jsonMaxDepth := by
    rw [Cursor.forward_depth]
    omega
  have items := ih text (opened ((x.forward w.length).forward 1)) post fuel
    ((inside'.reads (.one here)).opened shallow)
    (by simp only [opened, Cursor.forward_depth, Phrase.nesting]; omega) (by omega) []
    (by rw [rest_opened, rest_forward_one here]; rfl)
  rw [run_parseValue hw (by decide) left, if_pos rfl,
    run_parseObject inside' shallow members here, items]
  simp only [closed_forward, closed_opened, Cursor.forward_forward, List.nil_append, dom,
    List.length_cons, List.length_append, List.length_nil]
  congr 2
  omega

theorem parses_padded {w s w' : List UInt8} {t : JsonTree (List UInt8)} (hw : Ws w)
    (ih : Parses s (.value t)) (hw' : Ws w') : Parses (w ++ (s ++ w')) (.padded t) := by
  intro text x post fuel inside nesting enough left ends
  simp only [List.length_append] at enough
  simp only [List.append_assoc] at left
  -- the value ends where the white space after it starts
  have run := ih text x (w' ++ post) fuel inside nesting (by omega) w hw left
    (ends.stops.ws_append hw')
  have after := rest_forward (rest_forward left)
  rw [Cursor.forward_forward] at after
  refine ⟨_, run, ?_⟩
  rw [run_skipWs hw' ends.not_ws after]
  simp only [Cursor.forward_forward, List.length_append, Nat.add_assoc]

theorem parses_lastElement {s : List UInt8} {t : JsonTree (List UInt8)}
    (ih : Parses s (.padded t)) : Parses s (.elements [t]) := by
  intro text x post fuel inside nesting enough vals left
  simp only [Phrase.nesting, nestingItems, Nat.max_zero] at nesting
  obtain ⟨y, run, spaces⟩ := ih text x _ fuel inside nesting enough left (.cons (by decide) _)
  rw [run_arrayItems vals run spaces left, if_neg (by decide), if_pos rfl,
    bind_ok (run_advance_one (rest_forward left))]
  rfl

theorem parses_element {s r : List UInt8} {t : JsonTree (List UInt8)}
    {ts : List (JsonTree (List UInt8))} (ih : Parses s (.padded t)) (ihr : Parses r (.elements ts)) :
    Parses (s ++ 0x2C :: r) (.elements (t :: ts)) := by
  intro text x post fuel inside nesting enough vals left
  simp only [Phrase.nesting, nestingItems] at nesting
  simp only [List.length_append, List.length_cons] at enough
  rw [List.append_assoc, List.cons_append] at left
  obtain ⟨fuel, rfl⟩ : ∃ n, fuel = n + 1 := ⟨fuel - 1, by omega⟩
  obtain ⟨y, run, spaces⟩ := ih text x _ (fuel + 1) inside
    (by simp only [Phrase.nesting]; omega) (by omega) left (.cons (by decide) _)
  have comma := rest_forward left
  have inside' := (inside.reads (.of_rest left)).reads (.one comma)
  -- the loop goes on with the items so far and one more
  have more := ihr text _ post fuel inside'
    (by simp only [Cursor.forward_depth, Phrase.nesting]; omega) (by omega) (vals ++ [dom t])
    (rest_forward_one comma)
  rw [run_arrayItems vals run spaces left, if_pos rfl, bind_ok (run_advance_one comma), more]
  simp only [List.append_assoc, List.singleton_append, domItems, Cursor.forward_forward,
    List.length_append, List.length_cons, Nat.add_assoc, Nat.add_comm 1]

theorem parses_member {w k key w' s : List UInt8} {t : JsonTree (List UInt8)} (hw : Ws w)
    (decoded : Decoded k key) (hw' : Ws w') (ih : Parses s (.padded t)) :
    Parses (w ++ (0x22 :: (k ++ 0x22 :: (w' ++ 0x3A :: s)))) (.member (key, t)) := by
  intro text x post fuel inside nesting enough left ends
  simp only [List.length_append, List.length_cons] at enough
  simp only [List.append_assoc, List.cons_append] at left
  have quote := rest_forward left
  -- two quotes and the key between them
  have afterKey : rest text ((x.forward w.length).forward (k.length + 2)) =
      w' ++ 0x3A :: (s ++ post) := by
    have := rest_forward (rest_forward_one quote)
    have := rest_forward_one this
    rw [Cursor.forward_forward, Cursor.forward_forward] at this
    rwa [show k.length + 2 = 1 + (k.length + 1) by omega]
  have colon := rest_forward afterKey
  have after := rest_forward_one colon
  have inside' : Inside text
      ((((x.forward w.length).forward (k.length + 2)).forward w'.length).forward 1) :=
    ⟨(rest_cons colon).2.1, inside.live, inside.depth⟩
  obtain ⟨y, run, spaces⟩ := ih text _ post fuel inside' nesting (by omega) after ends
  refine ⟨_, _, _, _, y, run_skipWs hw (by simp; decide) left, run_parseStringRaw decoded quote,
    run_skipWs hw' (by simp; decide) afterKey, run_accept_one rfl colon, run, ?_⟩
  rw [spaces]
  simp only [Cursor.forward_forward, List.length_append, List.length_cons]
  congr 2
  omega

theorem parses_lastMember {s : List UInt8} {m : List UInt8 × JsonTree (List UInt8)}
    (ih : Parses s (.member m)) : Parses s (.members [m]) := by
  intro text x post fuel inside nesting enough members left
  obtain ⟨key, t⟩ := m
  simp only [Phrase.nesting, nestingMembers, Nat.max_zero] at nesting
  have run := ih text x _ fuel inside nesting enough left (.cons (by decide) _)
  rw [run_objectMembers members run left, if_neg (by decide), if_pos rfl,
    bind_ok (run_advance_one (rest_forward left))]
  rfl

theorem parses_nextMember {s r : List UInt8} {m : List UInt8 × JsonTree (List UInt8)}
    {ms : List (List UInt8 × JsonTree (List UInt8))} (ih : Parses s (.member m))
    (ihr : Parses r (.members ms)) : Parses (s ++ 0x2C :: r) (.members (m :: ms)) := by
  intro text x post fuel inside nesting enough members left
  obtain ⟨key, t⟩ := m
  simp only [Phrase.nesting, nestingMembers] at nesting
  simp only [List.length_append, List.length_cons] at enough
  rw [List.append_assoc, List.cons_append] at left
  obtain ⟨fuel, rfl⟩ : ∃ n, fuel = n + 1 := ⟨fuel - 1, by omega⟩
  have run := ih text x _ (fuel + 1) inside (by simp only [Phrase.nesting]; omega) (by omega) left
    (.cons (by decide) _)
  have comma := rest_forward left
  have inside' := (inside.reads (.of_rest left)).reads (.one comma)
  have more := ihr text _ post fuel inside'
    (by simp only [Cursor.forward_depth, Phrase.nesting]; omega) (by omega)
    (members ++ [(key, dom t)]) (rest_forward_one comma)
  rw [run_objectMembers members run left, if_pos rfl, bind_ok (run_advance_one comma), more]
  simp only [List.append_assoc, List.singleton_append, domMembers, Cursor.forward_forward,
    List.length_append, List.length_cons, Nat.add_assoc, Nat.add_comm 1]

theorem derives_parses {s : List UInt8} {p : Phrase (List UInt8)}
    (h : Derives decodedTokens s p) : Parses s p := by
  induction h with
  | null =>
    exact parses_literal rfl rfl fun _ _ _ _ fuel hw left =>
      run_parseValue hw (by decide) left fuel
  | true =>
    exact parses_literal rfl rfl fun _ _ _ _ fuel hw left =>
      run_parseValue hw (by decide) left fuel
  | false =>
    exact parses_literal rfl rfl fun _ _ _ _ fuel hw left =>
      run_parseValue hw (by decide) left fuel
  | number number => exact parses_number number
  | string body => exact parses_string body
  | emptyArray hw => exact parses_emptyArray hw
  | array elements ih => exact parses_array elements ih
  | emptyObject hw => exact parses_emptyObject hw
  | object members ih => exact parses_object members ih
  | padded hw _ hw' ih => exact parses_padded hw ih hw'
  | lastElement _ ih => exact parses_lastElement ih
  | element _ _ ih ihr => exact parses_element ih ihr
  | member hw hk hw' _ ih => exact parses_member hw hk hw' ih
  | lastMember _ ih => exact parses_lastMember ih
  | nextMember _ _ ih ihr => exact parses_nextMember ih ihr

/-- A text with a derivation that is not nested too deep is parsed to its DOM. -/
theorem jsonParse_of_derives {text : List UInt8} {t : JsonTree (List UInt8)}
    (derives : Derives decodedTokens text (.padded t)) (nesting : t.nesting ≤ jsonMaxDepth) :
    jsonParse text = .ok (dom t) ⟨text.length, 0, 0⟩ := by
  have inside : Inside text ⟨0, 0, 0⟩ := ⟨Nat.zero_le _, Nat.le_refl _, Nat.zero_le _⟩
  obtain ⟨y, run, spaces⟩ := derives_parses derives text ⟨0, 0, 0⟩ [] (parseFuel text.length)
    inside (by simpa [Phrase.nesting] using nesting) (by unfold parseFuel; omega)
    (by simp [rest]) .nil
  -- the empty text is refused before anything is read
  have some : text.length ≠ 0 := by
    obtain ⟨w, c, r, rfl, -⟩ := Derives.padded_head derives
    simp
  unfold jsonParse jsonParseWith
  rw [bind_ok (run_limit text _), if_neg some, bind_ok run, bind_ok spaces,
    bind_ok (run_cursor text _), bind_ok (run_limit text _)]
  simp [Cursor.forward]

end InstagramNt40.Json
