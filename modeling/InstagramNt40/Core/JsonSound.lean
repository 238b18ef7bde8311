import InstagramNt40.Core.JsonNumber
import InstagramNt40.Core.JsonString

/-!
# Every run of the parser

One induction on the fuel: from any cursor inside the text, a call never faults,
has fuel left when it ends, and a value it returns is the one a derivation of the
bytes it consumed describes.
-/
namespace InstagramNt40.Json

open Scanner Rfc8259

/-! ### The DOM of a tree -/

mutual

def dom : JsonTree (List UInt8) → JsonValue
  | .null => .null
  | .bool b => .bool b
  | .num s => .num s s.length
  | .str s => .str s s.length
  | .arr items => .arr (domItems items)
  | .obj members => .obj (domMembers members)

def domItems : List (JsonTree (List UInt8)) → List JsonValue
  | [] => []
  | t :: ts => dom t :: domItems ts

def domMembers : List (List UInt8 × JsonTree (List UInt8)) → List (List UInt8 × JsonValue)
  | [] => []
  | (k, t) :: ms => (k, dom t) :: domMembers ms

end

/-- The tokens the parser lets through; a string is kept both as spelled and as
decoded. -/
def scanned : Tokens (List UInt8 × List UInt8) where
  number := RelaxedNumber
  body s c := c.1 = s ∧ Decoded s c.2

/-- The cursor after a node is closed. -/
def closed (x : Cursor) : Cursor := { x with depth := x.depth - 1, live := x.live - 1 }

/-- The cursor after a node is opened. -/
def opened (x : Cursor) : Cursor := { x with depth := x.depth + 1, live := x.live + 1 }

@[simp] theorem closed_opened (x : Cursor) : closed (opened x) = x := rfl

@[simp] theorem closed_forward (x : Cursor) (n : Nat) :
    closed (x.forward n) = (closed x).forward n := rfl

@[simp] theorem rest_opened (text : List UInt8) (x : Cursor) :
    rest text (opened x) = rest text x := rfl

@[simp] theorem rest_closed (text : List UInt8) (x : Cursor) :
    rest text (closed x) = rest text x := rfl

/-- Closing a node commutes with reading. -/
theorem reads_closed {text s : List UInt8} {x y : Cursor} (h : Reads text x s y) :
    Reads text (closed x) s (closed y) :=
  ⟨by simpa using h.bytes, by rw [h.moved, closed_forward]⟩

theorem run_openNode {x : Cursor} (text : List UInt8) (shallow : x.depth < jsonMaxDepth)
    (live : x.live ≤ x.depth) : openNode text x = .ok () (opened x) := by
  unfold openNode
  rw [bind_ok (run_getDepth text x), bind_ok (run_setDepth _ text x), if_neg (by omega)]
  exact run_openScope text (Nat.lt_of_le_of_lt live shallow)

/-- One level more than allowed is refused before anything is allocated. -/
theorem run_openNode_deep {x : Cursor} (text : List UInt8) (deep : jsonMaxDepth ≤ x.depth) :
    openNode text x = .null := by
  unfold openNode
  rw [bind_ok (run_getDepth text x), bind_ok (run_setDepth _ text x), if_pos (by omega)]
  rfl

theorem run_closeNode (v : JsonValue) (text : List UInt8) (x : Cursor) :
    closeNode v text x = .ok v (closed x) := rfl

/-! ### What a call returns -/

/-- The cursor is inside the text, and the depth counter bounds the open nodes and
is itself bounded. -/
structure Inside (text : List UInt8) (x : Cursor) : Prop where
  pos : x.pos ≤ text.length
  live : x.live ≤ x.depth
  depth : x.depth ≤ jsonMaxDepth

theorem Inside.reads {text s : List UInt8} {x y : Cursor} (h : Inside text x)
    (reads : Reads text x s y) : Inside text y :=
  ⟨reads.inside h.pos, by rw [reads.live, reads.depth]; exact h.live,
    by rw [reads.depth]; exact h.depth⟩

theorem Inside.opened {text : List UInt8} {x : Cursor} (h : Inside text x)
    (shallow : x.depth < jsonMaxDepth) : Inside text (opened x) :=
  ⟨h.pos, Nat.succ_le_succ h.live, shallow⟩

/-- Between `x` and `y` a value was read that the parser turns into `v`. -/
def ReadsValue (text : List UInt8) (x : Cursor) (v : JsonValue) (y : Cursor) : Prop :=
  ∃ s t, Derives scanned s (.value t) ∧ Reads text x s y ∧ v = dom (t.map Prod.snd) ∧
    x.depth + t.nesting ≤ jsonMaxDepth

/-- The same after white space. -/
def ReadsSpaced (text : List UInt8) (x : Cursor) (v : JsonValue) (y : Cursor) : Prop :=
  ∃ w z, Ws w ∧ Reads text x w z ∧ ReadsValue text z v y

/-- Elements and a closing bracket were read, and their node was closed. -/
def ReadsItems (vals : List JsonValue) (text : List UInt8) (x : Cursor) (v : JsonValue)
    (y : Cursor) : Prop :=
  ∃ s ts, Derives scanned s (.elements ts) ∧ Reads text (closed x) (s ++ [0x5D]) y ∧
    v = .arr (vals ++ domItems (mapItems Prod.snd ts)) ∧
    x.depth + nestingItems ts ≤ jsonMaxDepth

/-- Members and a closing brace were read, and their node was closed. -/
def ReadsMembers (members : List (List UInt8 × JsonValue)) (text : List UInt8) (x : Cursor)
    (v : JsonValue) (y : Cursor) : Prop :=
  ∃ s ms, Derives scanned s (.members ms) ∧ Reads text (closed x) (s ++ [0x7D]) y ∧
    v = .obj (members ++ domMembers (mapMembers Prod.snd ms)) ∧
    x.depth + nestingMembers ms ≤ jsonMaxDepth

/-- The specification of the five functions at one amount of fuel, each with the
fuel it needs for the bytes left. -/
structure RunsSafely (text : List UInt8) (fuel : Nat) : Prop where
  value : ∀ x, Inside text x → 3 * (text.length - x.pos) + 1 ≤ fuel →
    Safe text x (parseValue fuel) (ReadsSpaced text x)
  array : ∀ x r, Inside text x → rest text x = 0x5B :: r →
    3 * (text.length - x.pos) ≤ fuel → Safe text x (parseArray fuel) (ReadsValue text x)
  items : ∀ x vals, Inside text x → 3 * (text.length - x.pos) + 2 ≤ fuel →
    Safe text x (arrayItems fuel vals) (ReadsItems vals text x)
  object : ∀ x r, Inside text x → rest text x = 0x7B :: r →
    3 * (text.length - x.pos) ≤ fuel → Safe text x (parseObject fuel) (ReadsValue text x)
  members : ∀ x ms, Inside text x → 3 * (text.length - x.pos) + 2 ≤ fuel →
    Safe text x (objectMembers fuel ms) (ReadsMembers ms text x)

/-! ### One step -/

theorem parseString_safe (text : List UInt8) (x : Cursor) (shallow : x.depth ≤ jsonMaxDepth) :
    Safe text x parseString (ReadsValue text x) := by
  unfold parseString
  refine (parseStringRaw_safe text x).bind fun out y ⟨body, reads, decoded⟩ => .pure ?_
  exact ⟨_, .str (body, out), .string ⟨rfl, decoded⟩, reads, rfl, shallow⟩

theorem parseLit_reads {text lit : List UInt8} {x : Cursor} {t : JsonTree (List UInt8 × List UInt8)}
    {v : JsonValue} (inside : Inside text x) (derives : Derives scanned lit (.value t))
    (result : v = dom (t.map Prod.snd)) (nesting : x.depth + t.nesting ≤ jsonMaxDepth) :
    Safe text x (parseLit lit v) (ReadsValue text x) :=
  (parseLit_safe lit v inside.pos).mono fun _ _ ⟨reads, same⟩ =>
    ⟨lit, t, derives, reads, by rw [same, result], nesting⟩

/-- The dispatch on the first byte of a value. -/
theorem parseValue_safe {text : List UInt8} {fuel : Nat} (ih : RunsSafely text fuel) (x : Cursor)
    (inside : Inside text x) (enough : 3 * (text.length - x.pos) + 1 ≤ fuel + 1) :
    Safe text x (parseValue (fuel + 1)) (ReadsSpaced text x) := by
  unfold parseValue
  apply skipWs_safe
  intro w y reads hw
  have inside' := inside.reads reads
  have further := reads.pos
  apply Safe.peek (fun _ => .fail)
  intro c r left
  -- white space before the value does not matter for what was read
  have spaced {m : Scan JsonValue} (safe : Safe text y m (ReadsValue text y)) :
      Safe text y m (ReadsSpaced text x) := safe.mono fun _ _ value => ⟨w, y, hw, reads, value⟩
  dsimp only
  have shallow := inside'.depth
  split
  next h => exact spaced (ih.object y r inside' (by rw [left, h]) (by omega))
  next =>
  split
  next h => exact spaced (ih.array y r inside' (by rw [left, h]) (by omega))
  next =>
  split
  next => exact spaced (parseString_safe text y shallow)
  next =>
  split
  next => exact spaced (parseLit_reads inside' .true rfl shallow)
  next =>
  split
  next => exact spaced (parseLit_reads inside' .false rfl shallow)
  next =>
  split
  next => exact spaced (parseLit_reads inside' .null rfl shallow)
  next =>
  split
  next first =>
    rw [isDigit_iff] at first
    refine spaced ((parseNumber_safe left first).mono fun v z ⟨s, reads', number, result⟩ => ?_)
    exact ⟨s, .num s, .number number, reads', result, shallow⟩
  next => exact .fail

/-- Both kinds of nodes start alike: a bracket, a new level and white space. -/
theorem openNode_safe {text r : List UInt8} {x : Cursor} {b : UInt8} {k : Scan JsonValue}
    {post : JsonValue → Cursor → Prop} (inside : Inside text x) (left : rest text x = b :: r)
    (next : ∀ w y, Reads text (opened (x.forward 1)) w y → Ws w → x.depth < jsonMaxDepth →
      Inside text y → Safe text y k post) :
    Safe text x (do advance 1; openNode; skipWs; k) post := by
  apply Safe.bind_ok (run_advance_one left)
  have inside' : Inside text (x.forward 1) := inside.reads (.one left)
  by_cases shallow : x.depth < jsonMaxDepth
  · refine .bind_ok (run_openNode text shallow inside'.live) (skipWs_safe fun w y reads hw => ?_)
    exact next w y reads hw shallow ((inside'.opened shallow).reads reads)
  · -- the 129th level: nothing is allocated
    have refused := run_openNode_deep (x := x.forward 1) text (Nat.le_of_not_lt shallow)
    simp only [Safe, run_bind, Scan.bind, refused]

theorem parseArray_safe {text : List UInt8} {fuel : Nat} (ih : RunsSafely text fuel) (x : Cursor)
    (r : List UInt8) (inside : Inside text x) (left : rest text x = 0x5B :: r)
    (enough : 3 * (text.length - x.pos) ≤ fuel + 1) :
    Safe text x (parseArray (fuel + 1)) (ReadsValue text x) := by
  unfold parseArray
  apply openNode_safe inside left
  intro w y reads hw shallow inside'
  have first : Reads text x [0x5B] (x.forward 1) := .one left
  have level : y.depth = x.depth + 1 := reads.depth
  -- after `closed` the counters are those in front of the bracket
  have back : Reads text (x.forward 1) w (closed y) := reads_closed reads
  refine .accept (fun b q left' bracket => ?_) fun _ => ?_
  · have bracket : b = 0x5D := by simpa using bracket
    subst bracket
    refine .of_ok (run_closeNode _ _ _)
      ⟨0x5B :: (w ++ [0x5D]), .arr [], .emptyArray hw, ?_, rfl, ?_⟩
    · exact first.trans (back.trans (.one (x := closed y) left'))
    · exact shallow
  · -- the loop starts one byte further, which pays for its fuel
    have further := reads.pos
    obtain ⟨-, room, -⟩ := rest_cons left
    refine (ih.items y [] inside' (by
      simp only [opened, Cursor.forward_pos] at further; omega)).mono ?_
    rintro v z ⟨s, ts, derives, reads', rfl, nesting⟩
    refine ⟨0x5B :: ((w ++ s) ++ [0x5D]), .arr ts, .array (derives.elements_ws hw), ?_, rfl, ?_⟩
    · rw [List.append_assoc]
      exact first.trans (back.trans reads')
    · simp only [JsonTree.nesting]
      omega

theorem parseObject_safe {text : List UInt8} {fuel : Nat} (ih : RunsSafely text fuel) (x : Cursor)
    (r : List UInt8) (inside : Inside text x) (left : rest text x = 0x7B :: r)
    (enough : 3 * (text.length - x.pos) ≤ fuel + 1) :
    Safe text x (parseObject (fuel + 1)) (ReadsValue text x) := by
  unfold parseObject
  apply openNode_safe inside left
  intro w y reads hw shallow inside'
  have first : Reads text x [0x7B] (x.forward 1) := .one left
  have level : y.depth = x.depth + 1 := reads.depth
  have back : Reads text (x.forward 1) w (closed y) := reads_closed reads
  refine .accept (fun b q left' brace => ?_) fun _ => ?_
  · have brace : b = 0x7D := by simpa using brace
    subst brace
    refine .of_ok (run_closeNode _ _ _)
      ⟨0x7B :: (w ++ [0x7D]), .obj [], .emptyObject hw, ?_, rfl, ?_⟩
    · exact first.trans (back.trans (.one (x := closed y) left'))
    · exact shallow
  · have further := reads.pos
    obtain ⟨-, room, -⟩ := rest_cons left
    refine (ih.members y [] inside' (by
      simp only [opened, Cursor.forward_pos] at further; omega)).mono ?_
    rintro v z ⟨s, ms, derives, reads', rfl, nesting⟩
    refine ⟨0x7B :: ((w ++ s) ++ [0x7D]), .obj ms, .object (derives.members_ws hw), ?_, rfl, ?_⟩
    · rw [List.append_assoc]
      exact first.trans (back.trans reads')
    · simp only [JsonTree.nesting]
      omega

theorem arrayItems_safe {text : List UInt8} {fuel : Nat} (ih : RunsSafely text fuel) (x : Cursor)
    (vals : List JsonValue) (inside : Inside text x)
    (enough : 3 * (text.length - x.pos) + 2 ≤ fuel + 1) :
    Safe text x (arrayItems (fuel + 1) vals) (ReadsItems vals text x) := by
  unfold arrayItems
  apply (ih.value x inside (by omega)).bind
  rintro v y ⟨w, x', hw, reads, s, t, derives, reads', rfl, nesting⟩
  apply skipWs_safe
  intro w' z reads'' hw'
  have item : Derives scanned (w ++ (s ++ w')) (.padded t) := .padded hw derives hw'
  have all : Reads text x (w ++ (s ++ w')) z := reads.trans (reads'.trans reads'')
  rw [reads.depth] at nesting
  -- from here on only the padded item matters
  generalize w ++ (s ++ w') = s at item all
  have further := all.pos
  apply Safe.peek (fun _ => .fail)
  intro c r left
  obtain ⟨-, room, -⟩ := rest_cons left
  dsimp only
  split
  -- the remaining items are derived by the induction hypothesis
  next comma =>
    subst comma
    apply Safe.bind_ok (run_advance_one left)
    have here := all.trans (.one left)
    have level := here.depth
    refine (ih.items (z.forward 1) _ (inside.reads here) (by
      simp only [Cursor.forward_pos]; omega)).mono ?_
    rintro v u ⟨s', ts, derives', reads₂, rfl, nesting'⟩
    refine ⟨s ++ 0x2C :: s', t :: ts, .element item derives', ?_, ?_, ?_⟩
    · have joined := (reads_closed here).trans reads₂
      simpa using joined
    · simp [mapItems, domItems]
    · simp only [nestingItems]
      omega
  next =>
  split
  -- this was the last item
  next bracket =>
    subst bracket
    refine .bind_ok (run_advance_one left) (.of_ok (run_closeNode _ _ _) ?_)
    refine ⟨s, [t], .lastElement item, reads_closed (all.trans (.one left)), ?_, ?_⟩
    · simp [mapItems, domItems]
    · simp only [nestingItems]
      omega
  next => exact .fail

theorem objectMembers_safe {text : List UInt8} {fuel : Nat} (ih : RunsSafely text fuel)
    (x : Cursor) (members : List (List UInt8 × JsonValue)) (inside : Inside text x)
    (enough : 3 * (text.length - x.pos) + 2 ≤ fuel + 1) :
    Safe text x (objectMembers (fuel + 1) members) (ReadsMembers members text x) := by
  unfold objectMembers
  apply skipWs_safe
  intro w x₁ reads₁ hw
  apply (parseStringRaw_safe text x₁).bind
  rintro key x₂ ⟨body, reads₂, decoded⟩
  apply skipWs_safe
  intro w' x₃ reads₃ hw'
  refine .accept (fun b q left₃ colon => ?_) fun _ => .fail
  have colon : b = 0x3A := by simpa using colon
  subst colon
  -- the key and its colon
  have upTo := reads₁.trans (reads₂.trans (reads₃.trans (.one left₃)))
  have further := upTo.pos
  rw [if_pos rfl]
  apply (ih.value (x₃.forward 1) (inside.reads upTo) (by omega)).bind
  rintro v y ⟨w₁, x', hw₁, reads, s, t, derives, reads', rfl, nesting⟩
  apply skipWs_safe
  intro w₂ z reads'' hw₂
  have member : Derives scanned _ (.member ((body, key), t)) :=
    .member hw (k := body) ⟨rfl, decoded⟩ hw' (.padded hw₁ derives hw₂)
  have all : Reads text x
      (w ++ (0x22 :: (body ++ 0x22 :: (w' ++ 0x3A :: (w₁ ++ (s ++ w₂)))))) z := by
    have joined := upTo.trans (reads.trans (reads'.trans reads''))
    simpa using joined
  rw [reads.depth, upTo.depth] at nesting
  -- from here on only the whole member matters
  generalize w ++ (0x22 :: (body ++ 0x22 :: (w' ++ 0x3A :: (w₁ ++ (s ++ w₂))))) = s at member all
  have further' := all.pos
  apply Safe.peek (fun _ => .fail)
  intro c r left
  obtain ⟨-, room, -⟩ := rest_cons left
  dsimp only
  split
  next comma =>
    subst comma
    apply Safe.bind_ok (run_advance_one left)
    have here := all.trans (.one left)
    have level := here.depth
    refine (ih.members (z.forward 1) _ (inside.reads here) (by
      simp only [Cursor.forward_pos]; omega)).mono ?_
    rintro v u ⟨s', ms, derives', reads₂, rfl, nesting'⟩
    refine ⟨s ++ 0x2C :: s', _ :: ms, .nextMember member derives', ?_, ?_, ?_⟩
    · have joined := (reads_closed here).trans reads₂
      simpa using joined
    · simp [mapMembers, domMembers]
    · simp only [nestingMembers]
      omega
  next =>
  split
  next brace =>
    subst brace
    refine .bind_ok (run_advance_one left) (.of_ok (run_closeNode _ _ _) ?_)
    refine ⟨s, [((body, key), t)], .lastMember member, reads_closed (all.trans (.one left)), ?_, ?_⟩
    · simp [mapMembers, domMembers]
    · simp only [nestingMembers]
      omega
  next => exact .fail

/-! ### Every run -/

theorem runs_safely (text : List UInt8) (fuel : Nat) : RunsSafely text fuel := by
  induction fuel with
  | zero =>
    -- without fuel none of the bounds is met: a bracket is at least one byte
    refine ⟨?_, ?_, ?_, ?_, ?_⟩
    · intro x _ enough
      omega
    · intro x r _ left enough
      have := (rest_cons left).2.1
      omega
    · intro x vals _ enough
      omega
    · intro x r _ left enough
      have := (rest_cons left).2.1
      omega
    · intro x ms _ enough
      omega
  | succ fuel ih =>
    exact {
      value := parseValue_safe ih
      array := parseArray_safe ih
      items := arrayItems_safe ih
      object := parseObject_safe ih
      members := objectMembers_safe ih }

/-- A whole text: a padded value up to the last byte, and the cursor as it was but
for its position. -/
theorem jsonParseWith_safe (text : List UInt8) (fuel : Nat)
    (enough : parseFuel text.length ≤ fuel) :
    Safe text ⟨0, 0, 0⟩ (jsonParseWith fuel) fun v y =>
      ∃ t, Derives scanned text (.padded t) ∧ v = dom (t.map Prod.snd) ∧
        t.nesting ≤ jsonMaxDepth ∧ y = ⟨text.length, 0, 0⟩ := by
  have inside : Inside text ⟨0, 0, 0⟩ := ⟨Nat.zero_le _, Nat.le_refl _, Nat.zero_le _⟩
  unfold parseFuel at enough
  unfold jsonParseWith
  apply Safe.bind_ok (run_limit text _)
  split
  next => exact .fail
  next =>
    apply ((runs_safely text fuel).value ⟨0, 0, 0⟩ inside (by simp only; omega)).bind
    rintro v y ⟨w, x', hw, reads, s, t, derives, reads', rfl, nesting⟩
    refine skipWs_safe fun w' z reads'' hw' => .bind_ok (run_cursor text z)
      (.bind_ok (run_limit text z) ?_)
    have all := reads.trans (reads'.trans reads'')
    split
    next => exact .fail
    next done =>
      -- the cursor stands at the end, so nothing follows what was read
      rw [not_ne_iff] at done
      have bytes := all.bytes
      have last : rest text z = [] := by rw [rest, done, List.drop_length]
      rw [last, List.append_nil, rest, List.drop_zero] at bytes
      refine .pure ⟨t, ?_, rfl, ?_, ?_⟩
      · rw [bytes]
        exact .padded hw derives hw'
      · rw [reads.depth] at nesting
        simpa using nesting
      · rw [all.moved, ← bytes]
        simp [Cursor.forward]

end InstagramNt40.Json
