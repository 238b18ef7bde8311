import InstagramNt40.Net.SessionSlots

/-!
# The captured session in the timeline body

The values of the macros are pasted between the quotes of the body as they are. `c_escape`
keeps a string through the C literal, but for trigraphs, and not through JSON: a body gives
back the captured strings only where none of them has a quote, a backslash or a trigraph.
-/
namespace InstagramNt40.IgPrivate

open CLiteral Crt Rfc8259
open Printf (intText)

/-- The captured value as a JSON value. -/
def Decoded : BodyValue → JsonTree (List Char) → Prop
  | .str s _, t => t = .str s
  | .bool b, t => t = .bool b
  | .int n, t => t = .num (intText n)

/-- The body is an object whose static keys have the captured values. -/
def Survives (c : Captured) (body : List UInt8) : Prop :=
  ∃ members, Derives .serial body (.padded (.obj members)) ∧
    ∀ field ∈ c.body, field.1 ∉ dynamicBodyFields →
      (∃ t, (field.1.toList, t) ∈ members) ∧
        ∀ t, (field.1.toList, t) ∈ members → Decoded field.2 t

/-- Strings without quotes, backslashes and trigraphs, and numbers of 32 bits. -/
def BodyValue.Plain : BodyValue → Prop
  | .str s _ => '"' ∉ s ∧ '\\' ∉ s ∧ ¬HasTrigraph (utf8 s)
  | .bool _ => True
  | .int n => -2 ^ 31 ≤ n ∧ n < 2 ^ 31

def Captured.Plain (c : Captured) : Prop :=
  ∀ field ∈ c.body, field.1 ∉ dynamicBodyFields → field.2.Plain

/-! ### Strings that come back -/

section Value

variable {v : List Char} (printable : Printable v) {val : List UInt8}
  (value : literalValue (0x22 :: (escaped (utf8 v) ++ [0x22])) = some val)

include printable value

/-- A spelling no longer than the value of the macro: the string is plain, and the value is
its encoding. -/
theorem value_plain {s : List UInt8} (spelled : Spells s v) (short : s.length ≤ val.length) :
    (BodyValue.str v printable).Plain ∧ val = utf8 v ∧ s = utf8 v := by
  have length := literalValue_length value
  have noTrigraph : ¬HasTrigraph (utf8 v) := by
    intro trigraph
    have less := length.2 trigraph
    have longer := spelled.length_le
    omega
  have whole : val = utf8 v :=
    Option.some.inj (value.symm.trans (literalValue_escaped noTrigraph))
  rcases spelled.raw_or_shorter with ⟨noEscape, same⟩ | ⟨-, less⟩
  -- without an escape the spelling is the encoding, and it has no quote
  · subst same
    refine ⟨⟨fun quote => ?_, fun backslash => ?_, noTrigraph⟩, whole, rfl⟩
    · exact spelled.relaxed.no_quote noEscape (mem_utf8 quote (by decide))
    · exact noEscape (mem_utf8 backslash (by decide))
  · rw [whole] at short
    omega

/-- A value with a NUL has lost more than one byte. -/
theorem value_nul (nul : 0 ∈ val) : val.length + 2 ≤ (utf8 v).length := by
  by_cases trigraph : HasTrigraph (utf8 v)
  · exact (literalValue_length value).2 trigraph
  · have whole : val = utf8 v :=
      Option.some.inj (value.symm.trans (literalValue_escaped trigraph))
    rw [whole] at nul
    exact absurd nul (zero_notMem_utf8 printable)

/-- A string that is read back from a member with another one behind it. -/
theorem member_plain {s w p key rest : List UInt8} (spelled : Spells s v)
    (closed : ∀ r, closeQuote (key ++ 0x22 :: r) = some key.length)
    (same : cstr (val ++ [0x22, 0x2C]) 0 ++ 0x22 :: (key ++ 0x22 :: 0x3A :: rest) =
      s ++ 0x22 :: (w ++ p))
    (noColon : ∀ r, 0x3A :: r ≠ w ++ p) :
    (BodyValue.str v printable).Plain ∧ 0x2C :: 0x22 :: (key ++ 0x22 :: 0x3A :: rest) = w ++ p := by
  have found := spelled.relaxed.closeQuote (w ++ p)
  rw [← same] at found
  by_cases nul : 0 ∈ val
  -- the closing quote of the value is lost with its end, so the string runs into the next key
  · have less := value_nul printable value nul
    have long := spelled.length_le
    have short := cstr_length_le val
    rw [cstr_append_of_mem nul] at same found
    rcases closeQuote_le found with inside | ⟨j, later, length, -⟩
    · omega
    · rw [closed] at later
      obtain rfl := Option.some.inj later
      have cut : (cstr val 0 ++ 0x22 :: key) ++ 0x22 :: 0x3A :: rest = s ++ 0x22 :: (w ++ p) := by
        rw [← same, List.append_assoc]
        rfl
      have tail := (List.append_inj cut (by
        rw [List.length_append, List.length_cons]
        omega)).2
      exact absurd (List.cons.inj tail).2 (noColon rest)
  -- otherwise it ends at the first quote, unless a backslash is in front of that
  · have plain : 0 ∉ val ++ [0x22, 0x2C] := by
      rw [List.mem_append, not_or]
      exact ⟨nul, by decide⟩
    rw [cstr_whole plain, List.append_assoc] at same found
    rcases closeQuote_le found with inside | ⟨j, later, length, last⟩
    · obtain ⟨good, whole, itself⟩ := value_plain printable value spelled inside
      rw [whole, itself] at same
      exact ⟨good, (List.cons.inj (List.append_cancel_left same)).2⟩
    -- then the string ends in the comma, and the captured one in the backslash
    · have comma : closeQuote (0x2C :: 0x22 :: (key ++ 0x22 :: 0x3A :: rest)) = some 1 := by
        rw [closeQuote_byte (by decide) (by decide), closeQuote_quote]
        rfl
      obtain rfl := Option.some.inj (comma.symm.trans later)
      have text : s = val ++ [0x22, 0x2C] := by
        have cut : (val ++ [0x22, 0x2C]) ++ 0x22 :: (key ++ 0x22 :: 0x3A :: rest) =
            s ++ 0x22 :: (w ++ p) := by
          rw [← same, List.append_assoc]
        exact (List.append_inj cut (by rw [List.length_append]; exact length.symm)).1.symm
      have noTrigraph : ¬HasTrigraph (utf8 v) := by
        intro trigraph
        have less := (literalValue_length value).2 trigraph
        rcases spelled.raw_or_shorter with ⟨noEscape, -⟩ | ⟨-, shorter⟩
        · rw [text] at noEscape
          exact noEscape (List.mem_append_left _ (List.mem_of_getLast? last))
        · omega
      have whole : val = utf8 v :=
        Option.some.inj (value.symm.trans (literalValue_escaped noTrigraph))
      have ends := spelled.comma (by rw [text, List.getLast?_append]; rfl)
      rw [← whole, last] at ends
      exact absurd (Option.some.inj ends) (by decide)

/-- The last string. -/
theorem last_plain {s r : List UInt8} (spelled : Spells s v)
    (same : cstr val 0 ++ [0x22, 0x7D] = s ++ 0x22 :: r) :
    (BodyValue.str v printable).Plain := by
  have found := spelled.relaxed.closeQuote r
  rw [← same] at found
  have short := cstr_length_le val
  rcases closeQuote_le found with inside | ⟨j, later, -⟩
  · exact (value_plain printable value spelled (inside.trans short)).1
  · cases later

end Value

/-! ### From member to member -/

theorem time_dynamic {key : String} (member : Slot.time key ∈ allSlots) :
    key ∈ dynamicBodyFields := by
  simp only [allSlots, slots, List.cons_append, List.nil_append, List.mem_cons, Slot.time.injEq,
    reduceCtorEq, List.not_mem_nil, or_false, false_or] at member
  rcases member with rfl | rfl | rfl <;> decide

/-- All static values of this name are plain. -/
def Slot.Plain (c : Captured) (slot : Slot) : Prop :=
  ∀ v, (slot.key, v) ∈ c.body → slot.key ∉ dynamicBodyFields → v.Plain

section Step

variable {c : Captured} {b : IgBody} (header : Header c b) (random : UInt32)
  {members : List (List Char × JsonTree (List Char))}
  (decoded : ∀ field ∈ c.body, field.1 ∉ dynamicBodyFields →
    ∀ t, (field.1.toList, t) ∈ members → Decoded field.2 t)
  {post : List UInt8} (closing : post.head? = some 0x7D)
  {s : List UInt8} {ms : List (List Char × JsonTree (List Char))}
  (d : Derives .serial s (.members ms)) {slot : Slot} (inside : slot ∈ allSlots)

include d inside in
theorem slot_string {rest : List UInt8}
    (same : s ++ post = 0x22 :: (literal slot.key ++ 0x22 :: 0x3A :: 0x22 :: rest)) :
    ∃ cs s' w p ms', Spells s' cs ∧ ms = (slot.key.toList, .str cs) :: ms' ∧ Ws w ∧
      rest = s' ++ 0x22 :: (w ++ p) ∧ After post p ms' := by
  obtain ⟨name, cs, s', w, p, ms', key, spelled, first, hw, eq, after⟩ :=
    members_string d (key_closed inside) same
  rw [key_unique inside key] at first
  exact ⟨cs, s', w, p, ms', spelled, first, hw, eq, after⟩

include closing

theorem closing_stops : Stops post := by
  intro b member
  rw [closing] at member
  obtain rfl := Option.some.inj member
  decide

include d inside in
theorem slot_number {n : Int} {rest : List UInt8} (same : s ++ post =
      0x22 :: (literal slot.key ++ 0x22 :: 0x3A :: ((intText n ++ [0x2C]) ++ rest))) :
    ∃ w p ms', ms = (slot.key.toList, .num (intText n)) :: ms' ∧ Ws w ∧
      0x2C :: rest = w ++ p ∧ After post p ms' := by
  rw [List.append_assoc] at same
  obtain ⟨name, w, p, ms', key, first, hw, eq, after⟩ := members_number d (key_closed inside)
    (closing_stops closing) (intText_number n) (.cons (by decide) rest) same
  rw [key_unique inside key] at first
  exact ⟨w, p, ms', first, hw, eq, after⟩

theorem after_comma {w p rest : List UInt8} {ms' : List (List Char × JsonTree (List Char))}
    (after : After post p ms') (hw : Ws w) (same : 0x2C :: rest = w ++ p) :
    ∃ r, Derives .serial r (.members ms') ∧ r ++ post = rest := by
  rcases after.head hw (by decide) same with ⟨-, r, eq, others⟩ | other
  · exact ⟨r, others, eq.symm⟩
  · rw [closing] at other
    exact absurd (Option.some.inj other) (by decide)

theorem after_noColon {w p : List UInt8} {ms' : List (List Char × JsonTree (List Char))}
    (after : After post p ms') (hw : Ws w) (r : List UInt8) : 0x3A :: r ≠ w ++ p := by
  intro same
  rcases after.head hw (by decide) same with ⟨comma, -⟩ | other
  · exact absurd comma (by decide)
  · rw [closing] at other
    exact absurd (Option.some.inj other) (by decide)

include header decoded d inside in
/-- A member is read back, and the next one begins behind it. -/
theorem slot_plain {next : Slot} (follows : next ∈ allSlots) {rest : List UInt8}
    (sub : ms ⊆ members) (same : s ++ post = text (slot.pieces b random) ++
      0x22 :: (literal next.key ++ 0x22 :: 0x3A :: rest)) :
    slot.Plain c ∧ ∃ s' ms', Derives .serial s' (.members ms') ∧ ms' ⊆ members ∧
      s' ++ post = 0x22 :: (literal next.key ++ 0x22 :: 0x3A :: rest) := by
  have step {w p rest : List UInt8} {m : List Char × JsonTree (List Char)}
      {ms' : List (List Char × JsonTree (List Char))} (first : ms = m :: ms') (hw : Ws w)
      (after : After post p ms') (comma : 0x2C :: rest = w ++ p) :
      ∃ s' ms', Derives .serial s' (.members ms') ∧ ms' ⊆ members ∧ s' ++ post = rest := by
    obtain ⟨r, others, eq⟩ := after_comma closing after hw comma
    exact ⟨r, ms', others, fun m' member => sub (first ▸ List.mem_cons_of_mem m member), eq⟩
  have here {m : List Char × JsonTree (List Char)}
      {ms' : List (List Char × JsonTree (List Char))} (first : ms = m :: ms') : m ∈ members :=
    sub (first ▸ List.mem_cons_self)
  cases slot with
  -- what a timestamp says does not matter, but its text has no quote in it
  | time key =>
    have plain : 0 ∉ literal "%lu" := by decide
    rw [Slot.pieces, show key = (Slot.time key).key from rfl, text_timeField inside,
      cstr_whole plain] at same
    obtain ⟨cs, s', w, p, ms', spelled, first, hw, eq, after⟩ := slot_string d inside (by
      rw [same, List.cons_append, List.append_assoc]
      rfl)
    have same' : literal "%lu" ++ 0x22 ::
        (0x2C :: 0x22 :: (literal next.key ++ 0x22 :: 0x3A :: rest)) = s' ++ 0x22 :: (w ++ p) :=
      (List.append_assoc _ [0x22, 0x2C] _).symm.trans eq
    have comma := closed_unique (timestamp_spells.relaxed.closeQuote _)
      (spelled.relaxed.closeQuote _) same'
    exact ⟨fun v member static => absurd (time_dynamic inside) static,
      step first hw after comma.2⟩
  | text k =>
    obtain ⟨v, printable, member⟩ := c.text k
    have value := (header_iff.mp header).1 k v printable member
    rw [Slot.pieces, show k.name = (Slot.text k).key from rfl, text_strField inside] at same
    obtain ⟨cs, s', w, p, ms', spelled, first, hw, eq, after⟩ := slot_string d inside (by
      rw [same, List.cons_append, List.append_assoc]
      rfl)
    have string : JsonTree.str cs = .str v := decoded _ member k.name_static _ (here first)
    obtain rfl := JsonTree.str.inj string
    obtain ⟨good, comma⟩ := member_plain printable value spelled (key_closed follows) eq
      (after_noColon closing after hw)
    refine ⟨fun v' member' _ => ?_, step first hw after comma⟩
    rw [c.unique member' member]
    exact good
  -- the digits are those of the 32-bit word that was passed on
  | int k =>
    obtain ⟨n, member⟩ := c.int k
    have value := (header_iff.mp header).2 k n member
    rw [Slot.pieces, show k.name = (Slot.int k).key from rfl, numText_int,
      text_numField inside (zero_notMem_intText _)] at same
    obtain ⟨w, p, ms', first, hw, comma, after⟩ := slot_number closing d inside (by
      rw [same, List.cons_append, List.append_assoc]
      rfl)
    have number : JsonTree.num (intText (b.int k).toBitVec.toInt) = .num (intText n) :=
      decoded _ member k.name_static _ (here first)
    have passed := intText_injective (JsonTree.num.inj number)
    rw [value, toInt_ofInt_iff] at passed
    refine ⟨fun v' member' _ => ?_, step first hw after comma⟩
    rw [c.unique member' member]
    exact passed
  | sound =>
    obtain ⟨n, flag⟩ := numText_random random
    rw [Slot.pieces, show "will_sound_on" = Slot.sound.key from rfl, flag,
      text_numField inside (zero_notMem_intText n)] at same
    obtain ⟨w, p, ms', first, hw, comma, after⟩ := slot_number closing d inside (by
      rw [same, List.cons_append, List.append_assoc]
      rfl)
    exact ⟨fun v member static => absurd (show Slot.sound.key ∈ dynamicBodyFields by decide) static,
      step first hw after comma⟩

end Step

theorem pieces_key (b : IgBody) (random : UInt32) {slot : Slot} (inside : slot ∈ allSlots) :
    ∃ r, text (slot.pieces b random) = 0x22 :: (literal slot.key ++ 0x22 :: 0x3A :: r) := by
  cases slot with
  | time key => exact ⟨_, text_timeField inside _⟩
  | text k => exact ⟨_, text_strField inside _⟩
  | int k =>
    refine ⟨_, @text_numField _ inside (numText 16 (b.int k)) ?_⟩
    rw [numText_int]
    exact zero_notMem_intText _
  | sound =>
    refine ⟨_, @text_numField _ inside (numText 4 (igRandRange random 0 1)) ?_⟩
    obtain ⟨n, flag⟩ := numText_random random
    rw [flag]
    exact zero_notMem_intText n

/-- Every rest of the members begins with a key. -/
theorem members_key (b : IgBody) (random : UInt32) {l : List Slot}
    (inside : ∀ slot ∈ l, slot ∈ allSlots) :
    ∃ next ∈ allSlots, ∃ r, l.flatMap (fun slot => text (slot.pieces b random)) ++
      text (lastPieces b) = 0x22 :: (literal next.key ++ 0x22 :: 0x3A :: r) := by
  cases l with
  | nil => exact ⟨_, text_mem_allSlots .isPullToRefresh, _, text_lastPieces b⟩
  | cons slot l =>
    have first := inside slot List.mem_cons_self
    obtain ⟨r, key⟩ := pieces_key b random first
    refine ⟨slot, first, r ++ (l.flatMap (fun slot => text (slot.pieces b random)) ++
      text (lastPieces b)), ?_⟩
    rw [List.flatMap_cons, key, List.append_assoc, List.cons_append, List.append_assoc]
    rfl

/-- All members are read back. -/
theorem slots_plain {c : Captured} {b : IgBody} (header : Header c b) (random : UInt32)
    {members : List (List Char × JsonTree (List Char))}
    (decoded : ∀ field ∈ c.body, field.1 ∉ dynamicBodyFields →
      ∀ t, (field.1.toList, t) ∈ members → Decoded field.2 t)
    {post : List UInt8} (closing : post.head? = some 0x7D) {l : List Slot}
    (inside : ∀ slot ∈ l, slot ∈ allSlots) {s : List UInt8}
    {ms : List (List Char × JsonTree (List Char))} (d : Derives .serial s (.members ms))
    (sub : ms ⊆ members)
    (same : s ++ post = l.flatMap (fun slot => text (slot.pieces b random)) ++
      text (lastPieces b)) :
    ∀ slot ∈ l ++ [.text .isPullToRefresh], slot.Plain c := by
  induction l generalizing s ms with
  | nil =>
    have last := text_mem_allSlots .isPullToRefresh
    obtain ⟨v, printable, member⟩ := c.text .isPullToRefresh
    rw [List.flatMap_nil, List.nil_append, text_lastPieces] at same
    obtain ⟨cs, s', w, p, ms', spelled, first, hw, eq, after⟩ := slot_string d last same
    have string : JsonTree.str cs = .str v :=
      decoded _ member (TextKey.name_static .isPullToRefresh) _ (sub (first ▸ List.mem_cons_self))
    obtain rfl := JsonTree.str.inj string
    refine List.forall_mem_singleton.mpr fun v' member' _ => ?_
    rw [c.unique member' member]
    exact last_plain printable ((header_iff.mp header).1 _ _ printable member) spelled eq
  | cons slot l ih =>
    rw [List.forall_mem_cons] at inside
    -- where a value is cut off, the next key decides
    obtain ⟨next, follows, r, key⟩ := members_key b random inside.2
    rw [List.flatMap_cons, List.append_assoc, key] at same
    obtain ⟨here, s', ms', rest, sub', same'⟩ :=
      slot_plain header random decoded closing d inside.1 follows sub same
    rw [← key] at same'
    exact List.forall_mem_cons.mpr ⟨here, ih inside.2 rest sub' same'⟩

theorem plain_of_survives {c : Captured} {b : IgBody} (header : Header c b) {random : UInt32}
    (survives : Survives c (bodyText b (literal "%lu") random)) : c.Plain := by
  obtain ⟨members, d, fields⟩ := survives
  rw [bodyText_slots] at d
  have nonempty : members ≠ [] := by
    rintro rfl
    obtain ⟨v, printable, member⟩ := c.text .reason
    obtain ⟨t, absent⟩ := (fields _ member (TextKey.name_static .reason)).1
    cases absent
  obtain ⟨s, w, inner, hw, same⟩ := padded_object d nonempty
  have all := slots_plain header random (fun field member static => (fields field member static).2)
    rfl (fun slot member => List.mem_append_left _ member) inner (List.Subset.refl members) same
  rintro ⟨name, v⟩ member static
  rcases c.static _ member static with ⟨k, rfl⟩ | ⟨k, rfl⟩
  · exact all _ (text_mem_allSlots k) v member static
  · exact all _ (int_mem_allSlots k) v member static

/-! ### Plain bodies -/

/-- The value of a member, from the captured ones. -/
def Slot.tree (strings : TextKey → List Char) (ints : IntKey → Int) (flag : Int) :
    Slot → JsonTree (List Char)
  | time _ => .str "%lu".toList
  | text k => .str (strings k)
  | int k => .num (intText (ints k))
  | sound => .num (intText flag)

def Slot.member (strings : TextKey → List Char) (ints : IntKey → Int) (flag : Int)
    (slot : Slot) : List Char × JsonTree (List Char) :=
  (slot.key.toList, slot.tree strings ints flag)

section Plain

variable {b : IgBody} {random : UInt32} {strings : TextKey → List Char} {ints : IntKey → Int}
  {flag : Int} (unescaped : ∀ k, ∀ c ∈ strings k, Unescaped c)
  (texts : ∀ k, b.text k = utf8 (strings k)) (words : ∀ k, (b.int k).toBitVec.toInt = ints k)
  (sound : numText 4 (igRandRange random 0 1) = intText flag)

theorem zero_notMem_strings {v : List Char} (plain : ∀ c ∈ v, Unescaped c) : 0 ∉ utf8 v :=
  zero_notMem_utf8 fun c inside => (plain c inside).1

include unescaped texts words sound

theorem slot_member {slot : Slot} (inside : slot ∈ allSlots) :
    ∃ s, Derives .serial s (.member (slot.member strings ints flag)) ∧
      text (slot.pieces b random) = s ++ [0x2C] := by
  have key := key_spells inside
  cases slot with
  | time name =>
    refine ⟨_, string_member key timestamp_spells, ?_⟩
    have bytes := text_timeField inside (literal "%lu")
    rw [cstr_whole (by decide)] at bytes
    refine bytes.trans ?_
    simp
  | text k =>
    refine ⟨_, string_member key (spells_utf8 (unescaped k)), ?_⟩
    have plain : 0 ∉ b.text k ++ [0x22, 0x2C] := by
      rw [texts, List.mem_append, not_or]
      exact ⟨zero_notMem_strings (unescaped k), by decide⟩
    rw [Slot.pieces, show k.name = (Slot.text k).key from rfl, text_strField inside,
      cstr_whole plain, texts]
    simp
  | int k =>
    refine ⟨_, number_member key (intText_number (ints k)), ?_⟩
    rw [Slot.pieces, show k.name = (Slot.int k).key from rfl, numText_int, words,
      text_numField inside (zero_notMem_intText _)]
    simp
  | sound =>
    refine ⟨_, number_member key (intText_number flag), ?_⟩
    rw [Slot.pieces, show "will_sound_on" = Slot.sound.key from rfl, sound,
      text_numField inside (zero_notMem_intText _)]
    simp

theorem slots_members {l : List Slot} (inside : ∀ slot ∈ l, slot ∈ allSlots) :
    ∃ s, Derives .serial s (.members ((l ++ [Slot.text .isPullToRefresh]).map
        (Slot.member strings ints flag))) ∧
      l.flatMap (fun slot => text (slot.pieces b random)) ++ text (lastPieces b) =
        s ++ [0x7D] := by
  induction l with
  | nil =>
    have key := key_spells (text_mem_allSlots .isPullToRefresh)
    refine ⟨_, .lastMember (string_member key (spells_utf8 (unescaped _))), ?_⟩
    have whole : b.isPullToRefresh = utf8 (strings .isPullToRefresh) := texts .isPullToRefresh
    rw [List.flatMap_nil, List.nil_append, text_lastPieces, whole,
      cstr_whole (zero_notMem_strings (unescaped _))]
    simp
  | cons slot l ih =>
    rw [List.forall_mem_cons] at inside
    obtain ⟨s, member, here⟩ := slot_member unescaped texts words sound inside.1
    obtain ⟨r, others, rest⟩ := ih inside.2
    refine ⟨s ++ 0x2C :: r, .nextMember member others, ?_⟩
    rw [List.flatMap_cons, List.append_assoc, rest, here]
    simp

end Plain

theorem survives_of_plain {c : Captured} {b : IgBody} (header : Header c b) (plain : c.Plain)
    (random : UInt32) : Survives c (bodyText b (literal "%lu") random) := by
  choose strings printable texts using c.text
  choose ints words using c.int
  obtain ⟨flag, sound⟩ := numText_random random
  have unescaped : ∀ k, ∀ ch ∈ strings k, Unescaped ch := by
    intro k ch inside
    obtain ⟨quote, backslash, -⟩ := plain _ (texts k) k.name_static
    refine ⟨printable k ch inside, fun same => quote ?_, fun same => backslash ?_⟩
    · rw [← Char.toNat_inj.mp (show ch.toNat = '"'.toNat from same)]
      exact inside
    · rw [← Char.toNat_inj.mp (show ch.toNat = '\\'.toNat from same)]
      exact inside
  have values : ∀ k, b.text k = utf8 (strings k) := by
    intro k
    have value := (header_iff.mp header).1 k _ _ (texts k)
    have noTrigraph := (plain _ (texts k) k.name_static).2.2
    exact Option.some.inj (value.symm.trans (literalValue_escaped noTrigraph))
  have numbers : ∀ k, (b.int k).toBitVec.toInt = ints k := by
    intro k
    rw [(header_iff.mp header).2 k _ (words k), toInt_ofInt_iff]
    exact plain _ (words k) k.name_static
  obtain ⟨s, members, same⟩ := slots_members unescaped values numbers sound
    (fun slot (member : slot ∈ slots) => List.mem_append_left _ member)
  -- a key stands for one slot, so it has one value
  have fields {slot : Slot} (inside : slot ∈ allSlots) {v : BodyValue}
      (decoded : Decoded v (slot.tree strings ints flag)) :
      (∃ t, (slot.key.toList, t) ∈ allSlots.map (Slot.member strings ints flag)) ∧
        ∀ t, (slot.key.toList, t) ∈ allSlots.map (Slot.member strings ints flag) →
          Decoded v t := by
    refine ⟨⟨_, List.mem_map.mpr ⟨slot, inside, rfl⟩⟩, fun t found => ?_⟩
    obtain ⟨slot', inside', eq⟩ := List.mem_map.mp found
    obtain ⟨name, rfl⟩ := Prod.mk.inj eq
    rw [Slot.key_injective slot' inside' slot inside (String.toList_inj.mp name)]
    exact decoded
  refine ⟨allSlots.map (Slot.member strings ints flag), ?_, ?_⟩
  · have none : Ws [] := fun b member => absurd member List.not_mem_nil
    rw [bodyText_slots, same]
    simpa only [List.nil_append, List.append_nil, allSlots]
      using Derives.padded none (.object members) none
  · rintro ⟨name, v⟩ member static
    rcases c.static _ member static with ⟨k, rfl⟩ | ⟨k, rfl⟩
    · rw [c.unique member (texts k)]
      exact fields (text_mem_allSlots k) rfl
    · rw [c.unique member (words k)]
      exact fields (int_mem_allSlots k) rfl

/-! ### Every captured body -/

theorem survives_iff {c : Captured} {b : IgBody} (header : Header c b) (random : UInt32) :
    Survives c (bodyText b (literal "%lu") random) ↔ c.Plain :=
  ⟨plain_of_survives header, fun plain => survives_of_plain header plain random⟩

/-- What is captured comes back in the body exactly if it is plain, or there is no body: its
text does not fit the buffer, or the heap has no block for it. -/
theorem bodySurvives_iff {c : Captured} {b : IgBody} (header : Header c b) (heap : Heap)
    (nowMs : UInt64) (random : UInt32) :
    (∀ body, igBuildTimelineBody heap b nowMs random = .value body → Survives c body) ↔
      c.Plain ∨ bodyCap ≤ (bodyText b (literal "%lu") random).length ∨
        heap.grants ((bodyText b (literal "%lu") random).length + 1) = false := by
  rw [igBuildTimelineBody_eq]
  constructor
  · intro survives
    by_contra other
    rw [not_or, not_or, Nat.not_le, Bool.not_eq_false] at other
    exact other.1 ((survives_iff header random).mp (survives _ (if_pos other.2)))
  · intro condition body produced
    by_cases returned : (bodyText b (literal "%lu") random).length < bodyCap ∧
        heap.grants ((bodyText b (literal "%lu") random).length + 1) = true
    · rw [if_pos returned] at produced
      cases produced
      rcases condition with plain | full | refused
      · exact (survives_iff header random).mpr plain
      · omega
      · rw [returned.2] at refused
        cases refused
    · rw [if_neg returned] at produced
      cases produced

/-- A captured body with the given values. -/
def Captured.of (strings : TextKey → List Char) (printable : ∀ k, Printable (strings k))
    (ints : IntKey → Int) : Captured where
  body := TextKey.all.map (fun k => (k.name, .str (strings k) (printable k))) ++
    IntKey.all.map (fun k => (k.name, .int (ints k)))
  keys := by
    have names : (TextKey.all.map TextKey.name ++ IntKey.all.map IntKey.name).Nodup := by
      decide +kernel
    simpa [List.map_append, List.map_map, Function.comp_def] using names
  static := by
    intro field member _
    rcases List.mem_append.mp member with text | int
    · obtain ⟨k, -, rfl⟩ := List.mem_map.mp text
      exact Or.inl ⟨k, rfl⟩
    · obtain ⟨k, -, rfl⟩ := List.mem_map.mp int
      exact Or.inr ⟨k, rfl⟩
  text k := ⟨strings k, printable k,
    List.mem_append_left _ (List.mem_map.mpr ⟨k, k.mem_all, rfl⟩)⟩
  int k := ⟨ints k, List.mem_append_right _ (List.mem_map.mpr ⟨k, k.mem_all, rfl⟩)⟩

/-- The session with the given values of the macros. -/
def IgBody.of (text : TextKey → List UInt8) (int : IntKey → UInt32) : IgBody where
  hasCameraPermission := text .hasCameraPermission
  feedViewInfo := text .feedViewInfo
  clientSeenStoreMediaList := text .clientSeenStoreMediaList
  clientViewStateMediaList := text .clientViewStateMediaList
  deviceTimezoneName := text .deviceTimezoneName
  feedReshareInfo := text .feedReshareInfo
  phoneId := text .phoneId
  reason := text .reason
  batteryLevel := int .batteryLevel
  timezoneOffset := text .timezoneOffset
  deviceId := text .deviceId
  includeAttributionUiData := text .includeAttributionUiData
  pushDisabled := text .pushDisabled
  requestId := text .requestId
  uuid := text .uuid
  isCharging := int .isCharging
  isDarkMode := int .isDarkMode
  sessionId := text .sessionId
  sessionLevelSignals := text .sessionLevelSignals
  bloksVersioningId := text .bloksVersioningId
  isPullToRefresh := text .isPullToRefresh

/-- Without trigraphs the header compiles, and the macros are the captured values. -/
theorem header_of {strings : TextKey → List Char} {printable : ∀ k, Printable (strings k)}
    {ints : IntKey → Int} (noTrigraph : ∀ k, ¬HasTrigraph (utf8 (strings k))) :
    Header (.of strings printable ints)
      (.of (fun k => utf8 (strings k)) fun k => UInt32.ofInt (ints k)) := by
  refine header_iff.mpr ⟨fun k s written member => ?_, fun k n member => ?_⟩
  · have string : BodyValue.str s written = .str (strings k) (printable k) :=
      Captured.unique _ member (List.mem_append_left _ (List.mem_map.mpr ⟨k, k.mem_all, rfl⟩))
    rw [(BodyValue.str.inj string), literalValue_escaped (noTrigraph k)]
    cases k <;> rfl
  · have number : BodyValue.int n = .int (ints k) :=
      Captured.unique _ member (List.mem_append_right _ (List.mem_map.mpr ⟨k, k.mem_all, rfl⟩))
    rw [BodyValue.int.inj number]
    cases k <;> rfl

/-- The strings of a capture whose `feed_view_info` is `info`. -/
def infoStrings (info : List Char) : TextKey → List Char
  | .feedViewInfo => info
  | _ => ['1']

theorem infoStrings_printable {info : List Char} (printable : Printable info) (k : TextKey) :
    Printable (infoStrings info k) := by
  cases k
  case feedViewInfo => exact printable
  all_goals exact List.forall_mem_singleton.mpr (by decide)

/-- A capture with this `feed_view_info`. -/
def infoCapture (info : List Char) (printable : Printable info) : Captured :=
  .of (infoStrings info) (infoStrings_printable printable) fun _ => 1

def infoSession (info : List Char) : IgBody :=
  .of (fun k => utf8 (infoStrings info k)) fun _ => 1

theorem infoSession_header {info : List Char} (printable : Printable info)
    (noTrigraph : ¬HasTrigraph (utf8 info)) :
    Header (infoCapture info printable) (infoSession info) := by
  refine header_of fun k => ?_
  cases k
  case feedViewInfo => exact noTrigraph
  all_goals exact id

theorem infoSession_returned {info : List Char}
    (size : (bodyText (infoSession info) (literal "%lu") 0).length < bodyCap) (nowMs : UInt64) :
    igBuildTimelineBody .roomy (infoSession info) nowMs 0 =
      .value (bodyText (infoSession info) (literal "%lu") 0) := by
  have granted {n : Nat} (room : n < bodyCap) : Heap.roomy.grants (n + 1) = true := by
    have cap : bodyCap = 4096 := rfl
    exact decide_eq_true (by omega)
  rw [igBuildTimelineBody_eq, if_pos ⟨size, granted size⟩]

/-- An empty list of posts comes back. -/
theorem bodySurvives_empty : ∃ body,
    igBuildTimelineBody .roomy (infoSession ['[', ']']) 1700000000000 0 = .value body ∧
      Survives (infoCapture ['[', ']'] (by decide)) body := by
  have printable : Printable ['[', ']'] := by decide
  have plain : (infoCapture ['[', ']'] printable).Plain := by
    intro field member _
    rcases List.mem_append.mp member with text | int
    · obtain ⟨k, -, rfl⟩ := List.mem_map.mp text
      show '"' ∉ infoStrings ['[', ']'] k ∧ '\\' ∉ infoStrings ['[', ']'] k ∧
        ¬HasTrigraph (utf8 (infoStrings ['[', ']'] k))
      cases k <;> decide
    · obtain ⟨k, -, rfl⟩ := List.mem_map.mp int
      show -2 ^ 31 ≤ (1 : Int) ∧ (1 : Int) < 2 ^ 31
      decide
  have produced := @infoSession_returned ['[', ']'] (by decide +kernel) 1700000000000
  exact ⟨_, produced, (bodySurvives_iff (infoSession_header printable (by decide)) .roomy
    1700000000000 0).mpr (Or.inl plain) _ produced⟩

/-- A list of one post does not: its quotes end the string. -/
theorem not_bodySurvives : ¬∀ (c : Captured) (b : IgBody), Header c b →
    ∀ (heap : Heap) (nowMs : UInt64) (random : UInt32) (body : List UInt8),
      igBuildTimelineBody heap b nowMs random = .value body → Survives c body := by
  intro all
  have printable : Printable "[\"1\"]".toList := by decide
  have header := infoSession_header printable (by decide)
  have produced := @infoSession_returned "[\"1\"]".toList (by decide +kernel) 1700000000000
  have plain := plain_of_survives header (all _ _ header _ _ _ _ produced)
  have member : ("feed_view_info", BodyValue.str "[\"1\"]".toList printable) ∈
      (infoCapture "[\"1\"]".toList printable).body :=
    List.mem_append_left _ (List.mem_map.mpr ⟨.feedViewInfo, TextKey.mem_all _, rfl⟩)
  exact absurd (plain _ member (TextKey.name_static .feedViewInfo)).1 (by decide)

end InstagramNt40.IgPrivate
