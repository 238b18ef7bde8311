import InstagramNt40.Core.JsonComplete

/-!
# What `json_parse` accepts

The parser always ends, inside its input, and accepts exactly the texts of the
relaxed grammar; it is sound for RFC 8259 on the texts whose tokens are exact.
-/
namespace InstagramNt40.Json

open Scanner Rfc8259

/-! ### Fuel -/

/-- One more unit of fuel changes nothing once a call returns. -/
structure FuelSettles (fuel : Nat) : Prop where
  value : Settles (parseValue fuel) (parseValue (fuel + 1))
  array : Settles (parseArray fuel) (parseArray (fuel + 1))
  items : ∀ vals, Settles (arrayItems fuel vals) (arrayItems (fuel + 1) vals)
  object : Settles (parseObject fuel) (parseObject (fuel + 1))
  members : ∀ ms, Settles (objectMembers fuel ms) (objectMembers (fuel + 1) ms)

theorem parseValue_settles {fuel : Nat} (ih : FuelSettles fuel) :
    Settles (parseValue (fuel + 1)) (parseValue (fuel + 1 + 1)) := by
  unfold parseValue
  refine .bind (.refl _) fun _ => .bind (.refl _) fun next => ?_
  cases next with
  | none => exact .refl _
  -- only the two calls that recurse depend on the fuel
  | some c => exact .ite ih.object (.ite ih.array (.refl _))

theorem parseArray_settles {fuel : Nat} (ih : FuelSettles fuel) :
    Settles (parseArray (fuel + 1)) (parseArray (fuel + 1 + 1)) := by
  unfold parseArray
  refine .bind (.refl _) fun _ => .bind (.refl _) fun _ => .bind (.refl _) fun _ => ?_
  exact .bind (.refl _) fun empty => .ite (.refl _) (ih.items [])

theorem parseObject_settles {fuel : Nat} (ih : FuelSettles fuel) :
    Settles (parseObject (fuel + 1)) (parseObject (fuel + 1 + 1)) := by
  unfold parseObject
  refine .bind (.refl _) fun _ => .bind (.refl _) fun _ => .bind (.refl _) fun _ => ?_
  exact .bind (.refl _) fun empty => .ite (.refl _) (ih.members [])

theorem arrayItems_settles {fuel : Nat} (ih : FuelSettles fuel) (vals : List JsonValue) :
    Settles (arrayItems (fuel + 1) vals) (arrayItems (fuel + 1 + 1) vals) := by
  unfold arrayItems
  refine .bind ih.value fun item => .bind (.refl _) fun _ => .bind (.refl _) fun next => ?_
  cases next with
  | none => exact .refl _
  | some c => exact .ite (.bind (.refl _) fun _ => ih.items _) (.refl _)

theorem objectMembers_settles {fuel : Nat} (ih : FuelSettles fuel)
    (ms : List (List UInt8 × JsonValue)) :
    Settles (objectMembers (fuel + 1) ms) (objectMembers (fuel + 1 + 1) ms) := by
  unfold objectMembers
  refine .bind (.refl _) fun _ => .bind (.refl _) fun key => .bind (.refl _) fun _ => ?_
  refine .bind (.refl _) fun colon => .ite (.bind ih.value fun val => ?_) (.refl _)
  refine .bind (.refl _) fun _ => .bind (.refl _) fun next => ?_
  cases next with
  | none => exact .refl _
  | some c => exact .ite (.bind (.refl _) fun _ => ih.members _) (.refl _)

theorem fuel_settles (fuel : Nat) : FuelSettles fuel := by
  induction fuel with
  | zero =>
    refine ⟨?_, ?_, fun vals => ?_, ?_, fun ms => ?_⟩
    · unfold parseValue; exact .timeout _
    · unfold parseArray; exact .timeout _
    · unfold arrayItems; exact .timeout _
    · unfold parseObject; exact .timeout _
    · unfold objectMembers; exact .timeout _
  | succ fuel ih =>
    exact {
      value := parseValue_settles ih
      array := parseArray_settles ih
      items := arrayItems_settles ih
      object := parseObject_settles ih
      members := objectMembers_settles ih }

/-! ### Totality -/

/-- A call from inside the text does the same with enough fuel, and then it is safe. -/
theorem parseValue_returns {text : List UInt8} {x : Cursor} (inside : Inside text x) (fuel : Nat)
    (returned : parseValue fuel text x ≠ .timeout) :
    Safe text x (parseValue fuel) (ReadsSpaced text x) := by
  -- with the larger of the two amounts the call is safe, and it has settled
  have enough := (runs_safely text (max fuel (3 * (text.length - x.pos) + 1))).value x inside
    (Nat.le_max_right _ _)
  have same := settles_of_le (fun n => (fuel_settles n).value)
    (Nat.le_max_left fuel (3 * (text.length - x.pos) + 1)) text x returned
  unfold Safe at enough ⊢
  rwa [same] at enough

theorem jsonParseWith_settles {fuel more : Nat} (le : fuel ≤ more) :
    Settles (jsonParseWith fuel) (jsonParseWith more) := by
  unfold jsonParseWith
  exact .bind (.refl _) fun len => .ite (.refl _)
    (.bind (settles_of_le (fun n => (fuel_settles n).value) le) fun v => .refl _)

theorem value_ne_nil {s : List UInt8} {t : JsonTree (List UInt8 × List UInt8)}
    (h : Derives scanned s (.value t)) : s ≠ [] := by
  cases h with
  | number number =>
    rintro rfl
    obtain ⟨-, -, b, hb, -⟩ := number
    cases hb
  | _ => simp [Rfc8259.litNull, Rfc8259.litTrue, Rfc8259.litFalse]

/-- On every byte string the parser returns a value, at the end of the text and with
the depth counter at zero, or null, whatever fuel it is given beyond a bound. In any
state with the cursor inside the text and the nodes counted, no call of
`parse_value` reads or moves outside the text, moves backward or opens a 129th node;
one that succeeds has consumed a byte and restored the counter; and one that stands
at a bracket 128 levels deep fails at once. -/
theorem jsonParse_total (text : List UInt8) :
    (jsonParse text = .null ∨ ∃ v, jsonParse text = .ok v ⟨text.length, 0, 0⟩) ∧
    (∀ fuel, parseFuel text.length ≤ fuel →
      jsonParseWith fuel text ⟨0, 0, 0⟩ = jsonParse text) ∧
    (∀ fuel x, Inside text x →
      parseValue fuel text x ≠ .fault ∧
      (3 * (text.length - x.pos) + 1 ≤ fuel → parseValue fuel text x ≠ .timeout) ∧
      ∀ v y, parseValue fuel text x = .ok v y →
        x.pos < y.pos ∧ y.pos ≤ text.length ∧ y.depth = x.depth ∧ y.live = x.live) ∧
    (∀ fuel x w c r, rest text x = w ++ c :: r → Ws w → c = 0x5B ∨ c = 0x7B →
      jsonMaxDepth ≤ x.depth → parseValue (fuel + 2) text x = .null) := by
  refine ⟨?_, ?_, ?_, ?_⟩
  · -- a value or null, and after a value the cursor is at the end
    apply (jsonParseWith_safe text _ (Nat.le_refl _)).returns_or_null.imp_right
    rintro ⟨v, y, run, t, -, -, -, rfl⟩
    exact ⟨v, run⟩
  · intro fuel enough
    apply jsonParseWith_settles enough text ⟨0, 0, 0⟩
    intro timeout
    have safe := jsonParseWith_safe text _ (Nat.le_refl _)
    simp only [Safe, timeout] at safe
  · intro fuel x inside
    refine ⟨fun fault => ?_, fun enough timeout => ?_, fun v y run => ?_⟩
    · have safe := parseValue_returns inside fuel (by simp [fault])
      simp only [Safe, fault] at safe
    · have safe := (runs_safely text fuel).value x inside enough
      simp only [Safe, timeout] at safe
    · have safe := parseValue_returns inside fuel (by simp [run])
      obtain ⟨w, z, -, reads, s, t, derives, reads', -, -⟩ := safe.elim run
      -- what was consumed is the white space and the bytes of the value
      have further := (reads.trans reads').pos
      have some := List.length_pos_iff.mpr (value_ne_nil derives)
      rw [List.length_append] at further
      exact ⟨by omega, (inside.reads (reads.trans reads')).pos, (reads.trans reads').depth,
        (reads.trans reads').live⟩
  · rintro fuel x w c r left hw bracket deep
    have here := rest_forward left
    -- both functions step over the bracket and then ask for the level
    have refused := run_openNode_deep (x := (x.forward w.length).forward 1) text deep
    rcases bracket with rfl | rfl
    · rw [run_parseValue hw (by decide) left, if_neg (by decide), if_pos rfl]
      unfold parseArray
      rw [bind_ok (run_advance_one here), run_bind, Scan.bind, refused]
    · rw [run_parseValue hw (by decide) left, if_pos rfl]
      unfold parseObject
      rw [bind_ok (run_advance_one here), run_bind, Scan.bind, refused]

/-! ### Soundness -/

/-- An RFC 8259 text of nesting at most 128. -/
def RfcText (text : List UInt8) : Prop :=
  ∃ t, Derives (.spelled Number Body) text (.padded t) ∧ t.nesting ≤ jsonMaxDepth

/-- The same with relaxed number and string tokens. -/
def RelaxedText (text : List UInt8) : Prop :=
  ∃ t, Derives (.spelled RelaxedNumber RelaxedBody) text (.padded t) ∧ t.nesting ≤ jsonMaxDepth

/-- The parser is sound on a text: if it returns a value the text is an RFC 8259
text, and otherwise it returns null. -/
def SoundOn (text : List UInt8) : Prop :=
  (∀ v x, jsonParse text = .ok v x → RfcText text) ∧ (¬RfcText text → jsonParse text = .null)

theorem RfcText.tokens {text : List UInt8} (h : RfcText text) :
    ∀ k ∈ lex text, k.Meets Number Body := by
  obtain ⟨t, derives, -⟩ := h
  have same := derives.tokens_eq_lex lexical_exact
  rw [← same]
  exact derives.meets

theorem jsonParse_relaxed {text : List UInt8} {v : JsonValue} {x : Cursor}
    (run : jsonParse text = .ok v x) : RelaxedText text := by
  obtain ⟨t, derives, -, nesting, -⟩ := (jsonParseWith_safe text _ (Nat.le_refl _)).elim run
  refine ⟨t.map Prod.fst, derives.map Prod.fst (fun _ h => h) ?_, by rwa [JsonTree.nesting_map]⟩
  rintro s ⟨_, out⟩ ⟨rfl, decoded⟩
  exact ⟨rfl, decoded.relaxed⟩

theorem RelaxedText.parses {text : List UInt8} (h : RelaxedText text) :
    ∃ v x, jsonParse text = .ok v x := by
  obtain ⟨t, derives, nesting⟩ := h
  -- every relaxed body decodes to something
  choose! decode decoded using fun s => @decoded_of_relaxed s
  have numbers : ∀ s, RelaxedNumber s → decodedTokens.number s := fun _ h => h
  have bodies : ∀ s c, (Tokens.spelled RelaxedNumber RelaxedBody).body s c →
      decodedTokens.body s (decode c) := by
    rintro _ c ⟨rfl, body⟩
    exact decoded c body
  have derived := derives.map decode numbers bodies
  exact ⟨_, _, jsonParse_of_derives derived (by rwa [JsonTree.nesting_map])⟩

/-- The parser is sound for RFC 8259 exactly on the texts that are no JSON text even
with relaxed tokens, or whose number and string tokens are all exact. -/
theorem soundOn_iff (text : List UInt8) :
    SoundOn text ↔ (RelaxedText text → ∀ k ∈ lex text, k.Meets Number Body) := by
  have restrict (relaxed : RelaxedText text) (meets : ∀ k ∈ lex text, k.Meets Number Body) :
      RfcText text := by
    obtain ⟨t, derives, nesting⟩ := relaxed
    have same : t.tokens = lex text := derives.tokens_eq_lex lexical_relaxed
    exact ⟨t, derives.restrict fun k hk => meets k (same ▸ hk), nesting⟩
  constructor
  · rintro ⟨accepted, -⟩ relaxed
    -- a relaxed text is accepted, so by soundness it is an exact one
    obtain ⟨v, x, run⟩ := relaxed.parses
    exact (accepted v x run).tokens
  · intro meets
    refine ⟨fun v x run => restrict (jsonParse_relaxed run) (meets (jsonParse_relaxed run)), ?_⟩
    intro other
    -- a value would make the text an exact one
    apply ((jsonParseWith_safe text _ (Nat.le_refl _)).returns_or_null).resolve_right
    rintro ⟨v, x, run, -⟩
    exact other (restrict (jsonParse_relaxed run) (meets (jsonParse_relaxed run)))

theorem not_number_leadingZero : ¬Number [0x30, 0x31] := by
  rintro ⟨sign, i, f, e, shape, hsign, hi, hf, he⟩
  rcases hsign with rfl | rfl
  swap
  · cases shape
  rcases hi with rfl | ⟨d, ds, rfl, low, -, -⟩
  · -- after a zero only a fraction or an exponent can come
    simp only [List.nil_append, List.cons_append, List.cons.injEq, true_and] at shape
    rcases hf with rfl | ⟨ds, rfl, -⟩
    · rcases he with rfl | ⟨m, s, ds, rfl, mark, -, -⟩
      · cases shape
      · rw [List.nil_append, List.cons.injEq] at shape
        rw [← shape.1] at mark
        revert mark
        decide
    · cases shape
  · rw [List.nil_append, List.cons_append, List.cons.injEq] at shape
    rw [← shape.1] at low
    revert low
    decide

/-- The parser accepts `01`. -/
theorem not_soundOn_leadingZero : ¬SoundOn [0x30, 0x31] := by
  rintro ⟨accepted, -⟩
  have run : jsonParse [0x30, 0x31] = .ok (.num [0x30, 0x31] 2) ⟨2, 0, 0⟩ := rfl
  have tokens := (accepted _ _ run).tokens
  have found := lex_number (b := 0x30) (r := [0x31]) (Or.inr (by decide))
    (List.forall_mem_singleton.mpr (by decide)) .nil
  rw [lex_nil, List.append_nil] at found
  exact not_number_leadingZero (tokens (.number [0x30, 0x31]) (by rw [found]; simp))

end InstagramNt40.Json
