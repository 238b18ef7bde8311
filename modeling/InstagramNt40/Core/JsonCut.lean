import InstagramNt40.Core.JsonCorrect
import InstagramNt40.Library.JsonBrackets

/-!
# Documents that are cut

An array or an object is over with its closing bracket, and not before: a text that is cut
anywhere before the end of such a value is no JSON text, so the parser refuses it rather
than read a part of it.
-/
namespace InstagramNt40.Json

open Scanner Rfc8259

/-- An array or an object. -/
def JsonValue.IsContainer : JsonValue → Prop
  | .arr _ => True
  | .obj _ => True
  | _ => False

theorem container_dom {t : JsonTree (List UInt8 × List UInt8)} :
    (dom (t.map Prod.snd)).IsContainer ↔ (t.map Prod.fst).IsContainer := by
  cases t <;> exact Iff.rfl

/-! ### The parts of a text -/

/-- A text the parser accepts: white space, the bytes `s` of a value, and white space. -/
structure Parts (text : List UInt8) (v : JsonValue) (w s w' : List UInt8)
    (t : JsonTree (List UInt8 × List UInt8)) : Prop where
  text : text = w ++ (s ++ w')
  before : Ws w
  value : Derives scanned s (.value t)
  after : Ws w'
  dom : v = dom (t.map Prod.snd)
  nesting : t.nesting ≤ jsonMaxDepth

theorem parts_of_run {text : List UInt8} {v : JsonValue} {x : Cursor}
    (run : jsonParse text = .ok v x) : ∃ w s w' t, Parts text v w s w' t := by
  obtain ⟨t, derives, value, nesting, -⟩ :=
    (jsonParseWith_safe text _ (Nat.le_refl _)).elim run
  cases derives with
  | padded hw hs hw' => exact ⟨_, _, _, _, rfl, hw, hs, hw', value, nesting⟩

section Parts

variable {text w s w' : List UInt8} {v : JsonValue} {t : JsonTree (List UInt8 × List UInt8)}

/-- The strings of the value as they are spelled. -/
theorem Parts.spelled (parts : Parts text v w s w' t) :
    Derives (.spelled RelaxedNumber RelaxedBody) s (.value (t.map Prod.fst)) := by
  refine parts.value.map Prod.fst (fun _ number => number) ?_
  rintro s ⟨_, out⟩ ⟨rfl, decoded⟩
  exact ⟨rfl, decoded.relaxed⟩

theorem Parts.decoded (parts : Parts text v w s w' t) :
    Derives decodedTokens s (.value (t.map Prod.snd)) := by
  refine parts.value.map Prod.snd (fun _ number => number) ?_
  rintro s ⟨_, out⟩ ⟨-, decoded⟩
  exact decoded

/-- The value begins with a byte that is no white space. -/
theorem Parts.head (parts : Parts text v w s w' t) : ∃ c r, s = c :: r ∧ ¬IsWs c := by
  obtain ⟨c, r, eq, notWs, -⟩ := Derives.value_head parts.decoded
  exact ⟨c, r, eq, notWs⟩

/-- More or less white space at the end leaves the value as it is. -/
theorem Parts.run (parts : Parts text v w s w' t) {w'' : List UInt8} (hw : Ws w'') :
    jsonParse (w ++ (s ++ w'')) = .ok v ⟨(w ++ (s ++ w'')).length, 0, 0⟩ := by
  rw [parts.dom]
  apply jsonParse_of_derives (.padded parts.before parts.decoded hw)
  rw [JsonTree.nesting_map]
  exact parts.nesting

theorem Parts.container (parts : Parts text v w s w' t) (container : v.IsContainer) :
    (t.map Prod.fst).IsContainer := by
  rw [parts.dom] at container
  exact container_dom.mp container

/-- The white space before a value ends where the value begins. -/
theorem Parts.align (parts : Parts text v w s w' t) {w₁ s₁ w₁' text₁ more : List UInt8}
    {v₁ : JsonValue} {t₁ : JsonTree (List UInt8 × List UInt8)}
    (parts₁ : Parts text₁ v₁ w₁ s₁ w₁' t₁) (split : text = text₁ ++ more) :
    w = w₁ ∧ s ++ w' = s₁ ++ (w₁' ++ more) := by
  obtain ⟨c, r, rfl, notWs⟩ := parts.head
  obtain ⟨c₁, r₁, rfl, notWs₁⟩ := parts₁.head
  rw [parts.text, parts₁.text, List.append_assoc, List.append_assoc] at split
  have blank (w : List UInt8) (hw : Ws w) {c : UInt8} (r : List UInt8) (notWs : ¬IsWs c) :
      (w ++ c :: r).takeWhile (fun b => decide (IsWs b)) = w :=
    takeWhile_append_stop (fun b member => decide_eq_true (hw b member)) (by simpa using notWs)
  have same : w = w₁ := by
    have left := blank w parts.before (r ++ w') notWs
    have right := blank w₁ parts₁.before (r₁ ++ (w₁' ++ more)) notWs₁
    rw [List.cons_append, List.cons_append] at split
    rw [split] at left
    exact left.symm.trans right
  subst same
  exact ⟨rfl, List.append_cancel_left split⟩

/-- The last byte of a container is its closing bracket. -/
theorem Parts.last (parts : Parts text v w s w' t) (container : v.IsContainer) :
    ∃ init b, s = init ++ [b] ∧ ¬IsWs b := by
  obtain ⟨b, inner, e, rfl, -, closes, -⟩ :=
    parts.spelled.container lexical_relaxed (parts.container container)
  refine ⟨b :: inner, e, rfl, ?_⟩
  rcases closes with rfl | rfl <;> decide

end Parts

/-! ### Cutting -/

/-- White space at the end of a document belongs to what follows its value. -/
theorem ws_suffix {s w' P more : List UInt8} (last : ∃ init b, s = init ++ [b] ∧ ¬IsWs b)
    (blank : Ws more) (split : s ++ w' = P ++ more) : ∃ w'', P = s ++ w'' ∧ w' = w'' ++ more := by
  rcases List.append_eq_append_iff.mp split with ⟨w'', eq, eq'⟩ | ⟨cut, eq, rfl⟩
  · exact ⟨w'', eq, eq'⟩
  · -- otherwise it would reach back to the closing bracket
    obtain ⟨init, b, rfl, notWs⟩ := last
    rcases List.eq_nil_or_concat cut with rfl | ⟨front, e, rfl⟩
    · exact ⟨[], by simpa using eq.symm, rfl⟩
    · rw [List.concat_eq_append, ← List.append_assoc] at eq
      have same : b = e := by simpa using (List.append_inj' eq rfl).2
      exact absurd (blank b (by simp [same])) notWs

section Cut

variable {T P more : List UInt8} {v : JsonValue} {x : Cursor}

/-- Only white space is missing. -/
theorem run_of_cut_blank (run : jsonParse T = .ok v x) (container : v.IsContainer)
    (split : T = P ++ more) (blank : Ws more) : jsonParse P = .ok v ⟨P.length, 0, 0⟩ := by
  obtain ⟨w, s, w', t, parts⟩ := parts_of_run run
  have whole : (w ++ s) ++ w' = P ++ more := by rw [← split, parts.text, List.append_assoc]
  obtain ⟨init, b, eq, notWs⟩ := parts.last container
  obtain ⟨w'', rfl, eq'⟩ := ws_suffix
    ⟨w ++ init, b, by rw [eq, List.append_assoc], notWs⟩ blank whole
  have after : Ws w'' := fun c member =>
    parts.after c (by rw [eq']; exact List.mem_append_left _ member)
  rw [List.append_assoc]
  exact parts.run after

/-- A value of the part would begin at the same bracket, and so end at the same one. -/
theorem blank_of_run (run : jsonParse T = .ok v x) (container : v.IsContainer)
    (split : T = P ++ more) {v₁ : JsonValue} {x₁ : Cursor} (run₁ : jsonParse P = .ok v₁ x₁) :
    Ws more := by
  obtain ⟨w, s, w', t, parts⟩ := parts_of_run run
  obtain ⟨w₁, s₁, w₁', t₁, parts₁⟩ := parts_of_run run₁
  obtain ⟨-, same⟩ := parts.align parts₁ split
  obtain ⟨b, inner, e, eq, opens, -, -⟩ :=
    parts.spelled.container lexical_relaxed (parts.container container)
  obtain ⟨c₁, r₁, eq₁, -⟩ := parts₁.head
  have head : s₁.head? = some b := by
    rw [eq, eq₁, List.cons_append, List.cons_append] at same
    rw [eq₁, List.head?_cons, (List.cons.inj same).1]
  have container₁ := parts₁.spelled.container_of_head lexical_relaxed opens head
  have unique := parts.spelled.container_unique lexical_relaxed parts₁.spelled
    (parts.container container) container₁ same
  rw [← unique] at same
  have rest : w' = w₁' ++ more := List.append_cancel_left same
  exact fun c member => parts.after c (by rw [rest]; exact List.mem_append_right _ member)

/-- A part of a document that is accepted has the same value. -/
theorem same_of_run (run : jsonParse T = .ok v x) (container : v.IsContainer)
    (shorter : P <+: T) {v₁ : JsonValue} {x₁ : Cursor} (run₁ : jsonParse P = .ok v₁ x₁) :
    v₁ = v := by
  obtain ⟨more, split⟩ := shorter
  have blank := blank_of_run run container split.symm run₁
  rw [run_of_cut_blank run container split.symm blank] at run₁
  cases run₁
  rfl

/-- A document whose value is an array or an object, cut anywhere: as long as only white
space is missing the value is the same, and otherwise there is none. -/
theorem jsonParse_cut (T P more : List UInt8) (v : JsonValue) (x : Cursor)
    (run : jsonParse T = .ok v x) (container : v.IsContainer) (split : T = P ++ more) :
    (Ws more → jsonParse P = .ok v ⟨P.length, 0, 0⟩) ∧ (¬Ws more → jsonParse P = .null) := by
  refine ⟨run_of_cut_blank run container split, fun some => ?_⟩
  rcases (jsonParseWith_safe P _ (Nat.le_refl _)).returns_or_null with null | ⟨v₁, x₁, run₁, -⟩
  · exact null
  · exact absurd (blank_of_run run container split run₁) some

end Cut

/-- `[1]` without its last byte. -/
theorem jsonParse_cut_array : jsonParse [0x5B, 0x31] = .null :=
  (jsonParse_cut [0x5B, 0x31, 0x5D] [0x5B, 0x31] [0x5D] (.arr [.num [0x31] 1]) ⟨3, 0, 0⟩ rfl trivial
    rfl).2 fun blank => absurd (blank 0x5D (by simp)) (by decide)

end InstagramNt40.Json
