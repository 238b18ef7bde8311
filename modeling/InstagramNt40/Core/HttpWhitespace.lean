import InstagramNt40.Core.HttpRoundTrip
import Mathlib.Data.Bool.AllAny

/-!
# Optional whitespace

The parser skips the blanks before a value and keeps those after it. What blanks change
in a response is what they change in the values that end in them.
-/
namespace InstagramNt40.Http

open Crt Http1

/-- `http_header` as a string. -/
def HttpResponse.header (r : HttpResponse) (name : List UInt8) : Option (List UInt8) :=
  (httpHeader r.raw r.headers name).map (cstr r.raw)

/-- The value of a field as the parser reads it. -/
def seenValue (f : SpacedField) : List UInt8 := if f.value = [] then [] else f.value ++ f.after

/-- The field with the blanks where the parser has them: those after an empty value are
skipped like those before it. -/
def paddedField (f : SpacedField) : Field :=
  if f.value = [] then ⟨f.name, f.before ++ f.after, []⟩
  else ⟨f.name, f.before, f.value ++ f.after⟩

theorem paddedField_line (f : SpacedField) : (paddedField f).line = f.line := by
  unfold paddedField Field.line SpacedField.line
  split
  next empty => simp [empty]
  next => rfl

theorem paddedField_wf (f : SpacedField) : (paddedField f).Wf := by
  have blank {b : UInt8} (blank : IsBlank b) : IsText b := by
    rcases blank with rfl | rfl <;> decide
  unfold paddedField
  split
  next empty =>
    refine ⟨f.name_plain, ?_, by simp, by simp⟩
    exact List.forall_mem_append.mpr ⟨f.before_blank, f.after_blank⟩
  next some =>
    refine ⟨f.name_plain, f.before_blank, ?_, ?_⟩
    · exact List.forall_mem_append.mpr ⟨f.value_text, fun b hb => blank (f.after_blank b hb)⟩
    · dsimp only
      rw [List.head?_append_of_ne_nil _ some]
      exact f.value_start

/-- The headers the parser finds. -/
def seenHeaders (fields : List SpacedField) : List (List UInt8 × List UInt8) :=
  fields.map fun f => (f.name, seenValue f)

theorem readHeaders_spaced (fields : List SpacedField) (wire : List UInt8) :
    readHeaders (fields.flatMap (fun f => f.line ++ Http1.crlf) ++ (Http1.crlf ++ wire)) =
      some (seenHeaders fields, wire) := by
  have lines : fields.flatMap (fun f => f.line ++ Http1.crlf) =
      fieldLines (fields.map paddedField) := by
    simp [fieldLines, List.flatMap_map, paddedField_line]
  have wf : ∀ f ∈ fields.map paddedField, f.Wf :=
    List.forall_mem_map.mpr fun f _ => paddedField_wf f
  have seen : (fields.map paddedField).map (fun f => (f.name, f.value)) = seenHeaders fields := by
    unfold seenHeaders
    rw [List.map_map]
    apply List.map_congr_left
    intro f _
    unfold seenValue
    by_cases empty : f.value = [] <;> simp [paddedField, empty]
  rw [lines, readHeaders_fields wf, seen]

theorem readHead_spaced {line : List UInt8} (text : ∀ b ∈ line, IsText b)
    (fields : List SpacedField) (wire : List UInt8) :
    readHead (spacedBytes line fields wire) =
      if (spacedBytes line fields wire).length < 12 then none
      else (readStatus line).map fun s => ⟨s.1, s.2, seenHeaders fields, wire⟩ := by
  unfold readHead
  split
  · rfl
  · unfold spacedBytes
    rw [splitLine_text text]
    dsimp only
    cases readStatus line with
    | none => rfl
    | some s =>
      dsimp only
      rw [readHeaders_spaced]
      rfl

/-! ### The headers a program sees -/

theorem header_eq {r : HttpResponse} {headers : List (List UInt8 × List UInt8)}
    (kept : List.Forall₂ (HeaderAt r.raw) r.headers headers) {name : List UInt8}
    (plain : ∀ b ∈ name, b ≠ 0) : r.header name = lookup headers name := by
  obtain ⟨absent, present⟩ := httpHeader_eq kept plain
  unfold HttpResponse.header
  cases found : lookup headers name with
  | none => rw [absent found, Option.map_none]
  | some value =>
    obtain ⟨p, eq, at_⟩ := present value found
    rw [eq, Option.map_some, at_.cstr]

section Pairs

variable {pairs : List (SpacedField × SpacedField)}

/-- The first field of a name, in both forms. -/
theorem lookup_pairs (inserted : ∀ p ∈ pairs, p.1.Inserted p.2) (name : List UInt8) :
    lookup (seenHeaders (pairs.map Prod.fst)) name =
        (pairs.find? fun p => decide (SameText p.1.name name)).map (fun p => seenValue p.1) ∧
      lookup (seenHeaders (pairs.map Prod.snd)) name =
        (pairs.find? fun p => decide (SameText p.1.name name)).map fun p => seenValue p.2 := by
  induction pairs with
  | nil => exact ⟨rfl, rfl⟩
  | cons p pairs ih =>
    rw [List.forall_mem_cons] at inserted
    have tail := ih inserted.2
    unfold lookup seenHeaders at tail ⊢
    rw [List.map_cons, List.map_cons, List.map_cons, List.map_cons, List.find?_cons,
      List.find?_cons, List.find?_cons, inserted.1.name]
    cases decide (SameText p.1.name name) with
    | true => exact ⟨rfl, rfl⟩
    | false => exact tail

/-- No blanks were inserted after a value that a lookup finds. An empty value ends in no
blanks. -/
def EndsKept (pairs : List (SpacedField × SpacedField)) : Prop :=
  ∀ pre p post, pairs = pre ++ p :: post → (∀ q ∈ pre, ¬SameText q.1.name p.1.name) →
    p.1.value ≠ [] → p.2.after = p.1.after

theorem endsKept_of_all (same : ∀ p ∈ pairs, p.2.after = p.1.after) : EndsKept pairs := by
  rintro pre p post rfl _ _
  exact same p (List.mem_append_right pre List.mem_cons_self)

theorem lookup_same_iff (inserted : ∀ p ∈ pairs, p.1.Inserted p.2) :
    (∀ name, (∀ b ∈ name, b ≠ 0) → lookup (seenHeaders (pairs.map Prod.snd)) name =
      lookup (seenHeaders (pairs.map Prod.fst)) name) ↔ EndsKept pairs := by
  constructor
  · intro same pre p post shape first some
    have member : p ∈ pairs := by simp [shape]
    have lookups := same p.1.name fun b hb => (p.1.name_plain b hb).1.1
    have found : pairs.find? (fun q => decide (SameText q.1.name p.1.name)) = Option.some p := by
      rw [List.find?_eq_some_iff_append]
      exact ⟨decide_eq_true rfl, pre, post, shape, fun q hq => by simpa using first q hq⟩
    rw [(lookup_pairs inserted _).1, (lookup_pairs inserted _).2, found] at lookups
    have values : seenValue p.2 = seenValue p.1 := by simpa using lookups
    unfold seenValue at values
    rw [(inserted p member).value, if_neg some, if_neg some] at values
    exact List.append_cancel_left values
  · intro kept name _
    rw [(lookup_pairs inserted _).1, (lookup_pairs inserted _).2]
    cases found : pairs.find? (fun p => decide (SameText p.1.name name)) with
    | none => rfl
    | some p =>
      obtain ⟨named, pre, post, shape, first⟩ := List.find?_eq_some_iff_append.mp found
      have named : SameText p.1.name name := by simpa using named
      have member : p ∈ pairs := by simp [shape]
      rw [Option.map_some, Option.map_some]
      congr 1
      unfold seenValue
      rw [(inserted p member).value]
      split
      · rfl
      next some =>
        rw [kept pre p post shape (fun q hq other => ?_) some]
        -- a field of that name before would have been found
        have before := first q hq
        have both : SameText q.1.name name := other.trans named
        simp [both] at before

end Pairs

/-- The responses cannot be told apart by status, body and header lookups. -/
structure SameResponse (r r' : HttpResponse) : Prop where
  status : r'.status = r.status
  body : r'.bodyBytes = r.bodyBytes
  bodyLen : r'.bodyLen = r.bodyLen
  header : ∀ name, (∀ b ∈ name, b ≠ 0) → r'.header name = r.header name

/-- The body depends on the two headers that frame it. -/
theorem readBody_congr {headers headers' : List (List UInt8 × List UInt8)} (rest : List UInt8)
    (encoding : lookup headers' Http1.transferEncoding = lookup headers Http1.transferEncoding)
    (length : lookup headers' Http1.contentLength = lookup headers Http1.contentLength) :
    readBody headers' rest = readBody headers rest := by
  have framed : IsChunked headers' ↔ IsChunked headers := by
    unfold IsChunked
    rw [encoding]
  unfold readBody
  simp only [framed, length]

/-- Responses with the same status and bytes behind their heads are told apart by the lookups
in their headers. -/
theorem sameResponse_iff_lookup {r r' : HttpResponse} {head head' : HeadRead}
    (holds : Holds r head) (holds' : Holds r' head')
    (kept : List.Forall₂ (HeaderAt r.raw) r.headers head.headers)
    (kept' : List.Forall₂ (HeaderAt r'.raw) r'.headers head'.headers)
    (status : head'.status = head.status) (rest : head'.rest = head.rest) :
    SameResponse r r' ↔
      ∀ name, (∀ b ∈ name, b ≠ 0) → lookup head'.headers name = lookup head.headers name := by
  constructor
  · intro same name plain
    rw [← header_eq kept' plain, ← header_eq kept plain]
    exact same.header name plain
  · intro same
    have body := readBody_congr head.rest (same _ plain_transferEncoding)
      (same _ plain_contentLength)
    constructor
    · rw [holds'.status, holds.status, status]
    · rw [holds'.body, holds.body, rest, body]
    · rw [holds'.bodyLen, holds.bodyLen, rest, body]
    · intro name plain
      rw [header_eq kept' plain, header_eq kept plain]
      exact same name plain

theorem spacedBytes_length_le (line wire : List UInt8)
    {pairs : List (SpacedField × SpacedField)} (inserted : ∀ p ∈ pairs, p.1.Inserted p.2) :
    (spacedBytes line (pairs.map Prod.fst) wire).length ≤
      (spacedBytes line (pairs.map Prod.snd) wire).length := by
  have lines : ((pairs.map Prod.fst).flatMap fun f => f.line ++ Http1.crlf).length ≤
      ((pairs.map Prod.snd).flatMap fun f => f.line ++ Http1.crlf).length := by
    induction pairs with
    | nil => exact Nat.le_refl 0
    | cons p pairs ih =>
      rw [List.forall_mem_cons] at inserted
      have tail := ih inserted.2
      have line : p.1.line.length ≤ p.2.line.length := by
        have before := inserted.1.before.length_le
        have after := inserted.1.after.length_le
        simp only [SpacedField.line, List.length_append, List.length_cons, inserted.1.name,
          inserted.1.value]
        omega
      simp only [List.map_cons, List.flatMap_cons, List.length_append]
      omega
  simp only [spacedBytes, List.length_append]
  omega

/-- Blanks inserted into an accepted response make no difference exactly if none come after
a value that a lookup finds. -/
theorem sameResponse_iff {line wire : List UInt8} {pairs : List (SpacedField × SpacedField)}
    {r : HttpResponse} (text : ∀ b ∈ line, IsText b)
    (inserted : ∀ p ∈ pairs, p.1.Inserted p.2)
    (accepted : httpParseResponse (spacedBytes line (pairs.map Prod.fst) wire) = some r) :
    (∃ r', httpParseResponse (spacedBytes line (pairs.map Prod.snd) wire) = some r' ∧
      SameResponse r r') ↔ EndsKept pairs := by
  obtain ⟨noHead, someHead⟩ := httpParseResponse_kept (spacedBytes line (pairs.map Prod.fst) wire)
  have longer := spacedBytes_length_le line wire inserted
  have read := readHead_spaced text (pairs.map Prod.fst) wire
  have read' := readHead_spaced text (pairs.map Prod.snd) wire
  by_cases short : (spacedBytes line (pairs.map Prod.fst) wire).length < 12
  · rw [if_pos short] at read
    rw [noHead read] at accepted
    cases accepted
  rw [if_neg short] at read
  rw [if_neg (by omega)] at read'
  cases status : readStatus line with
  | none =>
    rw [status] at read
    rw [noHead read] at accepted
    cases accepted
  | some s =>
    rw [status, Option.map_some] at read read'
    obtain ⟨r₀, parsed, holds, kept⟩ := someHead _ read
    rw [parsed] at accepted
    cases accepted
    obtain ⟨r', parsed', holds', kept'⟩ :=
      (httpParseResponse_kept (spacedBytes line (pairs.map Prod.snd) wire)).2 _ read'
    have lookups := sameResponse_iff_lookup holds holds' kept kept' rfl rfl
    rw [← lookup_same_iff inserted, ← lookups]
    constructor
    · rintro ⟨r'', again, same⟩
      rw [parsed'] at again
      cases again
      exact same
    · intro same
      exact ⟨r', parsed', same⟩

/-- `transfer-encoding: chunked`, with blanks before and after the value. -/
def chunkedField (before after : List UInt8)
    (blank : (before ++ after).all (fun b => decide (IsBlank b)) = true) : SpacedField where
  name := Http1.transferEncoding
  before := before
  value := Http1.chunked
  after := after
  name_plain := List.all_iff_forall_prop.mp (by decide)
  before_blank b hb := List.all_iff_forall_prop.mp blank b (List.mem_append_left after hb)
  value_text := List.all_iff_forall_prop.mp (by decide)
  value_start := by simp [Http1.chunked, IsBlank]
  value_end := by simp [Http1.chunked, IsBlank]
  after_blank b hb := List.all_iff_forall_prop.mp blank b (List.mem_append_right before hb)

/-- A response with the field that gives its body in a chunk of two bytes. -/
def chunkedResponse (field : SpacedField) : List UInt8 :=
  spacedBytes (literal "HTTP/1.1 200 OK") [field] (literal "2\r\nok\r\n0\r\n\r\n")

/-- A tab before the value makes no difference. -/
theorem sameResponse_iff_tab :
    ∃ r r', httpParseResponse (chunkedResponse (chunkedField [0x20] [] rfl)) = some r ∧
      httpParseResponse (chunkedResponse (chunkedField [0x20, 0x09] [] rfl)) = some r' ∧
      SameResponse r r' := by
  have inserted : (chunkedField [0x20] [] rfl).Inserted (chunkedField [0x20, 0x09] [] rfl) :=
    ⟨rfl, rfl, by decide, by decide⟩
  have returns : (httpParseResponse (chunkedResponse (chunkedField [0x20] [] rfl))).isSome =
      true := by decide +kernel
  obtain ⟨r, accepted⟩ := Option.isSome_iff_exists.mp returns
  obtain ⟨r', parsed, same⟩ := (@sameResponse_iff _ _ [(_, _)] r
    (List.all_iff_forall_prop.mp (by decide)) (List.forall_mem_singleton.mpr inserted)
    accepted).mpr (endsKept_of_all (List.forall_mem_singleton.mpr rfl))
  exact ⟨r, r', accepted, parsed, same⟩

/-- With a space after `chunked` the body is handed on in its chunks. -/
theorem not_sameResponse :
    (httpParseResponse (chunkedResponse (chunkedField [0x20] [] rfl))).map
        (fun r => (r.bodyLen, r.bodyBytes)) = some (2, literal "ok") ∧
    (httpParseResponse (chunkedResponse (chunkedField [0x20] [0x20] rfl))).map
        (fun r => (r.bodyLen, r.bodyBytes)) = some (12, literal "2\r\nok\r\n0\r\n\r\n") := by
  constructor <;> decide +kernel

end InstagramNt40.Http
