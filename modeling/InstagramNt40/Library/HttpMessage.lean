import InstagramNt40.Library.Ascii

/-!
# HTTP/1.1 responses

How a response is written: a status line, header fields, a blank line, and a body
in one of three framings.
-/
namespace Http1

open Ascii

def crlf : List UInt8 := [0x0D, 0x0A]

def IsBlank (b : UInt8) : Prop := b = 0x20 ∨ b = 0x09

/-- A byte that can stand inside a line. -/
def IsText (b : UInt8) : Prop := b ≠ 0 ∧ b ≠ 0x0D ∧ b ≠ 0x0A

instance : DecidablePred IsBlank := fun b => by unfold IsBlank; infer_instance
instance : DecidablePred IsText := fun b => by unfold IsText; infer_instance

theorem isText_of_digit {b : UInt8} (h : IsDigit b) : IsText b ∧ b ≠ 0x20 := by
  refine ⟨⟨?_, ?_, ?_⟩, ?_⟩ <;> (rintro rfl; revert h; decide)

/-- A header field as it is sent: a name, blanks after the colon, and a value. -/
structure Field where
  name : List UInt8
  pad : List UInt8
  value : List UInt8

structure Field.Wf (f : Field) : Prop where
  name : ∀ b ∈ f.name, IsText b ∧ b ≠ 0x3A
  pad : ∀ b ∈ f.pad, IsBlank b
  value : ∀ b ∈ f.value, IsText b
  start : ∀ b ∈ f.value.head?, ¬IsBlank b

def Field.line (f : Field) : List UInt8 := f.name ++ 0x3A :: (f.pad ++ f.value)

theorem Field.Wf.line {f : Field} (wf : f.Wf) : ∀ b ∈ f.line, IsText b := by
  intro b hb
  simp only [Field.line, List.mem_append, List.mem_cons] at hb
  rcases hb with hb | rfl | hb | hb
  · exact (wf.name b hb).1
  · decide
  · rcases wf.pad b hb with rfl | rfl <;> decide
  · exact wf.value b hb

def fieldLines (fs : List Field) : List UInt8 := fs.flatMap fun f => f.line ++ crlf

/-- A header field with optional whitespace around its value, which is not part of the
value. -/
structure SpacedField where
  name : List UInt8
  before : List UInt8
  value : List UInt8
  after : List UInt8
  name_plain : ∀ b ∈ name, IsText b ∧ b ≠ 0x3A
  before_blank : ∀ b ∈ before, IsBlank b
  value_text : ∀ b ∈ value, IsText b
  value_start : ∀ b ∈ value.head?, ¬IsBlank b
  value_end : ∀ b ∈ value.getLast?, ¬IsBlank b
  after_blank : ∀ b ∈ after, IsBlank b

def SpacedField.line (f : SpacedField) : List UInt8 :=
  f.name ++ 0x3A :: (f.before ++ (f.value ++ f.after))

/-- The same field with blanks inserted before and after its value. -/
structure SpacedField.Inserted (f f' : SpacedField) : Prop where
  name : f'.name = f.name
  value : f'.value = f.value
  before : f.before.Sublist f'.before
  after : f.after.Sublist f'.after

/-- A response: a status line, header fields, a blank line and the bytes after it. -/
def spacedBytes (statusLine : List UInt8) (fields : List SpacedField) (wire : List UInt8) :
    List UInt8 :=
  statusLine ++ (crlf ++ (fields.flatMap (fun f => f.line ++ crlf) ++ (crlf ++ wire)))

/-- The status line and header fields of a response. -/
structure Head where
  major : UInt8
  minor : UInt8
  code : List UInt8
  reason : List UInt8
  fields : List Field

structure Head.Wf (h : Head) : Prop where
  major : IsDigit h.major
  minor : IsDigit h.minor
  code_ne_nil : h.code ≠ []
  code : ∀ b ∈ h.code, IsDigit b
  reason : ∀ b ∈ h.reason, IsText b
  fields : ∀ f ∈ h.fields, f.Wf

/-- `HTTP/x.y` -/
def Head.version (h : Head) : List UInt8 :=
  [0x48, 0x54, 0x54, 0x50, 0x2F, h.major, 0x2E, h.minor]

theorem Head.Wf.version {h : Head} (wf : h.Wf) :
    ∀ b ∈ h.version, IsText b ∧ b ≠ 0x20 := by
  intro b hb
  simp only [Head.version, List.mem_cons, List.not_mem_nil, or_false] at hb
  rcases hb with rfl | rfl | rfl | rfl | rfl | rfl | rfl | rfl
  all_goals first
    | exact isText_of_digit wf.major
    | exact isText_of_digit wf.minor
    | decide

def Head.statusLine (h : Head) : List UInt8 :=
  h.version ++ 0x20 :: (h.code ++ 0x20 :: h.reason)

theorem Head.Wf.statusLine {h : Head} (wf : h.Wf) : ∀ b ∈ h.statusLine, IsText b := by
  intro b hb
  simp only [Head.statusLine, List.mem_append, List.mem_cons] at hb
  rcases hb with hb | rfl | hb | rfl | hb
  · exact (wf.version b hb).1
  · decide
  · exact (isText_of_digit (wf.code b hb)).1
  · decide
  · exact wf.reason b hb

def Head.bytes (h : Head) : List UInt8 :=
  h.statusLine ++ (crlf ++ (fieldLines h.fields ++ crlf))

/-- The fields without their padding. -/
def Head.headers (h : Head) : List (List UInt8 × List UInt8) :=
  h.fields.map fun f => (f.name, f.value)

/-! ### Framing -/

/-- Names and tokens are compared without regard to case. -/
def SameText (s s' : List UInt8) : Prop := s.map lower = s'.map lower

instance (s s' : List UInt8) : Decidable (SameText s s') := by unfold SameText; infer_instance

/-- The value of the first header of a name. -/
def lookup (headers : List (List UInt8 × List UInt8)) (name : List UInt8) :
    Option (List UInt8) := (headers.find? fun h => decide (SameText h.1 name)).map Prod.snd

/-- `"transfer-encoding"` -/
def transferEncoding : List UInt8 :=
  [0x74, 0x72, 0x61, 0x6E, 0x73, 0x66, 0x65, 0x72, 0x2D, 0x65, 0x6E, 0x63, 0x6F, 0x64, 0x69, 0x6E,
    0x67]

/-- `"content-length"` -/
def contentLength : List UInt8 :=
  [0x63, 0x6F, 0x6E, 0x74, 0x65, 0x6E, 0x74, 0x2D, 0x6C, 0x65, 0x6E, 0x67, 0x74, 0x68]

/-- `"chunked"` -/
def chunked : List UInt8 := [0x63, 0x68, 0x75, 0x6E, 0x6B, 0x65, 0x64]

/-- The transfer encoding of a response is `chunked`. -/
def IsChunked (headers : List (List UInt8 × List UInt8)) : Prop :=
  ∃ te, lookup headers transferEncoding = some te ∧ SameText te chunked

theorem isChunked_iff {headers : List (List UInt8 × List UInt8)} :
    IsChunked headers ↔
      (lookup headers transferEncoding).any (fun te => decide (SameText te chunked)) = true := by
  unfold IsChunked
  cases lookup headers transferEncoding <;> simp

instance (headers : List (List UInt8 × List UInt8)) : Decidable (IsChunked headers) :=
  decidable_of_iff _ isChunked_iff.symm

/-- A decimal number of at least one digit. -/
def DecimalText (s : List UInt8) (n : Nat) : Prop :=
  s ≠ [] ∧ (∀ b ∈ s, IsDigit b) ∧ decimal s = n

/-- A hexadecimal number of at least one digit. -/
def HexText (s : List UInt8) (n : Nat) : Prop :=
  s ≠ [] ∧ (∀ b ∈ s, IsHex b) ∧ hexadecimal s = n

/-- What may follow a chunk size up to the end of its line. -/
def Extension (ext : List UInt8) : Prop := 0x0A ∉ ext ∧ ∀ b ∈ ext.head?, ¬IsHex b

/-- `Chunked body wire`: the bytes `wire` carry `body` in chunks; a chunk of size zero
ends the body and any trailer may follow it. -/
inductive Chunked : List UInt8 → List UInt8 → Prop
  | last {size ext trailer} : HexText size 0 → Extension ext →
      Chunked [] (size ++ (ext ++ (crlf ++ trailer)))
  | chunk {size ext data body wire} : HexText size data.length → data ≠ [] → Extension ext →
      Chunked body wire →
      Chunked (data ++ body) (size ++ (ext ++ (crlf ++ (data ++ (crlf ++ wire)))))

/-- `Framed headers body wire`: after the headers the bytes `wire` carry `body`. -/
inductive Framed (headers : List (List UInt8 × List UInt8)) : List UInt8 → List UInt8 → Prop
  | contentLength {value body extra} : ¬IsChunked headers →
      lookup headers Http1.contentLength = some value → DecimalText value body.length →
      Framed headers body (body ++ extra)
  | chunked {body wire} : IsChunked headers → Chunked body wire → Framed headers body wire
  | untilClose {body} : ¬IsChunked headers → lookup headers Http1.contentLength = none →
      Framed headers body body

end Http1
