import InstagramNt40.Library.JsonMembers
import InstagramNt40.Net.IgTimestamps
import InstagramNt40.Net.SessionExport

/-!
# The members of the timeline body

The text that `ig_build_timeline_body` appends, as a sequence of members: the key of each,
and the bytes that stand for its value.
-/
namespace InstagramNt40.IgPrivate

open CLiteral Crt Rfc8259
open Printf (intText snprintf_int)

/-! ### The members of the body -/

/-- A member of the body, in front of the last one. -/
inductive Slot where
  | time (key : String)
  | text (k : TextKey)
  | int (k : IntKey)
  | sound
  deriving DecidableEq

namespace Slot

def key : Slot → String
  | time key => key
  | text k => k.name
  | int k => k.name
  | sound => "will_sound_on"

/-- What is appended for a member. -/
def pieces (b : IgBody) (random : UInt32) : Slot → List (List UInt8)
  | time key => timeField key (literal "%lu")
  | text k => [strField k.name (b.text k)]
  | int k => numField k.name (numText 16 (b.int k))
  | sound => numField "will_sound_on" (numText 4 (igRandRange random 0 1))

end Slot

/-- The members in front of `is_pull_to_refresh`. -/
def slots : List Slot :=
  [.time "app_start_time", .text .hasCameraPermission, .text .feedViewInfo,
    .time "client_recorded_request_time_ms", .text .clientSeenStoreMediaList,
    .text .clientViewStateMediaList, .text .deviceTimezoneName, .text .feedReshareInfo,
    .text .phoneId, .text .reason, .int .batteryLevel, .text .timezoneOffset, .text .deviceId,
    .text .includeAttributionUiData, .text .pushDisabled, .text .requestId,
    .time "request_build_time", .text .uuid, .int .isCharging, .int .isDarkMode, .sound,
    .text .sessionId, .text .sessionLevelSignals, .text .bloksVersioningId]

def allSlots : List Slot := slots ++ [.text .isPullToRefresh]

/-- The last member and the closing bracket. -/
def lastPieces (b : IgBody) : List (List UInt8) :=
  [openField "is_pull_to_refresh", b.isPullToRefresh, literal "\"", literal "\x7d"]

theorem bodyText_slots (b : IgBody) (random : UInt32) :
    bodyText b (literal "%lu") random =
      0x7B :: (slots.flatMap (fun slot => text (slot.pieces b random)) ++ text (lastPieces b)) := by
  have pieces : bodyPieces b (literal "%lu") (numText 16 b.batteryLevel)
      (numText 16 b.isCharging) (numText 16 b.isDarkMode)
      (numText 4 (igRandRange random 0 1)) =
      [literal "\x7b"] ++ (slots.flatMap (·.pieces b random) ++ lastPieces b) := rfl
  have bracket : text [literal "\x7b"] = [0x7B] := by decide +kernel
  rw [bodyText, pieces, text_append, text_append, bracket]
  unfold text
  rw [List.flatMap_assoc]
  rfl

theorem text_mem_allSlots (k : TextKey) : Slot.text k ∈ allSlots := by
  cases k <;> decide

theorem int_mem_allSlots (k : IntKey) : Slot.int k ∈ allSlots := by
  cases k <;> decide

theorem Slot.key_injective : ∀ slot ∈ allSlots, ∀ slot' ∈ allSlots,
    slot.key = slot'.key → slot = slot' := by
  decide +kernel

/-! ### Keys -/

theorem literal_eq_utf8 (s : String) : literal s = utf8 s.toList := by
  show s.toByteArray.data.toList = utf8 s.toList
  rw [← String.utf8Encode_toList]
  exact List.toList_data_toByteArray

theorem Slot.key_unescaped {slot : Slot} (member : slot ∈ allSlots) :
    ∀ c ∈ slot.key.toList, Unescaped c := by
  have keys : ∀ slot ∈ allSlots, slot.key.toList.all (decide <| Unescaped ·) = true := by
    decide +kernel
  exact fun c inside => of_decide_eq_true (List.all_eq_true.mp (keys slot member) c inside)

theorem key_spells {slot : Slot} (member : slot ∈ allSlots) :
    Spells (literal slot.key) slot.key.toList := by
  rw [literal_eq_utf8]
  exact spells_utf8 (Slot.key_unescaped member)

theorem key_closed {slot : Slot} (member : slot ∈ allSlots) (r : List UInt8) :
    closeQuote (literal slot.key ++ 0x22 :: r) = some (literal slot.key).length :=
  (key_spells member).relaxed.closeQuote r

theorem timestamp_spells : Spells (literal "%lu") "%lu".toList := by
  have plain : "%lu".toList.all (decide <| Unescaped ·) = true := by decide
  rw [literal_eq_utf8]
  exact spells_utf8 fun c inside => of_decide_eq_true (List.all_eq_true.mp plain c inside)

theorem zero_notMem_utf8 {s : List Char} (printable : Printable s) : 0 ∉ utf8 s := fun member =>
  absurd (le_of_mem_utf8 printable 0 member) (by decide)

theorem zero_notMem_key {slot : Slot} (member : slot ∈ allSlots) : 0 ∉ literal slot.key := by
  rw [literal_eq_utf8]
  exact zero_notMem_utf8 fun c inside => (Slot.key_unescaped member c inside).1

/-- A key is only one name. -/
theorem key_unique {slot : Slot} (member : slot ∈ allSlots) {name : List Char}
    (spelled : Spells (literal slot.key) name) : name = slot.key.toList := by
  have plain : 0x5C ∉ utf8 slot.key.toList := by
    intro escape
    obtain ⟨c, inside, byte⟩ := List.mem_flatMap.mp escape
    exact ((Slot.key_unescaped member c inside).bytes _ byte).2 rfl
  rw [literal_eq_utf8] at spelled
  exact utf8_injective (spelled.eq_utf8 plain)

/-! ### Numbers -/

theorem intText_number (n : Int) : Number (intText n) := by
  have int : IntPart (Http1.decimalText n.natAbs) := by
    by_cases zero : n.natAbs = 0
    · rw [zero]
      exact Or.inl (by decide)
    · obtain ⟨d, ds, text, nonzero⟩ := Printf.decimalText_head zero
      have digits := (Http1.decimalText_spec n.natAbs).2.1
      rw [text] at digits ⊢
      obtain ⟨low, high⟩ := digits d List.mem_cons_self
      refine Or.inr ⟨d, ds, rfl, ?_, high, fun b member => digits b (List.mem_cons_of_mem d member)⟩
      rw [UInt8.le_iff_toNat_le] at low ⊢
      rw [ne_eq, ← UInt8.toNat_inj] at nonzero
      simp only [UInt8.reduceToNat] at low nonzero ⊢
      omega
  refine ⟨if n < 0 then [0x2D] else [], Http1.decimalText n.natAbs, [], [], ?_, ?_, int,
    Or.inl rfl, Or.inl rfl⟩
  · rw [List.append_nil, List.append_nil]
    rfl
  · split_ifs
    · exact Or.inr rfl
    · exact Or.inl rfl

theorem zero_notMem_intText (n : Int) : 0 ∉ intText n := fun member =>
  absurd ((intText_number n).bytes 0 member) (by decide)

theorem intText_injective {n m : Int} (same : intText n = intText m) : n = m := by
  rw [← integerValue_intText n, same, integerValue_intText]

theorem numText_int (w : UInt32) : numText 16 w = intText w.toBitVec.toInt := by
  obtain ⟨pos, printed⟩ := number_text 16 w
  exact snprintf_int (by decide) w printed

/-- An integer is passed on unchanged where it has 32 bits. -/
theorem toInt_ofInt_iff (n : Int) :
    (UInt32.ofInt n).toBitVec.toInt = n ↔ -2 ^ 31 ≤ n ∧ n < 2 ^ 31 := by
  have value : (UInt32.ofInt n).toBitVec.toInt = n.bmod (2 ^ 32) := by
    have small : (n % 2 ^ 32).toNat < 2 ^ 32 := by omega
    have nonneg : 0 ≤ n % 2 ^ 32 := by omega
    rw [BitVec.toInt_eq_toNat_bmod, UInt32.toNat_toBitVec, UInt32.ofInt,
      UInt32.toNat_ofNat_of_lt' small, Int.toNat_of_nonneg nonneg]
    exact Int.emod_bmod n (2 ^ 32)
  rw [value]
  constructor
  · intro same
    rw [← same]
    exact ⟨Int.le_bmod (by decide), Int.bmod_lt (by decide)⟩
  · intro range
    exact Int.bmod_eq_of_le (by omega) (by omega)

/-- The random flag. -/
theorem numText_random (random : UInt32) :
    ∃ n, numText 4 (igRandRange random 0 1) = intText n := by
  have flag : igRandRange random 0 1 = 0 ∨ igRandRange random 0 1 = 1 := by
    have value : igRandRange random 0 1 = random % 2 := UInt32.zero_add _
    have two : (2 : UInt32).toNat = 2 := rfl
    rw [value, ← UInt32.toNat_inj, ← UInt32.toNat_inj, UInt32.toNat_mod, two]
    exact Nat.mod_two_eq_zero_or_one random.toNat
  rcases flag with zero | one
  · exact ⟨0, by rw [zero]; decide +kernel⟩
  · exact ⟨1, by rw [one]; decide +kernel⟩

/-! ### The bytes of a member -/

section Bytes

variable {slot : Slot} (member : slot ∈ allSlots)

include member

theorem cstr_openField (r : List UInt8) :
    cstr (openField slot.key ++ r) 0 =
      0x22 :: (literal slot.key ++ 0x22 :: 0x3A :: 0x22 :: cstr r 0) := by
  have quote : literal "\"" = [0x22] := by decide
  have colon : literal "\":\"" = [0x22, 0x3A, 0x22] := by decide
  have plain : 0 ∉ openField slot.key := by
    rw [openField, quote, colon, List.mem_append, List.mem_append, not_or, not_or]
    exact ⟨by decide, zero_notMem_key member, by decide⟩
  rw [cstr_append plain, openField, quote, colon, List.append_assoc, List.append_assoc]
  rfl

theorem text_timeField (ts : List UInt8) : text (timeField slot.key ts) =
    0x22 :: (literal slot.key ++ 0x22 :: 0x3A :: 0x22 :: (cstr ts 0 ++ [0x22, 0x2C])) := by
  have open_ := cstr_openField member []
  have close : text [literal "\","] = [0x22, 0x2C] := by decide +kernel
  rw [List.append_nil] at open_
  rw [timeField, text_cons, text_cons, open_, close]
  simp [cstr]

theorem text_strField (val : List UInt8) : text [strField slot.key val] =
    0x22 :: (literal slot.key ++ 0x22 :: 0x3A :: 0x22 :: cstr (val ++ [0x22, 0x2C]) 0) := by
  have close : literal "\"," = [0x22, 0x2C] := by decide
  rw [text_cons, strField, close, cstr_openField member]
  exact List.append_nil _

theorem text_numField {num : List UInt8} (plain : 0 ∉ num) : text (numField slot.key num) =
    0x22 :: (literal slot.key ++ 0x22 :: 0x3A :: (num ++ [0x2C])) := by
  have quote : literal "\"" = [0x22] := by decide
  have colon : literal "\":" = [0x22, 0x3A] := by decide
  have close : text [literal ","] = [0x2C] := by decide +kernel
  have key : 0 ∉ literal "\"" ++ (literal slot.key ++ literal "\":") := by
    rw [quote, colon, List.mem_append, List.mem_append, not_or, not_or]
    exact ⟨by decide, zero_notMem_key member, by decide⟩
  rw [numField, text_cons, text_cons, cstr_whole key, cstr_whole plain, close, quote, colon]
  simp

end Bytes

theorem text_lastPieces (b : IgBody) : text (lastPieces b) =
    0x22 :: (literal (Slot.text .isPullToRefresh).key ++
      0x22 :: 0x3A :: 0x22 :: (cstr b.isPullToRefresh 0 ++ [0x22, 0x7D])) := by
  have open_ := cstr_openField (text_mem_allSlots .isPullToRefresh) []
  have close : text [literal "\"", literal "\x7d"] = [0x22, 0x7D] := by decide +kernel
  rw [List.append_nil] at open_
  rw [lastPieces, text_cons, text_cons, close]
  show cstr (openField (Slot.text .isPullToRefresh).key) 0 ++ _ = _
  rw [open_]
  simp [cstr]

end InstagramNt40.IgPrivate
