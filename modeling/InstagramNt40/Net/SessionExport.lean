import InstagramNt40.Library.CLiteral
import InstagramNt40.Library.JsonMembers
import InstagramNt40.Net.IgPrivate
import InstagramNt40.Net.PrintfAgree

/-!
# tools/export_ig_session.py

The `IG_BODY_*` macros that `main` writes for a captured request body, and their values as
the C compiler reads them. Python's strings are sequences of characters, and the header is
written in UTF-8.
-/
namespace InstagramNt40.IgPrivate

open Ascii CLiteral Crt
open Printf (intText)
open Rfc8259 (utf8 utf8_append)

/-! ### The script -/

/-- `s.replace(old, new)` for a single character. -/
def replaceChar (old : Char) (new s : List Char) : List Char :=
  s.flatMap fun c => if c = old then new else [c]

def cEscape (s : List Char) : List Char :=
  replaceChar '"' ['\\', '"'] (replaceChar '\\' ['\\', '\\'] s)

/-- No characters below the space. -/
def Printable (s : List Char) : Prop := ∀ c ∈ s, 0x20 ≤ c.toNat

instance : DecidablePred Printable := List.decidableBAll fun c : Char => 0x20 ≤ c.toNat

/-- The values of a request body, as `json.loads` gives them. -/
inductive BodyValue where
  | str (s : List Char) (printable : Printable s)
  | bool (b : Bool)
  | int (n : Int)

def dynamicBodyFields : List String :=
  ["app_start_time", "client_recorded_request_time_ms", "request_build_time", "will_sound_on"]

/-- What stands behind the name of a macro. -/
def defineText : BodyValue → List UInt8
  | .str s _ => 0x22 :: (utf8 (cEscape s) ++ [0x22])
  | .bool b => if b then [0x31] else [0x30]
  | .int n => intText n

/-- The lines of the static body fields: the names of the macros, and what they stand for. -/
def bodyDefines (body : List (String × BodyValue)) : List (String × List UInt8) :=
  (body.filter fun field => field.1 ∉ dynamicBodyFields).map fun field =>
    ("IG_BODY_" ++ field.1.toUpper, defineText field.2)

/-! ### The macros of the builder -/

/-- The string fields. -/
inductive TextKey where
  | hasCameraPermission
  | feedViewInfo
  | clientSeenStoreMediaList
  | clientViewStateMediaList
  | deviceTimezoneName
  | feedReshareInfo
  | phoneId
  | reason
  | timezoneOffset
  | deviceId
  | includeAttributionUiData
  | pushDisabled
  | requestId
  | uuid
  | sessionId
  | sessionLevelSignals
  | bloksVersioningId
  | isPullToRefresh
  deriving DecidableEq

namespace TextKey

def name : TextKey → String
  | hasCameraPermission => "has_camera_permission"
  | feedViewInfo => "feed_view_info"
  | clientSeenStoreMediaList => "client_seen_store_media_list"
  | clientViewStateMediaList => "client_view_state_media_list"
  | deviceTimezoneName => "device_timezone_name"
  | feedReshareInfo => "feed_reshare_info"
  | phoneId => "phone_id"
  | reason => "reason"
  | timezoneOffset => "timezone_offset"
  | deviceId => "device_id"
  | includeAttributionUiData => "include_attribution_ui_data"
  | pushDisabled => "push_disabled"
  | requestId => "request_id"
  | uuid => "_uuid"
  | sessionId => "session_id"
  | sessionLevelSignals => "session_level_signals"
  | bloksVersioningId => "bloks_versioning_id"
  | isPullToRefresh => "is_pull_to_refresh"

def macroName : TextKey → String
  | hasCameraPermission => "IG_BODY_HAS_CAMERA_PERMISSION"
  | feedViewInfo => "IG_BODY_FEED_VIEW_INFO"
  | clientSeenStoreMediaList => "IG_BODY_CLIENT_SEEN_STORE_MEDIA_LIST"
  | clientViewStateMediaList => "IG_BODY_CLIENT_VIEW_STATE_MEDIA_LIST"
  | deviceTimezoneName => "IG_BODY_DEVICE_TIMEZONE_NAME"
  | feedReshareInfo => "IG_BODY_FEED_RESHARE_INFO"
  | phoneId => "IG_BODY_PHONE_ID"
  | reason => "IG_BODY_REASON"
  | timezoneOffset => "IG_BODY_TIMEZONE_OFFSET"
  | deviceId => "IG_BODY_DEVICE_ID"
  | includeAttributionUiData => "IG_BODY_INCLUDE_ATTRIBUTION_UI_DATA"
  | pushDisabled => "IG_BODY_PUSH_DISABLED"
  | requestId => "IG_BODY_REQUEST_ID"
  | uuid => "IG_BODY__UUID"
  | sessionId => "IG_BODY_SESSION_ID"
  | sessionLevelSignals => "IG_BODY_SESSION_LEVEL_SIGNALS"
  | bloksVersioningId => "IG_BODY_BLOKS_VERSIONING_ID"
  | isPullToRefresh => "IG_BODY_IS_PULL_TO_REFRESH"

def all : List TextKey :=
  [hasCameraPermission, feedViewInfo, clientSeenStoreMediaList, clientViewStateMediaList,
    deviceTimezoneName, feedReshareInfo, phoneId, reason, timezoneOffset, deviceId,
    includeAttributionUiData, pushDisabled, requestId, uuid, sessionId, sessionLevelSignals,
    bloksVersioningId, isPullToRefresh]

theorem mem_all (k : TextKey) : k ∈ all := by
  cases k <;> decide

end TextKey

/-- The numeric fields. -/
inductive IntKey where
  | batteryLevel
  | isCharging
  | isDarkMode
  deriving DecidableEq

namespace IntKey

def name : IntKey → String
  | batteryLevel => "battery_level"
  | isCharging => "is_charging"
  | isDarkMode => "is_dark_mode"

def macroName : IntKey → String
  | batteryLevel => "IG_BODY_BATTERY_LEVEL"
  | isCharging => "IG_BODY_IS_CHARGING"
  | isDarkMode => "IG_BODY_IS_DARK_MODE"

def all : List IntKey := [batteryLevel, isCharging, isDarkMode]

theorem mem_all (k : IntKey) : k ∈ all := by
  cases k <;> decide

end IntKey

/-- The value of a string macro. -/
def IgBody.text (b : IgBody) : TextKey → List UInt8
  | .hasCameraPermission => b.hasCameraPermission
  | .feedViewInfo => b.feedViewInfo
  | .clientSeenStoreMediaList => b.clientSeenStoreMediaList
  | .clientViewStateMediaList => b.clientViewStateMediaList
  | .deviceTimezoneName => b.deviceTimezoneName
  | .feedReshareInfo => b.feedReshareInfo
  | .phoneId => b.phoneId
  | .reason => b.reason
  | .timezoneOffset => b.timezoneOffset
  | .deviceId => b.deviceId
  | .includeAttributionUiData => b.includeAttributionUiData
  | .pushDisabled => b.pushDisabled
  | .requestId => b.requestId
  | .uuid => b.uuid
  | .sessionId => b.sessionId
  | .sessionLevelSignals => b.sessionLevelSignals
  | .bloksVersioningId => b.bloksVersioningId
  | .isPullToRefresh => b.isPullToRefresh

def IgBody.int (b : IgBody) : IntKey → UInt32
  | .batteryLevel => b.batteryLevel
  | .isCharging => b.isCharging
  | .isDarkMode => b.isDarkMode

/-- The value of an integer in decimal. -/
def integerValue : List UInt8 → Int
  | 0x2D :: ds => -(decimal ds : Int)
  | ds => decimal ds

/-- A captured request body: a dictionary whose static fields are those of the builder. -/
structure Captured where
  body : List (String × BodyValue)
  keys : (body.map Prod.fst).Nodup
  static : ∀ field ∈ body, field.1 ∉ dynamicBodyFields →
    (∃ k : TextKey, field.1 = k.name) ∨ ∃ k : IntKey, field.1 = k.name
  text : ∀ k : TextKey, ∃ s printable, (k.name, .str s printable) ∈ body
  int : ∀ k : IntKey, ∃ n, (k.name, .int n) ∈ body

/-- The values of the macros in the header for a captured body. An integer constant is
passed on as its lowest 32 bits. -/
structure Header (c : Captured) (b : IgBody) : Prop where
  text : ∀ (k : TextKey) t, (k.macroName, t) ∈ bodyDefines c.body →
    literalValue t = some (b.text k)
  int : ∀ (k : IntKey) t, (k.macroName, t) ∈ bodyDefines c.body →
    b.int k = UInt32.ofInt (integerValue t)

/-! ### The macros of a captured body -/

theorem TextKey.macro_eq (k : TextKey) : "IG_BODY_" ++ k.name.toUpper = k.macroName := by
  cases k <;> decide +kernel

theorem IntKey.macro_eq (k : IntKey) : "IG_BODY_" ++ k.name.toUpper = k.macroName := by
  cases k <;> decide +kernel

theorem TextKey.macro_injective {k k' : TextKey} (same : k.macroName = k'.macroName) :
    k = k' := by
  have all : ∀ k ∈ TextKey.all, ∀ k' ∈ TextKey.all, k.macroName = k'.macroName → k = k' := by
    decide +kernel
  exact all k k.mem_all k' k'.mem_all same

theorem IntKey.macro_injective {k k' : IntKey} (same : k.macroName = k'.macroName) :
    k = k' := by
  have all : ∀ k ∈ IntKey.all, ∀ k' ∈ IntKey.all, k.macroName = k'.macroName → k = k' := by
    decide +kernel
  exact all k k.mem_all k' k'.mem_all same

theorem TextKey.macro_ne (k : TextKey) (i : IntKey) : k.macroName ≠ i.macroName := by
  have all : ∀ k ∈ TextKey.all, ∀ i ∈ IntKey.all, k.macroName ≠ i.macroName := by
    decide +kernel
  exact all k k.mem_all i i.mem_all

theorem TextKey.name_static (k : TextKey) : k.name ∉ dynamicBodyFields := by
  cases k <;> decide

theorem IntKey.name_static (k : IntKey) : k.name ∉ dynamicBodyFields := by
  cases k <;> decide

/-- A dictionary has one value for a key. -/
theorem Captured.unique (c : Captured) {name : String} {v v' : BodyValue}
    (member : (name, v) ∈ c.body) (member' : (name, v') ∈ c.body) : v = v' :=
  (Prod.mk.inj (List.inj_on_of_nodup_map c.keys member member' rfl)).2

/-- No two static fields share a macro. -/
theorem Captured.macro_injective (c : Captured) {name name' : String} {v v' : BodyValue}
    (member : (name, v) ∈ c.body) (static : name ∉ dynamicBodyFields)
    (member' : (name', v') ∈ c.body) (static' : name' ∉ dynamicBodyFields)
    (same : "IG_BODY_" ++ name.toUpper = "IG_BODY_" ++ name'.toUpper) : name = name' := by
  rcases c.static _ member static with ⟨k, rfl⟩ | ⟨i, rfl⟩ <;>
    rcases c.static _ member' static' with ⟨k', rfl⟩ | ⟨i', rfl⟩
  · rw [k.macro_eq, k'.macro_eq] at same
    rw [TextKey.macro_injective same]
  · rw [k.macro_eq, i'.macro_eq] at same
    exact absurd same (k.macro_ne i')
  · rw [i.macro_eq, k'.macro_eq] at same
    exact absurd same.symm (k'.macro_ne i)
  · rw [i.macro_eq, i'.macro_eq] at same
    rw [IntKey.macro_injective same]

/-- The macro of a static field stands for its value. -/
theorem Captured.mem_bodyDefines (c : Captured) {name : String} {v : BodyValue}
    (member : (name, v) ∈ c.body) (static : name ∉ dynamicBodyFields) (t : List UInt8) :
    ("IG_BODY_" ++ name.toUpper, t) ∈ bodyDefines c.body ↔ t = defineText v := by
  constructor
  · intro define
    obtain ⟨⟨name', v'⟩, found, same⟩ := List.mem_map.mp define
    obtain ⟨member', static'⟩ := List.mem_filter.mp found
    obtain ⟨macro_, rfl⟩ := Prod.mk.inj same
    obtain rfl := c.macro_injective member' (of_decide_eq_true static') member static macro_
    rw [c.unique member' member]
  · rintro rfl
    exact List.mem_map.mpr ⟨(name, v), List.mem_filter.mpr ⟨member, decide_eq_true static⟩, rfl⟩

/-! ### The values of the macros -/

theorem cEscape_cons (c : Char) (s : List Char) : cEscape (c :: s) = cEscape [c] ++ cEscape s := by
  unfold cEscape replaceChar
  rw [← List.flatMap_append, ← List.flatMap_append]
  rfl

/-- `c_escape` writes the text of a literal. -/
theorem utf8_cEscape {s : List Char} (printable : Printable s) :
    utf8 (cEscape s) = escaped (utf8 s) := by
  induction s with
  | nil => rfl
  | cons c s ih =>
    have first : utf8 (cEscape [c]) = escaped (String.utf8EncodeChar c) := by
      by_cases backslash : c = '\\'
      · subst backslash
        decide
      by_cases quote : c = '"'
      · subst quote
        decide
      -- other characters have neither byte in their encoding
      have plain : Rfc8259.Unescaped c := by
        refine ⟨printable c List.mem_cons_self, fun same => quote ?_, fun same => backslash ?_⟩
        · exact Char.toNat_inj.mp same
        · exact Char.toNat_inj.mp same
      have itself : cEscape [c] = [c] := by
        simp [cEscape, replaceChar, backslash, quote]
      rw [itself, escaped_plain plain.bytes]
      exact List.flatMap_singleton _ _
    rw [cEscape_cons, utf8_append, first, Rfc8259.utf8_cons, escaped_append,
      ih fun d member => printable d (List.mem_cons_of_mem c member)]

theorem defineText_str {s : List Char} (printable : Printable s) :
    defineText (.str s printable) = 0x22 :: (escaped (utf8 s) ++ [0x22]) := by
  rw [defineText, utf8_cEscape printable]

theorem integerValue_intText (n : Int) : integerValue (intText n) = n := by
  obtain ⟨nonempty, digits, value⟩ := Http1.decimalText_spec n.natAbs
  unfold intText
  split_ifs with negative
  · rw [List.singleton_append, integerValue, value]
    omega
  · rw [List.nil_append]
    obtain ⟨d, ds, text⟩ := List.exists_cons_of_ne_nil nonempty
    have notMinus : d ≠ 0x2D := by
      rintro rfl
      exact absurd (digits 0x2D (by rw [text]; exact List.mem_cons_self)) (by decide)
    rw [text] at value ⊢
    unfold integerValue
    split
    · next same => exact absurd (List.cons.inj same).1 notMinus
    · rw [value]
      omega

theorem header_iff {c : Captured} {b : IgBody} : Header c b ↔
    (∀ (k : TextKey) s printable, (k.name, .str s printable) ∈ c.body →
      literalValue (0x22 :: (escaped (utf8 s) ++ [0x22])) = some (b.text k)) ∧
    ∀ (k : IntKey) n, (k.name, .int n) ∈ c.body → b.int k = UInt32.ofInt n := by
  constructor
  · refine fun header => ⟨fun k s printable member => ?_, fun k n member => ?_⟩
    · rw [← defineText_str printable]
      refine header.text k _ ?_
      rw [← k.macro_eq]
      exact (c.mem_bodyDefines member k.name_static _).mpr rfl
    · rw [← integerValue_intText n]
      refine header.int k _ ?_
      rw [← k.macro_eq]
      exact (c.mem_bodyDefines member k.name_static _).mpr rfl
  · refine fun values => ⟨fun k t define => ?_, fun k t define => ?_⟩
    -- the body has a value for every macro
    · obtain ⟨s, printable, member⟩ := c.text k
      rw [← k.macro_eq, c.mem_bodyDefines member k.name_static, defineText_str] at define
      rw [define]
      exact values.1 k s printable member
    · obtain ⟨n, member⟩ := c.int k
      rw [← k.macro_eq, c.mem_bodyDefines member k.name_static] at define
      rw [define, defineText, integerValue_intText]
      exact values.2 k n member

end InstagramNt40.IgPrivate
