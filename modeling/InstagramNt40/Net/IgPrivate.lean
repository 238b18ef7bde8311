import InstagramNt40.Net.Printf

/-!
# net/ig_private.c

The body of a timeline request: a captured session's fields with fresh timestamps. The
session is a generated header; the clock and the random bytes are the system's.
-/
namespace InstagramNt40.IgPrivate

open Crt Printf

/-- The `IG_BODY_*` of the session header. The numbers are `int`s, as their 32 bits. -/
structure IgBody where
  hasCameraPermission : List UInt8
  feedViewInfo : List UInt8
  clientSeenStoreMediaList : List UInt8
  clientViewStateMediaList : List UInt8
  deviceTimezoneName : List UInt8
  feedReshareInfo : List UInt8
  phoneId : List UInt8
  reason : List UInt8
  batteryLevel : UInt32
  timezoneOffset : List UInt8
  deviceId : List UInt8
  includeAttributionUiData : List UInt8
  pushDisabled : List UInt8
  requestId : List UInt8
  uuid : List UInt8
  isCharging : UInt32
  isDarkMode : UInt32
  sessionId : List UInt8
  sessionLevelSignals : List UInt8
  bloksVersioningId : List UInt8
  isPullToRefresh : List UInt8

/-- `ig_rand_range`, from the four bytes `v` of `ig_random_bytes`. -/
def igRandRange (v lo hi : UInt32) : UInt32 := lo + v % (hi - lo + 1)

/-- `append` to the bytes `buf` written so far, at `pos`: what does not fit is only
counted. -/
def append (cap : Nat) (buf : List UInt8 × Nat) (s : List UInt8) : List UInt8 × Nat :=
  let s := cstr s 0
  let len := s.length
  (if buf.2 + len < cap then buf.1.take buf.2 ++ s else buf.1, buf.2 + len)

/-- `"key":"`, up to the value of a string member. -/
def openField (key : String) : List UInt8 := literal "\"" ++ (literal key ++ literal "\":\"")

/-- `STRFIELD` -/
def strField (key : String) (val : List UInt8) : List UInt8 :=
  openField key ++ (val ++ literal "\",")

/-- `NUMFIELD`, from the `int` as text. -/
def numField (key : String) (numbuf : List UInt8) : List (List UInt8) :=
  [literal "\"" ++ (literal key ++ literal "\":"), numbuf, literal ","]

/-- The three appends of a timestamp. -/
def timeField (key : String) (ts : List UInt8) : List (List UInt8) :=
  [openField key, ts, literal "\","]

/-- The strings that `ig_build_timeline_body` appends: `ts` is the timestamp, then the
numbers as text. -/
def bodyPieces (b : IgBody) (ts battery charging dark sound : List UInt8) : List (List UInt8) :=
  [literal "\x7b"] ++ timeField "app_start_time" ts ++
  [strField "has_camera_permission" b.hasCameraPermission,
    strField "feed_view_info" b.feedViewInfo] ++
  timeField "client_recorded_request_time_ms" ts ++
  [strField "client_seen_store_media_list" b.clientSeenStoreMediaList,
    strField "client_view_state_media_list" b.clientViewStateMediaList,
    strField "device_timezone_name" b.deviceTimezoneName,
    strField "feed_reshare_info" b.feedReshareInfo,
    strField "phone_id" b.phoneId,
    strField "reason" b.reason] ++
  numField "battery_level" battery ++
  [strField "timezone_offset" b.timezoneOffset,
    strField "device_id" b.deviceId,
    strField "include_attribution_ui_data" b.includeAttributionUiData,
    strField "push_disabled" b.pushDisabled,
    strField "request_id" b.requestId] ++
  timeField "request_build_time" ts ++
  [strField "_uuid" b.uuid] ++
  numField "is_charging" charging ++
  numField "is_dark_mode" dark ++
  numField "will_sound_on" sound ++
  [strField "session_id" b.sessionId,
    strField "session_level_signals" b.sessionLevelSignals,
    strField "bloks_versioning_id" b.bloksVersioningId,
    openField "is_pull_to_refresh", b.isPullToRefresh, literal "\"",
    literal "\x7d"]

/-- `char buf[4096]` -/
def bodyCap : Nat := 4096

/-- The appends into `buf`, and the copy into a block of the heap. -/
def finishBody (heap : Heap) (pieces : List (List UInt8)) : Returned (List UInt8) :=
  let (buf, p) := pieces.foldl (append bodyCap) ([], 0)
  if p ≥ bodyCap then .null
  else if heap.grants (p + 1) then .value (buf.take p) else .null

def igBuildTimelineBody (heap : Heap) (b : IgBody) (nowMs : UInt64) (random : UInt32) :
    Returned (List UInt8) :=
  let printed := do
    let ts ← mbedtlsNt4Snprintf 24 (literal "%llu") (Arg.wide nowMs)
    let battery ← mbedtlsNt4Snprintf 16 (literal "%d") [.word b.batteryLevel]
    let charging ← mbedtlsNt4Snprintf 16 (literal "%d") [.word b.isCharging]
    let dark ← mbedtlsNt4Snprintf 16 (literal "%d") [.word b.isDarkMode]
    let sound ← mbedtlsNt4Snprintf 4 (literal "%d") [.word (igRandRange random 0 1)]
    some (bodyPieces b ts.buf battery.buf charging.buf dark.buf sound.buf)
  match printed with
  | some pieces => finishBody heap pieces
  | none => .fault

end InstagramNt40.IgPrivate
