import InstagramNt40.Net.IgPrivate

/-!
# The timestamps of a timeline request

`mbedtls_nt4_vsnprintf` knows one `l`: it takes `%llu` for the unknown conversion `%ll`,
prints its second `l` and the `u` after it, and leaves the argument alone.
-/
namespace InstagramNt40.IgPrivate

open Crt Printf

/-- The decimal digits of a number. -/
def decimalDigits (n : Nat) : List UInt8 :=
  (Nat.toDigits 10 n).map fun c => UInt8.ofNat c.toNat

/-- The text of the string member `key`: what stands between its first occurrence and the
next quote. -/
def fieldText (body : List UInt8) (key : String) : Option (List UInt8) :=
  (strstr body 0 (openField key)).map fun p =>
    (body.drop (p + (openField key).length)).takeWhile (· != 0x22)

def timestampKeys : List String :=
  ["app_start_time", "client_recorded_request_time_ms", "request_build_time"]

/-- Each timestamp of the body is the time in decimal. -/
def TimestampsExact (body : List UInt8) (nowMs : UInt64) : Prop :=
  ∀ key ∈ timestampKeys, fieldText body key = some (decimalDigits nowMs.toNat)

/-! ### The body -/

/-- All pieces, up to their NULs. -/
def text (pieces : List (List UInt8)) : List UInt8 := pieces.flatMap (cstr · 0)

theorem text_cons (s : List UInt8) (pieces : List (List UInt8)) :
    text (s :: pieces) = cstr s 0 ++ text pieces := rfl

theorem append_pos (cap : Nat) (pieces : List (List UInt8)) (buf : List UInt8 × Nat) :
    (pieces.foldl (append cap) buf).2 = buf.2 + (text pieces).length := by
  induction pieces generalizing buf with
  | nil => rfl
  | cons s pieces ih =>
    rw [List.foldl_cons, ih, text_cons, List.length_append, ← Nat.add_assoc]
    rfl

/-- As long as everything fits, the buffer holds everything. -/
theorem append_fits {cap : Nat} {pieces : List (List UInt8)} {buf : List UInt8}
    (fits : buf.length + (text pieces).length < cap) :
    pieces.foldl (append cap) (buf, buf.length) =
      (buf ++ text pieces, buf.length + (text pieces).length) := by
  induction pieces generalizing buf with
  | nil => simp [text]
  | cons s pieces ih =>
    rw [text_cons, List.length_append] at fits
    have here : append cap (buf, buf.length) s =
        (buf ++ cstr s 0, (buf ++ cstr s 0).length) := by
      unfold append
      dsimp only
      rw [if_pos (by omega), List.take_length, List.length_append]
    rw [List.foldl_cons, here, ih (by rw [List.length_append]; omega), text_cons]
    simp [Nat.add_assoc]

/-- A body is returned exactly if it fits and the heap grants its block. -/
theorem finishBody_eq (heap : Heap) (pieces : List (List UInt8)) :
    finishBody heap pieces =
      if (text pieces).length < bodyCap ∧ heap.grants ((text pieces).length + 1) then
        .value (text pieces)
      else .null := by
  have pos := append_pos bodyCap pieces ([], 0)
  have fits : (text pieces).length < bodyCap →
      pieces.foldl (append bodyCap) ([], 0) = (text pieces, (text pieces).length) := by
    intro room
    have inside : ([] : List UInt8).length + (text pieces).length < bodyCap := by simpa using room
    simpa using append_fits inside
  unfold finishBody
  by_cases room : (text pieces).length < bodyCap
  · rw [fits room]
    simp [room, Nat.not_le.mpr room]
  · simp [pos, room, Nat.not_lt.mp room]

/-! ### The timestamps -/

theorem timestamp_text (nowMs : UInt64) :
    mbedtlsNt4Snprintf 24 (literal "%llu") (Arg.wide nowMs) = some ⟨literal "%lu", 3⟩ := rfl

/-- An `int` as text, in a buffer of `n` bytes. -/
def numText (n : Nat) (w : UInt32) : List UInt8 :=
  ((mbedtlsNt4Snprintf n (literal "%d") [.word w]).map (·.buf)).getD []

theorem number_text (n : Nat) (w : UInt32) :
    ∃ pos, mbedtlsNt4Snprintf n (literal "%d") [.word w] = some ⟨numText n w, pos⟩ := by
  have printed : ∃ out, mbedtlsNt4Snprintf n (literal "%d") [.word w] = some out := by
    have format : literal "%d" = [0x25, 0x64] := by decide
    rw [format]
    unfold mbedtlsNt4Snprintf
    by_cases negative : w ≥ 0x80000000
    · simp [formatLoop, skipByte, readWidth, convert, vaWord, negative]
    · simp [formatLoop, skipByte, readWidth, convert, vaWord, negative]
  obtain ⟨out, printed⟩ := printed
  refine ⟨out.pos, ?_⟩
  rw [numText, printed]
  rfl

/-- The body with the timestamps `ts`. -/
def bodyText (b : IgBody) (ts : List UInt8) (random : UInt32) : List UInt8 :=
  text (bodyPieces b ts (numText 16 b.batteryLevel) (numText 16 b.isCharging)
    (numText 16 b.isDarkMode) (numText 4 (igRandRange random 0 1)))

/-- Whatever the time is, the timestamps of a body are `%lu`. -/
theorem igBuildTimelineBody_eq (heap : Heap) (b : IgBody) (nowMs : UInt64) (random : UInt32) :
    igBuildTimelineBody heap b nowMs random =
      if (bodyText b (literal "%lu") random).length < bodyCap ∧
          heap.grants ((bodyText b (literal "%lu") random).length + 1) then
        .value (bodyText b (literal "%lu") random)
      else .null := by
  obtain ⟨_, battery⟩ := number_text 16 b.batteryLevel
  obtain ⟨_, charging⟩ := number_text 16 b.isCharging
  obtain ⟨_, dark⟩ := number_text 16 b.isDarkMode
  obtain ⟨_, sound⟩ := number_text 4 (igRandRange random 0 1)
  unfold igBuildTimelineBody
  rw [timestamp_text, battery, charging, dark, sound]
  exact finishBody_eq heap _

theorem text_append (pieces later : List (List UInt8)) :
    text (pieces ++ later) = text pieces ++ text later := List.flatMap_append

/-- A body begins with the bracket and the three appends of the first timestamp. -/
theorem bodyText_start (b : IgBody) (random : UInt32) : ∃ rest,
    bodyText b (literal "%lu") random = literal "\x7b\"app_start_time\":\"%lu\"," ++ rest := by
  have first : text ([literal "\x7b"] ++ timeField "app_start_time" (literal "%lu")) =
      literal "\x7b\"app_start_time\":\"%lu\"," := by decide +kernel
  unfold bodyText bodyPieces
  simp only [List.append_assoc]
  rw [← List.append_assoc, text_append, first]
  exact ⟨_, rfl⟩

theorem fieldText_start (rest : List UInt8) :
    fieldText (literal "\x7b\"app_start_time\":\"%lu\"," ++ rest) "app_start_time" =
      some (literal "%lu") := rfl

/-- A percent sign is no digit. -/
theorem decimalDigits_ne (n : Nat) : literal "%lu" ≠ decimalDigits n := by
  intro same
  have percent : (0x25 : UInt8) ∈ decimalDigits n := by
    rw [← same]
    decide
  obtain ⟨c, member, byte⟩ := List.mem_map.mp percent
  have digit := Nat.isDigit_of_mem_toDigits (by decide) (by decide) member
  rw [Char.isDigit, Bool.and_eq_true, decide_eq_true_eq, decide_eq_true_eq] at digit
  have low : 0x30 ≤ c.toNat := UInt32.le_iff_toNat_le.mp digit.1
  have high : c.toNat ≤ 0x39 := UInt32.le_iff_toNat_le.mp digit.2
  have value := congrArg UInt8.toNat byte
  rw [UInt8.toNat_ofNat_of_lt' (by simp only [UInt8.size]; omega)] at value
  have percent : c.toNat = 0x25 := value
  omega

/-- The timestamps are exact only where there is no body: where its text does not fit the
buffer, or the heap has no block for it. -/
theorem timestampsExact_iff (heap : Heap) (b : IgBody) (nowMs : UInt64) (random : UInt32) :
    (∀ body, igBuildTimelineBody heap b nowMs random = .value body → TimestampsExact body nowMs) ↔
      bodyCap ≤ (bodyText b (literal "%lu") random).length ∨
        heap.grants ((bodyText b (literal "%lu") random).length + 1) = false := by
  rw [igBuildTimelineBody_eq]
  constructor
  · intro exact_
    by_contra produced
    rw [not_or, Nat.not_le, Bool.not_eq_false] at produced
    have times := exact_ _ (if_pos produced) "app_start_time" (by simp [timestampKeys])
    obtain ⟨rest, start⟩ := bodyText_start b random
    rw [start, fieldText_start] at times
    exact decimalDigits_ne nowMs.toNat (Option.some.inj times)
  · intro absent body produced
    have none : ¬((bodyText b (literal "%lu") random).length < bodyCap ∧
        heap.grants ((bodyText b (literal "%lu") random).length + 1) = true) := by
      rintro ⟨room, granted⟩
      rcases absent with full | refused
      · omega
      · rw [granted] at refused
        cases refused
    rw [if_neg none] at produced
    cases produced

/-- A session of empty fields. -/
def emptyBody : IgBody :=
  ⟨[], [], [], [], [], [], [], [], 0, [], [], [], [], [], [], 0, 0, [], [], [], []⟩

/-- It asks for the feed at a time in 2023, and sends `%lu`. -/
theorem not_timestampsExact : ¬∀ (heap : Heap) (b : IgBody) (nowMs : UInt64) (random : UInt32)
    (body : List UInt8), igBuildTimelineBody heap b nowMs random = .value body →
      TimestampsExact body nowMs := by
  intro all
  have size : (bodyText emptyBody (literal "%lu") 0).length < bodyCap := by decide +kernel
  have produced : igBuildTimelineBody .roomy emptyBody 1700000000000 0 =
      .value (bodyText emptyBody (literal "%lu") 0) := by
    have granted {n : Nat} (room : n < bodyCap) : Heap.roomy.grants (n + 1) = true := by
      have cap : bodyCap = 4096 := rfl
      exact decide_eq_true (by omega)
    rw [igBuildTimelineBody_eq, if_pos ⟨size, granted size⟩]
  have times := all _ _ _ _ _ produced "app_start_time" (by simp [timestampKeys])
  obtain ⟨rest, start⟩ := bodyText_start emptyBody 0
  rw [start, fieldText_start] at times
  exact decimalDigits_ne _ (Option.some.inj times)

end InstagramNt40.IgPrivate
