import InstagramNt40.Core.HttpChunks
import InstagramNt40.Pal.Alloc

/-!
# The heap of core/http.c

The response parser with its allocations: the raw copy, the header array, which grows by
one header at a time, and the decoded body. On every error path it frees what it has.
-/
namespace InstagramNt40.HttpHeap

open Ownership Alloc Crt Http Scanner

/-- The pointers of an `HttpResponse` that own something. -/
structure Owned where
  raw : Option Block
  headers : Option Block
  bodyOwned : Option Block

def Owned.blocks (r : Owned) : Multiset Block :=
  owned r.raw + owned r.headers + owned r.bodyOwned

/-- `http_response_free`: the pointers are NULL afterwards. -/
def httpResponseFree (r : Owned) : Proc Owned := do
  free r.headers
  free r.bodyOwned
  free r.raw
  pure ⟨none, none, none⟩

/-- `http_response_free(out); return -1;` -/
def giveUp {α : Type} (r : Owned) : Proc (Option α) := do
  let _ ← httpResponseFree r
  pure none

/-- The loop over the header lines: the memory it leaves, the header array, the headers and
the start of the body. -/
def headerLoop (raw : Block) : Nat → List UInt8 → Option Block → List (Nat × Nat) → Nat →
    Proc (Option (List UInt8 × Option Block × List (Nat × Nat) × Nat))
  | 0, _, array, _, _ => giveUp ⟨some raw, array, none⟩
  | fuel + 1, mem, array, headers, p => do
    touch raw
    match strstr mem p crlf with
    | none => giveUp ⟨some raw, array, none⟩
    | some lineEnd =>
      if lineEnd = p then pure (some (mem, array, headers, p + 2))
      else
        let mem := mem.set lineEnd 0
        match strchr mem p 0x3A with
        | none => headerLoop raw fuel mem array headers (lineEnd + 2)
        | some colon =>
          let mem := mem.set colon 0
          let val := colon + 1 + ((mem.drop (colon + 1)).takeWhile isBlank).length
          match ← realloc array with
          | none => giveUp ⟨some raw, array, none⟩
          | some nh => headerLoop raw fuel mem (some nh) (headers ++ [(p, val)]) (lineEnd + 2)

/-- `dechunk`: the buffer comes first, and then the decoding. -/
def dechunk (fuel : Nat) (text : List UInt8) : Proc (Option (Block × List UInt8)) := do
  match ← malloc with
  | none => pure none
  | some out =>
    match Http.dechunk fuel text ⟨0, 0, 0⟩ with
    | .ok decoded _ => pure (some (out, decoded))
    | _ => fault

/-- The body framing: the copy of the body, if one is made, and the body. -/
def frameBody (raw : Block) (mem : List UInt8) (array : Option Block)
    (headers : List (Nat × Nat)) (p remaining : Nat) :
    Proc (Option (Option Block × Body × Nat)) := do
  touch raw
  if isChunked mem headers then
    match ← dechunk (remaining + 1) ((mem.drop p).take remaining) with
    | none => giveUp ⟨some raw, array, none⟩
    | some (out, decoded) => pure (some (some out, .owned decoded, decoded.length))
  else
    match httpHeader mem headers contentLength with
    | some cl =>
      pure (some (none, .inRaw p, clampLength (wrap32 (parseLong (mem.drop cl))) remaining))
    | none => pure (some (none, .inRaw p, remaining))

/-- `http_parse_response`: what it owns and what the response shows; `none` is -1. -/
def httpParseResponse (data : List UInt8) : Proc (Option (Owned × HttpResponse)) := do
  if data.length < 12 then pure none
  else
    match ← malloc with
    | none => pure none
    | some raw =>
      let mem := data ++ [0]
      match strstr mem 0 crlf with
      | none => giveUp ⟨some raw, none, none⟩
      | some eol =>
        let mem := mem.set eol 0
        match statusLine mem with
        | none => giveUp ⟨some raw, none, none⟩
        | some (status, reason) =>
          match ← headerLoop raw data.length mem none [] (eol + 2) with
          | none => pure none
          | some (mem, array, headers, p) =>
            match ← frameBody raw mem array headers p (data.length - p) with
            | none => pure none
            | some (bodyOwned, body, bodyLen) =>
              pure (some (⟨some raw, array, bodyOwned⟩,
                { status, reason, headers, body, bodyLen, raw := mem }))

/-! ### What it owns -/

/-- The pointer to a body leads into a block that is owned. -/
def Owned.place (r : Owned) : Body → Option Block
  | .inRaw _ => r.raw
  | .owned _ => r.bodyOwned

theorem Owned.mem_of_place (r : Owned) {body : Body} {place : Block}
    (at_place : r.place body = some place) : place ∈ r.blocks := by
  unfold Owned.place at at_place
  rw [Owned.blocks]
  split at at_place <;> simp [at_place]

theorem httpResponseFree_spec (r : Owned) :
    Triple r.blocks (httpResponseFree r) Owned.blocks fun refused r' =>
      refused = false ∧ r' = ⟨none, none, none⟩ := by
  unfold httpResponseFree
  refine (Triple.releaseOption r.headers).quiet (F := owned r.raw + owned r.bodyOwned)
    (by rw [Owned.blocks]; abel) fun _ => ?_
  refine (Triple.releaseOption r.bodyOwned).quiet (F := owned r.raw) (by abel) fun _ => ?_
  refine (Triple.releaseOption r.raw).quiet (F := 0) (by abel) fun _ => ?_
  exact .pure rfl ⟨rfl, rfl⟩

theorem giveUp_spec {α : Type} (r : Owned) {own : Option α → Multiset Block}
    (nothing : own none = 0) {Q : Bool → Option α → Prop} (gone : Q false none) :
    Triple r.blocks (giveUp r) own Q := by
  refine (httpResponseFree_spec r).call (F := 0) (add_zero _).symm fun r' refused freed => ?_
  obtain ⟨rfl, rfl⟩ := freed
  exact .pure (by rw [nothing]; rfl) gone

theorem headerLoop_spec (raw : Block) (fuel : Nat) (mem : List UInt8) (array : Option Block)
    (headers : List (Nat × Nat)) (p : Nat) :
    Triple ({raw} + owned array) (headerLoop raw fuel mem array headers p)
      (fun o => match o with
        | some (_, array', _, _) => {raw} + owned array'
        | none => 0)
      fun r o => match o with
        | some (mem', _, headers', p') =>
          r = false ∧ Http.headerLoop fuel mem headers p = some (mem', headers', p')
        | none => r = true ∨ Http.headerLoop fuel mem headers p = none := by
  induction fuel generalizing mem array headers p with
  | zero =>
    unfold headerLoop Http.headerLoop
    exact (giveUp_spec ⟨some raw, array, none⟩ rfl (Or.inr rfl)).mono
      (by simp [Owned.blocks]) fun _ _ holds => ⟨rfl, holds⟩
  | succ fuel ih =>
    have give {r : Bool} {run : Option (List UInt8 × List (Nat × Nat) × Nat)}
        (reason : r = true ∨ run = none) :
        Triple ({raw} + owned array)
          (giveUp ⟨some raw, array, none⟩ : Proc (Option (List UInt8 × Option Block × _ × Nat)))
          (fun o => match o with
            | some (_, array', _, _) => {raw} + owned array'
            | none => 0)
          fun r' o => match o with
            | some (mem', _, headers', p') =>
              (r || r') = false ∧ run = some (mem', headers', p')
            | none => (r || r') = true ∨ run = none :=
      (giveUp_spec ⟨some raw, array, none⟩ rfl (by simpa using reason)).mono
        (by simp [Owned.blocks]) fun _ _ holds => ⟨rfl, holds⟩
    unfold headerLoop Http.headerLoop
    refine (Triple.touch raw).quiet (F := owned array) rfl fun _ => ?_
    cases strstr mem p crlf with
    | none => exact give (r := false) (Or.inr rfl)
    | some lineEnd =>
      dsimp only
      split_ifs with blank
      · exact .pure rfl ⟨rfl, rfl⟩
      · cases strchr (mem.set lineEnd 0) p 0x3A with
        | none => exact ih _ array headers _
        | some colon =>
          dsimp only
          refine (Triple.resize array).call (F := {raw}) (add_comm _ _) fun nh r answer => ?_
          subst answer
          cases nh with
          | none =>
            refine Triple.mono (give (r := true) (Or.inl rfl)) ?_ fun _ _ holds => ⟨rfl, holds⟩
            simp [add_comm]
          | some nh =>
            refine (ih _ (some nh) _ _).mono ?_ fun o r holds => ⟨rfl, ?_⟩
            · simp [add_comm]
            · cases o <;> simpa using holds

theorem frameBody_spec (raw : Block) (mem : List UInt8) (array : Option Block)
    (headers : List (Nat × Nat)) (p remaining : Nat) :
    Triple ({raw} + owned array) (frameBody raw mem array headers p remaining)
      (fun o => match o with
        | some (bodyOwned, _, _) => {raw} + owned array + owned bodyOwned
        | none => 0)
      fun r o => match o with
        | some (bodyOwned, body, bodyLen) =>
          r = false ∧ (Owned.place ⟨some raw, array, bodyOwned⟩ body).isSome = true ∧
            Http.frameBody mem headers p remaining = some (body, bodyLen)
        | none => r = true := by
  unfold frameBody Http.frameBody
  refine (Triple.touch raw).quiet (F := owned array) rfl fun _ => ?_
  split_ifs with encoded
  · unfold dechunk
    rw [Prog.bind_assoc]
    refine .request (fun out => ?_) ?_
    · have short : ((mem.drop p).take remaining).length < remaining + 1 :=
        Nat.lt_succ_of_le (List.length_take_le _ _)
      obtain ⟨y, run⟩ := run_dechunk _ _ short
      simp only [run, Prog.pure_bind]
      exact .pure (by simp only [owned_some]; abel) ⟨rfl, rfl, rfl⟩
    · simp only [Prog.pure_bind]
      exact (giveUp_spec ⟨some raw, array, none⟩ rfl (by trivial)).mono (by simp [Owned.blocks])
        fun _ _ holds => ⟨rfl, holds⟩
  · cases httpHeader mem headers contentLength with
    | none => exact .pure (by simp) ⟨rfl, rfl, rfl⟩
    | some cl => exact .pure (by simp) ⟨rfl, rfl, rfl⟩

/-- A parsed response owns its three blocks; after a failure nothing is left. -/
theorem httpParseResponse_spec (data : List UInt8) :
    Triple 0 (httpParseResponse data)
      (fun o => match o with
        | some (own, _) => own.blocks
        | none => 0)
      fun r o => match o with
        | some (own, resp) => r = false ∧ (own.place resp.body).isSome = true ∧
          Http.httpParseResponse data = some resp
        | none => r = true ∨ Http.httpParseResponse data = none := by
  have give {β : Type} (raw : Block) (own : Option β → Multiset Block) (nothing : own none = 0)
      {Q : Bool → Option β → Prop} (gone : Q false none) :
      Triple ({raw} + 0) (giveUp ⟨some raw, none, none⟩) own Q :=
    (giveUp_spec ⟨some raw, none, none⟩ nothing gone).mono (by simp [Owned.blocks])
      fun _ _ holds => ⟨rfl, holds⟩
  unfold httpParseResponse Http.httpParseResponse
  split_ifs with short
  · exact .pure rfl (Or.inr rfl)
  · refine .request (fun raw => ?_) (.pure rfl (Or.inl rfl))
    dsimp only
    cases strstr (data ++ [0]) 0 crlf with
    | none => exact give raw _ rfl (Or.inr rfl)
    | some eol =>
      dsimp only
      cases statusLine ((data ++ [0]).set eol 0) with
      | none => exact give raw _ rfl (Or.inr rfl)
      | some status =>
        obtain ⟨status, reason⟩ := status
        dsimp only
        refine (headerLoop_spec raw data.length _ none [] (eol + 2)).call (F := 0)
          (by simp) fun o r looped => ?_
        match o with
        | none =>
          refine .pure (add_zero 0) ?_
          rw [Bool.or_false]
          exact looped.imp_right fun none => by rw [none]
        | some (mem, array, headers, p) =>
          obtain ⟨rfl, looped⟩ := looped
          rw [looped]
          dsimp only
          refine (frameBody_spec raw mem array headers p _).call (F := 0) rfl
            fun o r framed => ?_
          match o with
          | none =>
            refine .pure (add_zero 0) (Or.inl ?_)
            simp [framed]
          | some (bodyOwned, body, bodyLen) =>
            obtain ⟨rfl, placed, framed⟩ := framed
            rw [framed]
            exact .pure (add_zero _) ⟨rfl, placed, rfl⟩

/-- Whatever allocations are refused, parsing a response does nothing undefined. After a
failure the heap is as before. While a response is held its body lies in a block that it
owns; freeing it leaves the heap as before, and freeing it again does nothing. -/
theorem httpParseResponse_keeps_the_heap (data : List UInt8) (w : World Kind) :
    ∃ o w' refused, httpParseResponse data w = .ok o w' refused ∧
      match o with
      | none => w'.live = w.live ∧ (refused = true ∨ Http.httpParseResponse data = none)
      | some (own, resp) => w'.live = own.blocks + w.live ∧ refused = false ∧
        Http.httpParseResponse data = some resp ∧
        (∃ place ∈ own.blocks, own.place resp.body = some place) ∧
        ∃ freed w'', httpResponseFree own w' = .ok freed w'' false ∧ w''.live = w.live ∧
          httpResponseFree freed w'' = .ok freed w'' false := by
  obtain ⟨o, w', refused, runs, live, holds⟩ := (httpParseResponse_spec data).run w
  refine ⟨o, w', refused, runs, ?_⟩
  match o with
  | none => exact ⟨by rw [live, zero_add], holds⟩
  | some (own, resp) =>
    obtain ⟨calm, placed, parsed⟩ := holds
    obtain ⟨place, at_place⟩ := Option.isSome_iff_exists.mp placed
    obtain ⟨freed, w'', r, runs', live', rfl, rfl⟩ := httpResponseFree_spec own w' w.live live
    refine ⟨live, calm, parsed, ⟨place, own.mem_of_place at_place, at_place⟩, _, w'', runs',
      ?_, rfl⟩
    rw [live']
    exact zero_add _

end InstagramNt40.HttpHeap
