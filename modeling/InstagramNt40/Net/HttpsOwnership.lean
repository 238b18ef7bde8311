import InstagramNt40.Net.HttpsHeap

/-!
# What https_request owns

Whatever the network, the TLS library and the allocator answer, everything acquired is
given back but the result, and the library is never misused: no byte is exchanged with a
peer whose certificate was not verified. Where nothing is refused the reply is the one of
`Https`.
-/
namespace InstagramNt40.HttpsHeap

open Ownership Alloc Crt Http Https HttpHeap

variable {all : Multiset (Name Kind)} {c : Contexts} {p : Progress} {sock : Name Kind}

/-! ### The session -/

/-- The contexts and the socket are owned. -/
structure Held (all : Multiset (Name Kind)) (c : Contexts) (sock : Name Kind) : Prop where
  entropy : c.entropy ∈ all
  ctrDrbg : c.ctrDrbg ∈ all
  cacert : c.cacert ∈ all
  conf : c.conf ∈ all
  ssl : c.ssl ∈ all
  sock : sock ∈ all

/-- The handshake is done. -/
def Progress.ready : Progress := ⟨true, true, true, true, true, true, true, true, true, true⟩

theorem looks_demand {α : Type} {ok : Bool} {k : Unit → Proc α} {P : α → Prop}
    (holds : ok = true) (next : Looks all (k ()) P) : Looks all (demand ok >>= k) P := by
  subst holds
  simpa only [demand, if_true, Prog.pure_bind] using next

/-- The library may be used over a session that is ready. -/
theorem sslUse_looks (held : Held all c sock) :
    Looks all (sslUse c .ready sock) fun _ => True := by
  refine .touch held.ssl (.touch held.conf (.touch held.sock ?_))
  exact Looks.pure trivial

/-- The library lets the handshake be made. -/
theorem sslHandshake_looks (held : Held all c sock) (ready : p.setUp && p.named && p.bound)
    (rc : Int) :
    Looks all (sslHandshake c p sock rc) fun p' => p' = { p with verified := rc == 0 } :=
  .touch held.ssl (.touch held.conf (.touch held.sock (looks_demand ready (.pure rfl))))

theorem handshakeLoop_looks (results : List Int) (held : Held all c sock)
    (ready : p.setUp && p.named && p.bound) :
    Looks all (handshakeLoop c sock p results) fun o =>
      o = if Https.handshakeLoop results then some { p with verified := true } else none := by
  induction results generalizing p with
  | nil =>
    refine Looks.bind (sslHandshake_looks held ready 0) fun p' same => ?_
    subst same
    exact Looks.pure rfl
  | cons rc rest ih =>
    refine Looks.bind (sslHandshake_looks held ready rc) fun p' same => ?_
    subst same
    unfold Https.handshakeLoop
    by_cases done : rc = 0
    · subst done
      exact Looks.pure rfl
    · rw [if_neg done, if_neg done]
      by_cases failed : rc ≠ wantRead ∧ rc ≠ wantWrite
      · rw [if_pos failed, if_pos failed]
        exact Looks.pure rfl
      · rw [if_neg failed, if_neg failed]
        exact ih ready

/-- Every call up to the handshake succeeds. -/
def tlsReady (session : Session) : Bool :=
  session.seed == 0 && session.caParse == 0 && session.configDefaults == 0 &&
    session.setup == 0 && session.setHostname == 0 && Https.handshakeLoop session.handshake

theorem establish_looks (session : Session) (held : Held all c sock) :
    Looks all (establish c sock session) fun o =>
      o = if tlsReady session then some .ready else none := by
  have failed (fails : tlsReady session = false) : Looks all (pure none) fun o =>
      o = if tlsReady session then some Progress.ready else none := by
    rw [fails]
    exact .pure rfl
  unfold establish
  refine Looks.bind (P := fun p => p = { seeded := session.seed == 0 })
    (.touch held.ctrDrbg (.touch held.entropy (.pure rfl))) ?_
  rintro _ rfl
  by_cases seed : session.seed = 0
  case neg => rw [if_pos seed]; exact failed (by simp [tlsReady, seed])
  rw [if_neg (not_not.mpr seed)]
  refine Looks.bind (P := fun p => p = { seeded := true, trusted := session.caParse == 0 })
    (.touch held.cacert (.pure (by simp [seed]))) ?_
  rintro _ rfl
  by_cases parsed : session.caParse = 0
  case neg => rw [if_pos parsed]; exact failed (by simp [tlsReady, parsed])
  rw [if_neg (not_not.mpr parsed)]
  refine Looks.bind (P := fun p => p =
      { seeded := true, trusted := true, defaults := session.configDefaults == 0 })
    (.touch held.conf (.pure (by simp [parsed]))) ?_
  rintro _ rfl
  by_cases defaults : session.configDefaults = 0
  case neg => rw [if_pos defaults]; exact failed (by simp [tlsReady, defaults])
  rw [if_neg (not_not.mpr defaults)]
  have is_default : (session.configDefaults == 0) = true := by simp [defaults]
  -- the configuration is finished before a session is set up over it
  refine Looks.bind (.touch held.conf (looks_demand is_default (.pure rfl))) ?_
  rintro _ rfl
  refine Looks.bind (.touch held.conf (.touch held.cacert
    (looks_demand (by simp [is_default]) (.pure rfl)))) ?_
  rintro _ rfl
  refine Looks.bind (.touch held.conf (.touch held.ctrDrbg
    (looks_demand (by simp [is_default]) (.pure rfl)))) ?_
  rintro _ rfl
  refine Looks.bind (.touch held.ssl (.touch held.conf (looks_demand rfl (.pure rfl)))) ?_
  rintro _ rfl
  by_cases setup : session.setup = 0
  case neg => rw [if_pos setup]; exact failed (by simp [tlsReady, setup])
  rw [if_neg (not_not.mpr setup)]
  have is_setup : (session.setup == 0) = true := by simp [setup]
  refine Looks.bind (.touch held.ssl (looks_demand is_setup (.pure rfl))) ?_
  rintro _ rfl
  by_cases named : session.setHostname = 0
  case neg => rw [if_pos named]; exact failed (by simp [tlsReady, named])
  rw [if_neg (not_not.mpr named)]
  refine Looks.bind (.touch held.ssl (.touch held.sock (looks_demand is_setup (.pure rfl)))) ?_
  rintro _ rfl
  refine (handshakeLoop_looks session.handshake held ?_).mono fun o made => ?_
  · simp [setup, named]
  · rw [made]
    simp [tlsReady, seed, parsed, defaults, setup, named, Progress.ready]

theorem sslWrite_looks {req : Block} (held : Held all c sock) (here : req ∈ all) {written : Int}
    (start : 0 ≤ written) : Looks all (sslWrite c .ready sock req written) fun _ => True := by
  refine Looks.bind (sslUse_looks held) fun _ _ => .touch here ?_
  rw [demand, if_pos (decide_eq_true start)]
  exact Looks.pure trivial

theorem writeLoop_looks {req : Block} {reqLen : Int} (held : Held all c sock) (here : req ∈ all)
    (results : List Int) (written : Int) (start : 0 ≤ written) :
    Looks all (writeLoop c .ready sock req reqLen written results) fun b =>
      b = Https.writeLoop reqLen written results := by
  induction results generalizing written with
  | nil =>
    unfold writeLoop Https.writeLoop
    split_ifs
    · exact Looks.bind (sslWrite_looks held here start) fun _ _ => .pure rfl
    · exact .pure rfl
  | cons n rest ih =>
    unfold writeLoop Https.writeLoop
    by_cases more : written < reqLen
    · rw [if_pos more, if_pos more]
      refine Looks.bind (sslWrite_looks held here start) fun _ _ => ?_
      by_cases failed : n < 0
      · rw [if_pos failed, if_pos failed]
        exact .pure rfl
      · rw [if_neg failed, if_neg failed]
        exact ih (written + n) (by omega)
    · rw [if_neg more, if_neg more]
      exact .pure rfl

/-! ### The request and the response -/

/-- Unless its size wraps around the request fits its buffer. -/
theorem httpBuildRequest_spec {method host path : List UInt8}
    {headers : List (List UInt8 × List UInt8)} {body : List UInt8}
    (size : (requestBytes method host path headers body).length + 64 < 2 ^ 32) :
    Triple 0 (httpBuildRequest method host path headers body body.length)
      (fun o => match o with
        | some (req, _) => {req}
        | none => 0)
      fun r o => match o with
        | some (_, bytes) => r = false ∧ bytes = requestBytes method host path headers body
        | none => r = true := by
  have room := requestBytes_length_le_cap size
  have small : body.length < 2 ^ 32 := by
    rw [requestBytes_pieces, List.length_append] at size
    omega
  have length : (if (body.length : Int) < 0 then 0 else (body.length : Int).toNat) =
      body.length := by
    rw [if_neg (by omega), Int.toNat_natCast]
  unfold httpBuildRequest
  dsimp only
  rw [length, writeRequest_eq room small]
  refine (mallocSize_spec _).call (F := 0) rfl fun o r answer => ?_
  obtain ⟨rfl, -⟩ := answer
  cases o with
  | none => exact .pure rfl rfl
  | some req => exact .pure (add_zero _) ⟨rfl, rfl⟩

/-- A buffer that is full grows, or stays as it is. -/
theorem grow_spec (all : Multiset (Name Kind)) (block : Block) (cap : Nat) (buf : List UInt8) :
    Triple ({block} + all)
      (if buf.length ≥ cap then reallocSize (some block) (cap * 2) else pure (some block))
      (fun o => (if o.isSome then owned o else {block}) + all)
      fun r o => r = o.isNone ∧ (o.isSome = true → buf.length ≥ cap → cap * 2 < 2 ^ 31) := by
  split_ifs with full
  · exact ((reallocSize_spec (some block) (cap * 2)).framed all).mono rfl
      fun o r answer => ⟨rfl, answer.1, fun some _ => answer.2 some⟩
  · exact .pure rfl ⟨rfl, fun _ isFull => absurd isFull full⟩

/-- The loop leaves in the buffer, behind what was there, the first part of what is
delivered, and as much of it as `Https.readLoop` unless something was refused. -/
theorem readLoop_spec (held : Held all c sock) (fuel : Nat) (block : Block) (cap : Nat)
    (buf : List UInt8) (trace : List SslRead) (enough : traceSize trace < fuel)
    (positive : 0 < cap) (fits : buf.length ≤ cap) :
    Triple ({block} + all) (readLoop c .ready sock fuel block cap buf trace)
      (fun got => {got.1} + all) fun r got =>
        (∃ more, got.2 = buf ++ more ∧ more <+: delivered trace) ∧ (r = false →
          ∃ ending, Https.readLoop .roomy fuel cap buf trace = some (got.2, ending)) := by
  -- `fuel` counts the bytes that are left to read
  induction fuel generalizing block cap buf trace with
  | zero => omega
  | succ fuel ih =>
    unfold readLoop Https.readLoop
    refine (grow_spec all block cap buf).bind fun o r answer => ?_
    obtain ⟨rfl, granted⟩ := answer
    cases o with
    | none =>
      refine .pure rfl ⟨⟨[], (List.append_nil buf).symm, List.nil_prefix⟩, fun calm => ?_⟩
      cases calm
    | some block =>
      have roomy : ¬(buf.length ≥ cap ∧ ¬Heap.roomy.grants (cap * 2)) := by
        rintro ⟨full, no⟩
        exact no (decide_eq_true (granted rfl full))
      have more : buf.length < (if buf.length ≥ cap then cap * 2 else cap) := by
        split <;> omega
      rw [if_neg roomy]
      simp only [Option.isSome_some, if_true, owned_some, Option.isNone_some, Bool.false_or]
      generalize (if buf.length ≥ cap then cap * 2 else cap) = cap' at more ⊢
      have here : Held ({block} + all) c sock :=
        have part {n : Name Kind} (member : n ∈ all) : n ∈ ({block} + all : Multiset _) :=
          Multiset.mem_add.mpr (Or.inr member)
        ⟨part held.entropy, part held.ctrDrbg, part held.cacert, part held.conf, part held.ssl,
          part held.sock⟩
      refine Triple.look (sslUse_looks here) (add_zero _).symm fun _ _ => ?_
      refine (Triple.borrow (n := block) (by simp)).quiet (F := 0) (add_zero _).symm
        fun _ => ?_
      rw [add_zero]
      cases read : sslRead (cap' - buf.length) trace with
      | mk first trace' =>
        cases first with
        | result n =>
          exact .pure rfl ⟨⟨[], (List.append_nil buf).symm, List.nil_prefix⟩, fun _ => ⟨_, rfl⟩⟩
        | data b bs =>
          obtain ⟨short, data, -, size⟩ := sslRead_data (by omega) read
          have some : 0 < (b :: bs).length := Nat.succ_pos _
          refine (ih block cap' _ trace' (by omega) (by omega)
            (by rw [List.length_append]; omega)).mono rfl fun got r loop => ⟨rfl, ?_⟩
          obtain ⟨⟨more, all, part⟩, loop⟩ := loop
          refine ⟨⟨b :: bs ++ more, by rw [all, List.append_assoc], ?_⟩, loop⟩
          rw [data]
          exact (List.prefix_append_right_inj _).mpr part

/-- The reply that the bytes received make. -/
def replyOf (received : List UInt8) : Reply :=
  match Http.httpParseResponse received with
  | none => .null
  | some resp =>
    if Heap.roomy.grants (if resp.bodyLen > 0 then resp.bodyLen else 1) then
      ⟨some resp.bodyBytes, some resp.status, some resp.bodyLen⟩
    else ⟨none, some resp.status, none⟩

/-- A result is the body of a response in these bytes. -/
def InBytes (received : List UInt8) (reply : Reply) : Prop :=
  ∀ body, reply.result = some body → ∃ resp, Http.httpParseResponse received = some resp ∧
    resp.bodyBytes = body ∧ reply.outStatus = some resp.status

/-- A result is the body of a response in what was delivered, or in the first part of it. -/
def InDelivered (trace : List SslRead) (reply : Reply) : Prop :=
  ∃ part, part <+: delivered trace ∧ InBytes part reply

theorem InBytes.none {received : List UInt8} {status : Option Int} {len : Option Nat} :
    InBytes received ⟨none, status, len⟩ := by
  intro body is_body
  cases is_body

theorem InDelivered.null (trace : List SslRead) : InDelivered trace .null :=
  ⟨[], List.nil_prefix, .none⟩

theorem takeReply_spec (received : List UInt8) :
    Triple 0 (takeReply received) (fun got => owned got.1) fun r got =>
      got.1.isSome = got.2.result.isSome ∧ InBytes received got.2 ∧
        (r = false → got.2 = replyOf received) := by
  unfold takeReply
  refine (httpParseResponse_spec received).call (F := 0) rfl fun o r parsed => ?_
  match o with
  | none =>
    refine .pure (add_zero _) ⟨rfl, .none, fun calm => ?_⟩
    rw [Bool.or_false] at calm
    have none := parsed.resolve_left (by simp [calm])
    rw [replyOf, none]
  | some (own, resp) =>
    obtain ⟨rfl, placed, parsed⟩ := parsed
    simp only [add_zero, Bool.false_or]
    refine (mallocSize_spec _).call (F := own.blocks) (zero_add _).symm fun o r answer => ?_
    obtain ⟨rfl, granted⟩ := answer
    cases o with
    | none =>
      refine (httpResponseFree_spec own).call (F := 0) (add_comm _ _) fun own' r freed => ?_
      obtain ⟨rfl, rfl⟩ := freed
      exact .pure rfl ⟨rfl, .none, fun calm => by cases calm⟩
    | some result =>
      obtain ⟨place, at_place⟩ := Option.isSome_iff_exists.mp placed
      have here : place ∈ owned (some result) + own.blocks :=
        Multiset.mem_add.mpr (Or.inr (own.mem_of_place at_place))
      rw [at_place, look]
      refine (Triple.borrow here).quiet (F := 0) (add_zero _).symm fun _ => ?_
      refine (httpResponseFree_spec own).call (F := {result}) (by simp [add_comm])
        fun own' r freed => ?_
      obtain ⟨rfl, rfl⟩ := freed
      have inBytes : InBytes received ⟨some resp.bodyBytes, some resp.status, some resp.bodyLen⟩ := by
        intro body is_body
        cases is_body
        exact ⟨resp, parsed, rfl, rfl⟩
      refine .pure (zero_add _) ⟨rfl, inBytes, fun _ => ?_⟩
      rw [replyOf, parsed]
      exact (if_pos (decide_eq_true (granted rfl))).symm

/-- Nothing received is no reply. -/
theorem takeAny_spec (all : Multiset (Name Kind)) (buf : Block) (received : List UInt8) :
    Triple ({buf} + all) (if received.length > 0 then do
        touch buf
        takeReply received
      else pure (none, .null)) (fun got => owned got.1 + ({buf} + all)) fun r got =>
      got.1.isSome = got.2.result.isSome ∧ InBytes received got.2 ∧
        (r = false → got.2 = if received.length > 0 then replyOf received else .null) := by
  split_ifs
  · refine (Triple.touch buf).quiet (F := all) rfl fun _ => ?_
    exact ((takeReply_spec received).framed ({buf} + all)).mono (zero_add _).symm
      fun _ _ holds => ⟨rfl, holds⟩
  · exact .pure (zero_add _).symm ⟨rfl, .none, fun _ => rfl⟩

/-! ### The whole request -/

/-- What the contexts and the socket amount to. -/
def Contexts.names (c : Contexts) : Multiset (Name Kind) :=
  {c.entropy} + {c.ctrDrbg} + {c.cacert} + {c.conf} + {c.ssl}

theorem held_names (c : Contexts) (sock : Name Kind) (more : Multiset (Name Kind)) :
    Held (more + (c.names + {sock})) c sock := by
  constructor <;> simp [Contexts.names]

/-- The session as `Https` has it, with a socket that is there or not. -/
def withSocket (session : Session) (connected : Bool) : Session :=
  { session with sock := if connected then 0 else -1 }

theorem established_eq (session : Session) (request : List UInt8) :
    established (withSocket session true) (some request) =
      (tlsReady session && Https.writeLoop request.length 0 session.writes) := by
  unfold established tlsReady withSocket
  simp only [if_true, Int.lt_irrefl, if_false]
  split_ifs <;> simp_all

variable (session : Session) {method host path : List UInt8}
  {headers : List (List UInt8 × List UInt8)} {body : List UInt8} (trace : List SslRead)

theorem httpsRequest_reply (request : List UInt8) (ready : tlsReady session = true)
    (written : Https.writeLoop request.length 0 session.writes = true) {buf : List UInt8}
    {ending : LoopEnd}
    (read : Https.readLoop .roomy (traceSize trace + 1) recvInitialCap [] trace =
      some (buf, ending)) :
    Https.unrefused (withSocket session true) (some request) trace =
      if buf.length > 0 then replyOf buf else .null := by
  have granted : Heap.roomy.grants recvInitialCap = true := by decide
  unfold Https.unrefused Https.requestWith
  rw [established_eq, ready, written, receive, if_pos granted, read]
  simp only [Bool.and_self, not_true_eq_false, if_false]
  by_cases empty : buf.length = 0
  · rw [if_pos empty, if_neg (by omega)]
  · rw [if_neg empty, if_pos (by omega)]
    rfl

theorem exchange_spec (held : Held all c sock)
    (size : (requestBytes method host path headers body).length + 64 < 2 ^ 32)
    (ready : tlsReady session = true) :
    Triple all
      (exchange c .ready sock session method host path headers body body.length trace)
      (fun got => owned got.1 + all) fun r got =>
        got.1.isSome = got.2.result.isSome ∧ InDelivered trace got.2 ∧
          (r = false → got.2 = Https.unrefused (withSocket session true)
            (some (requestBytes method host path headers body)) trace) := by
  have also {more : Multiset (Name Kind)} : Held (more + all) c sock :=
    have part {n : Name Kind} (member : n ∈ all) : n ∈ more + all :=
      Multiset.mem_add.mpr (Or.inr member)
    ⟨part held.entropy, part held.ctrDrbg, part held.cacert, part held.conf, part held.ssl,
      part held.sock⟩
  unfold exchange
  refine (httpBuildRequest_spec size).call (F := all) (zero_add _).symm fun o r built => ?_
  match o with
  | none => exact .pure rfl ⟨rfl, .null trace, fun calm => by simp [built] at calm⟩
  | some (req, bytes) =>
    obtain ⟨rfl, rfl⟩ := built
    have held' : Held ({req} + all) c sock := also
    refine Triple.look (writeLoop_looks held' (by simp) session.writes 0 (Int.le_refl 0))
      (add_zero _).symm fun written wrote => ?_
    refine (Triple.release req).quiet (F := all) rfl fun _ => ?_
    simp only [zero_add, Bool.false_or]
    by_cases done : written = true
    case neg =>
      rw [if_pos done]
      refine .pure (zero_add _).symm ⟨rfl, .null trace, fun _ => ?_⟩
      have failed : established (withSocket session true)
          (some (requestBytes method host path headers body)) = false := by
        rw [established_eq, ← wrote]
        simp [done]
      rw [Https.unrefused, Https.requestWith, if_pos (by simp [failed])]
    rw [if_neg (not_not.mpr done)]
    refine .request (fun buf => ?_) ?_
    · refine (readLoop_spec held _ buf recvInitialCap [] trace (Nat.lt_succ_self _) (by decide)
        (Nat.zero_le _)).bind fun got r read => ?_
      obtain ⟨buf, received⟩ := got
      obtain ⟨⟨more, same, part⟩, read⟩ := read
      have part : received <+: delivered trace := by
        rw [show received = more from same]
        exact part
      refine Triple.look (sslUse_looks also) (add_zero _).symm fun _ _ => ?_
      refine (takeAny_spec all buf received).bind fun got r' replied => ?_
      refine (Triple.release buf).quiet (F := owned got.1 + all) (by abel) fun _ => ?_
      refine .pure (zero_add _) ⟨replied.1, ⟨received, part, replied.2.1⟩, fun calm => ?_⟩
      simp only [Bool.or_false, Bool.or_eq_false_iff] at calm
      obtain ⟨ending, read⟩ := read calm.1
      rw [replied.2.2 calm.2]
      exact (httpsRequest_reply session trace _ ready (wrote ▸ done) read).symm
    · refine Triple.look (sslUse_looks held) (add_zero _).symm fun _ _ => ?_
      exact .pure (zero_add _).symm ⟨rfl, .null trace, fun calm => by cases calm⟩

theorem converse_spec (held : Held all c sock)
    (size : (requestBytes method host path headers body).length + 64 < 2 ^ 32) :
    Triple all (converse c sock session method host path headers body body.length trace)
      (fun got => owned got.1 + all) fun r got =>
        got.1.isSome = got.2.result.isSome ∧ InDelivered trace got.2 ∧
          (r = false → got.2 = Https.unrefused (withSocket session true)
            (some (requestBytes method host path headers body)) trace) := by
  refine Triple.look (establish_looks session held) (add_zero _).symm fun o made => ?_
  subst made
  by_cases ready : tlsReady session = true
  · rw [if_pos ready]
    exact exchange_spec session trace held size ready
  · rw [if_neg ready]
    refine .pure (zero_add _).symm ⟨rfl, .null trace, fun _ => ?_⟩
    have failed : established (withSocket session true)
        (some (requestBytes method host path headers body)) = false := by
      rw [established_eq]
      simp [ready]
    rw [Https.unrefused, Https.requestWith, if_pos (by simp [failed])]

theorem tlsInit_spec : Triple 0 tlsInit Contexts.names fun r _ => r = false := by
  unfold tlsInit
  refine Triple.init.quiet (F := 0) rfl fun entropy => ?_
  refine Triple.init.quiet (F := {entropy}) (by simp) fun ctrDrbg => ?_
  refine Triple.init.quiet (F := {ctrDrbg} + {entropy}) (by simp) fun cacert => ?_
  refine Triple.init.quiet (F := {cacert} + {ctrDrbg} + {entropy}) (by rw [zero_add, add_assoc])
    fun conf => ?_
  refine Triple.init.quiet (F := {conf} + {cacert} + {ctrDrbg} + {entropy})
    (by rw [zero_add]; abel) fun ssl => ?_
  exact .pure (by rw [Contexts.names]; abel) rfl

theorem tlsFree_spec (c : Contexts) :
    Triple c.names (tlsFree c) (fun _ => 0) fun r _ => r = false := by
  unfold tlsFree
  refine (Triple.borrow (n := c.conf) (by simp [Contexts.names])).quiet (F := 0)
    (add_zero _).symm fun _ => ?_
  refine (Triple.release c.ssl).quiet (F := {c.entropy} + {c.ctrDrbg} + {c.cacert} + {c.conf})
    (by rw [Contexts.names]; abel) fun _ => ?_
  refine (Triple.release c.conf).quiet (F := {c.entropy} + {c.ctrDrbg} + {c.cacert})
    (by abel) fun _ => ?_
  refine (Triple.release c.cacert).quiet (F := {c.entropy} + {c.ctrDrbg}) (by abel) fun _ => ?_
  refine (Triple.release c.ctrDrbg).quiet (F := {c.entropy}) (by abel) fun _ => ?_
  exact (Triple.release c.entropy).mono (zero_add _) fun _ _ calm => ⟨rfl, calm⟩

theorem palTcpConnect_spec (resolves connects : Bool) :
    Triple 0 (palTcpConnect resolves connects) owned fun r o =>
      r = false → o.isSome = (resolves && connects) := by
  unfold palTcpConnect
  cases resolves with
  | false => exact .pure rfl fun _ => rfl
  | true =>
    simp only [not_true_eq_false, if_false]
    refine .request (fun s => ?_) (.pure rfl fun calm => by cases calm)
    cases connects with
    | true => exact .pure (add_zero _) fun _ => rfl
    | false =>
      refine (Triple.release s).quiet (F := 0) rfl fun _ => ?_
      exact .pure rfl fun _ => rfl

theorem httpsRequest_spec (resolves connects : Bool)
    (size : (requestBytes method host path headers body).length + 64 < 2 ^ 32) :
    Triple 0
      (httpsRequest resolves connects session method host path headers body body.length trace)
      (fun got => owned got.1) fun r got =>
        got.1.isSome = got.2.result.isSome ∧ InDelivered trace got.2 ∧
          (r = false → got.2 = Https.unrefused
            (withSocket session (resolves && connects))
            (some (requestBytes method host path headers body)) trace) := by
  unfold httpsRequest
  refine (palTcpConnect_spec resolves connects).call (F := 0) rfl fun o r connected => ?_
  cases o with
  | none =>
    refine .pure rfl ⟨rfl, .null trace, fun calm => ?_⟩
    rw [Bool.or_false] at calm
    rw [← connected calm]
    rfl
  | some sock =>
    refine tlsInit_spec.quiet (F := {sock}) (by simp) fun c => ?_
    have held : Held (c.names + {sock}) c sock := by simpa using held_names c sock 0
    refine (converse_spec session trace held size).bind fun got r' replied => ?_
    refine (tlsFree_spec c).quiet (F := owned got.1 + {sock}) (by abel) fun _ => ?_
    refine (Triple.release sock).quiet (F := owned got.1) (by abel) fun _ => ?_
    refine .pure (zero_add _) ⟨replied.1, replied.2.1, fun calm => ?_⟩
    simp only [Bool.or_false, Bool.or_eq_false_iff] at calm
    rw [← connected calm.1, replied.2.2 calm.2]
    rfl

/-- Whatever the network, the library and the allocator answer, a request misuses nothing,
leaves nothing behind but the block of its result, which is there exactly if there is a
result, and ends, if nothing is refused, with the reply of `Https.unrefused`. -/
theorem httpsRequest_keeps_everything (resolves connects : Bool)
    (size : (requestBytes method host path headers body).length + 64 < 2 ^ 32) (w : World Kind) :
    ∃ block reply w' refused,
      httpsRequest resolves connects session method host path headers body body.length trace w =
        .ok (block, reply) w' refused ∧
      w'.live = owned block + w.live ∧ block.isSome = reply.result.isSome ∧
      (refused = false → reply = Https.unrefused
        (withSocket session (resolves && connects))
        (some (requestBytes method host path headers body)) trace) := by
  obtain ⟨⟨block, reply⟩, w', refused, runs, live, holds⟩ :=
    (httpsRequest_spec session trace resolves connects size).run w
  exact ⟨block, reply, w', refused, runs, live, holds.1, holds.2.2⟩

/-- A response of two bytes, in two pieces, and the end of the connection. -/
def okTrace : List SslRead :=
  [.data 0x48 (literal "TTP/1.1 200 OK\r\nContent-Length: 2\r\n"), .data 0x0D [0x0A, 0x68, 0x69],
    .result peerCloseNotify]

theorem httpsRequest_keeps_everything_get :
    (requestBytes (literal "GET") (literal "h") (literal "/") [] []).length + 64 < 2 ^ 32 ∧
    ∃ block reply w' refused,
      httpsRequest true true ⟨0, 0, 0, 0, 0, 0, [], []⟩ (literal "GET") (literal "h")
        (literal "/") [] [] (([] : List UInt8).length : Int) okTrace plenty =
          .ok (block, reply) w' refused ∧
      w'.live = owned block + plenty.live ∧ block.isSome = reply.result.isSome ∧
      (refused = false → reply = ⟨some (literal "hi"), some 200, some 2⟩) := by
  have size :
      (requestBytes (literal "GET") (literal "h") (literal "/") [] []).length + 64 < 2 ^ 32 := by
    decide
  obtain ⟨block, reply, w', refused, runs, live, same, calm⟩ :=
    httpsRequest_keeps_everything ⟨0, 0, 0, 0, 0, 0, [], []⟩ okTrace true true size plenty
  refine ⟨size, block, reply, w', refused, runs, live, same, fun fine => ?_⟩
  rw [calm fine]
  decide

end InstagramNt40.HttpsHeap
