import InstagramNt40.Core.HttpRoundTrip
import InstagramNt40.Core.ResponseCut
import InstagramNt40.Net.Nettest

/-!
# Runs of the network test

However the calls of the client and the server are interleaved, in whatever pieces the bytes
travel and wherever either side fails: the client never reports a part of the feed. If
nobody fails it reports the feed.
-/
namespace InstagramNt40.Nettest

open Crt Json Http Transfer

/-! ### The request -/

def request : List UInt8 := requestBytes (literal "GET") mockHost mockPath mockHeaders []

/-- A network over which the client begins to send. -/
structure Env.Ready (E : Env) : Prop where
  netInit : E.netInit = 0
  connected : E.connected = true
  request : E.heap.grants
    (requestCap (literal "GET") mockHost mockPath mockHeaders ([] : List UInt8).length) = true
  buffer : E.heap.grants recvCap = true

/-- A report before anything was received. -/
def Report.IsEarly (r : Report) : Prop :=
  r = .netInitFailed ∨ r = .connectFailed ∨ r = .buildRequestFailed ∨ r = .sendFailed ∨
    r = .noDataReceived

theorem request_built (heap : Heap) :
    httpBuildRequest heap (some (literal "GET")) (some mockHost) (some mockPath) mockHeaders [] 0 =
      if heap.grants (requestCap (literal "GET") mockHost mockPath mockHeaders
        ([] : List UInt8).length) then .value request else .null :=
  httpBuildRequest_eq heap (by decide)

theorem start_eq (E : Env) :
    (∃ r : Report, r.IsEarly ∧ start E = .ended r) ∨
      start E = ⟨.sending, .reading, .of request, .of []⟩ := by
  unfold start
  split_ifs with net connected
  · exact .inl ⟨_, .inl rfl, rfl⟩
  · rw [request_built]
    split_ifs
    · exact .inr rfl
    · exact .inl ⟨_, .inr (.inr (.inl rfl)), rfl⟩
  · exact .inl ⟨_, .inr (.inl rfl), rfl⟩

theorem start_ready {E : Env} (ready : E.Ready) :
    start E = ⟨.sending, .reading, .of request, .of []⟩ := by
  unfold start
  rw [if_neg (not_not.mpr ready.netInit), if_neg (not_not.mpr ready.connected), request_built,
    if_pos ready.request]

theorem readRequest_request : ∃ r, Http1.readRequest Http1.trimBlanks request = some r ∧
    r.method = literal "GET" ∧ r.rest = [] := by
  have plain : Http1.Separable (literal "GET") mockPath
      ((literal "Host", mockHost) :: mockHeaders) :=
    .of_all (by decide) (by decide)
  exact ⟨_, Http1.readRequest_requestText Http1.trimBlanks []
    (requestFields_separable [] plain), rfl, rfl⟩

/-- Nothing less than the whole request is a request. -/
theorem request_whole {P : List UInt8} (shorter : P <+: request) {r : Http1.Request}
    (read : Http1.readRequest Http1.trimBlanks P = some r) :
    P = request ∧ r.method = literal "GET" := by
  obtain ⟨more, eq⟩ := shorter
  obtain ⟨whole, readWhole, method, rest⟩ := readRequest_request
  have same := Http1.readRequest_more Http1.trimBlanks read more
  rw [eq, readWhole] at same
  cases same
  obtain ⟨-, rfl⟩ := List.append_eq_nil_iff.mp rest
  exact ⟨by rw [← eq, List.append_nil], method⟩

/-! ### What holds in every state -/

/-- The server has part of the request and the client part of the answer to it, both in
order and without a gap. -/
structure Inv (E : Env) (s : State) : Prop where
  up : s.up.total <+: request
  sending : s.client = .sending → s.up.left ≠ [] ∧ s.down.got = []
  receiving : s.client = .receiving → s.down.got.length < recvCap
  reading : s.server = .reading → s.down.total = [] ∧
    Http1.readRequest Http1.trimBlanks s.up.got = none
  writing : s.server = .writing → s.down.left ≠ []
  down : s.down.total = [] ∨ (s.up.got = request ∧ s.down.total = E.server.doGet)
  done : ∀ r, s.client = .done r → r.IsEarly ∨ r = report s.down.got

theorem Inv.start (E : Env) : Inv E (start E) := by
  have some : request ≠ [] := by decide
  rcases start_eq E with ⟨r, early, eq⟩ | eq
  · rw [eq]
    exact ⟨List.nil_prefix, nofun, nofun, fun _ => ⟨rfl, rfl⟩, nofun, .inl rfl,
      fun r' is_r => by cases is_r; exact .inl early⟩
  · rw [eq]
    exact ⟨List.prefix_refl _, fun _ => ⟨some, rfl⟩, nofun, fun _ => ⟨rfl, rfl⟩, nofun, .inl rfl,
      nofun⟩

theorem noDataReceived_early : Report.IsEarly .noDataReceived := .inr (.inr (.inr (.inr rfl)))

section Step

variable {E : Env} {s s' : State}

theorem Inv.send {n : Nat} (inv : Inv E s) (run : send E s n = some s') : Inv E s' := by
  unfold Nettest.send at run
  rw [Option.ite_none_right_eq_some] at run
  obtain ⟨⟨sending, -, -⟩, eq⟩ := run
  cases eq
  have none := (inv.sending sending).2
  refine ⟨by simpa using inv.up, ?_, ?_, inv.reading, inv.writing, inv.down, ?_⟩
  all_goals dsimp only
  · split_ifs with more room
    · exact fun _ => ⟨more, none⟩
    · exact nofun
    · exact nofun
  · intro _
    rw [none]
    decide
  · intro r done
    split_ifs at done
    cases done
    exact .inl noDataReceived_early

theorem Inv.sendFails (inv : Inv E s) (run : sendFails s = some s') : Inv E s' := by
  unfold Nettest.sendFails at run
  rw [Option.ite_none_right_eq_some] at run
  obtain ⟨-, eq⟩ := run
  cases eq
  refine { inv with sending := nofun, receiving := nofun, done := fun r done => ?_ }
  cases done
  exact .inl (.inr (.inr (.inr (.inl rfl))))

theorem Inv.recv {n : Nat} (inv : Inv E s) (run : recv s n = some s') : Inv E s' := by
  unfold Nettest.recv at run
  rw [Option.ite_none_right_eq_some] at run
  obtain ⟨⟨receiving, -, -, -⟩, eq⟩ := run
  cases eq
  refine ⟨inv.up, ?_, ?_, ?_, inv.writing, ?_, ?_⟩
  all_goals dsimp only
  · intro sending
    split_ifs at sending
  · intro still
    split_ifs at still with full
    exact Nat.lt_of_not_le full
  · rw [Stream.total_deliver]
    exact inv.reading
  · rw [Stream.total_deliver]
    exact inv.down
  · intro r done
    split_ifs at done
    cases done
    exact .inr rfl

/-- What was received is reported. -/
theorem Inv.reports (inv : Inv E s) : Inv E { s with client := .done (report s.down.got) } :=
  { inv with
    sending := nofun
    receiving := nofun
    done := fun r done => by cases done; exact .inr rfl }

theorem Inv.serverReads {n : Nat} (inv : Inv E s) (run : serverReads E s n = some s')
    (answers : E.server.doGet ≠ []) : Inv E s' := by
  unfold Nettest.serverReads at run
  rw [Option.ite_none_right_eq_some] at run
  obtain ⟨⟨reading, -, -⟩, run⟩ := run
  obtain ⟨empty, -⟩ := inv.reading reading
  have shorter : (s.up.deliver n).got <+: request :=
    (Stream.got_prefix _).trans (by rw [Stream.total_deliver]; exact inv.up)
  have none : s.down.got = [] := (Stream.total_eq_nil.mp empty).1
  dsimp only at run
  cases read : Http1.readRequest Http1.trimBlanks (s.up.deliver n).got with
  | none =>
    rw [read] at run
    cases run
    exact { inv with
      up := by simpa using inv.up
      reading := fun _ => ⟨empty, read⟩
      down := .inl empty }
  | some r =>
    rw [read] at run
    cases run
    obtain ⟨whole, get⟩ := request_whole shorter read
    have answer : E.server.answer r = E.server.doGet := if_pos get
    refine ⟨by simpa using inv.up, fun sending => ⟨(inv.sending sending).1, rfl⟩, ?_, nofun, ?_, ?_,
      ?_⟩
    · exact fun _ => show 0 < recvCap by decide
    · intro _
      rw [answer]
      exact answers
    · rw [answer]
      exact .inr ⟨whole, rfl⟩
    · intro r done
      have said := inv.done r done
      rw [none] at said
      exact said

/-- The server closes its side. -/
theorem Inv.closes (inv : Inv E s) : Inv E { s with server := .closed } :=
  { inv with reading := nofun, writing := nofun }

theorem Inv.serverWrites {n : Nat} (inv : Inv E s) (run : serverWrites s n = some s') :
    Inv E s' := by
  unfold Nettest.serverWrites at run
  rw [Option.ite_none_right_eq_some] at run
  obtain ⟨⟨writing, -, -⟩, eq⟩ := run
  cases eq
  refine ⟨inv.up, inv.sending, inv.receiving, ?_, ?_, ?_, inv.done⟩
  all_goals dsimp only
  · intro reading
    split_ifs at reading
  · intro still
    split_ifs at still with more
    exact more
  · rw [Stream.total_send]
    exact inv.down

theorem Inv.step {a : Act} (inv : Inv E s) (answers : E.server.doGet ≠ [])
    (run : step E s a = some s') : Inv E s' := by
  cases a with
  | send n => exact inv.send run
  | sendFails => exact inv.sendFails run
  | recv n => exact inv.recv run
  | recvEnds =>
    obtain ⟨-, eq⟩ := Option.ite_none_right_eq_some.mp run
    cases eq
    exact inv.reports
  | recvFails =>
    obtain ⟨-, eq⟩ := Option.ite_none_right_eq_some.mp run
    cases eq
    exact inv.reports
  | serverReads n => exact inv.serverReads run answers
  | serverReadEnds =>
    obtain ⟨-, eq⟩ := Option.ite_none_right_eq_some.mp run
    cases eq
    exact inv.closes
  | serverWrites n => exact inv.serverWrites run
  | serverDies =>
    obtain ⟨-, eq⟩ := Option.ite_none_right_eq_some.mp run
    cases eq
    exact inv.closes

end Step

/-! ### What is reported -/

/-- The name and the date of the server can stand in a header, and `BODY` is a document. -/
structure MockServer.Wf (m : MockServer) (root : JsonValue) : Prop where
  server : ∀ b ∈ m.server, Http1.IsText b
  serverStart : ∀ b ∈ m.server.head?, ¬Http1.IsBlank b
  date : ∀ b ∈ m.date, Http1.IsText b
  dateStart : ∀ b ∈ m.date.head?, ¬Http1.IsBlank b
  document : ∃ y, jsonParse m.body = .ok root y
  container : root.IsContainer
  small : m.doGet.length < 2 ^ 31

/-- A header field as `send_header` writes it. -/
theorem field_wf {name value : List UInt8}
    (plain : ∀ b ∈ name, Http1.IsText b ∧ b ≠ 0x3A) (text : ∀ b ∈ value, Http1.IsText b)
    (start : ∀ b ∈ value.head?, ¬Http1.IsBlank b) : Http1.Field.Wf ⟨name, [0x20], value⟩ where
  name := plain
  pad := List.forall_mem_singleton.mpr (by decide)
  value := text
  start := start

section Answer

variable {m : MockServer} {root : JsonValue}

theorem head_wf (wf : m.Wf root) : m.head.Wf where
  major := show Ascii.IsDigit 0x31 by decide
  minor := show Ascii.IsDigit 0x30 by decide
  code_ne_nil := show literal "200" ≠ [] by decide
  code := show ∀ b ∈ literal "200", Ascii.IsDigit b from List.all_iff_forall_prop.mp (by decide)
  reason := show ∀ b ∈ literal "OK", Http1.IsText b from List.all_iff_forall_prop.mp (by decide)
  fields := by
    obtain ⟨-, digits, -⟩ := Http1.decimalText_spec m.body.length
    intro f member
    simp only [MockServer.head, List.mem_cons, List.not_mem_nil, or_false] at member
    rcases member with rfl | rfl | rfl | rfl | rfl
    · exact field_wf (List.all_iff_forall_prop.mp (by decide)) wf.server wf.serverStart
    · exact field_wf (List.all_iff_forall_prop.mp (by decide)) wf.date wf.dateStart
    · exact field_wf (List.all_iff_forall_prop.mp (by decide))
        (List.all_iff_forall_prop.mp (by decide)) (fun b head => by cases head; decide)
    · exact field_wf (List.all_iff_forall_prop.mp (by decide))
        (fun b member => (Http1.isText_of_digit (digits b member)).1)
        (fun b head => Http1.not_isBlank_of_digit (digits b (List.mem_of_mem_head? head)))
    · exact field_wf (List.all_iff_forall_prop.mp (by decide))
        (List.all_iff_forall_prop.mp (by decide)) (fun b head => by cases head; decide)

/-- The answer is a response that carries the document. -/
theorem carries_doGet (wf : m.Wf root) : ∃ resp, Carries m.doGet resp root ∧
    resp.status = 200 ∧ resp.bodyLen = m.body.length := by
  have small := wf.small
  rw [MockServer.doGet, List.length_append] at small
  obtain ⟨resp, parses, holds⟩ := (httpParseResponse_eq m.doGet).2 _
    (readHead_bytes (head_wf wf) (show (literal "200").length ≤ 3 by decide) m.body)
  have plain : ¬Http1.IsChunked m.head.headers := by
    rintro ⟨te, found, -⟩
    have none : Http1.lookup m.head.headers Http1.transferEncoding = none := rfl
    rw [none] at found
    cases found
  have framed : Http1.Framed m.head.headers m.body (m.body ++ []) :=
    .contentLength plain rfl (Http1.decimalText_spec m.body.length)
  rw [List.append_nil] at framed
  have body : readBody m.head.headers m.body = m.body := readBody_framed framed (by omega)
  have bodyBytes : resp.bodyBytes = m.body := holds.body.trans body
  refine ⟨resp, ⟨parses, ?_, wf.container⟩, holds.status, ?_⟩
  · rw [bodyBytes]
    exact wf.document
  · rw [holds.bodyLen]
    exact congrArg List.length body

theorem doGet_ne_nil (m : MockServer) : m.doGet ≠ [] := by
  intro empty
  have start := (List.append_eq_nil_iff.mp empty).1
  cases start

end Answer

section Report

variable {E : Env} {root : JsonValue}

/-- A feed that is reported of part of the answer is the feed of the document. -/
theorem report_part (wf : E.server.Wf root) {buf : List UInt8} (shorter : buf <+: E.server.doGet)
    {status : Int} {bodyLen : Nat} {f : Model.Feed}
    (reported : report buf = .parsed status bodyLen f) : status = 200 ∧ GraphFeedOf root f := by
  obtain ⟨resp, carries, good, -⟩ := carries_doGet wf
  unfold report at reported
  split_ifs at reported
  cases parsed : httpParseResponse buf with
  | none =>
    rw [parsed] at reported
    cases reported
  | some p =>
    rw [parsed] at reported
    dsimp only at reported
    rcases carries.graphFeed shorter parsed with null | ⟨f', mapped, feed⟩
    · rw [null] at reported
      cases reported
    · rw [mapped] at reported
      cases reported
      exact ⟨(carries.part shorter parsed).1.trans good, feed⟩

/-- All of the answer is reported as the feed. -/
theorem report_whole (wf : E.server.Wf root) : ∃ f,
    report E.server.doGet = .parsed 200 E.server.body.length f ∧ GraphFeedOf root f := by
  obtain ⟨resp, carries, good, bodyLen⟩ := carries_doGet wf
  obtain ⟨y, document⟩ := carries.document
  obtain ⟨f, mapped, feed⟩ := graphFeed_of_run document
  refine ⟨f, ?_, feed⟩
  have some : ¬E.server.doGet.length = 0 :=
    fun empty => doGet_ne_nil _ (List.length_eq_zero_iff.mp empty)
  unfold report
  rw [if_neg some, carries.parses]
  dsimp only
  rw [mapped, good, bodyLen]

theorem Report.IsEarly.not_parsed {r : Report} (early : r.IsEarly) {status : Int} {bodyLen : Nat}
    {f : Model.Feed} : r ≠ .parsed status bodyLen f := by
  rcases early with rfl | rfl | rfl | rfl | rfl <;> exact nofun

/-- In every run, wherever something fails: if the client reports posts then the server has
read the whole request, its status is reported, and the posts are those of its document. -/
theorem run_reportsWhole (wf : E.server.Wf root) (acts : List Act) (s : State)
    (runs : run E (start E) acts = some s) (status : Int) (bodyLen : Nat) (f : Model.Feed)
    (reported : s.client = .done (.parsed status bodyLen f)) :
    status = 200 ∧ GraphFeedOf root f ∧ s.up.got = request := by
  have inv : Inv E s := run_invariant runs
    (fun a _ t t' inv next => Inv.step inv (doGet_ne_nil _) next) (Inv.start E)
  have same := (inv.done _ reported).resolve_left fun early => early.not_parsed rfl
  rcases inv.down with empty | ⟨whole, answered⟩
  · -- nothing was received
    have none : s.down.got = [] := (Stream.total_eq_nil.mp empty).1
    rw [none] at same
    cases same
  · have part : s.down.got <+: E.server.doGet := answered ▸ Stream.got_prefix s.down
    obtain ⟨good, feed⟩ := report_part wf part same.symm
    exact ⟨good, feed, whole⟩

end Report

/-- The mock server on a day. -/
def mockServer : MockServer where
  server := literal "BaseHTTP/0.6 Python/3.12.3"
  date := literal "Sat, 01 Jun 2024 10:00:00 GMT"
  unsupported := []
  body := mockBody

/-- The members of a document that is an object. -/
def membersOf (text : List UInt8) : Option (List (List UInt8 × JsonValue)) :=
  match jsonParse text with
  | .ok (.obj members) _ => some members
  | _ => none

theorem mockServer_wf : ∃ root, mockServer.Wf root := by
  have object : (membersOf mockBody).isSome = true := by decide +kernel
  obtain ⟨members, found⟩ := Option.isSome_iff_exists.mp object
  unfold membersOf at found
  split at found
  next members' y run =>
    exact ⟨.obj members', List.all_iff_forall_prop.mp (by decide),
      fun b head => by cases head; decide, List.all_iff_forall_prop.mp (by decide),
      fun b head => by cases head; decide, ⟨y, run⟩, trivial, by decide +kernel⟩
  next => cases found

def mockEnv : Env := ⟨0, true, .roomy, mockServer⟩

/-- Both sides take several calls. -/
def mockActs : List Act :=
  [.send 50, .serverReads 20, .send 39, .serverReads 69, .serverWrites 100, .recv 60,
    .serverWrites 498, .recv 538, .recvEnds]

/-- The client has reported posts. -/
def Client.hasParsed : Client → Bool
  | .done (.parsed _ _ _) => true
  | _ => false

theorem mockActs_reported : ∃ s status bodyLen f,
    run mockEnv (start mockEnv) mockActs = some s ∧
      s.client = .done (.parsed status bodyLen f) := by
  have ended : (run mockEnv (start mockEnv) mockActs).map (·.client.hasParsed) = some true := by
    decide +kernel
  obtain ⟨s, runs, parsed⟩ := Option.map_eq_some_iff.mp ended
  unfold Client.hasParsed at parsed
  split at parsed
  next status bodyLen f client => exact ⟨s, status, bodyLen, f, runs, client⟩
  next => cases parsed

theorem run_reportsWhole_mock : ∃ root s f, mockServer.Wf root ∧
    run mockEnv (start mockEnv) mockActs = some s ∧ GraphFeedOf root f ∧ s.up.got = request := by
  obtain ⟨root, wf⟩ := mockServer_wf
  obtain ⟨s, status, bodyLen, f, runs, reported⟩ := mockActs_reported
  obtain ⟨-, feed, whole⟩ :=
    run_reportsWhole (E := mockEnv) wf mockActs s runs status bodyLen f reported
  exact ⟨root, s, f, wf, runs, feed, whole⟩

/-! ### Runs in which nothing fails -/

/-- All of the request and all of the answer are underway, and are kept until the client has
them, or its buffer is full. -/
structure Calm (E : Env) (s : State) : Prop extends Inv E s where
  whole : s.up.total = request
  sent : s.client ≠ .sending → s.up.left = []
  answered : s.server = .closed → s.down.left = [] ∧ s.down.total = E.server.doGet
  finished : ∀ r, s.client = .done r →
    s.down.got = E.server.doGet.take recvCap ∧ r = report (E.server.doGet.take recvCap)

section Calm

variable {E : Env} {s s' : State}

/-- A client that has received nothing is not done. -/
theorem Calm.not_done (calm : Calm E s) (none : s.down.got = []) (r : Report) :
    s.client ≠ .done r := by
  intro done
  have whole := (calm.finished r done).1
  rw [none, eq_comm, List.take_eq_nil_iff] at whole
  rcases whole with no | empty
  · exact absurd no (by decide)
  · exact doGet_ne_nil _ empty

theorem Calm.start (ready : E.Ready) : Calm E (start E) := by
  have inv := Inv.start E
  rw [start_ready ready] at inv ⊢
  exact ⟨inv, rfl, fun other => absurd rfl other, nofun, nofun⟩

theorem Calm.send {n : Nat} (calm : Calm E s) (ready : E.Ready) (run : send E s n = some s') :
    Calm E s' := by
  have inv := calm.toInv.send run
  unfold Nettest.send at run
  rw [Option.ite_none_right_eq_some] at run
  obtain ⟨-, eq⟩ := run
  cases eq
  refine ⟨inv, by simpa using calm.whole, ?_, calm.answered, ?_⟩
  all_goals dsimp only
  · intro other
    split_ifs at other with more
    · exact absurd rfl other
    · exact not_not.mp more
    · exact not_not.mp more
  · intro r done
    rw [if_pos ready.buffer] at done
    split_ifs at done

/-- A full buffer holds as much of the answer as fits. -/
theorem Inv.got_full (inv : Inv E s) (full : s.down.got.length = recvCap) :
    s.down.got = E.server.doGet.take recvCap := by
  rcases inv.down with empty | ⟨-, answered⟩
  · have none : s.down.got = [] := (Stream.total_eq_nil.mp empty).1
    rw [none] at full
    exact absurd full (by decide)
  · -- bytes of a stream arrive from its front on
    have part : s.down.got <+: E.server.doGet := answered ▸ Stream.got_prefix s.down
    rw [← full]
    exact List.prefix_iff_eq_take.mp part

theorem Calm.recv {n : Nat} (calm : Calm E s) (run : recv s n = some s') : Calm E s' := by
  have inv := calm.toInv.recv run
  unfold Nettest.recv at run
  rw [Option.ite_none_right_eq_some] at run
  obtain ⟨⟨receiving, -, there, room⟩, eq⟩ := run
  cases eq
  refine ⟨inv, calm.whole, fun _ => calm.sent (by rw [receiving]; exact nofun), ?_, ?_⟩
  all_goals dsimp only
  · rw [Stream.left_deliver, Stream.total_deliver]
    exact calm.answered
  · intro r done
    split_ifs at done with full
    -- no more was taken than there is room for
    have before := calm.receiving receiving
    have most : (s.down.deliver n).got.length ≤ recvCap := by
      rw [Stream.deliver, List.length_append, List.length_take]
      omega
    have whole : (s.down.deliver n).got = E.server.doGet.take recvCap :=
      inv.got_full (Nat.le_antisymm most full)
    rw [whole] at done
    cases done
    exact ⟨whole, rfl⟩

theorem Calm.recvEnds (calm : Calm E s) (run : recvEnds s = some s') : Calm E s' := by
  obtain ⟨⟨receiving, closed, landed⟩, eq⟩ := Option.ite_none_right_eq_some.mp run
  cases eq
  obtain ⟨left, answered⟩ := calm.answered closed
  have whole : s.down.got = E.server.doGet.take recvCap := by
    have all : s.down.got = E.server.doGet := (Stream.got_all left landed).trans answered
    have before := calm.receiving receiving
    rw [all] at before ⊢
    exact (List.take_of_length_le (Nat.le_of_lt before)).symm
  refine ⟨calm.toInv.reports, calm.whole, fun _ => calm.sent (by rw [receiving]; exact nofun),
    calm.answered, fun r done => ⟨whole, ?_⟩⟩
  cases done
  rw [whole]

theorem Calm.serverReads {n : Nat} (calm : Calm E s) (run : serverReads E s n = some s') :
    Calm E s' := by
  have inv := calm.toInv.serverReads run (doGet_ne_nil _)
  unfold Nettest.serverReads at run
  rw [Option.ite_none_right_eq_some] at run
  obtain ⟨⟨reading, -, -⟩, run⟩ := run
  have empty := (calm.reading reading).1
  have none : s.down.got = [] := (Stream.total_eq_nil.mp empty).1
  -- nothing was received yet, so the client is not done
  have waits := calm.not_done none
  dsimp only at run
  cases read : Http1.readRequest Http1.trimBlanks (s.up.deliver n).got with
  | none =>
    rw [read] at run
    cases run
    exact ⟨inv, by simpa using calm.whole, calm.sent, calm.answered, calm.finished⟩
  | some r =>
    rw [read] at run
    cases run
    exact ⟨inv, by simpa using calm.whole, calm.sent, nofun,
      fun r done => absurd done (waits r)⟩

theorem Calm.serverReadEnds (calm : Calm E s) (run : serverReadEnds s = some s') :
    Calm E s' := by
  obtain ⟨⟨reading, ended, -⟩, -⟩ := Option.ite_none_right_eq_some.mp run
  have none : s.down.got = [] := (Stream.total_eq_nil.mp (calm.reading reading).1).1
  -- the client ends with the answer alone, and that is not there yet
  cases client : s.client with
  | sending =>
    rw [client] at ended
    cases ended
  | receiving =>
    rw [client] at ended
    cases ended
  | done r => exact absurd client (calm.not_done none r)

theorem Calm.serverWrites {n : Nat} (calm : Calm E s) (run : serverWrites s n = some s') :
    Calm E s' := by
  have inv := calm.toInv.serverWrites run
  unfold Nettest.serverWrites at run
  rw [Option.ite_none_right_eq_some] at run
  obtain ⟨⟨writing, -, -⟩, eq⟩ := run
  cases eq
  have answered : s.down.total = E.server.doGet := by
    rcases calm.down with empty | ⟨-, answered⟩
    · exact absurd (Stream.total_eq_nil.mp empty).2.2 (calm.writing writing)
    · exact answered
  refine ⟨inv, calm.whole, calm.sent, ?_, calm.finished⟩
  dsimp only
  intro closed
  split_ifs at closed with more
  exact ⟨not_not.mp more, (Stream.total_send _ _).trans answered⟩

theorem Calm.step {a : Act} (calm : Calm E s) (ready : E.Ready) (good : a.isFailure = false)
    (run : step E s a = some s') : Calm E s' := by
  cases a with
  | send n => exact calm.send ready run
  | sendFails => cases good
  | recv n => exact calm.recv run
  | recvEnds => exact calm.recvEnds run
  | recvFails => cases good
  | serverReads n => exact calm.serverReads run
  | serverReadEnds => exact calm.serverReadEnds run
  | serverWrites n => exact calm.serverWrites run
  | serverDies => cases good

theorem serverReads_some {n : Nat} (reading : s.server = .reading) (more : 0 < n)
    (fits : n ≤ s.up.inFlight.length) : ∃ s', Nettest.serverReads E s n = some s' := by
  unfold Nettest.serverReads
  rw [if_pos ⟨reading, more, fits⟩]
  dsimp only
  cases Http1.readRequest Http1.trimBlanks (s.up.deliver n).got with
  | none => exact ⟨_, rfl⟩
  | some r => exact ⟨_, rfl⟩

/-- A server that still reads has some of the request to read, or the client some to send. -/
theorem Calm.unread (calm : Calm E s) (reading : s.server = .reading) (left : s.up.left = []) :
    s.up.inFlight ≠ [] := by
  intro landed
  obtain ⟨r, read, -⟩ := readRequest_request
  rw [← calm.whole, ← Stream.got_all left landed, (calm.reading reading).2] at read
  cases read

/-- As long as the client or the server is not done somebody can act without failing. -/
theorem Calm.goes_on (calm : Calm E s)
    (unfinished : s.client.isDone = false ∨ s.server ≠ .closed) :
    ∃ a s', a.isFailure = false ∧ Nettest.step E s a = some s' := by
  have one {items : List UInt8} (some : items ≠ []) : 1 ≤ items.length :=
    List.length_pos_iff.mpr some
  by_cases sending : s.client = .sending
  · exact ⟨.send 1, _, rfl,
      if_pos ⟨sending, Nat.one_pos, one (calm.sending sending).1⟩⟩
  have left := calm.sent sending
  cases server : s.server with
  | reading =>
    obtain ⟨s', reads⟩ := serverReads_some server Nat.one_pos (one (calm.unread server left))
    exact ⟨.serverReads 1, s', rfl, reads⟩
  | writing =>
    exact ⟨.serverWrites 1, _, rfl,
      if_pos ⟨server, Nat.one_pos, one (calm.writing server)⟩⟩
  | closed =>
    have waits := unfinished.resolve_right (not_not.mpr server)
    cases client : s.client with
    | sending => exact absurd client sending
    | done r =>
      rw [client] at waits
      cases waits
    | receiving =>
      by_cases landed : s.down.inFlight = []
      · exact ⟨.recvEnds, _, rfl, if_pos ⟨client, server, landed⟩⟩
      · have space : 1 ≤ recvCap - s.down.got.length := Nat.sub_pos_of_lt (calm.receiving client)
        exact ⟨.recv 1, _, rfl,
          if_pos ⟨client, Nat.one_pos, one landed, space⟩⟩

end Calm

/-! ### Runs end -/

def Client.stage : Client → Nat
  | .sending => 2
  | .receiving => 1
  | .done _ => 0

def Server.stage : Server → Nat
  | .reading => 2
  | .writing => 1
  | .closed => 0

/-- What there is still to do. A server that reads has all of its answer to send. -/
def measure (E : Env) (s : State) : Nat :=
  s.up.weight + s.client.stage + s.server.stage +
    (if s.server = .reading then 2 * E.server.doGet.length else s.down.weight)

section Measure

variable {E : Env} {s s' : State}

theorem measure_start (E : Env) :
    measure E (start E) ≤ 2 * (request.length + E.server.doGet.length) + 4 := by
  rcases start_eq E with ⟨r, -, eq⟩ | eq
  · rw [eq]
    simp only [measure, State.ended, Stream.of, Stream.weight, Client.stage, Server.stage,
      List.length_nil, if_true]
    omega
  · rw [eq]
    simp only [measure, Stream.of, Stream.weight, Client.stage, Server.stage, List.length_nil,
      if_true]
    omega

theorem lowers_send {n : Nat} (run : Nettest.send E s n = some s') :
    measure E s' < measure E s := by
  obtain ⟨⟨sending, more, fits⟩, eq⟩ := Option.ite_none_right_eq_some.mp run
  cases eq
  have less := Stream.weight_send more fits
  have stage : (if (s.up.send n).left ≠ [] then Client.sending
      else if E.heap.grants recvCap then .receiving else .done .noDataReceived).stage ≤
        s.client.stage := by
    rw [sending]
    split_ifs <;> decide
  unfold measure
  dsimp only at stage ⊢
  omega

/-- The client is done, and nothing else happens. -/
theorem lowers_done {r : Report} (running : s.client.isDone = false) :
    measure E { s with client := .done r } < measure E s := by
  have stage : 0 < s.client.stage := by
    cases client : s.client with
    | sending => decide
    | receiving => decide
    | done r =>
      rw [client] at running
      cases running
  have last : (Client.done r).stage = 0 := rfl
  unfold measure
  dsimp only
  omega

theorem lowers_recv {n : Nat} (inv : Inv E s) (run : Nettest.recv s n = some s') :
    measure E s' < measure E s := by
  obtain ⟨⟨receiving, more, fits, -⟩, eq⟩ := Option.ite_none_right_eq_some.mp run
  cases eq
  have less := Stream.weight_deliver more fits
  have stage : (if (s.down.deliver n).got.length ≥ recvCap then
      Client.done (report (s.down.deliver n).got) else .receiving).stage ≤ s.client.stage := by
    rw [receiving]
    split_ifs
    · exact Nat.zero_le _
    · exact Nat.le_refl _
  -- there is something in flight, so the server has answered
  have answered : s.server ≠ .reading := by
    intro reading
    rw [(Stream.total_eq_nil.mp (inv.reading reading).1).2.1, List.length_nil] at fits
    omega
  unfold measure
  dsimp only at stage ⊢
  rw [if_neg answered, if_neg answered]
  omega

theorem lowers_serverReads {n : Nat} (inv : Inv E s) (run : Nettest.serverReads E s n = some s') :
    measure E s' < measure E s := by
  unfold Nettest.serverReads at run
  rw [Option.ite_none_right_eq_some] at run
  obtain ⟨⟨reading, more, fits⟩, run⟩ := run
  have less := Stream.weight_deliver more fits
  have shorter : (s.up.deliver n).got <+: request :=
    (Stream.got_prefix _).trans (by rw [Stream.total_deliver]; exact inv.up)
  dsimp only at run
  cases read : Http1.readRequest Http1.trimBlanks (s.up.deliver n).got with
  | none =>
    rw [read] at run
    cases run
    unfold measure
    dsimp only
    omega
  | some r =>
    rw [read] at run
    cases run
    have answer : E.server.answer r = E.server.doGet := if_pos (request_whole shorter read).2
    have whole : (Stream.of E.server.doGet).weight = 2 * E.server.doGet.length := rfl
    have stages : Server.writing.stage < Server.reading.stage := by decide
    unfold measure
    dsimp only
    have answered : ¬Server.writing = .reading := by decide
    rw [if_neg answered, if_pos reading, reading, answer, whole]
    omega

/-- The server has closed, and nothing else happens. -/
theorem lowers_closed (inv : Inv E s) (running : s.server ≠ .closed) :
    measure E { s with server := .closed } < measure E s := by
  have last : Server.closed.stage = 0 := rfl
  have answered : ¬Server.closed = .reading := by decide
  unfold measure
  dsimp only
  rw [if_neg answered, last]
  cases server : s.server with
  | reading =>
    obtain ⟨-, inFlight, left⟩ := Stream.total_eq_nil.mp (inv.reading server).1
    have weight : s.down.weight = 0 := by rw [Stream.weight, inFlight, left]; rfl
    have stage : Server.reading.stage = 2 := rfl
    rw [if_pos rfl]
    omega
  | writing =>
    have stage : Server.writing.stage = 1 := rfl
    have writing : ¬Server.writing = .reading := by decide
    rw [if_neg writing]
    omega
  | closed => exact absurd server running

theorem lowers_serverWrites {n : Nat} (run : Nettest.serverWrites s n = some s') :
    measure E s' < measure E s := by
  obtain ⟨⟨writing, more, fits⟩, eq⟩ := Option.ite_none_right_eq_some.mp run
  cases eq
  have less := Stream.weight_send more fits
  have stage : (if (s.down.send n).left ≠ [] then Server.writing else .closed).stage ≤
      s.server.stage := by
    rw [writing]
    split_ifs <;> decide
  have still : ¬(if (s.down.send n).left ≠ [] then Server.writing else .closed) = .reading := by
    split_ifs <;> exact nofun
  have before : ¬s.server = .reading := by
    rw [writing]
    exact nofun
  unfold measure
  dsimp only at stage still ⊢
  rw [if_neg still, if_neg before]
  omega

theorem lowers_step {a : Act} (inv : Inv E s) (run : step E s a = some s') :
    measure E s' < measure E s := by
  have receives (receiving : s.client = .receiving) : s.client.isDone = false := by
    rw [receiving]
    rfl
  cases a with
  | send n => exact lowers_send run
  | sendFails =>
    obtain ⟨sending, eq⟩ := Option.ite_none_right_eq_some.mp run
    cases eq
    exact lowers_done (by rw [sending]; rfl)
  | recv n => exact lowers_recv inv run
  | recvEnds =>
    obtain ⟨⟨receiving, -⟩, eq⟩ := Option.ite_none_right_eq_some.mp run
    cases eq
    exact lowers_done (receives receiving)
  | recvFails =>
    obtain ⟨receiving, eq⟩ := Option.ite_none_right_eq_some.mp run
    cases eq
    exact lowers_done (receives receiving)
  | serverReads n => exact lowers_serverReads inv run
  | serverReadEnds =>
    obtain ⟨⟨reading, -⟩, eq⟩ := Option.ite_none_right_eq_some.mp run
    cases eq
    exact lowers_closed inv (by rw [reading]; exact nofun)
  | serverWrites n => exact lowers_serverWrites run
  | serverDies =>
    obtain ⟨running, eq⟩ := Option.ite_none_right_eq_some.mp run
    cases eq
    exact lowers_closed inv running

end Measure

/-- Every run ends, whatever fails. -/
theorem run_bounded {E : Env} {acts : List Act} {s : State}
    (runs : run E (start E) acts = some s) :
    acts.length ≤ 2 * (request.length + E.server.doGet.length) + 4 := by
  have bound := run_length (measure E) runs
    (fun a t t' inv next => Inv.step inv (doGet_ne_nil _) next)
    (fun a t t' inv next => lowers_step inv next) (Inv.start E)
  exact Nat.le_trans (Nat.le_trans (Nat.le_add_right _ _) bound) (measure_start E)

/-- A run in which nothing fails ends with all of the request read and as much of the answer
received as fits the buffer of the client; if all of it fits, its feed is reported. -/
theorem run_finishes {E : Env} {root : JsonValue} (wf : E.server.Wf root) (ready : E.Ready)
    (acts : List Act) (good : ∀ a ∈ acts, a.isFailure = false) (s : State)
    (runs : run E (start E) acts = some s) :
    acts.length ≤ 2 * (request.length + E.server.doGet.length) + 4 ∧
    ((∀ a, a.isFailure = false → step E s a = none) →
      s.server = .closed ∧ s.up.got = request ∧ s.down.got = E.server.doGet.take recvCap ∧
      s.client = .done (report s.down.got) ∧
      (E.server.doGet.length ≤ recvCap → s.down.got = E.server.doGet ∧
        ∃ f, s.client = .done (.parsed 200 E.server.body.length f) ∧ GraphFeedOf root f)) := by
  refine ⟨run_bounded runs, fun stuck => ?_⟩
  have calm : Calm E s := run_invariant runs
    (fun a member t t' calm next => Calm.step calm ready (good a member) next)
    (Calm.start ready)
  have finished : ¬(s.client.isDone = false ∨ s.server ≠ .closed) := by
    intro unfinished
    obtain ⟨a, s', fine, next⟩ := calm.goes_on unfinished
    rw [stuck a fine] at next
    cases next
  obtain ⟨ended, closed⟩ := not_or.mp finished
  have closed := not_not.mp closed
  cases client : s.client with
  | sending =>
    rw [client] at ended
    exact absurd rfl ended
  | receiving =>
    rw [client] at ended
    exact absurd rfl ended
  | done r =>
    obtain ⟨part, rfl⟩ := calm.finished r client
    have got : s.up.got = request := by
      rcases calm.down with empty | ⟨got, -⟩
      · exact absurd client (calm.not_done (Stream.total_eq_nil.mp empty).1 _)
      · exact got
    refine ⟨closed, got, part, by rw [part], fun fits => ?_⟩
    obtain ⟨f, reported, feed⟩ := report_whole wf
    rw [List.take_of_length_le fits] at part ⊢
    exact ⟨part, f, by rw [reported], feed⟩

/-- Nobody has anything left to do. -/
theorem step_finished {E : Env} {s : State} (ended : s.client.isDone = true)
    (closed : s.server = .closed) (a : Act) (good : a.isFailure = false) : step E s a = none := by
  have sending : s.client ≠ .sending := by
    intro eq
    rw [eq] at ended
    cases ended
  have receiving : s.client ≠ .receiving := by
    intro eq
    rw [eq] at ended
    cases ended
  cases a with
  | send n => exact if_neg fun can => sending can.1
  | recv n => exact if_neg fun can => receiving can.1
  | recvEnds => exact if_neg fun can => receiving can.1
  | serverReads n => exact if_neg fun can => by rw [closed] at can; cases can.1
  | serverReadEnds => exact if_neg fun can => by rw [closed] at can; cases can.1
  | serverWrites n => exact if_neg fun can => by rw [closed] at can; cases can.1
  | sendFails | recvFails | serverDies => cases good

theorem run_finishes_mock : ∃ root s f, mockServer.Wf root ∧
    run mockEnv (start mockEnv) mockActs = some s ∧
    s.client = .done (.parsed 200 mockBody.length f) ∧ GraphFeedOf root f := by
  obtain ⟨root, wf⟩ := mockServer_wf
  have last : (run mockEnv (start mockEnv) mockActs).map
      (fun s => (s.client.isDone, s.server)) = some (true, .closed) := by decide +kernel
  obtain ⟨s, runs, ended⟩ := Option.map_eq_some_iff.mp last
  obtain ⟨ended, closed⟩ := Prod.mk.inj ended
  have finishes := (run_finishes (E := mockEnv) wf ⟨rfl, rfl, by decide, by decide⟩
    mockActs (by decide) s runs).2 (step_finished ended closed)
  obtain ⟨-, -, -, -, whole⟩ := finishes
  obtain ⟨-, f, reported, feed⟩ := whole (by decide +kernel)
  exact ⟨root, s, f, wf, runs, reported, feed⟩

end InstagramNt40.Nettest
