import InstagramNt40.Core.HttpRequest
import InstagramNt40.Core.Model
import InstagramNt40.Core.HttpView
import InstagramNt40.Library.Transfer

/-!
# net/nettest_main.c and tools/mock_graph_server.py

The client and the server of the network test, and the connection between them. Client,
server and network act in any order: a call of the client or the server takes as many bytes
as the network likes, and either side may fail or fall silent at any time.
-/
namespace InstagramNt40.Nettest

open Crt Http Transfer

/-! ### What the client says -/

/-- What `WinMain` logs at its end. -/
inductive Report where
  | netInitFailed
  | connectFailed
  | buildRequestFailed
  | sendFailed
  | noDataReceived
  | parseResponseFailed
  | feedFailed (status : Int) (bodyLen : Nat)
  | parsed (status : Int) (bodyLen : Nat) (feed : Model.Feed)
  deriving DecidableEq

/-- From `received %d bytes` on, with the bytes in `buf`. Nothing checks the status. -/
def report (buf : List UInt8) : Report :=
  if buf.length = 0 then .noDataReceived
  else
    match httpParseResponse buf with
    | none => .parseResponseFailed
    | some resp =>
      match Model.feedFromGraphJson resp.bodyBytes with
      | .value feed => .parsed resp.status resp.bodyLen feed
      | _ => .feedFailed resp.status resp.bodyLen

def recvCap : Nat := 16384

def mockHost : List UInt8 := literal "10.0.2.2"

def mockPath : List UInt8 := literal "/me/media?fields=id,caption,media_url"

def mockHeaders : List (List UInt8 × List UInt8) := [(literal "Connection", literal "close")]

/-- What the client is about to do: to `send`, to `recv`, or nothing any more. -/
inductive Client where
  | sending
  | receiving
  | done (r : Report)
  deriving DecidableEq

def Client.isDone : Client → Bool
  | .done _ => true
  | _ => false

/-! ### What the server answers -/

/-- `Server` and `Date` are those of `BaseHTTPRequestHandler`, as are the bytes of its
answers to other methods than GET; `body` is `BODY`. -/
structure MockServer where
  server : List UInt8
  date : List UInt8
  unsupported : List UInt8
  body : List UInt8

/-- What `send_response`, `send_header` and `end_headers` send. -/
def MockServer.head (m : MockServer) : Http1.Head where
  major := 0x31
  minor := 0x30
  code := literal "200"
  reason := literal "OK"
  fields :=
    [⟨literal "Server", [0x20], m.server⟩, ⟨literal "Date", [0x20], m.date⟩,
      ⟨literal "Content-Type", [0x20], literal "application/json"⟩,
      ⟨literal "Content-Length", [0x20], Http1.decimalText m.body.length⟩,
      ⟨literal "Connection", [0x20], literal "close"⟩]

/-- `do_GET`. -/
def MockServer.doGet (m : MockServer) : List UInt8 := m.head.bytes ++ m.body

/-- A handler has a method `do_GET` and no other one. -/
def MockServer.answer (m : MockServer) (r : Http1.Request) : List UInt8 :=
  if r.method = literal "GET" then m.doGet else m.unsupported

/-- A connection of the server: it reads a request, answers, and closes. -/
inductive Server where
  | reading
  | writing
  | closed
  deriving DecidableEq

/-- `BODY` -/
def mockBody : List UInt8 := literal ("\x7b\"data\": [" ++
  "\x7b\"id\": \"1001\", \"username\": \"jun.photo\", " ++
  "\"caption\": \"golden hour never sets old\", \"media_type\": \"IMAGE\", " ++
  "\"media_url\": \"https://example.com/1.jpg\", " ++
  "\"permalink\": \"https://instagram.com/p/aaa\", " ++
  "\"timestamp\": \"2024-06-01T10:00:00+0000\", \"like_count\": 1204\x7d, " ++
  "\x7b\"id\": \"1002\", \"username\": \"skywatch\", \"media_type\": \"IMAGE\", " ++
  "\"media_url\": \"https://example.com/2.jpg\", \"like_count\": 892\x7d], " ++
  "\"paging\": \x7b\"cursors\": \x7b\"after\": \"MOCKCURSOR\"\x7d\x7d\x7d")

/-! ### The system -/

structure Env where
  netInit : Int
  connected : Bool
  heap : Heap
  server : MockServer

/-- In `up` the client still has the `left` bytes of its request from `p` on, and the server
has `got` some of them; in `down` the client has `got` the `total` bytes in `buf`. -/
structure State where
  client : Client
  server : Server
  up : Stream UInt8
  down : Stream UInt8
  deriving DecidableEq

/-- The client has nothing to do with the network (any more). -/
def State.ended (r : Report) : State := ⟨.done r, .reading, .of [], .of []⟩

/-- Everything before `pal_tcp_send_all`. -/
def start (E : Env) : State :=
  if E.netInit ≠ 0 then .ended .netInitFailed
  else if ¬E.connected then .ended .connectFailed
  else
    match httpBuildRequest E.heap (some (literal "GET")) (some mockHost) (some mockPath)
      mockHeaders [] 0 with
    | .value req => ⟨.sending, .reading, .of req, .of []⟩
    | _ => .ended .buildRequestFailed

/-- A call returns, with how many bytes it took or got, at its end, or failed; the server
may also die. -/
inductive Act where
  | send (n : Nat)
  | sendFails
  | recv (n : Nat)
  | recvEnds
  | recvFails
  | serverReads (n : Nat)
  | serverReadEnds
  | serverWrites (n : Nat)
  | serverDies
  deriving DecidableEq

def Act.isFailure : Act → Bool
  | .sendFails => true
  | .recvFails => true
  | .serverDies => true
  | _ => false

variable (E : Env) (s : State)

/-- A `send` in the loop of `pal_tcp_send_all`, and after its last one the buffer. -/
def send (n : Nat) : Option State :=
  if s.client = .sending ∧ 0 < n ∧ n ≤ s.up.left.length then
    let up := s.up.send n
    some { s with
      up := up
      client := if up.left ≠ [] then .sending
        else if E.heap.grants recvCap then .receiving
        else .done .noDataReceived }
  else none

def sendFails : Option State :=
  if s.client = .sending then some { s with client := .done .sendFailed } else none

/-- A `pal_tcp_recv` into the room that is left. -/
def recv (n : Nat) : Option State :=
  if s.client = .receiving ∧ 0 < n ∧ n ≤ s.down.inFlight.length ∧
      n ≤ recvCap - s.down.got.length then
    let down := s.down.deliver n
    some { s with
      down := down
      client := if down.got.length ≥ recvCap then .done (report down.got) else .receiving }
  else none

/-- The end of the stream: the server has closed its side, and there is no more of it. -/
def recvEnds : Option State :=
  if s.client = .receiving ∧ s.server = .closed ∧ s.down.inFlight = [] then
    some { s with client := .done (report s.down.got) }
  else none

/-- A reset, or nothing for fifteen seconds. -/
def recvFails : Option State :=
  if s.client = .receiving then some { s with client := .done (report s.down.got) } else none

/-- The handler answers once it has read a request to its blank line. -/
def serverReads (n : Nat) : Option State :=
  if s.server = .reading ∧ 0 < n ∧ n ≤ s.up.inFlight.length then
    let up := s.up.deliver n
    match Http1.readRequest Http1.trimBlanks up.got with
    | none => some { s with up := up }
    | some r =>
      some { s with up := up, server := .writing, down := .of (E.server.answer r) }
  else none

/-- The client has closed the connection before a request was complete. -/
def serverReadEnds : Option State :=
  if s.server = .reading ∧ s.client.isDone = true ∧ s.up.inFlight = [] then
    some { s with server := .closed }
  else none

/-- The connection is closed behind the answer. -/
def serverWrites (n : Nat) : Option State :=
  if s.server = .writing ∧ 0 < n ∧ n ≤ s.down.left.length then
    let down := s.down.send n
    some { s with down := down, server := if down.left ≠ [] then .writing else .closed }
  else none

def serverDies : Option State :=
  if s.server ≠ .closed then some { s with server := .closed } else none

def step : Act → Option State
  | .send n => send E s n
  | .sendFails => sendFails s
  | .recv n => recv s n
  | .recvEnds => recvEnds s
  | .recvFails => recvFails s
  | .serverReads n => serverReads E s n
  | .serverReadEnds => serverReadEnds s
  | .serverWrites n => serverWrites s n
  | .serverDies => serverDies s

/-- The state after some actions, if each can happen in its turn. -/
def run (acts : List Act) : Option State := acts.foldlM (step E) s

end InstagramNt40.Nettest
