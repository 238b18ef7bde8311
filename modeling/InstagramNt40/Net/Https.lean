import InstagramNt40.Core.HttpRoundTrip
import InstagramNt40.Core.HttpSized

/-!
# net/https_get.c

`https_request` over what the TLS library answers: the results of the calls that set
the session up, and a trace of the reads, any list of pieces of the peer's stream and
of other results.
-/
namespace InstagramNt40.Https

open Crt Http

/-! ### The TLS library -/

/-- What an `mbedtls_ssl_read` comes upon: bytes of the peer's stream, at least one, or
the result `-n`. -/
inductive SslRead where
  | data (b : UInt8) (bs : List UInt8)
  | result (n : Nat)
  deriving DecidableEq, Repr

/-- `MBEDTLS_ERR_SSL_PEER_CLOSE_NOTIFY`, without its sign. -/
def peerCloseNotify : Nat := 0x7880

/-- `MBEDTLS_ERR_SSL_WANT_READ` -/
def wantRead : Int := -0x6900

/-- `MBEDTLS_ERR_SSL_WANT_WRITE` -/
def wantWrite : Int := -0x6880

/-- `mbedtls_ssl_read` with room for `len` bytes, and the reads after it. Bytes that do
not fit are left for the next read; after the trace the stream is at its end. -/
def sslRead (len : Nat) : List SslRead → SslRead × List SslRead
  | [] => (.result 0, [])
  | .result n :: trace => (.result n, trace)
  | .data b bs :: trace =>
    match bs.drop (len - 1) with
    | [] => (.data b bs, trace)
    | c :: cs => (.data b (bs.take (len - 1)), .data c cs :: trace)

/-- The results of the calls before the first read. `handshake` and `writes` are those
of the repeated ones; after these lists the handshake is done and the rest of the
request is written. -/
structure Session where
  sock : Int
  seed : Int
  caParse : Int
  configDefaults : Int
  setup : Int
  setHostname : Int
  handshake : List Int
  writes : List Int

/-- The handshake loop; `false` is the jump to `cleanup`. -/
def handshakeLoop : List Int → Bool
  | [] => true
  | rc :: rest =>
    if rc = 0 then true
    else if rc ≠ wantRead ∧ rc ≠ wantWrite then false
    else handshakeLoop rest

/-- The loop that sends `reqLen` bytes. -/
def writeLoop (reqLen : Int) : Int → List Int → Bool
  | _, [] => true
  | written, n :: rest =>
    if written < reqLen then if n < 0 then false else writeLoop reqLen (written + n) rest
    else true

/-- Everything before the reads: connection, setup, handshake and the request that
`http_build_request` returned. -/
def established (session : Session) (request : Option (List UInt8)) : Bool :=
  if session.sock < 0 then false
  else if session.seed ≠ 0 then false
  else if session.caParse ≠ 0 then false
  else if session.configDefaults ≠ 0 then false
  else if session.setup ≠ 0 then false
  else if session.setHostname ≠ 0 then false
  else if ¬handshakeLoop session.handshake then false
  else
    match request with
    | none => false
    | some req => writeLoop req.length 0 session.writes

/-! ### Reading the response -/

def recvInitialCap : Nat := 64 * 1024

/-- What ends the read loop: a refused `realloc`, or the result `-n` of a read. -/
inductive LoopEnd where
  | noMemory
  | result (n : Nat)
  deriving DecidableEq, Repr

/-- The read loop, with `buf` the `total` bytes read. A capacity of 2^31 bytes, the
overflow of `cap * 2`, is never granted. -/
def readLoop (heap : Heap) : Nat → Nat → List UInt8 → List SslRead →
    Option (List UInt8 × LoopEnd)
  | 0, _, _, _ => none
  | fuel + 1, cap, buf, trace =>
    if buf.length ≥ cap ∧ ¬heap.grants (cap * 2) then some (buf, .noMemory)
    else
      let cap := if buf.length ≥ cap then cap * 2 else cap
      match sslRead (cap - buf.length) trace with
      -- `if (n <= 0) break;`: the end of the stream, close-notify, a retry code and an error
      -- all end the loop in the same way
      | (.result n, _) => some (buf, .result n)
      | (.data b bs, trace) => readLoop heap fuel cap (buf ++ b :: bs) trace

/-- The bytes a trace holds. -/
def traceSize : List SslRead → Nat
  | [] => 0
  | .result _ :: trace => traceSize trace
  | .data _ bs :: trace => 1 + bs.length + traceSize trace

/-- The buffer, with the end of the loop; nothing when there is no first buffer. -/
def receive (heap : Heap) (trace : List SslRead) : Option (List UInt8 × LoopEnd) :=
  if heap.grants recvInitialCap then
    readLoop heap (traceSize trace + 1) recvInitialCap [] trace
  else none

/-- The result of `https_request` and what it stores through `out_status` and
`out_len`. -/
structure Reply where
  result : Option (List UInt8)
  outStatus : Option Int
  outLen : Option Nat
  deriving DecidableEq, Repr

def Reply.null : Reply := ⟨none, none, none⟩

/-- `https_request` over the parser `parse`. -/
def requestWith (parse : List UInt8 → Option HttpResponse) (heap : Heap) (session : Session)
    (request : Option (List UInt8)) (trace : List SslRead) : Reply :=
  if ¬established session request then .null
  else
    match receive heap trace with
    | none => .null
    | some (buf, _) =>
      if buf.length = 0 then .null
      else
        match parse buf with
        | none => .null
        | some resp =>
          if heap.grants (if resp.bodyLen > 0 then resp.bodyLen else 1) then
            ⟨some resp.bodyBytes, some resp.status, some resp.bodyLen⟩
          else ⟨none, some resp.status, none⟩

def httpsRequest (heap : Heap) : Session → Option (List UInt8) → List SslRead → Reply :=
  requestWith (HttpSized.httpParseResponse heap) heap

/-- The reply when no allocation is refused. -/
def unrefused : Session → Option (List UInt8) → List SslRead → Reply :=
  requestWith httpParseResponse .roomy

/-! ### What the loop delivers -/

/-- The bytes before the first result that is not data. -/
def delivered : List SslRead → List UInt8
  | .data b bs :: trace => b :: bs ++ delivered trace
  | _ => []

/-- The first result that is not data. -/
def firstResult : List SslRead → Nat
  | [] => 0
  | .result n :: _ => n
  | .data _ _ :: trace => firstResult trace

/-- The last capacity that is granted. -/
def lastCap (heap : Heap) : Nat → Nat → Nat
  | 0, cap => cap
  | fuel + 1, cap => if heap.grants (cap * 2) then lastCap heap fuel (cap * 2) else cap

/-- The most bytes the loop takes. -/
def capacity (heap : Heap) : Nat := lastCap heap 15 recvInitialCap

theorem le_lastCap (heap : Heap) (fuel cap : Nat) : cap ≤ lastCap heap fuel cap := by
  induction fuel generalizing cap with
  | zero => exact Nat.le_refl _
  | succ fuel ih =>
    unfold lastCap
    split
    · have := ih (cap * 2)
      omega
    · exact Nat.le_refl _

/-- The growth before a read keeps the last capacity; `grow` counts the doublings left. -/
theorem lastCap_grown {heap : Heap} {grow cap n : Nat} (growing : 2 ^ 31 ≤ cap * 2 ^ grow)
    (granted : ¬(n ≥ cap ∧ ¬heap.grants (cap * 2))) :
    ∃ grow', lastCap heap grow cap = lastCap heap grow' (if n ≥ cap then cap * 2 else cap) ∧
      2 ^ 31 ≤ (if n ≥ cap then cap * 2 else cap) * 2 ^ grow' := by
  by_cases full : n ≥ cap
  · have granted : heap.grants (cap * 2) = true := by
      simpa using fun no => granted ⟨full, no⟩
    rw [if_pos full]
    cases grow with
    | zero =>
      have := heap.small _ granted
      rw [Nat.pow_zero] at growing
      omega
    | succ grow =>
      refine ⟨grow, by rw [lastCap, if_pos granted], ?_⟩
      rw [Nat.pow_succ] at growing
      rwa [Nat.mul_assoc, Nat.mul_comm 2]
  · rw [if_neg full]
    exact ⟨grow, rfl, growing⟩

/-- A read takes what fits of the data and leaves the rest. -/
theorem sslRead_data {len : Nat} (room : 0 < len) {trace : List SslRead} {b : UInt8}
    {bs : List UInt8} {trace' : List SslRead} (read : sslRead len trace = (.data b bs, trace')) :
    (b :: bs).length ≤ len ∧ delivered trace = b :: bs ++ delivered trace' ∧
      firstResult trace = firstResult trace' ∧
      traceSize trace = (b :: bs).length + traceSize trace' := by
  cases trace with
  | nil => cases read
  | cons first trace =>
    cases first with
    | result n => cases read
    | data c cs =>
      have split := List.take_append_drop (len - 1) cs
      simp only [sslRead] at read
      cases left : cs.drop (len - 1) with
      | nil =>
        -- all of the piece fits
        rw [left] at read
        cases read
        have short := List.drop_eq_nil_iff.mp left
        refine ⟨?_, rfl, rfl, ?_⟩
        · rw [List.length_cons]
          omega
        · rw [traceSize, List.length_cons]
          omega
      | cons d ds =>
        rw [left] at read
        cases read
        rw [left] at split
        have sizes := congrArg List.length split
        rw [List.length_append, List.length_cons] at sizes
        have taken := List.length_take_le (len - 1) cs
        refine ⟨?_, ?_, rfl, ?_⟩
        · rw [List.length_cons]
          omega
        · simp only [delivered]
          conv_lhs => rw [← split]
          simp
        · simp only [traceSize, List.length_cons]
          omega

/-- Any other result ends the data. -/
theorem sslRead_result {len : Nat} {trace trace' : List SslRead} {n : Nat}
    (read : sslRead len trace = (.result n, trace')) :
    delivered trace = [] ∧ firstResult trace = n := by
  cases trace with
  | nil =>
    cases read
    exact ⟨rfl, rfl⟩
  | cons first trace =>
    cases first with
    | result m =>
      cases read
      exact ⟨rfl, rfl⟩
    | data b bs =>
      simp only [sslRead] at read
      split at read <;> cases read

/-- How the loop ends when it has `room` for that many more bytes. -/
def endingOf (room : Nat) (trace : List SslRead) : LoopEnd :=
  if (delivered trace).length < room then .result (firstResult trace) else .noMemory

/-- From any buffer the loop takes what the trace delivers, up to the last capacity. -/
theorem readLoop_eq (heap : Heap) (fuel grow cap : Nat) (buf : List UInt8) (trace : List SslRead)
    (enough : traceSize trace < fuel) (positive : 0 < cap) (fits : buf.length ≤ cap)
    (growing : 2 ^ 31 ≤ cap * 2 ^ grow) :
    readLoop heap fuel cap buf trace =
      some (buf ++ (delivered trace).take (lastCap heap grow cap - buf.length),
        endingOf (lastCap heap grow cap - buf.length) trace) := by
  -- `fuel` counts the reads and `grow` the doublings that are left
  induction fuel generalizing grow cap buf trace with
  | zero => omega
  | succ fuel ih =>
    unfold readLoop
    by_cases refused : buf.length ≥ cap ∧ ¬heap.grants (cap * 2)
    · -- the buffer is full and stays as it is
      have last : lastCap heap grow cap = cap := by
        cases grow with
        | zero => rfl
        | succ grow => rw [lastCap, if_neg refused.2]
      have full : cap - buf.length = 0 := by omega
      rw [if_pos refused, last, full, List.take_zero, List.append_nil, endingOf,
        if_neg (Nat.not_lt_zero _)]
    rw [if_neg refused]
    -- after the growth there is room for the next read, and the last capacity is the same
    obtain ⟨grow', last, growing'⟩ := lastCap_grown growing refused
    rw [last]
    have more : buf.length < (if buf.length ≥ cap then cap * 2 else cap) := by
      split <;> omega
    generalize (if buf.length ≥ cap then cap * 2 else cap) = cap' at last growing' more ⊢
    have atLeast := le_lastCap heap grow' cap'
    dsimp only
    cases read : sslRead (cap' - buf.length) trace with
    | mk first trace' =>
      cases first with
      | result n =>
        obtain ⟨none, ends⟩ := sslRead_result read
        dsimp only
        rw [endingOf, none, ends, List.take_nil, List.append_nil, if_pos]
        rw [List.length_nil]
        omega
      | data b bs =>
        -- what is left of the trace is read into the room that is left
        obtain ⟨short, data, same, size⟩ := sslRead_data (by omega) read
        have positive' : 0 < (b :: bs).length := Nat.succ_pos _
        dsimp only
        rw [ih grow' cap' _ trace' (by omega) (by omega)
          (by rw [List.length_append]; omega) growing']
        have left : lastCap heap grow' cap' - (buf ++ b :: bs).length =
            lastCap heap grow' cap' - buf.length - (b :: bs).length := by
          rw [List.length_append]
          omega
        have whole : (delivered trace).take (lastCap heap grow' cap' - buf.length) =
            b :: bs ++ (delivered trace').take
              (lastCap heap grow' cap' - buf.length - (b :: bs).length) := by
          rw [data, List.take_append, List.take_of_length_le (by omega)]
        have ending : endingOf (lastCap heap grow' cap' - buf.length - (b :: bs).length) trace' =
            endingOf (lastCap heap grow' cap' - buf.length) trace := by
          unfold endingOf
          rw [data, same, List.length_append]
          congr 1
          rw [eq_iff_iff]
          omega
        rw [left, whole, ending, List.append_assoc]

/-- The bytes of the response: those delivered, as far as memory allows. -/
def received (heap : Heap) (trace : List SslRead) : List UInt8 :=
  (delivered trace).take (capacity heap)

theorem receive_eq (heap : Heap) (trace : List SslRead)
    (granted : heap.grants recvInitialCap = true) :
    receive heap trace = some (received heap trace, endingOf (capacity heap) trace) := by
  unfold receive
  rw [if_pos granted, readLoop_eq heap _ 15 recvInitialCap [] trace (Nat.lt_succ_self _) (by decide)
    (Nat.zero_le _) (by decide)]
  rfl

end InstagramNt40.Https
