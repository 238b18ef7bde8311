import InstagramNt40.Core.HttpHeap
import InstagramNt40.Core.HttpRequest
import InstagramNt40.Net.Https

/-!
# The resources of net/https_get.c

`https_request` with everything it acquires: the socket, the five contexts of the TLS
library, the request, the buffer, the response and the result. The library may be used in
one order only: what is called too early, or over something that was freed, is a fault.
-/
namespace InstagramNt40.HttpsHeap

open Ownership Alloc Crt Http Https HttpHeap

/-! ### The TLS library -/

/-- The five contexts. -/
structure Contexts where
  entropy : Name Kind
  ctrDrbg : Name Kind
  cacert : Name Kind
  conf : Name Kind
  ssl : Name Kind

/-- How far they have come. -/
structure Progress where
  seeded : Bool := false
  trusted : Bool := false
  defaults : Bool := false
  required : Bool := false
  chained : Bool := false
  randomised : Bool := false
  setUp : Bool := false
  named : Bool := false
  bound : Bool := false
  verified : Bool := false

/-- Misuse of the library. -/
def demand (ok : Bool) : Proc Unit := if ok then pure () else fault

/-- The five `_init` calls. -/
def tlsInit : Proc Contexts := do
  let entropy ← init .context
  let ctrDrbg ← init .context
  let cacert ← init .context
  let conf ← init .context
  let ssl ← init .context
  pure ⟨entropy, ctrDrbg, cacert, conf, ssl⟩

section library

variable (c : Contexts) (p : Progress)

def ctrDrbgSeed (rc : Int) : Proc Progress := do
  touch c.ctrDrbg
  touch c.entropy
  pure { p with seeded := rc == 0 }

def x509CrtParse (rc : Int) : Proc Progress := do
  touch c.cacert
  pure { p with trusted := rc == 0 }

def sslConfigDefaults (rc : Int) : Proc Progress := do
  touch c.conf
  pure { p with defaults := rc == 0 }

/-- `mbedtls_ssl_conf_authmode(&conf, MBEDTLS_SSL_VERIFY_REQUIRED)`. -/
def sslConfAuthmode : Proc Progress := do
  touch c.conf
  demand p.defaults
  pure { p with required := true }

def sslConfCaChain : Proc Progress := do
  touch c.conf
  touch c.cacert
  demand (p.defaults && p.trusted)
  pure { p with chained := true }

def sslConfRng : Proc Progress := do
  touch c.conf
  touch c.ctrDrbg
  demand (p.defaults && p.seeded)
  pure { p with randomised := true }

/-- A session is set up over a finished configuration. -/
def sslSetup (rc : Int) : Proc Progress := do
  touch c.ssl
  touch c.conf
  demand (p.required && p.chained && p.randomised)
  pure { p with setUp := rc == 0 }

def sslSetHostname (rc : Int) : Proc Progress := do
  touch c.ssl
  demand p.setUp
  pure { p with named := rc == 0 }

def sslSetBio (sock : Name Kind) : Proc Progress := do
  touch c.ssl
  touch sock
  demand p.setUp
  pure { p with bound := true }

/-- A handshake checks the peer's name against the trusted root. -/
def sslHandshake (sock : Name Kind) (rc : Int) : Proc Progress := do
  touch c.ssl
  touch c.conf
  touch sock
  demand (p.setUp && p.named && p.bound)
  pure { p with verified := rc == 0 }

/-- Reading, writing and the close notification: only to a peer that was verified. -/
def sslUse (sock : Name Kind) : Proc Unit := do
  touch c.ssl
  touch c.conf
  touch sock
  demand p.verified

/-- The five `_free` calls; a session looks at its configuration. -/
def tlsFree : Proc Unit := do
  touch c.conf
  release c.ssl
  release c.conf
  release c.cacert
  release c.ctrDrbg
  release c.entropy

end library

/-! ### core/http.c and pal/net_win32.c -/

/-- `http_build_request`. -/
def httpBuildRequest (method host path : List UInt8) (headers : List (List UInt8 × List UInt8))
    (body : List UInt8) (bodyLen : Int) : Proc (Option (Block × List UInt8)) :=
  let bodyLen := if bodyLen < 0 then 0 else bodyLen.toNat
  let cap := requestCap method host path headers bodyLen
  do
    match ← mallocSize cap with
    | none => pure none
    | some buf =>
      match writeRequest cap method host path headers body bodyLen with
      | some bytes => pure (some (buf, bytes))
      | none => fault

/-- `pal_tcp_connect`; a socket has a handle that is not negative. -/
def palTcpConnect (resolves connects : Bool) : Proc (Option (Name Kind)) := do
  if ¬resolves then pure none
  else
    match ← acquire .socket with
    | none => pure none
    | some s =>
      if connects then pure (some s)
      else do
        release s
        pure none

def palTcpClose (s : Name Kind) : Proc Unit := release s

/-! ### https_request -/

def handshakeLoop (c : Contexts) (sock : Name Kind) (p : Progress) :
    List Int → Proc (Option Progress)
  | [] => do
    let p ← sslHandshake c p sock 0
    pure (some p)
  | rc :: rest => do
    let p ← sslHandshake c p sock rc
    if rc = 0 then pure (some p)
    else if rc ≠ wantRead ∧ rc ≠ wantWrite then pure none
    else handshakeLoop c sock p rest

/-- The calls up to the handshake; `none` is a jump to `cleanup`. -/
def establish (c : Contexts) (sock : Name Kind) (session : Session) :
    Proc (Option Progress) := do
  let p ← ctrDrbgSeed c {} session.seed
  if session.seed ≠ 0 then pure none
  else do
    let p ← x509CrtParse c p session.caParse
    if session.caParse ≠ 0 then pure none
    else do
      let p ← sslConfigDefaults c p session.configDefaults
      if session.configDefaults ≠ 0 then pure none
      else do
        let p ← sslConfAuthmode c p
        let p ← sslConfCaChain c p
        let p ← sslConfRng c p
        let p ← sslSetup c p session.setup
        if session.setup ≠ 0 then pure none
        else do
          let p ← sslSetHostname c p session.setHostname
          if session.setHostname ≠ 0 then pure none
          else do
            let p ← sslSetBio c p sock
            handshakeLoop c sock p session.handshake

/-- `mbedtls_ssl_write` of the request from `written` on. -/
def sslWrite (c : Contexts) (p : Progress) (sock : Name Kind) (req : Block) (written : Int) :
    Proc Unit := do
  sslUse c p sock
  touch req
  demand (0 ≤ written)

/-- The loop that sends the request. -/
def writeLoop (c : Contexts) (p : Progress) (sock : Name Kind) (req : Block) (reqLen : Int) :
    Int → List Int → Proc Bool
  | written, [] =>
    if written < reqLen then do
      sslWrite c p sock req written
      pure true
    else pure true
  | written, n :: rest =>
    if written < reqLen then do
      sslWrite c p sock req written
      if n < 0 then pure false else writeLoop c p sock req reqLen (written + n) rest
    else pure true

/-- The read loop: the buffer and the bytes in it. -/
def readLoop (c : Contexts) (p : Progress) (sock : Name Kind) :
    Nat → Block → Nat → List UInt8 → List SslRead → Proc (Block × List UInt8)
  | 0, _, _, _, _ => timeout
  | fuel + 1, block, cap, buf, trace => do
    match ← (if buf.length ≥ cap then reallocSize (some block) (cap * 2)
        else pure (some block)) with
    -- the buffer stays as it is
    | none => pure (block, buf)
    | some block =>
      let cap := if buf.length ≥ cap then cap * 2 else cap
      sslUse c p sock
      touch block
      match sslRead (cap - buf.length) trace with
      | (.result _, _) => pure (block, buf)
      | (.data b bs, trace) => readLoop c p sock fuel block cap (buf ++ b :: bs) trace

/-- The response in the buffer, and the copy of its body. -/
def takeReply (buf : List UInt8) : Proc (Option Block × Reply) := do
  match ← httpParseResponse buf with
  | none => pure (none, .null)
  | some (own, resp) =>
    match ← mallocSize (if resp.bodyLen > 0 then resp.bodyLen else 1) with
    | none => do
      let _ ← httpResponseFree own
      pure (none, ⟨none, some resp.status, none⟩)
    | some result => do
      look (own.place resp.body)
      let _ ← httpResponseFree own
      pure (some result, ⟨some resp.bodyBytes, some resp.status, some resp.bodyLen⟩)

/-- Everything over the established session. -/
def exchange (c : Contexts) (p : Progress) (sock : Name Kind) (session : Session)
    (method host path : List UInt8) (headers : List (List UInt8 × List UInt8))
    (body : List UInt8) (bodyLen : Int) (trace : List SslRead) :
    Proc (Option Block × Reply) := do
  match ← httpBuildRequest method host path headers body bodyLen with
  | none => pure (none, .null)
  | some (req, bytes) =>
    let written ← writeLoop c p sock req bytes.length 0 session.writes
    release req
    if ¬written then pure (none, .null)
    else
      match ← malloc with
      | none => do
        sslUse c p sock
        pure (none, .null)
      | some buf => do
        let (buf, received) ← readLoop c p sock (traceSize trace + 1) buf recvInitialCap [] trace
        sslUse c p sock
        let reply ← (if received.length > 0 then do
            touch buf
            takeReply received
          else pure (none, .null))
        release buf
        pure reply

/-- What happens between the `_init` calls and `cleanup`. -/
def converse (c : Contexts) (sock : Name Kind) (session : Session)
    (method host path : List UInt8) (headers : List (List UInt8 × List UInt8))
    (body : List UInt8) (bodyLen : Int) (trace : List SslRead) :
    Proc (Option Block × Reply) := do
  match ← establish c sock session with
  | none => pure (none, .null)
  | some p => exchange c p sock session method host path headers body bodyLen trace

/-- `https_request`: the block of the result, and the reply. -/
def httpsRequest (resolves connects : Bool) (session : Session) (method host path : List UInt8)
    (headers : List (List UInt8 × List UInt8)) (body : List UInt8) (bodyLen : Int)
    (trace : List SslRead) : Proc (Option Block × Reply) := do
  match ← palTcpConnect resolves connects with
  | none => pure (none, .null)
  | some sock => do
    let c ← tlsInit
    let reply ← converse c sock session method host path headers body bodyLen trace
    -- cleanup:
    tlsFree c
    palTcpClose sock
    pure reply

end InstagramNt40.HttpsHeap
