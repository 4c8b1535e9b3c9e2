import Mathlib.Logic.Function.Basic
import Mathlib.Tactic.Simps.Basic
import SmartSocks.Crypto.CryptoT
import SmartSocks.Ssserver.Server

/-!
# The relay of the server

`server.c` from `accept_cb` to `close_and_free_server`: the callbacks that libev
runs, over a heap of `server_t`, `remote_t` and `query_t`. A callback answers
`none` when it follows a pointer to what was freed, or comes to the line that it
should not reach. The results of the system calls are in the events.

What a connection has taken and given so far is kept with it, in the fields named
as history; no callback reads them.
-/

namespace SmartSocks.Ssserver.TcpRelay

open Jvm
open Crypto.Server (CryptoT Verdict)

def BUF_SIZE : Nat := 2048

def MAX_FRAG : Nat := 1

/-- `buffer_t`; what is behind `idx + len` is left out. -/
structure IoBuffer where
  data : List Byte := []
  idx : Nat := 0
  len : Nat := 0
  deriving DecidableEq, Repr

namespace IoBuffer

/-- The bytes from the start of the array, whatever `idx` is. -/
def whole (buf : IoBuffer) : List Byte := buf.data.take buf.len

def pending (buf : IoBuffer) : List Byte := (buf.data.drop buf.idx).take buf.len

/-- New bytes at the start of the array. -/
def fill (bytes : List Byte) (buf : IoBuffer) : IoBuffer :=
  { buf with data := bytes, len := bytes.length }

def clear (buf : IoBuffer) : IoBuffer := { buf with len := 0, idx := 0 }

end IoBuffer

/-- The stages that `server.c` uses. -/
inductive Stage
  | init
  | resolve
  | stream
  deriving DecidableEq, Repr

structure ServerT (κ : Type) where
  stage : Stage := .init
  frag : Nat := 0
  buf : IoBuffer := {}
  e_ctx : κ
  d_ctx : κ
  remote : Option Nat := none
  query : Option Nat := none
  /-- History: what was received, and what `decrypt` made of it. -/
  fromClient : List (List Byte) := []
  plain : List (List Byte) := []
  /-- History: what was received from the remote, what `encrypt` made of it, and what of that
  was sent. -/
  fromRemote : List (List Byte) := []
  sealed : List (List Byte) := []
  toClient : List Byte := []

structure RemoteT where
  buf : IoBuffer := {}
  /-- Of `send_ctx`; that of `recv_ctx` only decides on `TCP_NODELAY`. -/
  connected : Bool := false
  server : Option Nat := none
  /-- History: what was sent. -/
  toRemote : List Byte := []
  deriving DecidableEq, Repr

/-- What libev watches. -/
inductive Watcher
  | serverRecv (s : Nat)
  | serverSend (s : Nat)
  | serverTimer (s : Nat)
  | remoteRecv (r : Nat)
  | remoteSend (r : Nat)
  deriving DecidableEq, Repr

@[ext]
structure Relay (κ γ : Type) where
  server : Nat → Option (ServerT κ)
  remote : Nat → Option RemoteT
  /-- `query_t`: its `server`. -/
  query : Nat → Option (Option Nat)
  active : Watcher → Bool
  connections : List Nat
  /-- The queries that c-ares has to answer. -/
  resolving : List Nat
  crypto : γ

/-- What `recv` returns. -/
inductive Recv
  | closed
  | again
  | failed
  | bytes (bytes : List Byte)
  deriving DecidableEq, Repr

/-- At least one byte, and no more than there is room for. -/
def Recv.fits : Recv → Bool
  | .bytes received => 0 < received.length && received.length ≤ BUF_SIZE
  | .closed | .again | .failed => true

/-- What `send` returns: at most as many bytes as it was given. -/
inductive Send
  | again
  | failed
  | upTo (count : Nat)
  deriving DecidableEq, Repr

/-- What `connect_to_remote` returns: a new `remote_t`, after fast open has sent some bytes
of the buffer, or none of them. -/
inductive Connect
  | null
  | remote (r sent : Nat)
  deriving DecidableEq, Repr

/-- `malloc` gives memory that is not in use. -/
def Connect.fresh (remote : Nat → Option RemoteT) : Connect → Bool
  | .null => true
  | .remote r _ => (remote r).isNone

namespace Relay

variable {κ γ : Type} (st : Relay κ γ)

def initial (crypto : γ) : Relay κ γ where
  server _ := none
  remote _ := none
  query _ := none
  active _ := false
  connections := []
  resolving := []
  crypto := crypto

@[simps] def setServer (s : Nat) (server : ServerT κ) : Relay κ γ :=
  { st with server := Function.update st.server s (some server) }

@[simps] def setRemote (r : Nat) (remote : RemoteT) : Relay κ γ :=
  { st with remote := Function.update st.remote r (some remote) }

/-- `ev_io_start`, `ev_timer_start` and `ev_timer_again`, which starts a timer again only
if the timeout is not 0, as here. -/
@[simps] def start (w : Watcher) : Relay κ γ := { st with active := Function.update st.active w true }

/-- `ev_io_stop` and `ev_timer_stop`; what was pending is gone as well. -/
@[simps] def stop (w : Watcher) : Relay κ γ := { st with active := Function.update st.active w false }

-- ---------------------------------------------------------------------------
-- Closing
-- ---------------------------------------------------------------------------

def freeRemote (r : Nat) : Option (Relay κ γ) := do
  let remote ← st.remote r
  let st ← match remote.server with
    | none => some st
    | some s => (st.server s).map fun server => st.setServer s { server with remote := none }
  some { st with remote := Function.update st.remote r none }

def closeAndFreeRemote : Option Nat → Option (Relay κ γ)
  | none => some st
  | some r => ((st.stop (.remoteSend r)).stop (.remoteRecv r)).freeRemote r

def freeServer (s : Nat) : Option (Relay κ γ) := do
  let server ← st.server s
  let st := { st with connections := st.connections.erase s }
  let st ← match server.remote with
    | none => some st
    | some r => (st.remote r).map fun remote => st.setRemote r { remote with server := none }
  some { st with server := Function.update st.server s none }

def closeAndFreeServer (s : Nat) : Option (Relay κ γ) := do
  let server ← st.server s
  let st ← match server.query with
    | none => some st
    | some q => (st.query q).map fun _ =>
        { st with query := Function.update st.query q (some none) }.setServer s { server with query := none }
  (((st.stop (.serverSend s)).stop (.serverRecv s)).stop (.serverTimer s)).freeServer s

/-- The two calls that close a connection. -/
def closeBoth (remote : Option Nat) (s : Nat) : Option (Relay κ γ) :=
  (st.closeAndFreeRemote remote).bind fun st => st.closeAndFreeServer s

-- ---------------------------------------------------------------------------
-- Opening
-- ---------------------------------------------------------------------------

/-- `accept_cb` with `new_server`, for a client that is not turned away. -/
def acceptCb (C : CryptoT κ γ) (s : Nat) (random : List Byte) : Relay κ γ :=
  (({ st with connections := s :: st.connections }.setServer s
    { e_ctx := C.e_init random, d_ctx := C.d_init }).start (.serverRecv s)).start (.serverTimer s)

/-- Behind `connect_to_remote`: the two are linked, and what is left of the payload moves to
the remote's buffer. -/
def attach (s : Nat) (server : ServerT κ) (r sent : Nat) : Relay κ γ :=
  let gone := min sent server.buf.len
  let buf : IoBuffer := { server.buf with idx := server.buf.idx + gone, len := server.buf.len - gone }
  let remote : RemoteT := { server := some s, toRemote := server.buf.whole.take gone }
  let st :=
    if 0 < buf.len then
      (st.setRemote r { remote with buf := { data := buf.pending, idx := 0, len := buf.len } }).setServer s
        { server with remote := some r, buf := buf.clear }
    else (st.setRemote r remote).setServer s { server with remote := some r, buf := buf }
  st.start (.remoteSend r)

/-- A request with an address: the remote, or the connection is closed. -/
def connectTo (s : Nat) (server : ServerT κ) : Connect → Option (Relay κ γ)
  | .null => st.closeAndFreeServer s
  | .remote r sent => some ((st.attach s server r sent).stop (.serverRecv s))

/-- `STAGE_INIT` of `server_recv_cb`, once the buffer is decrypted. -/
def handshake (calls : HostCalls) (s : Nat) (server : ServerT κ) (connect : Connect)
    (q : Nat) : Option (Relay κ γ) :=
  let header : Buffer := { data := Bytes.ofList 0 server.buf.whole, len := server.buf.len }
  match serverRecvInit calls header with
  | .malformed _ | .blocked _ | .invalidHostName _ => st.closeAndFreeServer s
  | .connectAddress _ _ payload | .connect _ _ _ _ payload =>
    st.connectTo s { server with buf := server.buf.fill payload } connect
  | .resolve _ _ payload =>
    let st := st.stop (.serverRecv s)
    let server := { server with buf := server.buf.fill payload, query := some q, stage := .resolve }
    some { st.setServer s server with
      query := Function.update st.query q (some (some s))
      resolving := q :: st.resolving }

-- ---------------------------------------------------------------------------
-- The callbacks
-- ---------------------------------------------------------------------------

/-- `recv` and `decrypt` in `server_recv_cb`: `fill` puts the bytes into the buffer that was
chosen, and what is done with decrypted bytes is up to `k`. -/
def received (C : CryptoT κ γ) (s : Nat) (server : ServerT κ) (remote : Option Nat) (recv : Recv)
    (fill : ServerT κ → List Byte → Relay κ γ → Relay κ γ)
    (k : ServerT κ → List Byte → Relay κ γ → Option (Relay κ γ)) : Option (Relay κ γ) :=
  match recv with
  | .closed | .failed => st.closeBoth remote s
  | .again => some st
  | .bytes bytes =>
    let (verdict, out, d_ctx, crypto) := C.decrypt st.crypto server.d_ctx bytes
    let server := { server with d_ctx, fromClient := server.fromClient ++ [bytes] }
    let st := { st with crypto }
    match verdict with
    | .error => (fill server out st).closeBoth remote s
    | .needMore =>
      if server.stage ≠ .stream ∧ MAX_FRAG < server.frag then (fill server out st).closeBoth remote s
      else some (fill { server with frag := server.frag + 1 } out st)
    | .ok => k { server with plain := server.plain ++ [out] } out st

/-- Decrypted bytes in `STAGE_STREAM` are sent on. -/
def forward (s r : Nat) (remote : RemoteT) (send : Send) : Option (Relay κ γ) :=
  match send with
  | .again =>
    let buf := { remote.buf with idx := 0 }
    some (((st.setRemote r { remote with buf }).stop (.serverRecv s)).start (.remoteSend r))
  | .failed => st.closeBoth (some r) s
  | .upTo count =>
    let n := min count remote.buf.len
    let toRemote := remote.toRemote ++ remote.buf.whole.take n
    if n < remote.buf.len then
      let buf := { remote.buf with len := remote.buf.len - n, idx := n }
      some (((st.setRemote r { remote with buf, toRemote }).stop (.serverRecv s)).start (.remoteSend r))
    else some (st.setRemote r { remote with toRemote })

def serverRecvCb (C : CryptoT κ γ) (calls : HostCalls) (s : Nat) (recv : Recv)
    (send : Send) (connect : Connect) (q : Nat) : Option (Relay κ γ) :=
  (st.server s).bind fun server =>
    let own (server : ServerT κ) (out : List Byte) (st : Relay κ γ) : Relay κ γ :=
      st.setServer s { server with buf := server.buf.fill out }
    match server.stage with
    | .stream =>
      server.remote.bind fun r => (st.remote r).bind fun remote =>
        let others (server : ServerT κ) (out : List Byte) (st : Relay κ γ) : Relay κ γ :=
          (st.setServer s server).setRemote r { remote with buf := remote.buf.fill out }
        (st.start (.serverTimer s)).received C s server (some r) recv others fun server out st =>
          (st.setServer s server).forward s r { remote with buf := remote.buf.fill out } send
    | .init =>
      st.received C s server none recv own fun server out st =>
        st.handshake calls s { server with buf := server.buf.fill out } connect q
    -- should not reach here
    | .resolve => st.received C s server none recv own fun _ _ _ => none

def serverSendCb (s : Nat) (send : Send) : Option (Relay κ γ) :=
  (st.server s).bind fun server =>
    match server.remote with
    | none => st.closeAndFreeServer s
    | some r =>
      if server.buf.len = 0 then st.closeBoth (some r) s
      else match send with
      | .again => some st
      | .failed => st.closeBoth (some r) s
      | .upTo count =>
        let n := min count server.buf.len
        let toClient := server.toClient ++ server.buf.pending.take n
        if n < server.buf.len then
          let buf := { server.buf with len := server.buf.len - n, idx := server.buf.idx + n }
          some (st.setServer s { server with buf, toClient })
        else (st.remote r).map fun _ =>
          ((st.setServer s { server with buf := server.buf.clear, toClient }).stop (.serverSend s)).start
            (.remoteRecv r)

def serverTimeoutCb (s : Nat) : Option (Relay κ γ) :=
  (st.server s).bind fun server => st.closeBoth server.remote s

/-- Encrypted bytes are sent back. -/
def reply (s r : Nat) (server : ServerT κ) (send : Send) : Option (Relay κ γ) :=
  match send with
  | .again =>
    let buf : IoBuffer := { server.buf with idx := 0 }
    some (((st.setServer s { server with buf }).stop (.remoteRecv r)).start (.serverSend s))
  | .failed => st.closeBoth (some r) s
  | .upTo count =>
    let n := min count server.buf.len
    let toClient := server.toClient ++ server.buf.whole.take n
    if n < server.buf.len then
      let buf := { server.buf with len := server.buf.len - n, idx := n }
      some (((st.setServer s { server with buf, toClient }).stop (.remoteRecv r)).start (.serverSend s))
    else some (st.setServer s { server with toClient })

def remoteRecvCb (C : CryptoT κ γ) (r : Nat) (recv : Recv) (send : Send) : Option (Relay κ γ) :=
  (st.remote r).bind fun remote =>
    match remote.server with
    | none => st.closeAndFreeRemote (some r)
    | some s =>
      (st.server s).bind fun server =>
        let st := st.start (.serverTimer s)
        match recv with
        | .closed | .failed => st.closeBoth (some r) s
        | .again => some st
        | .bytes bytes =>
          let (verdict, out, e_ctx, crypto) := C.encrypt st.crypto server.e_ctx bytes
          let st := { st with crypto }
          if verdict = .ok then
            let server := { server with
              e_ctx, buf := server.buf.fill out, fromRemote := server.fromRemote ++ [bytes],
              sealed := server.sealed ++ [out] }
            (st.setServer s server).reply s r server send
          else st.closeBoth (some r) s

/-- The end of `remote_send_cb`: the remote takes what waits for it. -/
def flush (s r : Nat) (server : ServerT κ) (remote : RemoteT) (send : Send) : Option (Relay κ γ) :=
  if remote.buf.len = 0 then st.closeBoth (some r) s
  else match send with
  | .again => some st
  | .failed => st.closeBoth (some r) s
  | .upTo count =>
    let n := min count remote.buf.len
    let toRemote := remote.toRemote ++ remote.buf.pending.take n
    if n < remote.buf.len then
      let buf := { remote.buf with len := remote.buf.len - n, idx := remote.buf.idx + n }
      some (st.setRemote r { remote with buf, toRemote })
    else
      let st := ((st.setRemote r { remote with buf := remote.buf.clear, toRemote }).stop (.remoteSend r)).start
        (.serverRecv s)
      if server.stage ≠ .stream then
        some ((st.setServer s { server with stage := .stream }).start (.remoteRecv r))
      else some st

/-- `peer` is whether `getpeername` finds the remote. -/
def remoteSendCb (r : Nat) (peer : Bool) (send : Send) : Option (Relay κ γ) :=
  (st.remote r).bind fun remote =>
    match remote.server with
    | none => st.closeAndFreeRemote (some r)
    | some s =>
      (st.server s).bind fun server =>
        if remote.connected then st.flush s r server remote send
        else if peer then
          let remote := { remote with connected := true }
          let st := st.setRemote r remote
          if remote.buf.len = 0 then
            some ((((st.setServer s { server with stage := .stream }).stop (.remoteSend r)).start
              (.serverRecv s)).start (.remoteRecv r))
          else st.flush s r server remote send
        else st.closeBoth (some r) s

/-- `resolv_free_cb` -/
def resolvFreeCb (q : Nat) : Option (Relay κ γ) :=
  (st.query q).bind fun owner => do
    let st ← match owner with
      | none => some st
      | some s => (st.server s).map fun server => st.setServer s { server with query := none }
    some { st with query := Function.update st.query q none }

/-- `resolv_cb` of `server.c`; no address is found, or `connect_to_remote` is called with it. -/
def resolvCb (q : Nat) (found : Bool) (connect : Connect) : Option (Relay κ γ) :=
  (st.query q).bind fun owner =>
    match owner with
    | none => some st
    | some s =>
      if found then
        (st.server s).bind fun server =>
          match connect with
          | .null => st.closeAndFreeServer s
          | .remote r sent => some (st.attach s server r sent)
      else st.closeAndFreeServer s

/-- `process_client_callback` -/
def answered (q : Nat) (found : Bool) (connect : Connect) : Option (Relay κ γ) :=
  ({ st with resolving := st.resolving.erase q }.resolvCb q found connect).bind fun st => st.resolvFreeCb q

-- ---------------------------------------------------------------------------
-- Runs
-- ---------------------------------------------------------------------------

/-- `free_connections` -/
def freeConnections (st : Relay κ γ) : Option (Relay κ γ) :=
  st.connections.foldlM (fun st s => (st.server s).bind fun server =>
    (st.closeAndFreeServer s).bind fun st => st.closeAndFreeRemote server.remote) st

/-- libev calls a callback whose watcher is active, c-ares answers what it was asked. What a
system call or `malloc` gives is part of the event. -/
inductive Event
  | accept (s : Nat) (random : List Byte)
  | serverRecv (s : Nat) (recv : Recv) (send : Send) (connect : Connect) (q : Nat)
  | serverSend (s : Nat) (send : Send)
  | serverTimeout (s : Nat)
  | remoteRecv (r : Nat) (recv : Recv) (send : Send)
  | remoteSend (r : Nat) (peer : Bool) (send : Send)
  | answered (q : Nat) (found : Bool) (connect : Connect)
  deriving DecidableEq, Repr

def Event.enabled (C : CryptoT κ γ) (st : Relay κ γ) : Event → Bool
  | .accept s random => (st.server s).isNone && random.length = C.rand_len
  | .serverRecv s recv _ connect q =>
    st.active (.serverRecv s) && recv.fits && connect.fresh st.remote && (st.query q).isNone
  | .serverSend s _ => st.active (.serverSend s)
  | .serverTimeout s => st.active (.serverTimer s)
  | .remoteRecv r recv _ => st.active (.remoteRecv r) && recv.fits
  | .remoteSend r _ _ => st.active (.remoteSend r)
  | .answered q _ connect => st.resolving.contains q && connect.fresh st.remote

def handle (C : CryptoT κ γ) (calls : HostCalls) (st : Relay κ γ) :
    Event → Option (Relay κ γ)
  | .accept s random => some (st.acceptCb C s random)
  | .serverRecv s recv send connect q => st.serverRecvCb C calls s recv send connect q
  | .serverSend s send => st.serverSendCb s send
  | .serverTimeout s => st.serverTimeoutCb s
  | .remoteRecv r recv send => st.remoteRecvCb C r recv send
  | .remoteSend r peer send => st.remoteSendCb r peer send
  | .answered q found connect => st.answered q found connect

/-- The state is `none` behind a fault; nothing follows it. -/
def step (C : CryptoT κ γ) (calls : HostCalls) (st : Option (Relay κ γ)) (e : Event) :
    Option (Option (Relay κ γ)) :=
  st.bind fun st => if e.enabled C st then some (st.handle C calls e) else none

end Relay
end SmartSocks.Ssserver.TcpRelay
