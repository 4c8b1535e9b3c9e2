import Mathlib.Logic.Function.Basic
import SmartSocks.Tunnel.Socks5Tunnel

/-!
# `SocketChannelTunnel`

The tunnels of all connections and what the selector thread does to them. A
connection is a pair of tunnels, the `LocalTunnel` of an accepted channel and
the `Socks5Tunnel` to the server; `mChannelBuffer` and `mWriteRemainingBuffer`
are static and serve every pair. A channel keeps its key with the selector and
two logs: the bytes that were read from it and the bytes that it accepted.

What the calls to the system return in a handler is given by `Calls`. A key that
was cancelled stays with its channel until the next `select`, and registering
the channel before that throws `CancelledKeyException`.
-/

namespace SmartSocks.Tunnel

open Jvm Crypto

inductive TunnelRole
  | roleLocal
  | roleRemote
  deriving DecidableEq, Repr

/-- A tunnel, by its pair and its `mRole`. -/
structure TunnelId where
  pair : Nat
  mRole : TunnelRole
  deriving DecidableEq, Repr

def TunnelId.mBrotherTunnel (id : TunnelId) : TunnelId where
  pair := id.pair
  mRole := match id.mRole with
    | .roleLocal => .roleRemote
    | .roleRemote => .roleLocal

/-- The operations that a channel is registered for, one at a time. -/
inductive Op
  | opRead
  | opWrite
  | opConnect
  deriving DecidableEq, Repr

structure SelectionKey where
  interestOps : Op
  isValid : Bool := true
  deriving DecidableEq, Repr

structure SocketChannel (β : Type) where
  isOpen : Bool := true
  key : Option SelectionKey := none
  received : List β := []
  sent : List β := []

/-- The fields of a `Socks5Tunnel` of its own. -/
structure Socks5 (β σ : Type) where
  mDestAddress : InetSocketAddress := ⟨[], 0⟩
  mTunnelEstablished : Bool := false
  mCryptor : CryptBase β σ := {}

structure Tunnels (β σ : Type) where
  mChannelBuffer : ByteBuffer β
  mWriteRemainingBuffer : ByteBuffer β
  mSocketChannel : TunnelId → SocketChannel β
  socks5 : Nat → Socks5 β σ

/-- The capacity of the static buffers. -/
def capacity : Nat := 20000

/-- The bytes of one read: no more than `mChannelBuffer` holds. -/
abbrev Chunk := { bytes : List Byte // bytes.length ≤ capacity }

inductive ReadResult
  | bytes (chunk : Chunk)
  | endOfStream
  | ioException

inductive WriteResult
  | accepts (count : Nat)
  | ioException

/-- What the system returns in one handler. -/
structure Calls where
  read : ReadResult
  /-- One result for each call of `SocketChannel.write`; further calls accept
  nothing. -/
  writes : List WriteResult
  /-- `none` is an `IOException`. -/
  finishConnect : Option Bool
  iv : IV Byte

variable {β σ : Type}

namespace Tunnels

def setChannel (id : TunnelId) (c : SocketChannel β) (t : Tunnels β σ) : Tunnels β σ :=
  { t with mSocketChannel := Function.update t.mSocketChannel id c }

def setSocks5 (pair : Nat) (r : Socks5 β σ) (t : Tunnels β σ) : Tunnels β σ :=
  { t with socks5 := Function.update t.socks5 pair r }

def setCryptor (pair : Nat) (c : CryptBase β σ) (t : Tunnels β σ) : Tunnels β σ :=
  t.setSocks5 pair { t.socks5 pair with mCryptor := c }

def setEstablished (pair : Nat) (established : Bool) (t : Tunnels β σ) : Tunnels β σ :=
  t.setSocks5 pair { t.socks5 pair with mTunnelEstablished := established }

def setKey (id : TunnelId) (key : Option SelectionKey) (t : Tunnels β σ) : Tunnels β σ :=
  t.setChannel id { t.mSocketChannel id with key := key }

/-- Logs the bytes of a read. -/
def receive (id : TunnelId) (bytes : List β) (t : Tunnels β σ) : Tunnels β σ :=
  t.setChannel id
    { t.mSocketChannel id with received := (t.mSocketChannel id).received ++ bytes }

/-- Logs the bytes that a write accepted. -/
def send (id : TunnelId) (bytes : List β) (t : Tunnels β σ) : Tunnels β σ :=
  t.setChannel id { t.mSocketChannel id with sent := (t.mSocketChannel id).sent ++ bytes }

/-- `key.cancel()` -/
def cancel (id : TunnelId) (t : Tunnels β σ) : Tunnels β σ :=
  t.setKey id ((t.mSocketChannel id).key.map ({ · with isValid := false }))

/-- `mSocketChannel?.close()` cancels the key. -/
def close (id : TunnelId) (t : Tunnels β σ) : Tunnels β σ :=
  let t := t.cancel id
  t.setChannel id { t.mSocketChannel id with isOpen := false }

/-- `isTunnelEstablished`: a local tunnel always is. -/
def isTunnelEstablished (t : Tunnels β σ) (id : TunnelId) : Bool :=
  match id.mRole with
  | .roleLocal => true
  | .roleRemote => (t.socks5 id.pair).mTunnelEstablished

/-- `dispose`: a local channel is external and is not closed, and `Socks5Tunnel`
does not call the method that it overrides. -/
def dispose (id : TunnelId) (t : Tunnels β σ) : Tunnels β σ :=
  match id.mRole with
  | .roleLocal => t
  | .roleRemote => t.setEstablished id.pair false

end Tunnels

/-- A method of the selector thread. -/
abbrev Handler (β σ : Type) := Prog (Tunnels β σ)

def register (id : TunnelId) (ops : Op) : Handler β σ Unit := do
  let channel := (← get).mSocketChannel id
  if !channel.isOpen then
    throw .io
  match channel.key with
  | none => modify (Tunnels.setKey id (some { interestOps := ops }))
  | some key =>
    if !key.isValid then
      throw .cancelledKey
    modify (Tunnels.setKey id (some { key with interestOps := ops }))

def beginReceive (id : TunnelId) : Handler β σ Unit := register id .opRead

/-- The loop of `write`: it returns the count, or `-1`, and the buffer behind
what was accepted. -/
def writeLoop (id : TunnelId) : List WriteResult → Int → ByteBuffer β →
    Handler β σ (Int × ByteBuffer β)
  | [], bytesWrite, buffer => return (bytesWrite, buffer)
  | .ioException :: _, _, buffer => return (-1, buffer)
  | .accepts count :: writes, bytesWrite, buffer => do
    let wlen := min count buffer.remaining
    if wlen = 0 then
      return (bytesWrite, buffer)
    else
      modify (Tunnels.send id (buffer.left.take wlen))
      writeLoop id writes (bytesWrite + wlen) (buffer.advance wlen)

def write (id : TunnelId) (writes : List WriteResult) (buffer : ByteBuffer β) :
    Handler β σ (Int × ByteBuffer β) :=
  writeLoop id writes 0 buffer

def scheduleRemainWrite (id : TunnelId) (buffer : ByteBuffer β) : Handler β σ Unit := do
  let mWriteRemainingBuffer ← Prog.lift ((← get).mWriteRemainingBuffer.put buffer.left)
  modify ({ · with mWriteRemainingBuffer := mWriteRemainingBuffer.flip })
  register id .opWrite

/-- A method of the cipher object of a pair. -/
def onCryptor {α : Type} (pair : Nat) (m : Prog (CryptBase β σ) α) : Handler β σ α :=
  Prog.on (fun t => (t.socks5 pair).mCryptor) (Tunnels.setCryptor pair) m

section
variable [Inhabited β] (C : StreamCipher β σ) (own : Nat → Byte → β)

/-- The bytes of an IV that the pair draws. -/
def drawIV (pair : Nat) (iv : IV Byte) : IV β :=
  ⟨iv.val.map (own pair), (List.length_map _).trans iv.property⟩

/-- `beforeSend`, which a local tunnel does not override. -/
def beforeSend (id : TunnelId) (iv : IV Byte) (buffer : ByteBuffer β) :
    Handler β σ (ByteBuffer β) :=
  match id.mRole with
  | .roleLocal => return buffer
  | .roleRemote => onCryptor id.pair (Socks5Tunnel.beforeSend C (drawIV own id.pair iv) buffer)

/-- `afterReceived`, which a local tunnel does not override. -/
def afterReceived (id : TunnelId) (buffer : ByteBuffer β) : Handler β σ (ByteBuffer β) :=
  match id.mRole with
  | .roleLocal => return buffer
  | .roleRemote => onCryptor id.pair (Socks5Tunnel.afterReceived C buffer)

/-- `catch (e: IOException)` with `dispose`. -/
def catchIOException (id : TunnelId) (m : Handler β σ Unit) : Handler β σ Unit :=
  tryCatch m fun e => if e = .io then modify (Tunnels.dispose id) else throw e

/-- The chunk is passed on to the brother. -/
def relay (id : TunnelId) (calls : Calls) : Handler β σ Unit := do
  let brother := id.mBrotherTunnel
  let mChannelBuffer ← beforeSend C own brother calls.iv (← get).mChannelBuffer
  let (wlen, mChannelBuffer) ← write brother calls.writes mChannelBuffer
  modify ({ · with mChannelBuffer })
  if 0 ≤ wlen then
    if mChannelBuffer.hasRemaining then
      scheduleRemainWrite brother mChannelBuffer
      modify (Tunnels.cancel id)
  else
    modify (Tunnels.dispose id)
    modify (Tunnels.cancel id)

/-- `read` into the cleared `mChannelBuffer`, and `flip`. -/
def receive (id : TunnelId) (bytes : List Byte) : Handler β σ Unit := do
  let mChannelBuffer ← Prog.lift ((← get).mChannelBuffer.put (bytes.map (own id.pair)))
  modify fun t =>
    { t with mChannelBuffer := mChannelBuffer.flip }.receive id (bytes.map (own id.pair))

def onReadable (id : TunnelId) (calls : Calls) : Handler β σ Unit := do
  modify fun t => { t with mChannelBuffer := t.mChannelBuffer.clear }
  catchIOException id do
    match calls.read with
    | .ioException => throw .io
    | .endOfStream => modify (Tunnels.dispose id)
    | .bytes chunk =>
      if 0 < chunk.val.length then
        receive own id chunk.val
        let mChannelBuffer ← afterReceived C id (← get).mChannelBuffer
        modify ({ · with mChannelBuffer })
        if (← get).isTunnelEstablished id ∧ mChannelBuffer.hasRemaining then
          relay C own id calls

def onWritable (id : TunnelId) (calls : Calls) : Handler β σ Unit := do
  let buffer ← beforeSend C own id calls.iv (← get).mWriteRemainingBuffer
  let (wlen, buffer) ← write id calls.writes buffer
  modify ({ · with mWriteRemainingBuffer := buffer })
  if 0 ≤ wlen then
    if buffer.hasRemaining then
      modify (Tunnels.cancel id)
      if (← get).isTunnelEstablished id then
        beginReceive id.mBrotherTunnel
      else
        beginReceive id
  else
    modify (Tunnels.dispose id)

/-- `onConnected`, which a local tunnel does not override. -/
def onConnected (id : TunnelId) (calls : Calls) : Handler β σ Unit :=
  match id.mRole with
  | .roleLocal => return ()
  | .roleRemote => do
    let mDestAddress := ((← get).socks5 id.pair).mDestAddress
    let hsBuffer ← onCryptor id.pair
      (Socks5Protocol.handshake C (own id.pair) (drawIV own id.pair calls.iv) mDestAddress)
    let _ ← write id calls.writes hsBuffer
    modify (Tunnels.setEstablished id.pair true)
    -- `onTunnelEstablished`
    beginReceive id
    beginReceive id.mBrotherTunnel

/-- A channel whose `finishConnect` fails is closed. -/
def onConnectable (id : TunnelId) (calls : Calls) : Handler β σ Unit :=
  catchIOException id do
    match calls.finishConnect with
    | none =>
      modify (Tunnels.close id)
      throw .io
    | some true => onConnected C own id calls
    | some false => modify (Tunnels.dispose id)

end

end SmartSocks.Tunnel
