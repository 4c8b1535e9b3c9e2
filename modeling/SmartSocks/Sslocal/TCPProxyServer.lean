import SmartSocks.Library.Machine
import SmartSocks.Tunnel.SocketChannelTunnel

/-!
# `TCPProxyServer`: the selector thread

A round of the thread is a `select` and then one handler for each selected key.
A handler only catches `IOException`: whatever else is thrown stops the thread,
and `stopped` keeps it. A key is selected for what the channel was registered
for at that time, and its handler is chosen by that, whatever was registered
since; a key that was cancelled in the meantime is passed over.
-/

namespace SmartSocks.Sslocal

open Jvm Crypto Tunnel

/-- A selected key, with what it is ready for. -/
inductive Selected
  | server
  | tunnel (id : TunnelId) (readyOps : Op)
  deriving DecidableEq, Repr

/-- The tunnel of a key; the key of the server has none. -/
def Selected.attachment : Selected → Option TunnelId
  | .server => none
  | .tunnel id _ => some id

/-- What is returned to `onAcceptable`. -/
structure AcceptCalls where
  /-- `accept`, and opening a channel to the server. -/
  accept : Except Throwable Unit
  destAddress : Option InetSocketAddress
  /-- Whether `mVpnServerAddress` is set. -/
  hasServer : Bool
  protectSocket : Option Bool
  connect : Except Throwable Unit

/-- `mTCPProxyServerThread`, with the tunnels it serves. -/
structure SelectorThread (β σ : Type) where
  tunnels : Tunnels β σ
  /-- The number of channels that were accepted. -/
  accepted : Nat := 0
  selectedKeys : List Selected := []
  stopped : Option Throwable := none

inductive Round
  | select (keys : List Selected)
  | handle (calls : Calls)
  | accept (calls : AcceptCalls)

variable {β σ : Type}

/-- The tunnels of a new pair, and `connect` of the remote one. -/
def onAcceptable (pair : Nat) (calls : AcceptCalls) : Handler β σ Unit := do
  Prog.lift calls.accept
  modify (Tunnels.setChannel ⟨pair, .roleLocal⟩ {})
  if calls.hasServer then
    modify (Tunnels.setChannel ⟨pair, .roleRemote⟩ {})
    modify (Tunnels.setSocks5 pair {})
    match calls.destAddress with
    | none => return ()
    | some destAddress =>
      modify (Tunnels.setSocks5 pair { mDestAddress := destAddress })
      match calls.protectSocket with
      | none => throw .nullPointer
      | some false => return ()
      | some true =>
        register ⟨pair, .roleRemote⟩ .opConnect
        Prog.lift calls.connect

namespace SelectorThread

/-- `select` removes the keys that were cancelled. -/
def deregister (t : Tunnels β σ) : Tunnels β σ :=
  { t with mSocketChannel := fun id =>
      { t.mSocketChannel id with key := (t.mSocketChannel id).key.filter (·.isValid) } }

/-- A selected key is ready for what its channel is registered for. -/
def IsReady (t : Tunnels β σ) : Selected → Prop
  | .server => True
  | .tunnel id readyOps => (t.mSocketChannel id).key = some { interestOps := readyOps }

instance (t : Tunnels β σ) : DecidablePred (IsReady t)
  | .server => inferInstanceAs (Decidable True)
  | .tunnel id readyOps =>
    inferInstanceAs (Decidable ((t.mSocketChannel id).key = some { interestOps := readyOps }))

/-- What `select` may return: each key once, if it is ready. -/
def Selectable (t : Tunnels β σ) (keys : List Selected) : Prop :=
  (keys.map Selected.attachment).Nodup ∧ ∀ k ∈ keys, IsReady t k

instance (t : Tunnels β σ) (keys : List Selected) : Decidable (Selectable t keys) :=
  inferInstanceAs (Decidable (_ ∧ _))

/-- `key.isValid` -/
def isValid (t : Tunnels β σ) (id : TunnelId) : Bool :=
  (t.mSocketChannel id).key.any (·.isValid)

/-- A handler has returned, or it has thrown and the thread ends. -/
def finish (s : SelectorThread β σ) (keys : List Selected)
    (result : Except Throwable Unit × Tunnels β σ) : SelectorThread β σ :=
  { s with
    tunnels := result.2
    selectedKeys := keys
    stopped := match result.1 with
      | .ok _ => none
      | .error e => some e }

variable [Inhabited β] (C : StreamCipher β σ) (own : Nat → Byte → β)

/-- The handler of a key that is still valid. -/
def handler (id : TunnelId) (readyOps : Op) (calls : Calls) : Handler β σ Unit :=
  match readyOps with
  | .opRead => onReadable C own id calls
  | .opWrite => onWritable C own id calls
  | .opConnect => onConnectable C own id calls

/-- One step of the thread, while it lives. -/
def step (s : SelectorThread β σ) (e : Round) : Option (SelectorThread β σ) :=
  if s.stopped.isSome then none
  else
    match e, s.selectedKeys with
    | .select keys, [] =>
      if Selectable (deregister s.tunnels) keys then
        some { s with tunnels := deregister s.tunnels, selectedKeys := keys }
      else none
    | .accept calls, .server :: keys =>
      some { s.finish keys ((onAcceptable s.accepted calls).exec s.tunnels) with
        accepted := s.accepted + 1 }
    | .handle calls, .tunnel id readyOps :: keys =>
      if isValid s.tunnels id then
        some (s.finish keys ((handler C own id readyOps calls).exec s.tunnels))
      else some { s with selectedKeys := keys }
    | _, _ => none

/-- The thread before its first round. -/
def initial : SelectorThread β σ where
  tunnels := {
    mChannelBuffer := .allocate default capacity
    mWriteRemainingBuffer := .allocate default capacity
    mSocketChannel := fun _ => {}
    socks5 := fun _ => {} }

end SelectorThread

end SmartSocks.Sslocal
