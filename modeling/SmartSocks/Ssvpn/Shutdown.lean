import SmartSocks.Dns.Overflow
import SmartSocks.Sslocal.SelectorSurvival
import SmartSocks.Sslocal.UDPProxyServer

/-!
# `SSVpnService.destroy`

`destroy` clears the flag of a proxy thread and joins it. The selector thread
looks at its flag only behind a round, and nothing wakes it up from `select`; the
socket of the DNS thread is closed before the join, which makes a blocked
`receive` throw outside of the `try`. So a shutdown is clean if the flag of the
selector thread is cleared while it has something to do, and if the socket is
closed while the DNS thread is not receiving.
-/

namespace SmartSocks.Ssvpn

open Jvm Crypto Dns TcpIp Tunnel Sslocal

/-- Where the selector thread is in its loop. -/
inductive SelectorPoint
  | selecting
  | serving
  | ended
  deriving DecidableEq

/-- Where the DNS thread is in its loop. -/
inductive UdpPoint
  | receiving
  | serving (payload : List Byte)
  | looping
  | ended
  | died (e : Throwable)
  deriving DecidableEq

/-- Where `destroy` is. -/
inductive DestroyPoint
  | notCalled
  | joiningVpn
  | joiningTcp
  | closingUdp
  | joiningUdp
  | returned
  deriving DecidableEq

/-- The two proxies, and the call that shuts them down. -/
structure Service (β σ : Type) where
  tcp : SelectorThread β σ
  tcpPoint : SelectorPoint := .selecting
  /-- The channels on which something has happened since they were selected. -/
  arrived : List Selected := []
  mTCPProxyServerRunning : Bool := true
  udp : Proxy
  udpPoint : UdpPoint := .receiving
  /-- The datagrams that were not received yet. -/
  queue : List (List Byte) := []
  mUDPProxyServerRunning : Bool := true
  isClosed : Bool := false
  vpnEnded : Bool := false
  destroyPoint : DestroyPoint := .notCalled

inductive ServiceEvent
  /-- Traffic on a channel, or for the DNS socket. -/
  | arrives (key : Selected)
  | datagram (payload : List Byte)
  /-- The VPN thread forwards a query, or ends. -/
  | request (query : Query)
  | vpnEnds
  /-- The selector thread selects, handles a key, or comes to `while`. -/
  | round (e : Round)
  | tcpLoop
  /-- The DNS thread receives, handles a datagram, or comes to `while`. -/
  | receive
  | serve
  | udpLoop
  /-- `destroy` goes on to where it waits next. -/
  | destroy

namespace Service

variable {β σ : Type}

/-- `select` has nothing to return. -/
def Idle (s : Service β σ) : Prop :=
  ∀ key ∈ s.arrived, ¬ SelectorThread.IsReady (SelectorThread.deregister s.tcp.tunnels) key

instance (s : Service β σ) : Decidable s.Idle :=
  inferInstanceAs (Decidable (∀ key ∈ s.arrived, ¬ _))

/-- `mUDPProxySocket.receive`; a socket that is closed makes it throw. -/
def receive (s : Service β σ) : Option (Service β σ) :=
  if s.udpPoint = .receiving then
    if s.isClosed then some { s with udpPoint := .died .io }
    else
      match s.queue with
      | [] => none
      | payload :: queue => some { s with udpPoint := .serving payload, queue }
  else none

/-- The `try` behind it. -/
def serve (depth : Nat) (s : Service β σ) : Option (Service β σ) :=
  match s.udpPoint with
  | .serving payload =>
    let (result, r) := (UDPProxyServer.onDatagram depth payload).exec
      ⟨s.udp.ipPacket, s.udp.queries, s.udp.written⟩
    some { s with
      udp := { s.udp with ipPacket := r.ipPacket, queries := r.queries, written := r.written }
      udpPoint := match result with
        | .ok () => .looping
        | .error e => .died e }
  | _ => none

def udpLoop (s : Service β σ) : Option (Service β σ) :=
  if s.udpPoint = .looping then
    some { s with
      udpPoint := if s.mUDPProxyServerRunning && !s.isClosed then .receiving else .ended }
  else none

def tcpLoop (s : Service β σ) : Option (Service β σ) :=
  if s.tcpPoint = .serving ∧ s.tcp.selectedKeys = [] ∧ s.tcp.stopped = none then
    some { s with tcpPoint := if s.mTCPProxyServerRunning then .selecting else .ended }
  else none

/-- `SSVpnService.destroy`, and in it the `destroy` of both proxies. -/
def destroy (s : Service β σ) : Option (Service β σ) :=
  match s.destroyPoint with
  | .notCalled => some { s with destroyPoint := .joiningVpn }
  | .joiningVpn =>
    if s.vpnEnded then
      some { s with mTCPProxyServerRunning := false, destroyPoint := .joiningTcp }
    else none
  | .joiningTcp =>
    if s.tcpPoint = .ended ∨ s.tcp.stopped ≠ none then
      some { s with mUDPProxyServerRunning := false, destroyPoint := .closingUdp }
    else none
  | .closingUdp => some { s with isClosed := true, destroyPoint := .joiningUdp }
  | .joiningUdp =>
    match s.udpPoint with
    | .ended => some { s with destroyPoint := .returned }
    | .died _ => some { s with destroyPoint := .returned }
    | _ => none
  | .returned => none

variable [Inhabited β] (C : StreamCipher β σ) (own : Nat → Byte → β)

/-- A round of the selector thread; `select` returns keys that are ready. -/
def round (s : Service β σ) (e : Round) : Option (Service β σ) :=
  match e with
  | .select keys =>
    if s.tcpPoint = .selecting ∧ keys ≠ [] ∧ ∀ k ∈ keys, k ∈ s.arrived then
      (SelectorThread.step C own s.tcp (.select keys)).map fun tcp =>
        { s with tcp, tcpPoint := .serving, arrived := s.arrived.filter (· ∉ keys) }
    else none
  | e =>
    if s.tcpPoint = .serving then
      (SelectorThread.step C own s.tcp e).map fun tcp => { s with tcp }
    else none

/-- One step of one of the threads. -/
def step (depth : Nat) (s : Service β σ) : ServiceEvent → Option (Service β σ)
  | .arrives key => some { s with arrived := key :: s.arrived }
  | .datagram payload => some { s with queue := s.queue ++ [payload] }
  | .request q =>
    if s.vpnEnded then none
    else (UDPProxyServer.step depth s.udp (.request q)).map fun udp => { s with udp }
  | .vpnEnds => some { s with vpnEnded := true }
  | .round e => s.round C own e
  | .tcpLoop => s.tcpLoop
  | .receive => s.receive
  | .serve => s.serve depth
  | .udpLoop => s.udpLoop
  | .destroy => s.destroy

def initial : Service β σ where
  tcp := SelectorThread.initial
  udp := UDPProxyServer.initial

/-- `destroy` waits for a thread that is blocked, and nothing wakes it up. -/
def Stuck (s : Service β σ) : Prop :=
  s.destroyPoint = .joiningTcp ∧ s.tcpPoint = .selecting ∧ s.tcp.stopped = none ∧ s.Idle ∨
    s.destroyPoint = .joiningUdp ∧ s.udpPoint = .receiving ∧ s.queue = [] ∧ s.isClosed = false

instance (s : Service β σ) : Decidable s.Stuck := inferInstanceAs (Decidable (_ ∨ _))

/-- `destroy` is not stuck, and no thread has ended by an exception. -/
structure Clean (s : Service β σ) : Prop where
  notStuck : ¬ s.Stuck
  tcpLives : s.tcp.stopped = none
  udpLives : ∀ e, s.udpPoint ≠ .died e

/-- The state and what the DNS thread does next are clean. -/
def StaysClean (s : Service β σ) : Prop := s.Clean ∧ ∀ t, s.receive = some t → t.Clean

end Service

/-- The datagram, received into what earlier ones left, does not use up the
stack. -/
def DatagramOk (depth : Nat) (p : IPPacket) (payload : List Byte) : Prop :=
  ∀ buffer, UDPProxyServer.dnsBuffer payload (UDPProxyServer.receive payload p) = .ok buffer →
    ¬ Overflows depth buffer

/-- The condition on a step. -/
def StopOk {β σ : Type} (depth : Nat) (s : Service β σ) : ServiceEvent → Prop
  | .round e => StepOk s.tcp e
  | .serve => ∀ payload, s.udpPoint = .serving payload → DatagramOk depth s.udp.ipPacket payload
  | .destroy =>
    (s.destroyPoint = .joiningVpn → s.tcpPoint = .selecting → ¬ s.Idle) ∧
      (s.destroyPoint = .closingUdp → s.udpPoint ≠ .receiving)
  | _ => True

-- ---------------------------------------------------------------------------
-- A datagram
-- ---------------------------------------------------------------------------

section
variable {depth : Nat} {payload : List Byte} {p : IPPacket} {r : Responses}

theorem parse_stackOverflow_iff :
    parse depth payload p = .error .stackOverflow ↔ ¬ DatagramOk depth p payload := by
  obtain ⟨buffer, hbuffer⟩ :
      ∃ buffer, UDPProxyServer.dnsBuffer payload (UDPProxyServer.receive payload p) = .ok buffer := by
    refine ⟨_, dif_pos ⟨Int.natCast_nonneg _, ?_⟩⟩
    exact Int.ofNat_le.mpr (Nat.min_le_right _ _)
  obtain ⟨-, -, hpos⟩ := setLimit_eq_ok hbuffer
  rw [parse, hbuffer, ok_bind, fromBytes_stackOverflow_iff hpos, DatagramOk, hbuffer]
  simp only [Except.ok.injEq, forall_eq', not_not]

/-- A round of the DNS thread is a step of the proxy if it returns. -/
theorem step_of_returns (source : Word × Short) (sent : List Datagram) :
    ((UDPProxyServer.onDatagram depth payload).exec r).1 = .ok () ↔
      UDPProxyServer.step depth ⟨r.queries, r.ipPacket, sent, r.written⟩ (.datagram source payload) =
        some ⟨((UDPProxyServer.onDatagram depth payload).exec r).2.queries,
          ((UDPProxyServer.onDatagram depth payload).exec r).2.ipPacket, sent,
          ((UDPProxyServer.onDatagram depth payload).exec r).2.written⟩ := by
  simp only [UDPProxyServer.step]
  generalize (UDPProxyServer.onDatagram depth payload).exec r = result
  obtain ⟨_ | _, _⟩ := result <;> simp

/-- The DNS thread survives a datagram just when it does not use up the stack. -/
theorem onDatagram_returns_iff (hp : Plain r.ipPacket) :
    ((UDPProxyServer.onDatagram depth payload).exec r).1 = .ok () ↔
      DatagramOk depth r.ipPacket payload := by
  rw [← not_iff_not, ← parse_stackOverflow_iff]
  cases hparse : parse depth payload r.ipPacket with
  | error e =>
    rw [exec_onDatagram, hparse]
    cases e <;> simp [Throwable.isException]
  | ok result =>
    refine iff_of_false (not_not.mpr ?_) nofun
    cases result with
    | none => rw [exec_onDatagram, hparse]
    | some packet =>
      obtain ⟨t, ht⟩ := step_of_carries (s := ⟨r.queries, r.ipPacket, [], r.written⟩)
        (x := packet.Header.mID) (e := .datagram (0, 0) payload) hp ⟨packet, hparse, rfl⟩
      simp only [UDPProxyServer.step] at ht
      split at ht
      next hexec => rw [hexec]
      next => cases ht

/-- And it finds the header of its array as it was. -/
theorem plain_onDatagram (hp : Plain r.ipPacket)
    (hreturns : ((UDPProxyServer.onDatagram depth payload).exec r).1 = .ok ()) :
    Plain ((UDPProxyServer.onDatagram depth payload).exec r).2.ipPacket :=
  (step_datagram hp ((step_of_returns (0, 0) []).mp hreturns)).1

end

-- ---------------------------------------------------------------------------
-- The invariant
-- ---------------------------------------------------------------------------

namespace Service

variable {β σ : Type}

/-- Both threads live, and the one that is joined has something that takes it to
the end of its loop. -/
structure Stopping (s : Service β σ) : Prop where
  steady : SelectorThread.Steady s.tcp
  tcpLives : s.tcp.stopped = none
  plain : Plain s.udp.ipPacket
  udpLives : ∀ e, s.udpPoint ≠ .died e
  awake : s.destroyPoint = .joiningTcp →
    s.mTCPProxyServerRunning = false ∧ (s.tcpPoint = .selecting → ¬ s.Idle)
  closing : s.destroyPoint = .closingUdp → s.mUDPProxyServerRunning = false
  joining : s.destroyPoint = .joiningUdp → s.isClosed = true
  closed : s.isClosed = true → s.mUDPProxyServerRunning = false ∧ s.udpPoint ≠ .receiving

section
variable {s t : Service β σ}

theorem Stopping.clean (hs : s.Stopping) : s.Clean where
  notStuck := by
    rintro (⟨hjoining, hselecting, -, hidle⟩ | ⟨hjoining, -, -, hopen⟩)
    · exact (hs.awake hjoining).2 hselecting hidle
    · rw [hs.joining hjoining] at hopen
      cases hopen
  tcpLives := hs.tcpLives
  udpLives := hs.udpLives

theorem Stopping.receive (hs : s.Stopping) (h : s.receive = some t) : t.Stopping := by
  unfold Service.receive at h
  split at h
  case isFalse => cases h
  case isTrue hreceiving =>
    split at h
    case isTrue hclosed => exact absurd hreceiving (hs.closed hclosed).2
    case isFalse hopen =>
      split at h
      · cases h
      · cases h
        exact { hs with
          udpLives := nofun
          closed := fun hclosed => absurd hclosed hopen }

theorem Stopping.staysClean (hs : s.Stopping) : s.StaysClean :=
  ⟨hs.clean, fun _ h => (hs.receive h).clean⟩

theorem Stopping.serve {depth : Nat} (hs : s.Stopping) (hok : StopOk depth s .serve)
    (h : s.serve depth = some t) : t.Stopping := by
  unfold Service.serve at h
  split at h
  · next payload hserving =>
    have hreturns := (onDatagram_returns_iff (r := ⟨s.udp.ipPacket, s.udp.queries, s.udp.written⟩)
      hs.plain).mpr (hok payload hserving)
    have hplain := plain_onDatagram hs.plain hreturns
    generalize (UDPProxyServer.onDatagram depth payload).exec
      ⟨s.udp.ipPacket, s.udp.queries, s.udp.written⟩ = result at h hreturns hplain
    obtain ⟨_, r⟩ := result
    cases hreturns
    cases h
    exact { hs with
      plain := hplain
      udpLives := nofun
      closed := fun hclosed => ⟨(hs.closed hclosed).1, nofun⟩ }
  · cases h

theorem Stopping.udpLoop (hs : s.Stopping) (h : s.udpLoop = some t) : t.Stopping := by
  unfold Service.udpLoop at h
  split at h
  case isFalse => cases h
  case isTrue =>
    cases h
    refine { hs with udpLives := fun e => ?_, closed := fun hclosed => ⟨(hs.closed hclosed).1, ?_⟩ }
    · split <;> nofun
    · rw [(hs.closed hclosed).1]
      nofun

/-- A thread whose flag was cleared does not select again. -/
theorem Stopping.tcpLoop (hs : s.Stopping) (h : s.tcpLoop = some t) : t.Stopping := by
  unfold Service.tcpLoop at h
  split at h
  case isFalse => cases h
  case isTrue =>
    cases h
    refine { hs with awake := fun hjoining => ⟨(hs.awake hjoining).1, fun hselecting => ?_⟩ }
    rw [(hs.awake hjoining).1] at hselecting
    cases hselecting

theorem Stopping.destroy {depth : Nat} (hs : s.Stopping) (hok : StopOk depth s .destroy)
    (h : s.destroy = some t) : t.Stopping := by
  unfold Service.destroy at h
  split at h
  case h_1 =>
    cases h
    exact { hs with awake := nofun, closing := nofun, joining := nofun }
  case h_2 hjoining =>
    split at h
    · cases h
      exact { hs with
        awake := fun _ => ⟨rfl, hok.1 hjoining⟩
        closing := nofun
        joining := nofun }
    · cases h
  case h_3 =>
    split at h
    · cases h
      exact { hs with
        awake := nofun
        closing := fun _ => rfl
        joining := nofun
        closed := fun hclosed => ⟨rfl, (hs.closed hclosed).2⟩ }
    · cases h
  case h_4 hclosing =>
    cases h
    exact { hs with
      awake := nofun
      closing := nofun
      joining := fun _ => rfl
      closed := fun _ => ⟨hs.closing hclosing, hok.2 hclosing⟩ }
  case h_5 =>
    split at h
    · cases h
      exact { hs with awake := nofun, closing := nofun, joining := nofun }
    · cases h
      exact { hs with awake := nofun, closing := nofun, joining := nofun }
    · cases h
  case h_6 => cases h

variable [Inhabited β] {C : StreamCipher β σ} {own : Nat → Byte → β}

theorem stopping_initial : (initial : Service β σ).Stopping where
  steady := SelectorThread.steady_initial
  tcpLives := rfl
  plain := plain_initial
  udpLives := nofun
  awake := nofun
  closing := nofun
  joining := nofun
  closed := nofun

/-- The handlers return under the condition on a round. -/
theorem Stopping.selected {tcp : SelectorThread β σ} {e : Round} (hs : s.Stopping)
    (hok : StepOk s.tcp e) (h : SelectorThread.step C own s.tcp e = some tcp) :
    SelectorThread.Steady tcp ∧ tcp.stopped = none := by
  have hreturns := (SelectorThread.stepOk_iff hs.steady h).mpr hok
  exact ⟨SelectorThread.steady_step hs.steady h hreturns, hreturns⟩

theorem Stopping.round {e : Round} (hs : s.Stopping) (hok : StepOk s.tcp e)
    (h : s.round C own e = some t) : t.Stopping := by
  unfold Service.round at h
  split at h
  · split at h
    · obtain ⟨tcp, htcp, rfl⟩ := Option.map_eq_some_iff.mp h
      obtain ⟨hsteady, hreturns⟩ := hs.selected hok htcp
      exact { hs with
        steady := hsteady
        tcpLives := hreturns
        awake := fun hjoining => ⟨(hs.awake hjoining).1, nofun⟩ }
    · cases h
  · split at h
    case isTrue hserving =>
      obtain ⟨tcp, htcp, rfl⟩ := Option.map_eq_some_iff.mp h
      obtain ⟨hsteady, hreturns⟩ := hs.selected hok htcp
      refine { hs with
        steady := hsteady
        tcpLives := hreturns
        awake := fun hjoining => ⟨(hs.awake hjoining).1, fun hselecting => ?_⟩ }
      cases hserving.symm.trans hselecting
    case isFalse => cases h

theorem stopping_step {depth : Nat} {e : ServiceEvent} (hs : s.Stopping) (hok : StopOk depth s e)
    (h : step C own depth s e = some t) : t.Stopping := by
  cases e with
  | arrives key =>
    cases h
    refine { hs with awake := fun hjoining => ⟨(hs.awake hjoining).1, fun hselecting hidle => ?_⟩ }
    exact (hs.awake hjoining).2 hselecting fun key' hkey' =>
      hidle key' (List.mem_cons_of_mem _ hkey')
  | datagram payload =>
    cases h
    exact { hs with }
  | request q =>
    unfold step at h
    simp only at h
    split at h
    · cases h
    · obtain ⟨udp, hudp, rfl⟩ := Option.map_eq_some_iff.mp h
      exact { hs with plain := plain_step hs.plain hudp }
  | vpnEnds =>
    cases h
    exact { hs with }
  | round e => exact hs.round hok h
  | tcpLoop => exact hs.tcpLoop h
  | receive => exact hs.receive h
  | serve => exact hs.serve hok h
  | udpLoop => exact hs.udpLoop h
  | destroy => exact hs.destroy hok h

/-- A step that does not meet the condition is the end of a clean shutdown. -/
theorem not_staysClean_step {depth : Nat} {e : ServiceEvent} (hs : s.Stopping)
    (hfails : ¬ StopOk depth s e) (h : step C own depth s e = some t) : ¬ t.StaysClean := by
  cases e with
  | round e =>
    have htcp : SelectorThread.step C own s.tcp e = some t.tcp := by
      simp only [step, Service.round] at h
      split at h <;> split at h
      · obtain ⟨tcp, htcp, rfl⟩ := Option.map_eq_some_iff.mp h
        exact htcp
      · cases h
      · obtain ⟨tcp, htcp, rfl⟩ := Option.map_eq_some_iff.mp h
        exact htcp
      · cases h
    exact fun hclean => hfails ((SelectorThread.stepOk_iff hs.steady htcp).mp hclean.1.tcpLives)
  | serve =>
    simp only [StopOk, not_forall] at hfails
    obtain ⟨payload, hserving, hfails⟩ := hfails
    rw [← onDatagram_returns_iff (r := ⟨s.udp.ipPacket, s.udp.queries, s.udp.written⟩) hs.plain]
      at hfails
    simp only [step, Service.serve, hserving] at h
    generalize (UDPProxyServer.onDatagram depth payload).exec
      ⟨s.udp.ipPacket, s.udp.queries, s.udp.written⟩ = result at h hfails
    obtain ⟨_ | _, r⟩ := result
    · cases h
      exact fun hclean => hclean.1.udpLives _ rfl
    · exact absurd rfl hfails
  | destroy =>
    rw [StopOk, not_and_or] at hfails
    simp only [step, Service.destroy] at h
    rcases hfails with hasleep | hblocked
    · simp only [Classical.not_imp, not_not] at hasleep
      obtain ⟨hjoining, hselecting, hidle⟩ := hasleep
      simp only [hjoining] at h
      split at h
      · cases h
        exact fun hclean => hclean.1.notStuck (.inl ⟨rfl, hselecting, hs.tcpLives, hidle⟩)
      · cases h
    · simp only [Classical.not_imp, not_not] at hblocked
      obtain ⟨hclosing, hreceiving⟩ := hblocked
      simp only [hclosing] at h
      cases h
      intro hclean
      exact (hclean.2 { s with isClosed := true, destroyPoint := .joiningUdp, udpPoint := .died .io }
        (if_pos hreceiving)).udpLives .io rfl
  | _ => exact absurd trivial hfails

end

end Service

open Service

/-- In a run `destroy` is never stuck and no thread ends by an exception, just
when all its steps meet the condition. -/
theorem shutdown_clean_iff {β σ : Type} [Inhabited β] (C : StreamCipher β σ) (own : Nat → Byte → β)
    (depth : Nat) (events : List ServiceEvent) (s : Service β σ)
    (hrun : Machine.run (step C own depth) initial events = some s) :
    (∀ past t, past <+: events → Machine.run (step C own depth) initial past = some t →
      t.StaysClean) ↔ Machine.Guarded (step C own depth) (StopOk depth) initial events :=
  (Machine.guarded_iff (fun _ _ _ => stopping_step) (fun _ => Stopping.staysClean)
    (fun _ _ _ => not_staysClean_step) stopping_initial hrun).symm

/-- `destroy` is called while a channel waits to be accepted, and goes on to the
end. -/
def sampleShutdown : List ServiceEvent :=
  [.arrives .server, .vpnEnds, .destroy, .destroy, .round (.select [.server]),
    .round (.accept SelectorThread.sampleAccept), .tcpLoop, .destroy, .datagram [], .receive, .destroy,
    .serve, .udpLoop, .destroy]

theorem datagramOk_nil (depth : Nat) (p : IPPacket) : DatagramOk depth p [] := by
  intro buffer hbuffer hover
  have hlimit : buffer.limit = 0 := by
    simp only [UDPProxyServer.dnsBuffer, ByteBuffer.setLimit] at hbuffer
    split at hbuffer
    · cases hbuffer
      simp
    · cases hbuffer
  have hmin := hover.handled.1
  rw [hlimit] at hmin
  cases hmin

theorem sampleShutdown_guarded :
    Machine.Guarded (step feedback (fun _ => id) 1) (StopOk 1) initial sampleShutdown := by
  refine ⟨trivial, fun t ht => ?_⟩
  cases ht
  refine ⟨trivial, fun t ht => ?_⟩
  cases ht
  refine ⟨⟨nofun, nofun⟩, fun t ht => ?_⟩
  cases ht
  refine ⟨⟨fun _ _ => by decide, nofun⟩, fun t ht => ?_⟩
  cases ht
  refine ⟨trivial, fun t ht => ?_⟩
  cases ht
  refine ⟨⟨rfl, fun _ _ => ⟨by decide, fun _ => rfl⟩⟩, fun t ht => ?_⟩
  cases ht
  refine ⟨trivial, fun t ht => ?_⟩
  cases ht
  refine ⟨⟨nofun, nofun⟩, fun t ht => ?_⟩
  cases ht
  refine ⟨trivial, fun t ht => ?_⟩
  cases ht
  refine ⟨trivial, fun t ht => ?_⟩
  cases ht
  refine ⟨⟨nofun, nofun⟩, fun t ht => ?_⟩
  cases ht
  refine ⟨?_, fun t ht => ?_⟩
  · rintro _ ⟨⟩
    exact datagramOk_nil _ _
  cases ht
  refine ⟨trivial, fun t ht => ?_⟩
  cases ht
  exact ⟨⟨nofun, nofun⟩, fun _ _ => trivial⟩

theorem sampleShutdown_clean : ∃ s,
    Machine.run (step feedback (fun _ => id) 1) initial sampleShutdown = some s ∧
      s.destroyPoint = .returned ∧ s.StaysClean := by
  have hreturned : (Machine.run (step feedback (fun _ => id) 1) initial sampleShutdown).map
      (·.destroyPoint) = some .returned := by decide +kernel
  obtain ⟨s, hrun, hs⟩ := Option.map_eq_some_iff.mp hreturned
  exact ⟨s, hrun, hs, (shutdown_clean_iff feedback (fun _ => id) 1 sampleShutdown s hrun).mpr
    sampleShutdown_guarded _ s (List.prefix_refl _) hrun⟩

/-- Without traffic `destroy` waits for the selector thread; when that has ended,
closing the socket ends the DNS thread by an exception. -/
theorem shutdown_fails :
    (Machine.run (step feedback (fun _ => id) 1) initial [.vpnEnds, .destroy, .destroy]).map
      (fun s => decide s.Stuck) = some true ∧
    (Machine.run (step feedback (fun _ => id) 1) initial
      [.arrives .server, .vpnEnds, .destroy, .destroy, .round (.select [.server]),
        .round (.accept SelectorThread.sampleAccept), .tcpLoop, .destroy, .destroy, .receive]).map
      (·.udpPoint) = some (.died .io) := by
  decide +kernel

end SmartSocks.Ssvpn
