import SmartSocks.Dns.Queries
import SmartSocks.Library.Machine

/-!
# The DNS proxy

The VPN thread forwards queries and `UDPProxyServer` receives datagrams; a run
is any interleaving of the two. Both go through the one map of pending queries.
A datagram is received behind the 28 bytes of an IP and a UDP header, into an
array that still holds what earlier datagrams left.
-/

namespace SmartSocks.Sslocal

open Jvm EasyValue TcpIp Dns

structure Proxy where
  queries : Queries
  ipPacket : IPPacket
  sent : List Datagram
  written : List (List Byte)

/-- A query as `processUDPPacket` hands it over: the packet was accepted by
`FromBytes` and goes to port 53. -/
structure Query where
  ipPacket : IPPacket
  packet : DNSPacket
  accepted : ∃ depth buffer, ipPacket.mDNSBuffer.setLimit (ipPacket.getDataLength - 8) = .ok buffer ∧
    DNSPacket.fromBytes depth buffer = .ok (some packet)
  port_eq : IPPacket.UDPPacket.getDestinationPort ipPacket = 53

/-- The state that is kept for the answer. -/
def Query.state (q : Query) : QueryState := q.packet.queryState q.ipPacket

inductive Event
  | request (query : Query)
  | datagram (source : Word × Short) (payload : List Byte)

namespace UDPProxyServer

/-- `RECEIVE_BUFFER` after `setDefault`. -/
def initial : Proxy where
  queries := ⟨0, fun _ => none⟩
  ipPacket := IPPacket.setDefault { mData := ⟨2000, fun _ => 0⟩, size_ge := Nat.le_refl _ }
  sent := []
  written := []

/-- `mUDPProxySocket.receive(packet)`: what does not fit is cut off. -/
def receive (payload : List Byte) (p : IPPacket) : IPPacket :=
  p.write 28 (payload.take (p.mData.size - 28))

/-- `dnsBuffer` after `clear()` and `limit(packet.length)`. -/
def dnsBuffer (payload : List Byte) (p : IPPacket) : Except Throwable (ByteBuffer Byte) :=
  p.mDNSBuffer.setLimit (min payload.length (p.mData.size - 28) : Nat)

/-- One round of the receive loop. -/
def onDatagram (depth : Nat) (payload : List Byte) : Prog Responses Unit := do
  modify fun s => { s with ipPacket := receive payload s.ipPacket }
  let buffer ← Prog.lift (dnsBuffer payload (← get).ipPacket)
  tryCatch
    (do
      match ← Prog.lift (DNSPacket.fromBytes depth buffer) with
      | none => return ()
      | some packet => packet.processResponse)
    fun e => if e.isException then return () else throw e

/-- One call of `processRequest` or one round of the receive loop. The stack of
the DNS thread has `depth` frames; there is no step when a thread ends. -/
def step (depth : Nat) (s : Proxy) : Event → Option Proxy
  | .request q =>
    match q.packet.processRequest.exec ⟨q.ipPacket, s.queries, s.sent⟩ with
    | (.ok (), r) => some { s with queries := r.queries, sent := r.sent }
    | (.error _, _) => none
  | .datagram _ payload =>
    match (onDatagram depth payload).exec ⟨s.ipPacket, s.queries, s.written⟩ with
    | (.ok (), r) => some { s with ipPacket := r.ipPacket, queries := r.queries, written := r.written }
    | (.error _, _) => none

end UDPProxyServer

open UDPProxyServer

/-- What `FromBytes` makes of a datagram. -/
def parse (depth : Nat) (payload : List Byte) (p : IPPacket) : Except Throwable (Option DNSPacket) := do
  let buffer ← dnsBuffer payload (receive payload p)
  DNSPacket.fromBytes depth buffer

/-- The event is a datagram that `FromBytes` accepts and that carries the id `x`. -/
def Carries (depth : Nat) (x : Short) (s : Proxy) : Event → Prop
  | .request _ => False
  | .datagram _ payload => ∃ packet, parse depth payload s.ipPacket = .ok (some packet) ∧
    packet.Header.mID = x

def requests : List Event → Nat
  | [] => 0
  | .request _ :: es => requests es + 1
  | .datagram _ _ :: es => requests es

/-- A state that some interleaving leads to. -/
def Reachable (depth : Nat) (s : Proxy) : Prop :=
  ∃ es, Machine.run (step depth) initial es = some s

-- ---------------------------------------------------------------------------
-- One step
-- ---------------------------------------------------------------------------

section
variable {depth : Nat} {s t : Proxy}

theorem setLimit_eq_ok {p : IPPacket} {n : Int} {buffer : ByteBuffer Byte}
    (h : p.mDNSBuffer.setLimit n = .ok buffer) :
    buffer.array = p.mData ∧ buffer.arrayOffset = 28 ∧ buffer.position = 0 := by
  obtain ⟨-, -, harray, hoffset, -, hpos⟩ := p.mDNSBuffer.setLimit_eq_ok h
  exact ⟨harray, hoffset, hpos rfl⟩

theorem Query.size_le (q : Query) : q.packet.Size ≤ 512 := by
  obtain ⟨depth, buffer, hlimit, hfrom⟩ := q.accepted
  obtain ⟨-, -, hpos⟩ := setLimit_eq_ok hlimit
  obtain ⟨-, -, hmax, -⟩ := DNSPacket.fromBytes_some hpos hfrom
  exact hmax

/-- The id that is kept for a query is the one in its packet. -/
theorem Query.id_eq (q : Query) : q.state.ClientQueryID = short q.ipPacket.mData 28 := by
  obtain ⟨depth, buffer, hlimit, hfrom⟩ := q.accepted
  obtain ⟨harray, hoffset, hpos⟩ := setLimit_eq_ok hlimit
  obtain ⟨-, -, -, -, hid⟩ := DNSPacket.fromBytes_some hpos hfrom
  rw [hoffset, harray] at hid
  exact hid

theorem parse_some {payload : List Byte} {p : IPPacket} {packet : DNSPacket}
    (h : parse depth payload p = .ok (some packet)) :
    12 ≤ packet.Size ∧ packet.Size ≤ 512 ∧ packet.Header.mOffset = 28 := by
  obtain ⟨buffer, hlimit, hfrom⟩ := bind_eq_ok.mp h
  obtain ⟨-, hoffset, hpos⟩ := setLimit_eq_ok hlimit
  obtain ⟨-, hmin, hmax, hheader, -⟩ := DNSPacket.fromBytes_some hpos hfrom
  exact ⟨hmin, hmax, hheader.trans hoffset⟩

theorem parse_payload {payload : List Byte} {p : IPPacket} {packet : DNSPacket}
    (h : parse depth payload p = .ok (some packet)) :
    packet.Size = payload.length ∧ packet.Header.mID = short (receive payload p).mData 28 := by
  obtain ⟨buffer, hlimit, hfrom⟩ := bind_eq_ok.mp h
  obtain ⟨harray, hoffset, hpos⟩ := setLimit_eq_ok hlimit
  obtain ⟨hsize, -, hmax, -, hid⟩ := DNSPacket.fromBytes_some hpos hfrom
  obtain ⟨-, -, -, -, hlength, -⟩ := ByteBuffer.setLimit_eq_ok _ hlimit
  have hmin : buffer.limit = min payload.length (p.mData.size - 28) := hlength
  have hroom := p.size_ge
  refine ⟨?_, ?_⟩
  · omega
  · rw [hid, hoffset, harray]

theorem step_request (q : Query) :
    step depth s (.request q) = some { s with
      queries := ⟨s.queries.mQueryID + 1,
        Function.update s.queries.mQueryMap (s.queries.mQueryID + 1) (some q.state)⟩
      sent := s.sent ++ [q.packet.forwarded (s.queries.mQueryID + 1) q.ipPacket] } := by
  have hport : 0 ≤ (q.packet.queryState q.ipPacket).RemotePort.toInt := by
    have h53 : (q.packet.queryState q.ipPacket).RemotePort = 53 := q.port_eq
    rw [h53]
    decide
  have hexec := exec_processRequest q.packet ⟨q.ipPacket, s.queries, s.sent⟩ hport q.size_le
  simp only [step, hexec]
  rfl

theorem exec_onDatagram (payload : List Byte) (r : Responses) :
    (onDatagram depth payload).exec r =
      match parse depth payload r.ipPacket with
      | .ok none => (.ok (), { r with ipPacket := receive payload r.ipPacket })
      | .ok (some packet) =>
        (tryCatch packet.processResponse
          fun e => if e.isException then return () else throw e).exec
          { r with ipPacket := receive payload r.ipPacket }
      | .error e =>
        (if e.isException then .ok () else .error e,
          { r with ipPacket := receive payload r.ipPacket }) := by
  have hbuffer : ∃ buffer, dnsBuffer payload (receive payload r.ipPacket) = .ok buffer := by
    refine ⟨_, dif_pos ⟨Int.natCast_nonneg _, ?_⟩⟩
    exact Int.ofNat_le.mpr (Nat.min_le_right _ _)
  obtain ⟨buffer, hbuffer⟩ := hbuffer
  simp only [onDatagram, parse, Prog.exec_bind, Prog.exec_modify, Prog.exec_get, hbuffer, ok_bind,
    Prog.exec_lift, Prog.exec_tryCatch]
  cases DNSPacket.fromBytes depth buffer with
  | error e => cases e <;> rfl
  | ok result =>
    cases result with
    | none => rfl
    | some packet => rfl

theorem plain_receive {payload : List Byte} {p : IPPacket} (h : Plain p) : Plain (receive payload p) := by
  refine ⟨?_, h.udpOffset⟩
  rw [receive, IPPacket.write_mData, cell_write_outside (.inl (by decide))]
  exact h.header

/-- A datagram belongs to a pending query, or is only received. -/
theorem step_datagram_cases {source : Word × Short} {payload : List Byte}
    (h : step depth s (.datagram source payload) = some t) :
    (∃ packet state, parse depth payload s.ipPacket = .ok (some packet) ∧
        s.queries.mQueryMap packet.Header.mID = some state) ∨
      ((∀ packet, parse depth payload s.ipPacket = .ok (some packet) →
          s.queries.mQueryMap packet.Header.mID = none) ∧
        t = { s with ipPacket := receive payload s.ipPacket }) := by
  simp only [step, exec_onDatagram] at h
  cases hparse : parse depth payload s.ipPacket with
  | error e =>
    rw [hparse] at h
    cases he : e.isException with
    | true =>
      simp only [he, if_true] at h
      cases h
      exact .inr ⟨nofun, rfl⟩
    | false =>
      simp only [he, Bool.false_eq_true, if_false] at h
      cases h
  | ok result =>
    cases result with
    | none =>
      rw [hparse] at h
      cases h
      exact .inr ⟨nofun, rfl⟩
    | some packet =>
      cases hstate : s.queries.mQueryMap packet.Header.mID with
      | some state => exact .inl ⟨packet, state, rfl, hstate⟩
      | none =>
        have hkeep : Function.update s.queries.mQueryMap packet.Header.mID none =
            s.queries.mQueryMap := by rw [← hstate, Function.update_eq_self]
        rw [hparse] at h
        simp only [Prog.exec_tryCatch] at h
        rw [exec_processResponse_unknown packet _ hstate, hkeep] at h
        cases h
        refine .inr ⟨?_, rfl⟩
        intro packet' hpacket'
        cases hpacket'
        exact hstate

theorem step_of_exec {source : Word × Short} {payload : List Byte} {packet : DNSPacket} {r : Responses}
    (hparse : parse depth payload s.ipPacket = .ok (some packet))
    (hexec : packet.processResponse.exec ⟨receive payload s.ipPacket, s.queries, s.written⟩ = (.ok (), r)) :
    step depth s (.datagram source payload) =
      some { s with ipPacket := r.ipPacket, queries := r.queries, written := r.written } := by
  simp only [step, exec_onDatagram, hparse, Prog.exec_tryCatch, hexec]

/-- A datagram is answered to a client, belongs to no query, or is ignored. -/
theorem step_datagram {source : Word × Short} {payload : List Byte} (hp : Plain s.ipPacket)
    (h : step depth s (.datagram source payload) = some t) :
    Plain t.ipPacket ∧
      ((∃ packet state w, parse depth payload s.ipPacket = .ok (some packet) ∧
          s.queries.mQueryMap packet.Header.mID = some state ∧ IsAnswer state w ∧
          t.written = s.written ++ [w] ∧ t.queries = ⟨s.queries.mQueryID,
            Function.update s.queries.mQueryMap packet.Header.mID none⟩) ∨
        ((∀ packet, parse depth payload s.ipPacket = .ok (some packet) →
            s.queries.mQueryMap packet.Header.mID = none) ∧
          t.written = s.written ∧ t.queries = s.queries)) := by
  obtain ⟨packet, state, hparse, hstate⟩ | ⟨hnone, rfl⟩ := step_datagram_cases h
  · obtain ⟨hmin, hmax, hoffset⟩ := parse_some hparse
    obtain ⟨p, w, hp', hw, hexec⟩ :=
      exec_processResponse_pending (r := ⟨receive payload s.ipPacket, s.queries, s.written⟩) hstate
        (plain_receive hp) hoffset hmin hmax
    rw [step_of_exec hparse hexec] at h
    cases h
    exact ⟨hp', .inl ⟨packet, state, w, hparse, hstate, hw, rfl, rfl⟩⟩
  · exact ⟨plain_receive hp, .inr ⟨hnone, rfl, rfl⟩⟩

/-- The DNS thread survives a datagram that `FromBytes` accepts. -/
theorem step_of_carries {x : Short} {e : Event} (hp : Plain s.ipPacket) (h : Carries depth x s e) :
    ∃ t, step depth s e = some t := by
  cases e with
  | request q => cases h
  | datagram source payload =>
    obtain ⟨packet, hparse, -⟩ := h
    obtain ⟨hmin, hmax, hoffset⟩ := parse_some hparse
    cases hstate : s.queries.mQueryMap packet.Header.mID with
    | none => exact ⟨_, step_of_exec hparse (exec_processResponse_unknown packet _ hstate)⟩
    | some state =>
      obtain ⟨p, w, -, -, hexec⟩ :=
        exec_processResponse_pending (r := ⟨receive payload s.ipPacket, s.queries, s.written⟩) hstate
          (plain_receive hp) hoffset hmin hmax
      exact ⟨_, step_of_exec hparse hexec⟩

-- ---------------------------------------------------------------------------
-- Runs
-- ---------------------------------------------------------------------------

theorem plain_initial : Plain initial.ipPacket := by
  refine ⟨?_, rfl⟩
  simp (disch := simp) only [initial, IPPacket.setDefault, IPPacket.setHeaderLength, IPPacket.setTos,
    IPPacket.setTotalLength, IPPacket.setIdentification, IPPacket.setFlagsAndOffset, IPPacket.setTTL,
    IPPacket.write_mData, cell_write_outside]
  decide

theorem plain_step {e : Event} (hp : Plain s.ipPacket) (h : step depth s e = some t) :
    Plain t.ipPacket := by
  cases e with
  | request q =>
    rw [step_request] at h
    cases h
    exact hp
  | datagram source payload => exact (step_datagram hp h).1

theorem Reachable.plain (h : Reachable depth s) : Plain s.ipPacket := by
  obtain ⟨es, hes⟩ := h
  exact Machine.run_keeps (fun _ _ _ => plain_step) plain_initial hes

/-- A step is at most one operation on the table of pending queries: a request
is an assignment, and only a datagram that carries an id completes it. -/
theorem step_ops {e : Event} (hp : Plain s.ipPacket) (h : step depth s e = some t) :
    ∃ ops, t.queries.table = ops.foldl IdTable.apply s.queries.table ∧
      IdTable.assigns ops = requests [e] ∧
      ∀ x, .complete x ∈ ops → Carries depth x s e := by
  cases e with
  | request q =>
    rw [step_request] at h
    cases h
    refine ⟨[.assign q.state], rfl, rfl, fun x hx => ?_⟩
    cases List.mem_singleton.mp hx
  | datagram source payload =>
    obtain ⟨-, ⟨packet, state, w, hparse, hstate, -, -, hq⟩ | ⟨-, -, hq⟩⟩ := step_datagram hp h
    · refine ⟨[.complete packet.Header.mID], by rw [hq]; rfl, rfl, fun x hx => ?_⟩
      cases List.mem_singleton.mp hx
      exact ⟨packet, hparse, rfl⟩
    · exact ⟨[], by rw [hq]; rfl, rfl, fun x hx => nomatch hx⟩

theorem requests_cons (e : Event) (es : List Event) :
    requests (e :: es) = requests [e] + requests es := by
  cases e with
  | request q => simp only [requests, Nat.zero_add, Nat.add_comm]
  | datagram source payload => simp only [requests, Nat.zero_add]

/-- A run is a run of the table. -/
theorem run_ops {es : List Event} (hp : Plain s.ipPacket)
    (h : Machine.run (step depth) s es = some t) :
    ∃ ops, t.queries.table = ops.foldl IdTable.apply s.queries.table ∧
      IdTable.assigns ops = requests es ∧
      ∀ x, Machine.Guarded (step depth) (fun s e => ¬ Carries depth x s e) s es →
        .complete x ∉ ops := by
  induction es generalizing s with
  | nil =>
    cases h
    exact ⟨[], rfl, rfl, fun x _ hx => nomatch hx⟩
  | cons e es ih =>
    obtain ⟨u, hu, h⟩ := Machine.run_cons.mp h
    obtain ⟨ops, htable, hassigns, hcomplete⟩ := step_ops hp hu
    obtain ⟨ops', htable', hassigns', hcomplete'⟩ := ih (plain_step hp hu) h
    refine ⟨ops ++ ops', ?_, ?_, fun x hg hx => ?_⟩
    · rw [List.foldl_append, ← htable, htable']
    · rw [IdTable.assigns_append, hassigns, hassigns', requests_cons e es]
    · rcases List.mem_append.mp hx with hx | hx
      · exact hg.1 (hcomplete x hx)
      · exact hcomplete' x (hg.2 u hu) hx

end

end SmartSocks.Sslocal
