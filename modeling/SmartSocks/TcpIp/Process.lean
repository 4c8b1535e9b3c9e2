import SmartSocks.Dns.Queries
import SmartSocks.Http.HttpHeaderParser

/-!
# `IPPacket.process`

One packet from the tun device. A TCP packet of an application is sent to the
local service with its addresses exchanged, and a packet of the service is sent
back; both go through `PortMapping`, which is keyed by the port of the
application. A DNS query is handed to `processRequest`. `none` is a packet whose
host name is still being looked for after `fuel` extensions.
-/

namespace SmartSocks.TcpIp

open Jvm EasyValue Dns Http IPPacket

inductive IPAccessDirection
  | outcoming
  | incoming
  deriving DecidableEq, Repr

/-- `PortMapping.IPort` -/
structure IPort where
  mIP : Word
  mPort : Short
  mPacketsSent : Word := 0
  mBytesSent : Word := 0
  mBytesRecv : Word := 0
  mHost : Option (List Char) := none

/-- What the VPN thread works on, with the map of `PortMapping`. -/
structure Vpn where
  ipPacket : IPPacket
  mLocalServicePort : Short
  mSessionMap : Short → Option IPort
  queries : Queries
  sent : List Datagram

/-- What a packet counts for in the traffic statistics. -/
abbrev Flow := IPAccessDirection × Int

namespace PortMapping

def get (port : Short) : Prog Vpn (Option IPort) := do
  return (← MonadState.get).mSessionMap port

/-- `add`, and any change of an `IPort` that the map refers to. -/
def add (port : Short) (iport : IPort) : Prog Vpn Unit :=
  modify fun s => { s with mSessionMap := Function.update s.mSessionMap port (some iport) }

end PortMapping

namespace IPPacket

/-- `mTCPPacket.mOffset = getHeaderLength()` -/
def alignTCP (p : IPPacket) : IPPacket :=
  { p with tcpOffset := p.getHeaderLength, tcpOffset_le := getHeaderLength_le }

theorem alignTCP_tcpOffset (p : IPPacket) : p.alignTCP.tcpOffset = p.alignTCP.getHeaderLength := by
  unfold getHeaderLength
  rfl

/-- `mUDPPacket.mOffset = getHeaderLength()` -/
def alignUDP (p : IPPacket) : IPPacket :=
  { p with udpOffset := p.getHeaderLength, udpOffset_le := getHeaderLength_le }

/-- A packet of the service, as it comes back from where it was sent. -/
def fromService (p : IPPacket) (localIP : Word) (iport : IPort) : IPPacket :=
  let p := p.setSourceIP p.getDestinationIP
  let p := TCPPacket.setSourcePort p iport.mPort
  p.setDestinationIP localIP

/-- A packet of an application, as it goes to the service. -/
def toService (p : IPPacket) (localIP : Word) (mLocalServicePort : Short) : IPPacket :=
  let p := p.setSourceIP p.getDestinationIP
  let p := p.setDestinationIP localIP
  TCPPacket.setDestinationPort p mLocalServicePort

/-- `getDataLength() - mTCPPacket.getHeaderLength()` -/
def tcpDataSize (p : IPPacket) : Int := p.getDataLength - TCPPacket.getHeaderLength p

end IPPacket

/-- Rewrites the packet and its checksums. -/
def rewrite (f : IPPacket → IPPacket) : Prog Vpn Unit := do
  modify fun s => { s with ipPacket := f s.ipPacket }
  let (_, p) ← Prog.lift (← get).ipPacket.tcpChecksum
  modify fun s => { s with ipPacket := p }

/-- A packet of the local service. -/
def processService (size : Nat) (localIP : Word) : Prog Vpn Flow := do
  let port := TCPPacket.getDestinationPort (← get).ipPacket
  match ← PortMapping.get port with
  | none => return (.outcoming, 0)
  | some iport =>
    rewrite fun p => p.fromService localIP iport
    PortMapping.add port { iport with mBytesRecv := iport.mBytesRecv + BitVec.ofNat 32 size }
    return (.incoming, size)

/-- The entry that a packet of an application uses: that of its port when it has
the same destination, or else a new one. -/
def session (iport : Option IPort) (p : IPPacket) : IPort :=
  let fresh : IPort := { mIP := p.getDestinationIP, mPort := TCPPacket.getDestinationPort p }
  match iport with
  | none => fresh
  | some iport =>
    if iport.mIP ≠ p.getDestinationIP ∨ iport.mPort ≠ TCPPacket.getDestinationPort p then fresh
    else iport

/-- The host that the first data of a connection asks for. -/
def sniffHost (iport : IPort) (p : IPPacket) (fuel : Nat) : Fate :=
  if iport.mBytesSent = 0 ∧ 10 < p.tcpDataSize then
    HttpHeaderParser.parseHost p.mData (p.tcpOffset + TCPPacket.getHeaderLength p) p.tcpDataSize fuel
  else .returned none

/-- `iport.mPacketsSent++` -/
def IPort.countPacket (iport : IPort) : IPort :=
  { iport with mPacketsSent := iport.mPacketsSent + 1 }

/-- Looks for the host and sends the packet to the service. -/
def forward (localIP : Word) (fuel : Nat) (port : Short) (iport : IPort) : Prog Vpn (Option Flow) := do
  let s ← get
  match sniffHost iport s.ipPacket fuel with
  | .running => return none
  | .returned host => do
    let iport := { iport with mHost := host.or iport.mHost }
    PortMapping.add port iport
    rewrite fun p => p.toService localIP s.mLocalServicePort
    PortMapping.add port
      { iport with mBytesSent := iport.mBytesSent + BitVec.ofInt 32 s.ipPacket.tcpDataSize }
    return some (.outcoming, s.ipPacket.tcpDataSize)

/-- A packet of an application. The second one of a connection is left as it is
when it carries no data. -/
def processApplication (localIP : Word) (fuel : Nat) : Prog Vpn (Option Flow) := do
  let p := (← get).ipPacket
  let port := TCPPacket.getSourcePort p
  let iport := (session (← PortMapping.get port) p).countPacket
  PortMapping.add port iport
  if iport.mPacketsSent = 2 ∧ p.tcpDataSize = 0 then
    return some (.outcoming, 0)
  else
    forward localIP fuel port iport

def processTCPPacket (size : Nat) (localIP : Word) (fuel : Nat) : Prog Vpn (Option Flow) := do
  modify fun s => { s with ipPacket := s.ipPacket.alignTCP }
  let s ← get
  if s.ipPacket.getSourceIP = localIP then
    if TCPPacket.getSourcePort s.ipPacket = s.mLocalServicePort then
      return some (← processService size localIP)
    else
      processApplication localIP fuel
  else
    return some (.outcoming, 0)

def Vpn.requests (s : Vpn) : Requests := ⟨s.ipPacket, s.queries, s.sent⟩

def Vpn.withRequests (r : Requests) (s : Vpn) : Vpn :=
  { s with ipPacket := r.ipPacket, queries := r.queries, sent := r.sent }

/-- `dnsPacket?.processRequest(this)` -/
def processRequest (packet : DNSPacket) : Prog Vpn Unit :=
  Prog.on Vpn.requests Vpn.withRequests packet.processRequest

def processUDPPacket (localIP : Word) (depth : Nat) : Prog Vpn Flow := do
  modify fun s => { s with ipPacket := s.ipPacket.alignUDP }
  let p := (← get).ipPacket
  if p.getSourceIP = localIP ∧ UDPPacket.getDestinationPort p = 53 then
    let mDNSBuffer ← Prog.lift (p.mDNSBuffer.setLimit (p.getDataLength - 8))
    match ← Prog.lift (DNSPacket.fromBytes depth mDNSBuffer) with
    | none => return (.outcoming, 0)
    | some dnsPacket =>
      processRequest dnsPacket
      return (.outcoming, 0)
  else
    return (.outcoming, 0)

def process (size : Nat) (localIP : Word) (depth fuel : Nat) : Prog Vpn (Option Flow) := do
  let protocol := (← get).ipPacket.getProtocol
  if protocol = TCP then
    processTCPPacket size localIP fuel
  else if protocol = UDP then
    return some (← processUDPPacket localIP depth)
  else
    return some (.incoming, 0)

-- ---------------------------------------------------------------------------
-- Lengths of a rewritten packet
-- ---------------------------------------------------------------------------

section
variable {p q : IPPacket} {localIP : Word}

theorem lengths_congr (h : ∀ k, k < 4 → q.mData.cell k = p.mData.cell k) :
    q.getHeaderLength = p.getHeaderLength ∧ q.getTotalLength = p.getTotalLength := by
  unfold getHeaderLength getTotalLength short
  rw [h 0 (by decide), h 2 (by decide), h 3 (by decide)]
  exact ⟨rfl, rfl⟩

/-- The ports are not in the first four bytes, unless the header is empty. -/
theorem toService_lengths (h : 4 ≤ p.tcpOffset) (servicePort : Short) :
    (p.toService localIP servicePort).getHeaderLength = p.getHeaderLength ∧
      (p.toService localIP servicePort).getTotalLength = p.getTotalLength := by
  have hdata : (p.toService localIP servicePort).mData =
      ((p.mData.write 12 (intBytes p.getDestinationIP)).write 16 (intBytes localIP)).write
        (p.tcpOffset + 2) (shortBytes servicePort) := rfl
  refine lengths_congr fun k hk => ?_
  rw [hdata, cell_write_outside (.inl (by omega)), cell_write_outside (.inl (by omega)),
    cell_write_outside (.inl (by omega))]

theorem fromService_lengths (h : 4 ≤ p.tcpOffset) (iport : IPort) :
    (p.fromService localIP iport).getHeaderLength = p.getHeaderLength ∧
      (p.fromService localIP iport).getTotalLength = p.getTotalLength := by
  have hdata : (p.fromService localIP iport).mData =
      ((p.mData.write 12 (intBytes p.getDestinationIP)).write p.tcpOffset
        (shortBytes iport.mPort)).write 16 (intBytes localIP) := rfl
  refine lengths_congr fun k hk => ?_
  rw [hdata, cell_write_outside (.inl (by omega)), cell_write_outside (.inl (by omega)),
    cell_write_outside (.inl (by omega))]

/-- The body that is summed ends in the array. -/
def Fits (p : IPPacket) : Prop :=
  p.getDataLength ≤ 0 ∨ (p.tcpOffset : Int) + p.getDataLength ≤ p.mData.size

theorem fits_of_lengths (halign : q.tcpOffset = q.getHeaderLength) (hsize : q.mData.size = p.mData.size)
    (hlen : q.getHeaderLength = p.getHeaderLength ∧ q.getTotalLength = p.getTotalLength) :
    Fits q ↔ p.getTotalLength ≤ p.mData.size := by
  have hroom := p.size_ge
  have hheader : p.getHeaderLength ≤ 60 := getHeaderLength_le
  unfold Fits getDataLength
  rw [halign, hsize, hlen.1, hlen.2]
  omega

end

-- ---------------------------------------------------------------------------
-- What each case does
-- ---------------------------------------------------------------------------

section
variable {size : Nat} {localIP : Word} {depth fuel : Nat} {s : Vpn}

theorem exec_rewrite (f : IPPacket → IPPacket) :
    (rewrite f).exec s =
      match (f s.ipPacket).tcpChecksum with
      | .ok r => (.ok (), { s with ipPacket := r.2 })
      | .error e => (.error e, { s with ipPacket := f s.ipPacket }) := by
  simp only [rewrite, Prog.exec_bind, Prog.exec_modify, Prog.exec_get, Prog.exec_lift]
  cases (f s.ipPacket).tcpChecksum with
  | ok r => rfl
  | error e => rfl

/-- A map with one entry changed. -/
def Vpn.withSession (s : Vpn) (port : Short) (iport : IPort) : Vpn :=
  { s with mSessionMap := Function.update s.mSessionMap port (some iport) }

theorem exec_processService :
    (processService size localIP).exec s =
      match s.mSessionMap (TCPPacket.getDestinationPort s.ipPacket) with
      | none => (.ok (.outcoming, 0), s)
      | some iport =>
        match (s.ipPacket.fromService localIP iport).tcpChecksum with
        | .ok r =>
          (.ok (.incoming, size), { s with ipPacket := r.2 }.withSession
            (TCPPacket.getDestinationPort s.ipPacket)
            { iport with mBytesRecv := iport.mBytesRecv + BitVec.ofNat 32 size })
        | .error e => (.error e, { s with ipPacket := s.ipPacket.fromService localIP iport }) := by
  simp only [processService, PortMapping.get, Prog.exec_bind, Prog.exec_get, Prog.exec_pure]
  cases s.mSessionMap (TCPPacket.getDestinationPort s.ipPacket) with
  | none => rfl
  | some iport =>
    simp only [Prog.exec_bind, exec_rewrite]
    cases (s.ipPacket.fromService localIP iport).tcpChecksum with
    | ok r => rfl
    | error e => rfl

theorem exec_processService_known {port : Short} {iport : IPort} {r : Bool × IPPacket}
    (hport : TCPPacket.getDestinationPort s.ipPacket = port)
    (hiport : s.mSessionMap port = some iport)
    (hsum : (s.ipPacket.fromService localIP iport).tcpChecksum = .ok r) :
    (processService size localIP).exec s =
      (.ok (.incoming, size), { s with ipPacket := r.2 }.withSession port
        { iport with mBytesRecv := iport.mBytesRecv + BitVec.ofNat 32 size }) := by
  rw [exec_processService, hport, hiport]
  dsimp only
  rw [hsum]

theorem exec_forward (port : Short) (iport : IPort) :
    (forward localIP fuel port iport).exec s =
      match sniffHost iport s.ipPacket fuel with
      | .running => (.ok none, s)
      | .returned host =>
        match (s.ipPacket.toService localIP s.mLocalServicePort).tcpChecksum with
        | .ok r =>
          (.ok (some (.outcoming, s.ipPacket.tcpDataSize)), { s with ipPacket := r.2 }.withSession port
            { iport with
              mHost := host.or iport.mHost
              mBytesSent := iport.mBytesSent + BitVec.ofInt 32 s.ipPacket.tcpDataSize })
        | .error e =>
          (.error e, { s with ipPacket := s.ipPacket.toService localIP s.mLocalServicePort }.withSession
            port { iport with mHost := host.or iport.mHost }) := by
  simp only [forward, Prog.exec_bind, Prog.exec_get]
  cases sniffHost iport s.ipPacket fuel with
  | running => rfl
  | returned host =>
    simp only [PortMapping.add, Prog.exec_bind, Prog.exec_modify, exec_rewrite]
    cases (s.ipPacket.toService localIP s.mLocalServicePort).tcpChecksum with
    | ok r =>
      simp only [Prog.exec_pure, Function.update_idem]
      rfl
    | error e => rfl

/-- The entry of a packet of an application, with the packet counted. -/
def Vpn.iport (s : Vpn) : IPort :=
  (session (s.mSessionMap (TCPPacket.getSourcePort s.ipPacket)) s.ipPacket).countPacket

theorem exec_processApplication :
    (processApplication localIP fuel).exec s =
      if s.iport.mPacketsSent = 2 ∧ s.ipPacket.tcpDataSize = 0 then
        (.ok (some (.outcoming, 0)), s.withSession (TCPPacket.getSourcePort s.ipPacket) s.iport)
      else
        (forward localIP fuel (TCPPacket.getSourcePort s.ipPacket) s.iport).exec
          (s.withSession (TCPPacket.getSourcePort s.ipPacket) s.iport) := by
  simp only [processApplication, PortMapping.get, PortMapping.add, Prog.exec_bind, Prog.exec_get,
    Prog.exec_modify, Prog.exec_pure]
  by_cases hquiet : s.iport.mPacketsSent = 2 ∧ s.ipPacket.tcpDataSize = 0
  · rw [if_pos hquiet]
    exact (congrArg (fun m => Prog.exec m _) (if_pos hquiet)).trans rfl
  · rw [if_neg hquiet]
    exact (congrArg (fun m => Prog.exec m _) (if_neg hquiet)).trans rfl

theorem exec_processTCPPacket :
    (processTCPPacket size localIP fuel).exec s =
      let s := { s with ipPacket := s.ipPacket.alignTCP }
      if s.ipPacket.getSourceIP = localIP then
        if TCPPacket.getSourcePort s.ipPacket = s.mLocalServicePort then
          (some <$> processService size localIP : Prog Vpn (Option Flow)).exec s
        else (processApplication localIP fuel).exec s
      else (.ok (some (.outcoming, 0)), s) := by
  simp only [processTCPPacket, Prog.exec_bind, Prog.exec_modify, Prog.exec_get]
  split
  · split
    · rw [map_eq_pure_bind]
    · rfl
  · rfl

/-- The packet of a DNS query, if it is one. -/
def dnsQuery (p : IPPacket) (depth : Nat) : Except Throwable (Option DNSPacket) := do
  let mDNSBuffer ← p.mDNSBuffer.setLimit (p.getDataLength - 8)
  DNSPacket.fromBytes depth mDNSBuffer

theorem exec_processUDPPacket :
    (processUDPPacket localIP depth).exec s =
      let s := { s with ipPacket := s.ipPacket.alignUDP }
      if s.ipPacket.getSourceIP = localIP ∧ UDPPacket.getDestinationPort s.ipPacket = 53 then
        match dnsQuery s.ipPacket depth with
        | .error e => (.error e, s)
        | .ok none => (.ok (.outcoming, 0), s)
        | .ok (some packet) =>
          match packet.processRequest.exec s.requests with
          | (.ok _, r) => (.ok (.outcoming, 0), s.withRequests r)
          | (.error e, r) => (.error e, s.withRequests r)
      else (.ok (.outcoming, 0), s) := by
  simp only [processUDPPacket, dnsQuery, Prog.exec_bind, Prog.exec_modify, Prog.exec_get]
  split
  · simp only [Prog.exec_bind, Prog.exec_lift]
    cases s.ipPacket.alignUDP.mDNSBuffer.setLimit (s.ipPacket.alignUDP.getDataLength - 8) with
    | error e => rfl
    | ok buffer =>
      simp only [ok_bind]
      cases DNSPacket.fromBytes depth buffer with
      | error e => rfl
      | ok result =>
        cases result with
        | none => rfl
        | some packet =>
          simp only [processRequest, Prog.exec_bind, Prog.exec_on]
          obtain ⟨result, r⟩ := packet.processRequest.exec (Vpn.requests _)
          cases result <;> rfl
  · rfl

theorem exec_process :
    (process size localIP depth fuel).exec s =
      if s.ipPacket.getProtocol = TCP then (processTCPPacket size localIP fuel).exec s
      else if s.ipPacket.getProtocol = UDP then
        (some <$> processUDPPacket localIP depth : Prog Vpn (Option Flow)).exec s
      else (.ok (some (.incoming, 0)), s) := by
  simp only [process, Prog.exec_bind, Prog.exec_get]
  split
  · rfl
  · split
    · rw [map_eq_pure_bind]
    · rfl

end

end SmartSocks.TcpIp
