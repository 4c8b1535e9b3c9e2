import SmartSocks.Dns.Accepts
import SmartSocks.Http.SniEnds
import SmartSocks.TcpIp.Process

/-!
# Packets that the VPN thread survives

`VpnThread.run` catches `IOException` only, so `process` has to return. Three
things keep it from returning: a TCP packet whose body, by its own total length,
ends outside the buffer when its checksum is computed; a TLS segment whose
extensions lead back to one of them; a DNS query whose length or whose records
`FromBytes` does not take.
-/

namespace SmartSocks.TcpIp

open Jvm EasyValue Dns Http IPPacket

/-- `process` returns, with any stack and any number of iterations beyond some
bound. -/
def Survives (size : Nat) (localIP : Word) (s : Vpn) : Prop :=
  ∃ bound, ∀ depth fuel, bound ≤ depth → bound ≤ fuel →
    ∃ flow t, (process size localIP depth fuel).exec s = (.ok (some flow), t)

-- ---------------------------------------------------------------------------
-- The condition on the packet
-- ---------------------------------------------------------------------------

namespace IPPacket

/-- Where the body of a packet of the service ends. The port is written over the
first two bytes of a packet whose header length is zero. -/
def endFromService (p : IPPacket) (mPort : Short) : Int :=
  if p.getHeaderLength = 0 then
    p.getTotalLength - ((mPort >>> 8).setWidth 8 &&& 0x0F : Byte).toNat * 4
  else p.getTotalLength

/-- Where the body of a packet of an application ends. The port is written over
the total length of a packet whose header length is zero. -/
def endToService (p : IPPacket) (mLocalServicePort : Short) : Int :=
  if p.getHeaderLength = 0 then mLocalServicePort.toInt else p.getTotalLength

end IPPacket

/-- The entry of the port of a packet, if it is for the same destination. -/
def Vpn.Session (s : Vpn) (p : IPPacket) (iport : IPort) : Prop :=
  s.mSessionMap (TCPPacket.getSourcePort p) = some iport ∧
    iport.mIP = p.getDestinationIP ∧ iport.mPort = TCPPacket.getDestinationPort p

/-- A packet of the service, of a known session, ends in the buffer. -/
def ServiceHarmless (s : Vpn) (p : IPPacket) : Prop :=
  ∀ iport, s.mSessionMap (TCPPacket.getDestinationPort p) = some iport →
    p.endFromService iport.mPort ≤ p.mData.size

/-- A packet of an application ends in the buffer, and if it is the first of its
session with data to look for a host in, the search ends. The second packet of a
session, without data, is not looked at. -/
def ApplicationHarmless (s : Vpn) (p : IPPacket) : Prop :=
  (∃ iport, s.Session p iport ∧ iport.mPacketsSent = 1 ∧ p.tcpDataSize = 0) ∨
    p.endToService s.mLocalServicePort ≤ p.mData.size ∧
      ((∀ iport, s.Session p iport → iport.mBytesSent = 0) → 10 < p.tcpDataSize →
        HelloEnds p.mData (p.tcpOffset + TCPPacket.getHeaderLength p) p.tcpDataSize)

/-- The data of a query has a length that fits behind the header, and
`FromBytes` takes it. -/
def QueryHarmless (p : IPPacket) : Prop :=
  (0 ≤ p.getDataLength - 8 ∧ p.getDataLength - 8 ≤ p.mDNSBuffer.capacity) ∧
    ∀ buffer, p.mDNSBuffer.setLimit (p.getDataLength - 8) = .ok buffer → Acceptable buffer

/-- What a packet from the local IP has to meet. -/
structure Harmless (localIP : Word) (s : Vpn) : Prop where
  service : s.ipPacket.getProtocol = TCP → s.ipPacket.getSourceIP = localIP →
    TCPPacket.getSourcePort s.ipPacket.alignTCP = s.mLocalServicePort →
      ServiceHarmless s s.ipPacket.alignTCP
  application : s.ipPacket.getProtocol = TCP → s.ipPacket.getSourceIP = localIP →
    TCPPacket.getSourcePort s.ipPacket.alignTCP ≠ s.mLocalServicePort →
      ApplicationHarmless s s.ipPacket.alignTCP
  query : s.ipPacket.getProtocol = UDP → s.ipPacket.getSourceIP = localIP →
    UDPPacket.getDestinationPort s.ipPacket.alignUDP = 53 → QueryHarmless s.ipPacket.alignUDP

-- ---------------------------------------------------------------------------
-- Checksums
-- ---------------------------------------------------------------------------

section
variable {q : IPPacket} {localIP : Word}

theorem tcpChecksum_ok_iff : (∃ r, q.tcpChecksum = .ok r) ↔ Fits q := by
  constructor
  · rintro ⟨r, hr⟩
    by_contra hno
    obtain ⟨hpos, hlong⟩ := not_or.mp hno
    have herror : q.tcpChecksum = .error .arrayIndexOutOfBounds :=
      updateChecksums_error (Int.not_le.mp hpos) (Int.not_le.mp hlong)
    rw [herror] at hr
    cases hr
  · intro hfit
    have hsum : ∃ r, q.tcpChecksum = .ok r ∧ EqExcept 10 (q.tcpOffset + 16) q r.2 :=
      updateChecksums_ok hfit
    obtain ⟨r, hr, -⟩ := hsum
    exact ⟨r, hr⟩

theorem four_le_header (h : q.getHeaderLength ≠ 0) : 4 ≤ q.getHeaderLength := by
  unfold getHeaderLength at h ⊢
  omega

theorem fits_fromService (halign : q.tcpOffset = q.getHeaderLength) (iport : IPort) :
    Fits (q.fromService localIP iport) ↔ q.endFromService iport.mPort ≤ q.mData.size := by
  by_cases hempty : q.getHeaderLength = 0
  · have hdata : (q.fromService localIP iport).mData =
        ((q.mData.write 12 (intBytes q.getDestinationIP)).write 0 (shortBytes iport.mPort)).write 16
          (intBytes localIP) := by rw [← halign.trans hempty]; rfl
    have hfirst : (q.fromService localIP iport).mData.cell 0 = (iport.mPort >>> 8).setWidth 8 := by
      rw [hdata, cell_write_outside (.inl (by decide))]
      exact Bytes.write_cell_add (k := 0) _ (by simp)
    have htotal : (q.fromService localIP iport).getTotalLength = q.getTotalLength := by
      unfold getTotalLength
      rw [hdata, short_write_outside (.inl (by decide)), short_write_outside (.inr (by simp)),
        short_write_outside (.inl (by decide))]
    have hoffset : (q.fromService localIP iport).tcpOffset = 0 := halign.trans hempty
    have hsize : (q.fromService localIP iport).mData.size = q.mData.size := rfl
    unfold Fits endFromService getDataLength
    rw [htotal, hoffset, hsize, if_pos hempty, getHeaderLength, hfirst]
    omega
  · have hlengths : (q.fromService localIP iport).getHeaderLength = q.getHeaderLength ∧
        (q.fromService localIP iport).getTotalLength = q.getTotalLength :=
      fromService_lengths (halign ▸ four_le_header hempty) iport
    rw [endFromService, if_neg hempty]
    exact fits_of_lengths (p := q) (halign.trans hlengths.1.symm) rfl hlengths

theorem fits_toService (localIP : Word) (halign : q.tcpOffset = q.getHeaderLength) (servicePort : Short) :
    Fits (q.toService localIP servicePort) ↔ q.endToService servicePort ≤ q.mData.size := by
  by_cases hempty : q.getHeaderLength = 0
  · have hdata : (q.toService localIP servicePort).mData =
        ((q.mData.write 12 (intBytes q.getDestinationIP)).write 16 (intBytes localIP)).write 2
          (shortBytes servicePort) := by
      have htwo : q.tcpOffset + 2 = 2 := by rw [halign, hempty]
      rw [← htwo]
      rfl
    have hheader : (q.toService localIP servicePort).getHeaderLength = 0 := by
      rw [← hempty, getHeaderLength, hdata, cell_write_outside (.inl (by decide)),
        cell_write_outside (.inl (by decide)), cell_write_outside (.inl (by decide))]
      rfl
    have htotal : (q.toService localIP servicePort).getTotalLength = servicePort.toInt := by
      rw [getTotalLength, hdata, short_write_shortBytes]
      exact congrArg BitVec.toInt BitVec.and_allOnes
    have hoffset : (q.toService localIP servicePort).tcpOffset = 0 := halign.trans hempty
    have hsize : (q.toService localIP servicePort).mData.size = q.mData.size := rfl
    unfold Fits endToService getDataLength
    rw [htotal, hoffset, hsize, hheader, if_pos hempty]
    omega
  · have hlengths : (q.toService localIP servicePort).getHeaderLength = q.getHeaderLength ∧
        (q.toService localIP servicePort).getTotalLength = q.getTotalLength :=
      toService_lengths (halign ▸ four_le_header hempty) servicePort
    rw [endToService, if_neg hempty]
    exact fits_of_lengths (p := q) (halign.trans hlengths.1.symm) rfl hlengths

end

-- ---------------------------------------------------------------------------
-- Queries
-- ---------------------------------------------------------------------------

section
variable {p : IPPacket} {buffer : ByteBuffer Byte} {newLimit : Int}

theorem IPPacket.position_setLimit (h : p.mDNSBuffer.setLimit newLimit = .ok buffer) :
    buffer.position = 0 := by
  obtain ⟨-, -, -, -, -, hpos⟩ := p.mDNSBuffer.setLimit_eq_ok h
  exact hpos rfl

theorem dnsQuery_returns_iff :
    (∃ bound, ∀ depth, bound ≤ depth → ∃ r, dnsQuery p depth = .ok r) ↔ QueryHarmless p := by
  unfold dnsQuery QueryHarmless
  cases hlimit : p.mDNSBuffer.setLimit (p.getDataLength - 8) with
  | ok buffer =>
    have hrange : 0 ≤ p.getDataLength - 8 ∧ p.getDataLength - 8 ≤ p.mDNSBuffer.capacity := by
      by_contra hno
      rw [ByteBuffer.setLimit, dif_neg hno] at hlimit
      cases hlimit
    simp only [ok_bind, fromBytes_returns_iff (IPPacket.position_setLimit hlimit), hrange, and_self,
      true_and, Except.ok.injEq, forall_eq']
  | error e =>
    refine iff_of_false (fun h => ?_) fun h => ?_
    · obtain ⟨bound, hall⟩ := h
      obtain ⟨r, hr⟩ := hall bound (Nat.le_refl bound)
      cases hr
    · rw [ByteBuffer.setLimit, dif_pos h.1] at hlimit
      cases hlimit

end

-- ---------------------------------------------------------------------------
-- The entry of an application
-- ---------------------------------------------------------------------------

section
variable {s : Vpn}

/-- The entry that is used is that of the session, or a new one. -/
theorem iport_cases (s : Vpn) :
    (∃ iport, s.Session s.ipPacket iport ∧ s.iport = iport.countPacket) ∨
      (∀ iport, ¬ s.Session s.ipPacket iport) ∧
        s.iport = IPort.countPacket { mIP := s.ipPacket.getDestinationIP
                                      mPort := TCPPacket.getDestinationPort s.ipPacket } := by
  cases hentry : s.mSessionMap (TCPPacket.getSourcePort s.ipPacket) with
  | none =>
    right
    constructor
    · rintro iport ⟨hiport, -⟩
      rw [hentry] at hiport
      cases hiport
    · rw [Vpn.iport, hentry]
      rfl
  | some iport =>
    rw [Vpn.iport, hentry]
    by_cases hother : iport.mIP ≠ s.ipPacket.getDestinationIP ∨
        iport.mPort ≠ TCPPacket.getDestinationPort s.ipPacket
    · right
      constructor
      · rintro iport' ⟨hiport', hip, hport⟩
        cases hentry.symm.trans hiport'
        exact hother.elim (· hip) (· hport)
      · exact congrArg IPort.countPacket (if_pos hother)
    · left
      obtain ⟨hip, hport⟩ := not_or.mp hother
      exact ⟨iport, ⟨hentry, not_not.mp hip, not_not.mp hport⟩,
        congrArg IPort.countPacket (if_neg hother)⟩

theorem session_unique {p : IPPacket} {iport iport' : IPort} (h : s.Session p iport)
    (h' : s.Session p iport') : iport' = iport :=
  Option.some.inj (h'.1.symm.trans h.1)

theorem second_iff : s.iport.mPacketsSent = 2 ↔
    ∃ iport, s.Session s.ipPacket iport ∧ iport.mPacketsSent = 1 := by
  obtain ⟨iport, hsession, hiport⟩ | ⟨hnone, hiport⟩ := iport_cases s
  · have hcount : iport.mPacketsSent + 1 = 2 ↔ iport.mPacketsSent = 1 := by bv_omega
    rw [hiport]
    constructor
    · intro h
      exact ⟨iport, hsession, hcount.mp h⟩
    · rintro ⟨iport', hsession', h⟩
      rw [session_unique hsession hsession'] at h
      exact hcount.mpr h
  · rw [hiport]
    refine iff_of_false (by simp [IPort.countPacket]) ?_
    rintro ⟨iport, hsession, -⟩
    exact hnone iport hsession

theorem first_data_iff : s.iport.mBytesSent = 0 ↔
    ∀ iport, s.Session s.ipPacket iport → iport.mBytesSent = 0 := by
  obtain ⟨iport, hsession, hiport⟩ | ⟨hnone, hiport⟩ := iport_cases s
  · rw [hiport]
    constructor
    · intro h iport' hsession'
      rw [session_unique hsession hsession']
      exact h
    · intro h
      exact h iport hsession
  · rw [hiport]
    exact iff_of_true rfl fun iport hsession => absurd hsession (hnone iport)

end

-- ---------------------------------------------------------------------------
-- Packets of a known port
-- ---------------------------------------------------------------------------

section
variable {size : Nat} {localIP : Word} {s : Vpn}

theorem processService_returns_iff (halign : s.ipPacket.tcpOffset = s.ipPacket.getHeaderLength) :
    (∃ flow t, (processService size localIP).exec s = (.ok flow, t)) ↔
      ServiceHarmless s s.ipPacket := by
  rw [exec_processService, ServiceHarmless]
  cases s.mSessionMap (TCPPacket.getDestinationPort s.ipPacket) with
  | none => exact iff_of_true ⟨_, _, rfl⟩ fun iport h => by cases h
  | some iport =>
    simp only [Option.some.injEq, forall_eq']
    rw [← fits_fromService halign, ← tcpChecksum_ok_iff]
    cases (s.ipPacket.fromService localIP iport).tcpChecksum with
    | ok r => exact iff_of_true ⟨_, _, rfl⟩ ⟨r, rfl⟩
    | error e => simp

theorem forward_returns_iff (halign : s.ipPacket.tcpOffset = s.ipPacket.getHeaderLength) {fuel : Nat}
    (port : Short) (iport : IPort) :
    (∃ flow t, (forward localIP fuel port iport).exec s = (.ok (some flow), t)) ↔
      sniffHost iport s.ipPacket fuel ≠ .running ∧
        s.ipPacket.endToService s.mLocalServicePort ≤ s.ipPacket.mData.size := by
  rw [exec_forward, ← fits_toService localIP halign, ← tcpChecksum_ok_iff]
  cases sniffHost iport s.ipPacket fuel with
  | running => simp
  | returned host =>
    cases (s.ipPacket.toService localIP s.mLocalServicePort).tcpChecksum with
    | ok r => exact iff_of_true ⟨_, _, rfl⟩ ⟨by simp, r, rfl⟩
    | error e => simp

theorem sniffHost_ends_iff (iport : IPort) (p : IPPacket) :
    (∃ bound, ∀ fuel, bound ≤ fuel → sniffHost iport p fuel ≠ .running) ↔
      (iport.mBytesSent = 0 → 10 < p.tcpDataSize →
        HelloEnds p.mData (p.tcpOffset + TCPPacket.getHeaderLength p) p.tcpDataSize) := by
  unfold sniffHost
  by_cases hdata : iport.mBytesSent = 0 ∧ 10 < p.tcpDataSize
  · simp only [if_pos hdata, parseHost_ends_iff]
    exact ⟨fun h _ _ => h, fun h => h hdata.1 hdata.2⟩
  · simp only [if_neg hdata]
    exact iff_of_true ⟨0, by simp⟩ fun h h' => absurd ⟨h, h'⟩ hdata

theorem processApplication_returns_iff (halign : s.ipPacket.tcpOffset = s.ipPacket.getHeaderLength) :
    (∃ bound, ∀ fuel, bound ≤ fuel →
        ∃ flow t, (processApplication localIP fuel).exec s = (.ok (some flow), t)) ↔
      ApplicationHarmless s s.ipPacket := by
  simp only [exec_processApplication]
  have hquiet : s.iport.mPacketsSent = 2 ∧ s.ipPacket.tcpDataSize = 0 ↔
      ∃ iport, s.Session s.ipPacket iport ∧ iport.mPacketsSent = 1 ∧ s.ipPacket.tcpDataSize = 0 := by
    simp only [second_iff, ← and_assoc, exists_and_right]
  unfold ApplicationHarmless
  rw [← hquiet]
  by_cases h : s.iport.mPacketsSent = 2 ∧ s.ipPacket.tcpDataSize = 0
  · exact iff_of_true ⟨0, fun _ _ => ⟨_, _, if_pos h⟩⟩ (.inl h)
  · have hforward (fuel : Nat) : (∃ flow t, (forward localIP fuel (TCPPacket.getSourcePort s.ipPacket)
        s.iport).exec (s.withSession (TCPPacket.getSourcePort s.ipPacket) s.iport) =
          (.ok (some flow), t)) ↔ sniffHost s.iport s.ipPacket fuel ≠ .running ∧
        s.ipPacket.endToService s.mLocalServicePort ≤ s.ipPacket.mData.size :=
      forward_returns_iff (s := s.withSession _ _) halign _ _
    simp only [h, if_false, hforward, false_or]
    rw [← first_data_iff, ← sniffHost_ends_iff]
    constructor
    · rintro ⟨bound, hall⟩
      exact ⟨(hall bound (Nat.le_refl bound)).2, bound, fun fuel hfuel => (hall fuel hfuel).1⟩
    · rintro ⟨hend, bound, hall⟩
      exact ⟨bound, fun fuel hfuel => ⟨hall fuel hfuel, hend⟩⟩

theorem processUDPPacket_returns_iff {depth : Nat} :
    (∃ flow t, (processUDPPacket localIP depth).exec s = (.ok flow, t)) ↔
      (s.ipPacket.alignUDP.getSourceIP = localIP ∧
          UDPPacket.getDestinationPort s.ipPacket.alignUDP = 53 →
        ∃ r, dnsQuery s.ipPacket.alignUDP depth = .ok r) := by
  rw [exec_processUDPPacket]
  dsimp only
  split
  next hquery =>
    rw [forall_prop_of_true hquery]
    cases hparse : dnsQuery s.ipPacket.alignUDP depth with
    | error e => simp
    | ok result =>
      refine iff_of_true ?_ ⟨result, rfl⟩
      cases result with
      | none => exact ⟨_, _, rfl⟩
      | some packet =>
        -- a packet that is parsed is sent to port 53
        have hport : 0 ≤ (packet.queryState s.ipPacket.alignUDP).RemotePort.toInt := by
          have hremote : (packet.queryState s.ipPacket.alignUDP).RemotePort = 53 := hquery.2
          rw [hremote]
          decide
        obtain ⟨buffer, hbuffer, hpacket⟩ := bind_eq_ok.mp hparse
        have hsize : packet.Size ≤ 512 :=
          (DNSPacket.fromBytes_some (IPPacket.position_setLimit hbuffer) hpacket).2.2.1
        have hexec := exec_processRequest packet
          (Vpn.requests { s with ipPacket := s.ipPacket.alignUDP }) hport hsize
        dsimp only
        rw [hexec]
        exact ⟨_, _, rfl⟩
  next hquery => exact iff_of_true ⟨_, _, rfl⟩ fun h => absurd h hquery

end

-- ---------------------------------------------------------------------------
-- Every packet
-- ---------------------------------------------------------------------------

section
variable {size : Nat} {localIP : Word} {s : Vpn}

theorem map_some_returns_iff {m : Prog Vpn Flow} :
    (∃ flow t, (some <$> m : Prog Vpn (Option Flow)).exec s = (.ok (some flow), t)) ↔
      ∃ flow t, m.exec s = (.ok flow, t) := by
  rw [Prog.exec_map]
  rcases m.exec s with ⟨e | flow, t⟩
  · simp
  · simp

theorem processTCPPacket_returns_iff :
    (∃ bound, ∀ fuel, bound ≤ fuel →
        ∃ flow t, (processTCPPacket size localIP fuel).exec s = (.ok (some flow), t)) ↔
      (s.ipPacket.getSourceIP = localIP →
        (TCPPacket.getSourcePort s.ipPacket.alignTCP = s.mLocalServicePort →
          ServiceHarmless s s.ipPacket.alignTCP) ∧
        (TCPPacket.getSourcePort s.ipPacket.alignTCP ≠ s.mLocalServicePort →
          ApplicationHarmless s s.ipPacket.alignTCP)) := by
  have halign := s.ipPacket.alignTCP_tcpOffset
  simp only [exec_processTCPPacket]
  by_cases hlocal : s.ipPacket.getSourceIP = localIP
  · have hlocal' : s.ipPacket.alignTCP.getSourceIP = localIP := hlocal
    by_cases hservice : TCPPacket.getSourcePort s.ipPacket.alignTCP = s.mLocalServicePort
    · have hreturns : (∃ flow t, (processService size localIP).exec
          { s with ipPacket := s.ipPacket.alignTCP } = (.ok flow, t)) ↔
            ServiceHarmless s s.ipPacket.alignTCP := processService_returns_iff halign
      simp only [hlocal, hlocal', hservice, if_true, map_some_returns_iff, hreturns, ne_eq,
        not_true_eq_false, false_imp_iff, true_imp_iff, and_true]
      exact ⟨fun ⟨bound, h⟩ => h bound (Nat.le_refl bound), fun h => ⟨0, fun _ _ => h⟩⟩
    · have hreturns : (∃ bound, ∀ fuel, bound ≤ fuel → ∃ flow t, (processApplication localIP fuel).exec
          { s with ipPacket := s.ipPacket.alignTCP } = (.ok (some flow), t)) ↔
            ApplicationHarmless s s.ipPacket.alignTCP := processApplication_returns_iff halign
      simp only [hlocal, hlocal', hservice, if_true, if_false, hreturns, ne_eq, not_false_eq_true,
        false_imp_iff, true_imp_iff, true_and]
  · have hlocal' : ¬ s.ipPacket.alignTCP.getSourceIP = localIP := hlocal
    simp only [if_neg hlocal']
    exact iff_of_true ⟨0, fun _ _ => ⟨_, _, rfl⟩⟩ fun h => absurd h hlocal

end

/-- The VPN thread survives exactly the packets that are harmless. -/
theorem survives_iff (size : Nat) (localIP : Word) (s : Vpn) :
    Survives size localIP s ↔ Harmless localIP s := by
  unfold Survives
  simp only [exec_process]
  by_cases htcp : s.ipPacket.getProtocol = TCP
  · have hudp : ¬ s.ipPacket.getProtocol = UDP := by rw [htcp]; decide
    simp only [if_pos htcp]
    constructor
    · rintro ⟨bound, h⟩
      have hreturns := processTCPPacket_returns_iff.mp
        ⟨bound, fun fuel => h bound fuel (Nat.le_refl bound)⟩
      exact ⟨fun _ hlocal => (hreturns hlocal).1, fun _ hlocal => (hreturns hlocal).2,
        fun h => absurd h hudp⟩
    · intro h
      obtain ⟨bound, hreturns⟩ := processTCPPacket_returns_iff.mpr fun hlocal =>
        ⟨h.service htcp hlocal, h.application htcp hlocal⟩
      exact ⟨bound, fun _ fuel _ => hreturns fuel⟩
  · simp only [if_neg htcp]
    by_cases hudp : s.ipPacket.getProtocol = UDP
    · simp only [if_pos hudp, map_some_returns_iff, processUDPPacket_returns_iff, and_imp]
      constructor
      · rintro ⟨bound, h⟩
        refine ⟨fun h => absurd h htcp, fun h => absurd h htcp, fun _ hlocal hport => ?_⟩
        exact dnsQuery_returns_iff.mp
          ⟨bound, fun depth hdepth => h depth bound hdepth (Nat.le_refl bound) hlocal hport⟩
      · intro h
        by_cases hquery : s.ipPacket.getSourceIP = localIP ∧
            UDPPacket.getDestinationPort s.ipPacket.alignUDP = 53
        · obtain ⟨bound, hreturns⟩ := dnsQuery_returns_iff.mpr (h.query hudp hquery.1 hquery.2)
          exact ⟨bound, fun depth _ hdepth _ _ _ => hreturns depth hdepth⟩
        · exact ⟨0, fun _ _ _ _ hlocal hport => absurd ⟨hlocal, hport⟩ hquery⟩
    · simp only [if_neg hudp]
      exact iff_of_true ⟨0, fun _ _ _ _ => ⟨_, _, rfl⟩⟩
        ⟨fun h => absurd h htcp, fun h => absurd h htcp, fun h => absurd h hudp⟩

/-- A UDP packet from `0.0.0.0` to port 53 that has no room for a UDP header. -/
def headerOnly : Vpn where
  ipPacket := .ofData
    ⟨20000, fun i =>
      if i = 0 then 0x45 else if i = 3 then 20 else if i = 9 then 17 else if i = 23 then 53 else 0⟩
    IPPacket.size_le_mtu
  mLocalServicePort := 2000
  mSessionMap _ := none
  queries := ⟨0, fun _ => none⟩
  sent := []

theorem not_survives_headerOnly : ¬ ∀ size localIP s, s.ipPacket.mData.size = 20000 → 0 < size →
    size ≤ 20000 → Survives size localIP s := by
  intro h
  obtain ⟨bound, hreturns⟩ := h 28 0 headerOnly rfl (by decide) (by decide)
  obtain ⟨flow, t, hexec⟩ := hreturns bound bound (Nat.le_refl bound) (Nat.le_refl bound)
  have hthrown : ((process 28 0 bound bound).exec headerOnly).1 = .error .illegalArgument := rfl
  rw [hexec] at hthrown
  cases hthrown

end SmartSocks.TcpIp
