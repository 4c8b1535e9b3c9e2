import SmartSocks.TcpIp.Process
import SmartSocks.Library.Machine

/-!
# NAT sessions

The entry of a source port in `PortMapping` says where the packets of the port
go. It lives on, with its destination, until an application sends from the same
port to another destination: an entry is overwritten and never removed. The
accept path and the way back read the destination port from it.
-/

namespace SmartSocks.Sslocal

open Jvm EasyValue TcpIp IPPacket Http

/-- The two ends of a TCP packet. -/
structure Route where
  sourceIP : Word
  sourcePort : Short
  destinationIP : Word
  destinationPort : Short
  deriving DecidableEq

/-- The ends of a packet, with the ports behind its IP header. -/
def route (p : IPPacket) : Route :=
  ⟨p.getSourceIP, short p.mData p.getHeaderLength, p.getDestinationIP,
    short p.mData (p.getHeaderLength + 2)⟩

/-- A TCP packet over a given route whose header is complete and which ends in
the buffer. -/
structure IsPacket (p : IPPacket) (r : Route) : Prop where
  protocol : p.getProtocol = TCP
  header : 20 ≤ p.getHeaderLength
  length : p.getTotalLength ≤ p.mData.size
  route : route p = r

namespace TCPProxyServer

/-- The host of an `InetSocketAddress`: resolved, or a name. -/
inductive Host
  | address (ip : Word)
  | unresolved (name : Option (List Char))
  deriving DecidableEq

/-- `SSVpnControl.bypass` -/
def bypass (_host : Option (List Char)) (_ip : Word) : Bool := false

/-- `getDestAddress` of a channel that was accepted from `inetAddress:port`. -/
def getDestAddress (mSessionMap : Short → Option IPort) (inetAddress : Word) (port : Short) :
    Option (Host × Nat) :=
  match mSessionMap port with
  | some iport =>
    if bypass iport.mHost iport.mIP then some (.unresolved iport.mHost, iport.mPort.toNat)
    else some (.address inetAddress, iport.mPort.toNat)
  | none => none

end TCPProxyServer

open TCPProxyServer

/-- `read` of the tun device: the first bytes of the packet array. -/
def readTun (bytes : List Byte) (s : Vpn) : Vpn := { s with ipPacket := s.ipPacket.write 0 bytes }

/-- One packet. There is no step when the VPN thread dies or hangs on it. -/
def step (localIP : Word) (depth fuel : Nat) (s : Vpn) (bytes : List Byte) : Option Vpn :=
  match (process bytes.length localIP depth fuel).exec (readTun bytes s) with
  | (.ok (some _), t) => some t
  | _ => none

/-- A packet that an application sends from port `p` to another destination
than `ip:port`. -/
def Diverts (localIP : Word) (p : Short) (ip : Word) (port : Short) (packet : IPPacket) : Prop :=
  packet.getProtocol = TCP ∧ (route packet).sourceIP = localIP ∧ (route packet).sourcePort = p ∧
    ¬ ((route packet).destinationIP = ip ∧ (route packet).destinationPort = port)

/-- An entry for a given destination. -/
def Leads (ip : Word) (port : Short) (entry : Option IPort) : Prop :=
  ∃ iport, entry = some iport ∧ iport.mIP = ip ∧ iport.mPort = port

-- ---------------------------------------------------------------------------
-- What a packet does to the entry of a port
-- ---------------------------------------------------------------------------

section
variable {size : Nat} {localIP ip : Word} {depth fuel : Nat} {s : Vpn} {p port : Short}

theorem leads_session (entry : Option IPort) (packet : IPPacket) :
    (session entry packet).countPacket.mIP = packet.getDestinationIP ∧
      (session entry packet).countPacket.mPort = TCPPacket.getDestinationPort packet := by
  unfold session IPort.countPacket
  cases entry with
  | none => exact ⟨rfl, rfl⟩
  | some iport =>
    by_cases hother : iport.mIP ≠ packet.getDestinationIP ∨
        iport.mPort ≠ TCPPacket.getDestinationPort packet
    · simp only [if_pos hother, and_self]
    · simp only [if_neg hother]
      rw [not_or, not_not, not_not] at hother
      exact hother

/-- A changed entry still leads to the destination if it did, or if it is that
of another port. -/
theorem leads_withSession {sport : Short} {iport : IPort} (h : Leads ip port (s.mSessionMap p))
    (hsame : sport = p → iport.mIP = ip ∧ iport.mPort = port) :
    Leads ip port ((s.withSession sport iport).mSessionMap p) := by
  unfold Vpn.withSession
  by_cases hp : p = sport
  · subst hp
    exact ⟨iport, Function.update_self .., hsame rfl⟩
  · simp only [Function.update_of_ne hp]
    exact h

theorem forward_leads (sport : Short) (iport : IPort) (h : Leads ip port (s.mSessionMap p))
    (hsame : sport = p → iport.mIP = ip ∧ iport.mPort = port) :
    Leads ip port (((forward localIP fuel sport iport).exec s).2.mSessionMap p) := by
  rw [exec_forward]
  cases sniffHost iport s.ipPacket fuel with
  | running => exact h
  | returned host =>
    simp only
    cases (s.ipPacket.toService localIP s.mLocalServicePort).tcpChecksum with
    | ok r => exact leads_withSession h hsame
    | error e => exact leads_withSession h hsame

theorem processService_leads (h : Leads ip port (s.mSessionMap p)) :
    Leads ip port (((processService size localIP).exec s).2.mSessionMap p) := by
  rw [exec_processService]
  cases hentry : s.mSessionMap (TCPPacket.getDestinationPort s.ipPacket) with
  | none => exact h
  | some iport =>
    simp only
    cases (s.ipPacket.fromService localIP iport).tcpChecksum with
    | error e => exact h
    | ok r =>
      refine leads_withSession h fun hp => ?_
      -- the entry that is changed is the one that leads there
      obtain ⟨iport', hiport', hdest⟩ := h
      rw [← hp, hentry] at hiport'
      cases hiport'
      exact hdest

theorem processApplication_leads (h : Leads ip port (s.mSessionMap p))
    (hsame : TCPPacket.getSourcePort s.ipPacket = p →
      s.ipPacket.getDestinationIP = ip ∧ TCPPacket.getDestinationPort s.ipPacket = port) :
    Leads ip port (((processApplication localIP fuel).exec s).2.mSessionMap p) := by
  have hiport : TCPPacket.getSourcePort s.ipPacket = p →
      s.iport.mIP = ip ∧ s.iport.mPort = port := by
    intro hp
    obtain ⟨hip, hport⟩ := hsame hp
    obtain ⟨hip', hport'⟩ :=
      leads_session (s.mSessionMap (TCPPacket.getSourcePort s.ipPacket)) s.ipPacket
    exact ⟨hip'.trans hip, hport'.trans hport⟩
  rw [exec_processApplication]
  split
  · exact leads_withSession h hiport
  · exact forward_leads _ _ (leads_withSession h hiport) hiport

theorem processUDPPacket_frame :
    ((processUDPPacket localIP depth).exec s).2.mSessionMap = s.mSessionMap := by
  rw [exec_processUDPPacket]
  simp only
  split
  · cases dnsQuery s.ipPacket.alignUDP depth with
    | error e => rfl
    | ok result =>
      cases result with
      | none => rfl
      | some packet =>
        simp only
        split <;> rfl
  · rfl

/-- An entry keeps its destination through every packet that does not divert
its port. -/
theorem process_leads (h : Leads ip port (s.mSessionMap p))
    (hkeep : ¬ Diverts localIP p ip port s.ipPacket) :
    Leads ip port (((process size localIP depth fuel).exec s).2.mSessionMap p) := by
  rw [exec_process]
  split
  next htcp =>
    rw [exec_processTCPPacket]
    simp only
    split
    next hlocal =>
      split
      · rw [Prog.exec_map]
        have hservice : Leads ip port (((processService size localIP).exec
            { s with ipPacket := s.ipPacket.alignTCP }).2.mSessionMap p) := processService_leads h
        split
        next a t heq => rwa [heq] at hservice
        next e t heq => rwa [heq] at hservice
      · refine processApplication_leads h fun hp => ?_
        by_contra hother
        exact hkeep ⟨htcp, hlocal, hp, hother⟩
    next => exact h
  next =>
    split
    · have hudp : ((processUDPPacket localIP depth).exec s).2.mSessionMap = s.mSessionMap :=
        processUDPPacket_frame
      rw [Prog.exec_map]
      split
      next a t heq =>
        rw [heq] at hudp
        rwa [hudp]
      next e t heq =>
        rw [heq] at hudp
        rwa [hudp]
    · exact h

/-- A packet of an application makes an entry for its destination. -/
theorem process_enters {r : Route} (hr : IsPacket s.ipPacket r) (hlocal : r.sourceIP = localIP)
    (hservice : r.sourcePort ≠ s.mLocalServicePort) :
    Leads r.destinationIP r.destinationPort
      (((process size localIP depth fuel).exec s).2.mSessionMap r.sourcePort) := by
  obtain ⟨htcp, -, -, hroute⟩ := hr
  subst hroute
  have hlocal' : s.ipPacket.alignTCP.getSourceIP = localIP := hlocal
  have hservice' : ¬ TCPPacket.getSourcePort s.ipPacket.alignTCP = s.mLocalServicePort := hservice
  rw [exec_process, if_pos htcp, exec_processTCPPacket]
  simp only
  rw [if_pos hlocal', if_neg hservice', exec_processApplication]
  have hdest := leads_session (s.mSessionMap (route s.ipPacket).sourcePort) s.ipPacket.alignTCP
  have hentry : Leads (route s.ipPacket).destinationIP (route s.ipPacket).destinationPort
      ((({ s with ipPacket := s.ipPacket.alignTCP } : Vpn).withSession (route s.ipPacket).sourcePort
        ({ s with ipPacket := s.ipPacket.alignTCP } : Vpn).iport).mSessionMap
          (route s.ipPacket).sourcePort) :=
    ⟨_, Function.update_self .., hdest⟩
  split
  · exact hentry
  · exact forward_leads _ _ hentry fun _ => hdest

-- ---------------------------------------------------------------------------
-- The way back
-- ---------------------------------------------------------------------------

theorem fromService_mData (q : IPPacket) (iport : IPort) :
    (q.fromService localIP iport).mData =
      ((q.mData.write 12 (intBytes q.getDestinationIP)).write q.tcpOffset
        (shortBytes iport.mPort)).write 16 (intBytes localIP) := rfl

/-- The ends of a packet of the service once it is rewritten. -/
theorem fromService_route {q : IPPacket} (hq : 20 ≤ q.getHeaderLength)
    (halign : q.tcpOffset = q.getHeaderLength) (iport : IPort) :
    route (q.fromService localIP iport) =
      ⟨q.getDestinationIP, iport.mPort, localIP, short q.mData (q.getHeaderLength + 2)⟩ := by
  have hheader : (q.fromService localIP iport).getHeaderLength = q.getHeaderLength :=
    (fromService_lengths (by omega) iport).1
  rw [route, hheader, getSourceIP, getDestinationIP, fromService_mData, ← halign]
  rw [int_write_outside (.inl (by decide)), int_write_outside (.inl (by omega)), int_write_intBytes,
    short_write_outside (.inr (by simp; omega)), short_write_shortBytes, int_write_intBytes,
    short_write_outside (.inr (by simp; omega)), short_write_outside (.inr (by simp)),
    short_write_outside (.inr (by simp; omega))]

theorem EqExcept.route {p q : IPPacket} {crc : Nat} (h : EqExcept 10 crc p q)
    (hheader : 20 ≤ p.getHeaderLength) (hcrc : p.getHeaderLength + 4 ≤ crc) :
    Sslocal.route q = Sslocal.route p := by
  have hlen : q.getHeaderLength = p.getHeaderLength := by
    rw [getHeaderLength, h.cell 0 (.inl (by decide)) (.inl (by omega))]
    rfl
  rw [Sslocal.route, hlen, getSourceIP, getDestinationIP, h.int (.inr (by decide)) (.inl (by omega)),
    h.int (.inr (by decide)) (.inl (by omega)), h.short (.inr (by omega)) (.inl (by omega)),
    h.short (.inr (by omega)) (.inl (by omega))]
  rfl

theorem fromService_checksum {q : IPPacket} (hheader : 20 ≤ q.getHeaderLength)
    (halign : q.tcpOffset = q.getHeaderLength) (hlength : q.getTotalLength ≤ q.mData.size)
    (iport : IPort) :
    ∃ r, (q.fromService localIP iport).tcpChecksum = .ok r ∧
      route r.2 =
        ⟨q.getDestinationIP, iport.mPort, localIP, short q.mData (q.getHeaderLength + 2)⟩ := by
  have hlengths : (q.fromService localIP iport).getHeaderLength = q.getHeaderLength ∧
      (q.fromService localIP iport).getTotalLength = q.getTotalLength :=
    fromService_lengths (by omega) iport
  have halign' : (q.fromService localIP iport).tcpOffset =
      (q.fromService localIP iport).getHeaderLength := halign.trans hlengths.1.symm
  have hfit : Fits (q.fromService localIP iport) :=
    (fits_of_lengths (p := q) halign' rfl hlengths).mpr hlength
  have hsum : ∃ r, (q.fromService localIP iport).tcpChecksum = .ok r ∧
      EqExcept 10 (q.tcpOffset + 16) (q.fromService localIP iport) r.2 := updateChecksums_ok hfit
  obtain ⟨r, hsum, heq⟩ := hsum
  refine ⟨r, hsum, ?_⟩
  rw [EqExcept.route heq (by omega) (by omega), fromService_route hheader halign]

/-- A packet of the service goes back to where the entry of its port leads. -/
theorem process_answers (hr : IsPacket s.ipPacket ⟨localIP, s.mLocalServicePort, ip, p⟩)
    (hentry : Leads ip port (s.mSessionMap p)) :
    ∃ flow t, (process size localIP depth fuel).exec s = (.ok (some flow), t) ∧
      route t.ipPacket = ⟨ip, port, localIP, p⟩ := by
  obtain ⟨htcp, hheader, hlength, hroute⟩ := hr
  obtain ⟨iport, hiport, -, rfl⟩ := hentry
  obtain ⟨hsource, hsport, hdest, hdport⟩ := Route.mk.inj hroute
  rw [exec_process, if_pos htcp, exec_processTCPPacket]
  dsimp only
  -- what is used of the aligned packet
  have hlocal : s.ipPacket.alignTCP.getSourceIP = localIP := hsource
  have hservice : TCPPacket.getSourcePort s.ipPacket.alignTCP = s.mLocalServicePort := hsport
  have hport : TCPPacket.getDestinationPort s.ipPacket.alignTCP = p := hdport
  have hdest' : s.ipPacket.alignTCP.getDestinationIP = ip := hdest
  have hdport' : short s.ipPacket.alignTCP.mData (s.ipPacket.alignTCP.getHeaderLength + 2) = p :=
    hdport
  have hheader' : 20 ≤ s.ipPacket.alignTCP.getHeaderLength := hheader
  have hlength' : s.ipPacket.alignTCP.getTotalLength ≤ s.ipPacket.alignTCP.mData.size := hlength
  have halign := alignTCP_tcpOffset s.ipPacket
  generalize s.ipPacket.alignTCP = q at *
  obtain ⟨r, hsum, hresult⟩ : ∃ r, (q.fromService localIP iport).tcpChecksum = .ok r ∧ route r.2 = _ :=
    fromService_checksum hheader' halign hlength' iport
  rw [hdest', hdport'] at hresult
  refine ⟨(.incoming, size), { s with ipPacket := r.2 }.withSession p
    { iport with mBytesRecv := iport.mBytesRecv + BitVec.ofNat 32 size }, ?_, ?_⟩
  · have hexec : (processService size localIP).exec { s with ipPacket := q } = _ :=
      exec_processService_known hport hiport hsum
    rw [if_pos hlocal, if_pos hservice, Prog.exec_map]
    simp only [hexec]
  · exact hresult

end

-- ---------------------------------------------------------------------------
-- The port of the service
-- ---------------------------------------------------------------------------

def SamePort (s t : Vpn) : Prop := t.mLocalServicePort = s.mLocalServicePort

instance : IsPreorder Vpn SamePort where
  refl _ := rfl
  trans _ _ _ h h' := h'.trans h

theorem samePort_add (port : Short) (iport : IPort) : (PortMapping.add port iport).Within SamePort :=
  Prog.within_modify fun _ => rfl

theorem samePort_rewrite (f : IPPacket → IPPacket) : (rewrite f).Within SamePort :=
  Prog.Within.bind (Prog.within_modify fun _ => rfl) fun _ => Prog.within_get.bind fun _ =>
    (Prog.within_lift _).bind fun _ => Prog.within_modify fun _ => rfl

theorem samePort_forward (localIP : Word) (fuel : Nat) (port : Short) (iport : IPort) :
    (forward localIP fuel port iport).Within SamePort := by
  refine Prog.within_get.bind fun s => ?_
  cases sniffHost iport s.ipPacket fuel with
  | running => exact Prog.within_pure _
  | returned host =>
    exact (samePort_add _ _).bind fun _ => (samePort_rewrite _).bind fun _ =>
      (samePort_add _ _).bind fun _ => Prog.within_pure _

theorem samePort_processTCPPacket (size : Nat) (localIP : Word) (fuel : Nat) :
    (processTCPPacket size localIP fuel).Within SamePort := by
  refine Prog.Within.bind (Prog.within_modify fun _ => rfl) fun _ => Prog.within_get.bind fun s => ?_
  refine Prog.Within.ite (Prog.Within.ite ?_ ?_) (Prog.within_pure _)
  · refine Prog.Within.bind (Prog.within_get.bind fun t => ?_) fun _ => Prog.within_pure _
    refine (Prog.within_get.bind fun _ => Prog.within_pure _).bind fun entry => ?_
    cases entry with
    | none => exact Prog.within_pure _
    | some iport =>
      exact (samePort_rewrite _).bind fun _ => (samePort_add _ _).bind fun _ => Prog.within_pure _
  · refine Prog.within_get.bind fun t => ?_
    refine (Prog.within_get.bind fun _ => Prog.within_pure _).bind fun entry => ?_
    exact (samePort_add _ _).bind fun _ =>
      Prog.Within.ite (Prog.within_pure _) (samePort_forward _ _ _ _)

theorem samePort_processRequest (packet : Dns.DNSPacket) : (processRequest packet).Within SamePort :=
  fun _ => rfl

theorem samePort_processUDPPacket (localIP : Word) (depth : Nat) :
    (processUDPPacket localIP depth).Within SamePort := by
  refine Prog.Within.bind (Prog.within_modify fun _ => rfl) fun _ => Prog.within_get.bind fun s => ?_
  refine Prog.Within.ite ?_ (Prog.within_pure _)
  refine (Prog.within_lift _).bind fun buffer => (Prog.within_lift _).bind fun packet => ?_
  cases packet with
  | none => exact Prog.within_pure _
  | some packet =>
    exact (samePort_processRequest packet).bind fun _ => Prog.within_pure _

/-- The port of the service is set once, when the proxy is started. -/
theorem samePort_process (size : Nat) (localIP : Word) (depth fuel : Nat) :
    (process size localIP depth fuel).Within SamePort := by
  refine Prog.within_get.bind fun s => Prog.Within.ite (samePort_processTCPPacket _ _ _) ?_
  exact Prog.Within.ite ((samePort_processUDPPacket _ _).bind fun _ => Prog.within_pure _)
    (Prog.within_pure _)

-- ---------------------------------------------------------------------------
-- Runs
-- ---------------------------------------------------------------------------

section
variable {L D : Word} {p q : Short} {depth fuel : Nat} {s t u : Vpn} {bytes : List Byte}
  {between : List (List Byte)}

theorem step_eq_some : step L depth fuel s bytes = some t ↔
    ∃ flow, (process bytes.length L depth fuel).exec (readTun bytes s) = (.ok (some flow), t) := by
  unfold step
  constructor
  · intro h
    split at h
    next flow t' heq =>
      cases h
      exact ⟨flow, heq⟩
    next => cases h
  · rintro ⟨flow, heq⟩
    rw [heq]

theorem step_servicePort (h : step L depth fuel s bytes = some t) :
    t.mLocalServicePort = s.mLocalServicePort := by
  obtain ⟨flow, hexec⟩ := step_eq_some.mp h
  have hport := samePort_process bytes.length L depth fuel (readTun bytes s)
  rw [hexec] at hport
  exact hport

theorem step_leads (h : step L depth fuel s bytes = some t) (hentry : Leads D q (s.mSessionMap p))
    (hkeep : ¬ Diverts L p D q (readTun bytes s).ipPacket) : Leads D q (t.mSessionMap p) := by
  obtain ⟨flow, hexec⟩ := step_eq_some.mp h
  have hentry' : Leads D q ((readTun bytes s).mSessionMap p) := hentry
  have hleads : Leads D q
      (((process bytes.length L depth fuel).exec (readTun bytes s)).2.mSessionMap p) :=
    process_leads hentry' hkeep
  rwa [hexec] at hleads

theorem getDestAddress_of_leads {entries : Short → Option IPort} (h : Leads D q (entries p))
    (inetAddress : Word) : getDestAddress entries inetAddress p = some (.address inetAddress, q.toNat) := by
  obtain ⟨iport, hiport, -, rfl⟩ := h
  rw [getDestAddress, hiport]
  rfl

/-- The entry that a packet from `L:p` to `D:q` makes serves its connection, on
the accept path and on the way back, until a packet diverts the port. -/
theorem session_kept (happ : p ≠ s.mLocalServicePort)
    (hpacket : IsPacket (readTun bytes s).ipPacket ⟨L, p, D, q⟩)
    (hstep : step L depth fuel s bytes = some t)
    (hrun : Machine.run (step L depth fuel) t between = some u)
    (hkeep : Machine.Guarded (step L depth fuel)
      (fun v bytes => ¬ Diverts L p D q (readTun bytes v).ipPacket) t between) :
    getDestAddress u.mSessionMap D p = some (.address D, q.toNat) ∧
      ∀ bytes', IsPacket (readTun bytes' u).ipPacket ⟨L, s.mLocalServicePort, D, p⟩ →
        ∃ v, step L depth fuel u bytes' = some v ∧ route v.ipPacket = ⟨D, q, L, p⟩ := by
  have hmade : Leads D q (t.mSessionMap p) := by
    obtain ⟨flow, hexec⟩ := step_eq_some.mp hstep
    have hentry : Leads D q
        (((process bytes.length L depth fuel).exec (readTun bytes s)).2.mSessionMap p) :=
      process_enters hpacket rfl happ
    rwa [hexec] at hentry
  have hleads : ∀ v bytes w, Leads D q (v.mSessionMap p) →
      ¬ Diverts L p D q (readTun bytes v).ipPacket → step L depth fuel v bytes = some w →
      Leads D q (w.mSessionMap p) := fun v bytes w hv hno hw => step_leads hw hv hno
  have hsame : ∀ v bytes w, v.mLocalServicePort = s.mLocalServicePort →
      step L depth fuel v bytes = some w → w.mLocalServicePort = s.mLocalServicePort :=
    fun v bytes w hv hw => (step_servicePort hw).trans hv
  have hkept : Leads D q (u.mSessionMap p) := Machine.run_invariant hleads hmade hkeep hrun
  have hport : u.mLocalServicePort = s.mLocalServicePort :=
    Machine.run_keeps hsame (step_servicePort hstep) hrun
  refine ⟨getDestAddress_of_leads hkept D, fun bytes' hback => ?_⟩
  rw [← hport] at hback
  obtain ⟨flow, v, hexec, hroute⟩ := process_answers (s := readTun bytes' u) hback hkept
  exact ⟨v, step_eq_some.mpr ⟨flow, hexec⟩, hroute⟩

end

/-- A TCP packet without options and without data. -/
def emptyPacket (r : Route) : List Byte :=
  [0x45, 0, 0, 40, 0, 0, 0, 0, 64, 6, 0, 0] ++ intBytes r.sourceIP ++ intBytes r.destinationIP ++
    shortBytes r.sourcePort ++ shortBytes r.destinationPort ++
    [0, 0, 0, 0, 0, 0, 0, 0, 0x50, 2, 0, 0, 0, 0, 0, 0]

/-- The VPN thread before its first packet. -/
def idle : Vpn where
  ipPacket := .ofData ⟨20000, fun _ => 0⟩ IPPacket.size_le_mtu
  mLocalServicePort := 2000
  mSessionMap _ := none
  queries := ⟨0, fun _ => none⟩
  sent := []

/-- Connections from port 1000 of `10.0.0.1` to two servers. -/
def toFirst : Route := ⟨0x0A000001, 1000, 0x01010101, 80⟩
def toSecond : Route := ⟨0x0A000001, 1000, 0x02020202, 443⟩

def sampleReply : Route := ⟨0x0A000001, 2000, 0x01010101, 1000⟩

/-- The VPN thread after a packet. -/
def afterPacket (s : Vpn) (r : Route) : Vpn :=
  (step 0x0A000001 1 1 s (emptyPacket r)).getD s

theorem step_afterPacket {s : Vpn} {r : Route}
    (h : (step 0x0A000001 1 1 s (emptyPacket r)).isSome = true) :
    step 0x0A000001 1 1 s (emptyPacket r) = some (afterPacket s r) := by
  obtain ⟨t, ht⟩ := Option.isSome_iff_exists.mp h
  rw [afterPacket, ht]
  rfl

theorem emptyPacket_isPacket : IsPacket (readTun (emptyPacket toFirst) idle).ipPacket toFirst where
  protocol := by decide
  header := by decide
  length := by decide
  route := by decide

theorem step_toFirst :
    step 0x0A000001 1 1 idle (emptyPacket toFirst) = some (afterPacket idle toFirst) :=
  step_afterPacket (by decide +kernel)

instance (L : Word) (p : Short) (D : Word) (q : Short) (packet : IPPacket) : Decidable (Diverts L p D q packet) := by
  unfold Diverts
  infer_instance

/-- A connection from another port, a packet of the service to it, and one more packet
from the first port to the first server. -/
def sampleBetween : List (List Byte) :=
  [emptyPacket ⟨0x0A000001, 1001, 0x02020202, 443⟩, emptyPacket ⟨0x0A000001, 2000, 0x02020202, 1001⟩,
    emptyPacket toFirst]

def afterBetween : Vpn := (Machine.run (step 0x0A000001 1 1) (afterPacket idle toFirst) sampleBetween).getD idle

theorem run_sampleBetween :
    Machine.run (step 0x0A000001 1 1) (afterPacket idle toFirst) sampleBetween = some afterBetween :=
  Machine.run_getD (by decide +kernel)

theorem sampleReply_isPacket :
    IsPacket (readTun (emptyPacket sampleReply) afterBetween).ipPacket sampleReply where
  protocol := by decide +kernel
  header := by decide +kernel
  length := by decide +kernel
  route := by decide +kernel

theorem sampleSession_kept :
    getDestAddress afterBetween.mSessionMap 0x01010101 1000 = some (.address 0x01010101, 80) ∧
      ∃ v, step 0x0A000001 1 1 afterBetween (emptyPacket sampleReply) = some v ∧
        route v.ipPacket = ⟨0x01010101, 80, 0x0A000001, 1000⟩ := by
  have hguarded : Machine.Guarded (step 0x0A000001 1 1) (fun v bytes =>
      ¬ Diverts 0x0A000001 1000 0x01010101 80 (readTun bytes v).ipPacket) (afterPacket idle toFirst)
      sampleBetween := by
    decide +kernel
  obtain ⟨hdest, hreply⟩ :=
    session_kept (by decide) emptyPacket_isPacket step_toFirst run_sampleBetween hguarded
  exact ⟨hdest, hreply _ sampleReply_isPacket⟩

/-- A packet from the same port to another server takes the entry over, although the
first packet was rewritten. -/
theorem session_diverted :
    ¬ ∀ L D p q depth fuel s t u bytes between, p ≠ s.mLocalServicePort →
      IsPacket (readTun bytes s).ipPacket ⟨L, p, D, q⟩ →
      step L depth fuel s bytes = some t → route t.ipPacket = ⟨D, p, L, s.mLocalServicePort⟩ →
      Machine.run (step L depth fuel) t between = some u →
      getDestAddress u.mSessionMap D p = some (.address D, q.toNat) := by
  intro h
  have hnext : step 0x0A000001 1 1 (afterPacket idle toFirst) (emptyPacket toSecond) =
      some (afterPacket (afterPacket idle toFirst) toSecond) := step_afterPacket (by decide +kernel)
  have hrun : Machine.run (step 0x0A000001 1 1) (afterPacket idle toFirst) [emptyPacket toSecond] =
      some (afterPacket (afterPacket idle toFirst) toSecond) := by
    rw [Machine.run, hnext]
    rfl
  have hrewritten : route (afterPacket idle toFirst).ipPacket = ⟨0x01010101, 1000, 0x0A000001, 2000⟩ := by
    decide +kernel
  have hdest := h _ _ _ _ 1 1 idle _ _ _ _ (by decide) emptyPacket_isPacket step_toFirst hrewritten hrun
  revert hdest
  decide +kernel

end SmartSocks.Sslocal
