import SmartSocks.Sslocal.Sessions
import SmartSocks.Sslocal.UDPProxyServer
import SmartSocks.TcpIp.ValidPackets

/-!
# `VpnThread`

The loop over the packets of the tun device. `process` translates a TCP packet
or leaves it alone, but what it did is not looked at: every TCP packet is
written back. So a run writes only translated packets just when all the TCP
packets it was given are ones that `process` translates.
-/

namespace SmartSocks.Ssvpn

open Jvm EasyValue Dns TcpIp IPPacket Sslocal

def SS_VPN_MTU : Nat := 20000

/-- The bytes of one read. -/
abbrev TunPacket := { bytes : List Byte // bytes ≠ [] ∧ bytes.length ≤ SS_VPN_MTU }

inductive TunRead
  /-- An `IOException`, or `null` when the stream was closed. -/
  | failed
  | endOfStream
  | nothing
  | packet (bytes : TunPacket)

/-- What happens in one round of the loop of `run`. -/
structure Iteration where
  read : TunRead
  /-- `write` throws an `IOException`. -/
  writeFails : Bool := false
  /-- The flag at the end of the round. -/
  mVpnThreadRunning : Bool := true

/-- A packet that was written, with the thread's data before `process`. -/
structure Written where
  before : Vpn
  mPacket : IPPacket
  size : Nat

structure VpnThread where
  vpn : Vpn
  mRecvBytes : BitVec 64 := 0
  mSendBytes : BitVec 64 := 0
  written : List Written := []
  alive : Bool := true

namespace VpnThread

/-- The traffic statistics. -/
def count (flow : Flow) (s : VpnThread) : VpnThread :=
  match flow.1 with
  | .incoming => { s with mRecvBytes := s.mRecvBytes + BitVec.ofInt 64 flow.2 }
  | .outcoming => { s with mSendBytes := s.mSendBytes + BitVec.ofInt 64 flow.2 }

/-- A packet; there is no step when `process` does not come to an end. -/
def onPacket (localIP : Word) (depth fuel : Nat) (s : VpnThread) (e : Iteration) (bytes : List Byte) :
    Option VpnThread :=
  match (process bytes.length localIP depth fuel).exec (readTun bytes s.vpn) with
  | (.ok none, _) => none
  | (.error _, t) => some { s with vpn := t, alive := false }
  | (.ok (some flow), t) =>
    let s := s.count flow
    if t.ipPacket.getProtocol = TCP then
      if e.writeFails then some { s with vpn := t, alive := false }
      else
        some { s with
          vpn := t
          written := s.written ++ [⟨readTun bytes s.vpn, t.ipPacket, bytes.length⟩]
          alive := e.mVpnThreadRunning }
    else some { s with vpn := t, alive := e.mVpnThreadRunning }

/-- One round of the loop of `run`. -/
def step (localIP : Word) (depth fuel : Nat) (s : VpnThread) (e : Iteration) : Option VpnThread :=
  if s.alive then
    match e.read with
    | .failed => some { s with alive := false }
    | .endOfStream => some { s with alive := false }
    | .nothing => some { s with alive := e.mVpnThreadRunning }
    | .packet bytes => s.onPacket localIP depth fuel e bytes
  else none

end VpnThread

-- ---------------------------------------------------------------------------
-- Translated packets
-- ---------------------------------------------------------------------------

/-- `process` translates a TCP packet in this state. -/
def Translates (localIP : Word) (s : Vpn) : Prop :=
  s.ipPacket.getSourceIP = localIP ∧
    if TCPPacket.getSourcePort s.ipPacket.alignTCP = s.mLocalServicePort then
      (s.mSessionMap (TCPPacket.getDestinationPort s.ipPacket.alignTCP)).isSome = true
    else ¬ (({ s with ipPacket := s.ipPacket.alignTCP } : Vpn).iport.mPacketsSent = 2 ∧
      s.ipPacket.alignTCP.tcpDataSize = 0)

instance (localIP : Word) : DecidablePred (Translates localIP) := fun _ =>
  inferInstanceAs (Decidable (_ ∧ _))

/-- The written packet was translated: if its lengths are sound it is addressed
to the local IP, with right checksums. -/
structure Translated (localIP : Word) (w : Written) : Prop where
  translates : Translates localIP w.before
  valid : 20 ≤ w.before.ipPacket.getHeaderLength →
    w.before.ipPacket.getHeaderLength + 20 ≤ w.before.ipPacket.getTotalLength →
    w.before.ipPacket.getTotalLength ≤ w.before.ipPacket.mData.size →
    w.mPacket.getDestinationIP = localIP ∧ ChecksumsOk w.mPacket

def OnlyTranslated (localIP : Word) (s : VpnThread) : Prop := ∀ w ∈ s.written, Translated localIP w

/-- The condition on a round: a TCP packet that can be written is one that
`process` translates. -/
def Translatable (localIP : Word) (s : VpnThread) (e : Iteration) : Prop :=
  match e.read with
  | .packet bytes => (readTun bytes s.vpn).ipPacket.getProtocol = TCP → e.writeFails = false →
    Translates localIP (readTun bytes s.vpn)
  | _ => True

instance (localIP : Word) (s : VpnThread) (e : Iteration) : Decidable (Translatable localIP s e) := by
  unfold Translatable
  split <;> infer_instance

section
variable {size : Nat} {localIP : Word} {depth fuel : Nat} {s t : Vpn} {flow : Flow}

theorem Translates.rewrites (h : Translates localIP s) : ∃ port, Rewrites localIP s port := by
  obtain ⟨hsource, hcase⟩ := h
  split at hcase
  next hservice =>
    obtain ⟨iport, hknown⟩ := Option.isSome_iff_exists.mp hcase
    exact ⟨_, .fromService hsource hservice iport hknown⟩
  next hother => exact ⟨_, .toService hsource hother hcase⟩

/-- A packet that is not translated is as it was, and not a reason to stop. -/
theorem process_untranslated (size depth fuel : Nat) (htcp : s.ipPacket.getProtocol = TCP) (h : ¬ Translates localIP s) :
    ∃ flow t, (process size localIP depth fuel).exec s = (.ok (some flow), t) ∧
      t.ipPacket = s.ipPacket.alignTCP := by
  have hsource : s.ipPacket.alignTCP.getSourceIP = s.ipPacket.getSourceIP := rfl
  rw [exec_process, if_pos htcp, exec_processTCPPacket]
  simp only [hsource]
  by_cases hlocal : s.ipPacket.getSourceIP = localIP
  · rw [if_pos hlocal]
    by_cases hservice : TCPPacket.getSourcePort s.ipPacket.alignTCP = s.mLocalServicePort
    · have hnone : s.mSessionMap (TCPPacket.getDestinationPort s.ipPacket.alignTCP) = none := by
        by_contra hsome
        refine h ⟨hlocal, ?_⟩
        rw [if_pos hservice]
        exact Option.isSome_iff_ne_none.mpr hsome
      rw [if_pos hservice, Prog.exec_map, exec_processService]
      simp only [hnone]
      exact ⟨_, _, rfl, rfl⟩
    · have hquiet : ({ s with ipPacket := s.ipPacket.alignTCP } : Vpn).iport.mPacketsSent = 2 ∧
          s.ipPacket.alignTCP.tcpDataSize = 0 := by
        by_contra hdata
        refine h ⟨hlocal, ?_⟩
        rwa [if_neg hservice]
      rw [if_neg hservice, exec_processApplication, if_pos hquiet]
      exact ⟨_, _, rfl, rfl⟩
  · rw [if_neg hlocal]
    exact ⟨_, _, rfl, rfl⟩

/-- Queries are numbered in their DNS header. -/
theorem protocol_processUDPPacket (localIP : Word) (depth : Nat) (s : Vpn) :
    ((processUDPPacket localIP depth).exec s).2.ipPacket.getProtocol = s.ipPacket.getProtocol := by
  rw [exec_processUDPPacket]
  simp only
  split
  · cases hquery : dnsQuery s.ipPacket.alignUDP depth with
    | error e => rfl
    | ok result =>
      cases result with
      | none => rfl
      | some packet =>
        obtain ⟨buffer, hlimit, hfrom⟩ := bind_eq_ok.mp hquery
        obtain ⟨-, hoffset, hpos⟩ := setLimit_eq_ok hlimit
        obtain ⟨-, -, -, hheader, -⟩ := DNSPacket.fromBytes_some hpos hfrom
        have hid := ipPacket_processRequest packet
          ({ s with ipPacket := s.ipPacket.alignUDP } : Vpn).requests
        have hcell : ((packet.processRequest.exec
            ({ s with ipPacket := s.ipPacket.alignUDP } : Vpn).requests).2.ipPacket).getProtocol =
              s.ipPacket.getProtocol := by
          rw [hid, DNSPacket.setID, hheader, hoffset]
          exact cell_write_outside (.inl (by decide))
        simp only
        split
        next heq =>
          rw [heq] at hcell
          exact hcell
        next heq =>
          rw [heq] at hcell
          exact hcell
  · rfl

/-- A packet of another protocol does not become a TCP packet. -/
theorem process_other (hother : s.ipPacket.getProtocol ≠ TCP)
    (hexec : (process size localIP depth fuel).exec s = (.ok (some flow), t)) :
    t.ipPacket.getProtocol ≠ TCP := by
  rw [exec_process, if_neg hother] at hexec
  split at hexec
  · have hprotocol := protocol_processUDPPacket localIP depth s
    rw [Prog.exec_map] at hexec
    split at hexec
    next flow' t' heq =>
      cases hexec
      rw [heq] at hprotocol
      rwa [hprotocol]
    next => cases hexec
  · cases hexec
    exact hother

theorem process_translated (htcp : s.ipPacket.getProtocol = TCP) (h : Translates localIP s)
    (hexec : (process size localIP depth fuel).exec s = (.ok (some flow), t)) :
    Translated localIP ⟨s, t.ipPacket, size⟩ := by
  refine ⟨h, fun hheader hsegment hlen => ?_⟩
  obtain ⟨port, hrewrites⟩ := h.rewrites
  rw [exec_process, if_pos htcp] at hexec
  rcases exec_processTCPPacket_rewrites size fuel hheader hsegment hlen hrewrites with
    ⟨t', hnone⟩ | ⟨flow', t', hsome, hrewritten⟩
  · cases hnone.symm.trans hexec
  · cases hsome.symm.trans hexec
    exact ⟨hrewritten.destinationIP, hrewritten.checksums⟩

end

-- ---------------------------------------------------------------------------
-- Runs
-- ---------------------------------------------------------------------------

section
variable {localIP : Word} {depth fuel : Nat} {s t : VpnThread} {e : Iteration}

theorem VpnThread.count_frame (s : VpnThread) (flow : Flow) :
    (s.count flow).written = s.written ∧ (s.count flow).vpn = s.vpn := by
  unfold VpnThread.count
  split <;> exact ⟨rfl, rfl⟩

theorem onlyTranslated_packet {bytes : TunPacket} (hread : e.read = .packet bytes)
    (hstep : s.onPacket localIP depth fuel e bytes = some t) :
    OnlyTranslated localIP t ↔ OnlyTranslated localIP s ∧ Translatable localIP s e := by
  have hguard : Translatable localIP s e ↔ ((readTun bytes s.vpn).ipPacket.getProtocol = TCP →
      e.writeFails = false → Translates localIP (readTun bytes s.vpn)) := by
    rw [Translatable, hread]
  have hsame {t : VpnThread} (hwritten : t.written = s.written) (h : Translatable localIP s e) :
      OnlyTranslated localIP t ↔ OnlyTranslated localIP s ∧ Translatable localIP s e := by
    rw [OnlyTranslated, hwritten]
    exact (and_iff_left h).symm
  have huntranslated {r : Except Throwable (Option Flow) × Vpn}
      (hexec : (process bytes.val.length localIP depth fuel).exec (readTun bytes s.vpn) = r)
      (htcp : (readTun bytes s.vpn).ipPacket.getProtocol = TCP)
      (hno : ¬ Translates localIP (readTun bytes s.vpn)) :
      ∃ flow t, r = (.ok (some flow), t) ∧ t.ipPacket.getProtocol = TCP := by
    obtain ⟨flow, u, hsome, halign⟩ := process_untranslated bytes.val.length depth fuel htcp hno
    exact ⟨flow, u, hexec.symm.trans hsome, halign ▸ htcp⟩
  unfold VpnThread.onPacket at hstep
  split at hstep
  next => cases hstep
  next error u hexec =>
    cases hstep
    refine hsame rfl (hguard.mpr fun htcp _ => ?_)
    by_contra hno
    obtain ⟨flow, v, hsome, -⟩ := huntranslated hexec htcp hno
    cases hsome
  next flow u hexec =>
    obtain ⟨hcount, hvpn⟩ := s.count_frame flow
    simp only at hstep
    split at hstep
    next htcp' =>
      have htcp : (readTun bytes s.vpn).ipPacket.getProtocol = TCP := by
        by_contra hother
        exact process_other hother hexec htcp'
      split at hstep
      next hfails =>
        cases hstep
        refine hsame hcount (hguard.mpr fun _ hwrites => ?_)
        cases hwrites.symm.trans hfails
      next hwrites =>
        have htranslated : Translatable localIP s e ↔
            Translated localIP ⟨readTun bytes s.vpn, u.ipPacket, bytes.val.length⟩ := by
          rw [hguard]
          constructor
          · intro h
            exact process_translated htcp (h htcp (Bool.eq_false_iff.mpr hwrites)) hexec
          · intro h _ _
            exact h.translates
        cases hstep
        rw [htranslated]
        simp only [OnlyTranslated, hcount, hvpn, List.forall_mem_append, List.forall_mem_singleton]
    next hother =>
      cases hstep
      refine hsame hcount (hguard.mpr fun htcp _ => ?_)
      by_contra hno
      obtain ⟨flow', v, hsome, htcp'⟩ := huntranslated hexec htcp hno
      cases hsome
      exact hother htcp'

theorem onlyTranslated_step (hstep : VpnThread.step localIP depth fuel s e = some t) :
    OnlyTranslated localIP t ↔ OnlyTranslated localIP s ∧ Translatable localIP s e := by
  unfold VpnThread.step at hstep
  split at hstep
  · cases hread : e.read with
    | packet bytes =>
      rw [hread] at hstep
      exact onlyTranslated_packet hread hstep
    | _ =>
      rw [hread] at hstep
      cases hstep
      have hguard : Translatable localIP s e := by
        rw [Translatable, hread]
        trivial
      exact (and_iff_left hguard).symm
  · cases hstep

end

/-- The thread before its first packet. -/
def sampleThread : VpnThread := { vpn := idle }

/-- An application sends a packet without data. -/
def sampleIteration : Iteration where
  read := .packet ⟨emptyPacket toFirst, by decide⟩

/-- The packet, one with four bytes of data behind it, and one of the service. -/
def sampleIterations : List Iteration :=
  [sampleIteration, { read := .packet ⟨(emptyPacket toFirst).set 3 44 ++ [1, 2, 3, 4], by decide⟩ },
    { read := .packet ⟨emptyPacket sampleReply, by decide⟩ }]

end SmartSocks.Ssvpn
