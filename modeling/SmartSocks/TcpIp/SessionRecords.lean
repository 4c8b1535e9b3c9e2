import Mathlib.Algebra.Ring.Int.Defs
import SmartSocks.Library.Machine
import SmartSocks.Sslocal.Sessions

/-!
# The record of a connection

A packet of an application is accounted to the entry of its source port, if that
has the same destination, whichever connection it belongs to. So what an entry
tells of the packets that were sent is about all packets from the port since the
last one to another destination. A new connection starts with a fresh record just
when there is none of them, or when the 32-bit counters are back at zero.
-/

namespace SmartSocks.TcpIp

open Jvm EasyValue Http IPPacket

-- ---------------------------------------------------------------------------
-- Packets and their entry
-- ---------------------------------------------------------------------------

/-- A packet in the array, and the size that was read. -/
structure Arrival where
  packet : IPPacket
  size : Nat

namespace Arrival

/-- The packet as `processTCPPacket` looks at it. -/
def aligned (a : Arrival) : IPPacket := a.packet.alignTCP

/-- An application sends the packet from port `p`. -/
def SentFrom (localIP : Word) (p : Short) (a : Arrival) : Prop :=
  a.aligned.getSourceIP = localIP ∧ TCPPacket.getSourcePort a.aligned = p

instance (localIP : Word) (p : Short) (a : Arrival) : Decidable (a.SentFrom localIP p) :=
  inferInstanceAs (Decidable (_ ∧ _))

/-- The packet goes to `ip:port`. -/
def GoesTo (ip : Word) (port : Short) (a : Arrival) : Prop :=
  a.aligned.getDestinationIP = ip ∧ TCPPacket.getDestinationPort a.aligned = port

instance (ip : Word) (port : Short) (a : Arrival) : Decidable (a.GoesTo ip port) :=
  inferInstanceAs (Decidable (_ ∧ _))

end Arrival

/-- One packet. An exception ends the VPN thread, and leaves the map to the next;
there is no step from a packet that is never done with. -/
def arrive (localIP : Word) (fuel : Nat) (s : Vpn) (a : Arrival) : Option Vpn :=
  match (processTCPPacket a.size localIP fuel).exec { s with ipPacket := a.packet } with
  | (.ok none, _) => none
  | (_, t) => some t

namespace IPort

/-- What an entry tells of the packets that were sent. -/
def outgoing (iport : IPort) : IPort := { iport with mBytesRecv := 0 }

/-- As it is created. -/
def Blank (iport : IPort) : Prop :=
  iport.mPacketsSent = 0 ∧ iport.mBytesSent = 0 ∧ iport.mHost = none

/-- The second packet of a connection is held back if it has no data. -/
def HoldsBack (iport : IPort) (p : IPPacket) : Prop := iport.mPacketsSent = 2 ∧ p.tcpDataSize = 0

instance (iport : IPort) (p : IPPacket) : Decidable (iport.HoldsBack p) := inferInstanceAs (Decidable (_ ∧ _))

/-- The host that the packet is found to ask for. -/
def foundHost (iport : IPort) (p : IPPacket) (fuel : Nat) : Option (List Char) :=
  match sniffHost iport p fuel with
  | .running => none
  | .returned host => host

/-- The entry after a packet that is accounted to it, and done with. -/
def account (localIP : Word) (mLocalServicePort : Short) (fuel : Nat) (iport : IPort) (p : IPPacket) : IPort :=
  if iport.countPacket.HoldsBack p then iport.countPacket
  else
    match (p.toService localIP mLocalServicePort).tcpChecksum with
    | .ok _ =>
      { iport.countPacket with
        mHost := (foundHost iport.countPacket p fuel).or iport.mHost
        mBytesSent := iport.mBytesSent + BitVec.ofInt 32 p.tcpDataSize }
    | .error _ => { iport.countPacket with mHost := (foundHost iport.countPacket p fuel).or iport.mHost }

/-- The data that a packet adds to what was sent, none if its checksum throws. -/
def carried (localIP : Word) (mLocalServicePort : Short) (p : IPPacket) : Int :=
  match (p.toService localIP mLocalServicePort).tcpChecksum with
  | .ok _ => p.tcpDataSize
  | .error _ => 0

/-- A packet that a host is found in, if it is looked into. -/
def Names (fuel : Nat) (p : IPPacket) : Prop :=
  10 < p.tcpDataSize ∧ ∃ host, HttpHeaderParser.parseHost p.mData (p.tcpOffset + TCPPacket.getHeaderLength p)
    p.tcpDataSize fuel = .returned (some host)

/-- Packets that bring the counters back to zero, without a host that is found
on the way: one is looked for when the count of the data is at zero. -/
structure Wrapped (localIP : Word) (mLocalServicePort : Short) (fuel : Nat) (packets : List IPPacket) : Prop where
  count : 2 ^ 32 ∣ packets.length
  data : 2 ^ 32 ∣ (packets.map (carried localIP mLocalServicePort)).sum
  noHost : ∀ before p after, packets = before ++ p :: after →
    2 ^ 32 ∣ (before.map (carried localIP mLocalServicePort)).sum → ¬ Names fuel p

/-- A new entry. -/
def fresh (ip : Word) (port : Short) : IPort := { mIP := ip, mPort := port }

/-- The entry for a destination: the one that is there, if it has it. -/
def forDestination (ip : Word) (port : Short) : Option IPort → IPort
  | none => fresh ip port
  | some iport => if iport.mIP ≠ ip ∨ iport.mPort ≠ port then fresh ip port else iport

end IPort

open IPort

/-- The record that a packet of an application is accounted to, as the packet finds
it. -/
def Vpn.record (s : Vpn) (a : Arrival) : IPort :=
  session (s.mSessionMap (TCPPacket.getSourcePort a.aligned)) a.aligned

/-- The packets from `p` to `ip:port` since the last one from `p` to another
destination, behind some that were before. -/
def recentAfter (localIP : Word) (p : Short) (ip : Word) (port : Short) (packets : List IPPacket)
    (history : List Arrival) : List IPPacket :=
  history.foldl (fun packets a =>
    if a.SentFrom localIP p then
      if a.GoesTo ip port then packets ++ [a.aligned] else []
    else packets) packets

def recent (localIP : Word) (p : Short) (ip : Word) (port : Short) : List Arrival → List IPPacket :=
  recentAfter localIP p ip port []

section
variable {localIP ip : Word} {fuel : Nat} {s t : Vpn} {p port servicePort : Short} {a : Arrival}

theorem session_eq (entry : Option IPort) (q : IPPacket) :
    session entry q = forDestination q.getDestinationIP (TCPPacket.getDestinationPort q) entry := by
  cases entry with
  | none => rfl
  | some iport => rfl

theorem outgoing_forDestination {entry entry' : Option IPort} (h : entry.map outgoing = entry'.map outgoing) :
    (forDestination ip port entry).outgoing = (forDestination ip port entry').outgoing := by
  cases entry with
  | none =>
    rw [Option.map_none, eq_comm, Option.map_eq_none_iff] at h
    rw [h]
  | some iport =>
    cases entry' with
    | none => cases h
    | some iport' =>
      have hsame : iport.outgoing = iport'.outgoing := Option.some.inj h
      have hip : iport.outgoing.mIP = iport'.outgoing.mIP := congrArg IPort.mIP hsame
      have hport : iport.outgoing.mPort = iport'.outgoing.mPort := congrArg IPort.mPort hsame
      replace hip : iport.mIP = iport'.mIP := hip
      replace hport : iport.mPort = iport'.mPort := hport
      simp only [forDestination, hip, hport]
      split
      · rfl
      · exact hsame

theorem account_outgoing (iport : IPort) (q : IPPacket) :
    (account localIP servicePort fuel iport q).outgoing = account localIP servicePort fuel iport.outgoing q := by
  have hfound : foundHost iport.outgoing.countPacket q fuel = foundHost iport.countPacket q fuel := rfl
  have hholds : iport.outgoing.countPacket.HoldsBack q ↔ iport.countPacket.HoldsBack q := Iff.rfl
  unfold account
  simp only [hfound, hholds]
  split
  · rfl
  cases (q.toService localIP servicePort).tcpChecksum with
  | ok r => rfl
  | error e => rfl

/-- An entry keeps its destination, and counts the packet. -/
theorem account_fields (iport : IPort) (q : IPPacket) :
    (account localIP servicePort fuel iport q).mIP = iport.mIP ∧
      (account localIP servicePort fuel iport q).mPort = iport.mPort ∧
      (account localIP servicePort fuel iport q).mPacketsSent = iport.mPacketsSent + 1 := by
  unfold account
  split
  · exact ⟨rfl, rfl, rfl⟩
  cases (q.toService localIP servicePort).tcpChecksum with
  | ok r => exact ⟨rfl, rfl, rfl⟩
  | error e => exact ⟨rfl, rfl, rfl⟩

theorem forDestination_fields (ip : Word) (port : Short) (entry : Option IPort) :
    (forDestination ip port entry).mIP = ip ∧ (forDestination ip port entry).mPort = port := by
  cases entry with
  | none => exact ⟨rfl, rfl⟩
  | some iport =>
    by_cases hother : iport.mIP ≠ ip ∨ iport.mPort ≠ port
    · rw [forDestination, if_pos hother]
      exact ⟨rfl, rfl⟩
    · rw [forDestination, if_neg hother]
      rwa [not_or, not_not, not_not] at hother

/-- The entry that a packet is accounted to is there for the next one. -/
theorem forDestination_account {iport : IPort} (hip : iport.mIP = ip) (hport : iport.mPort = port) (q : IPPacket) :
    forDestination ip port (some (account localIP servicePort fuel iport q)) =
      account localIP servicePort fuel iport q := by
  obtain ⟨hip', hport', -⟩ := @account_fields localIP fuel servicePort iport q
  rw [forDestination, if_neg]
  rw [hip', hport', not_or, not_not, not_not]
  exact ⟨hip, hport⟩

theorem forDestination_other {iport : IPort} {q : IPPacket} (hip : iport.mIP = q.getDestinationIP)
    (hport : iport.mPort = TCPPacket.getDestinationPort q)
    (hother : ¬ (q.getDestinationIP = ip ∧ TCPPacket.getDestinationPort q = port)) :
    forDestination ip port (some (account localIP servicePort fuel iport q)) = fresh ip port := by
  obtain ⟨hip', hport', -⟩ := @account_fields localIP fuel servicePort iport q
  rw [forDestination, if_pos]
  rw [hip', hport', hip, hport]
  exact not_and_or.mp hother

theorem foldl_account_fields (packets : List IPPacket) (iport : IPort) :
    (packets.foldl (account localIP servicePort fuel) iport).mPacketsSent =
      iport.mPacketsSent + BitVec.ofNat 32 packets.length := by
  induction packets generalizing iport with
  | nil => exact (BitVec.add_zero _).symm
  | cons q packets ih =>
    rw [List.foldl_cons, ih, (account_fields iport q).2.2, BitVec.add_assoc, List.length_cons, Nat.add_comm,
      BitVec.ofNat_add]
    rfl

-- ---------------------------------------------------------------------------
-- What a packet does to the entry of a port
-- ---------------------------------------------------------------------------

/-- A packet of an application is accounted to the entry of its port. -/
theorem processApplication_entries (hdone : ((processApplication localIP fuel).exec s).1 ≠ .ok none) :
    ((processApplication localIP fuel).exec s).2.mSessionMap =
    Function.update s.mSessionMap (TCPPacket.getSourcePort s.ipPacket)
      (some (account localIP s.mLocalServicePort fuel
        (session (s.mSessionMap (TCPPacket.getSourcePort s.ipPacket)) s.ipPacket) s.ipPacket)) := by
  have hiport : s.iport = (session (s.mSessionMap (TCPPacket.getSourcePort s.ipPacket)) s.ipPacket).countPacket := rfl
  have hexec : (processApplication localIP fuel).exec s =
      if s.iport.HoldsBack s.ipPacket then
        (.ok (some (.outcoming, 0)), s.withSession (TCPPacket.getSourcePort s.ipPacket) s.iport)
      else
        (forward localIP fuel (TCPPacket.getSourcePort s.ipPacket) s.iport).exec
          (s.withSession (TCPPacket.getSourcePort s.ipPacket) s.iport) := exec_processApplication
  rw [hexec] at hdone
  rw [hexec, account, ← hiport]
  by_cases hholds : s.iport.HoldsBack s.ipPacket
  · rw [if_pos hholds, if_pos hholds]
    rfl
  · rw [if_neg hholds, if_neg hholds]
    have hpacket : (s.withSession (TCPPacket.getSourcePort s.ipPacket) s.iport).ipPacket = s.ipPacket := rfl
    rw [if_neg hholds, exec_forward, hpacket] at hdone
    rw [exec_forward, hpacket]
    cases hsniff : sniffHost s.iport s.ipPacket fuel with
    | running =>
      rw [hsniff] at hdone
      exact absurd rfl hdone
    | returned host =>
      have hservice : (s.withSession (TCPPacket.getSourcePort s.ipPacket) s.iport).mLocalServicePort =
          s.mLocalServicePort := rfl
      have hfound : s.iport.foundHost s.ipPacket fuel = host := by rw [foundHost, hsniff]
      dsimp only
      rw [hservice, hfound]
      cases (s.ipPacket.toService localIP s.mLocalServicePort).tcpChecksum with
      | ok r => exact Function.update_idem ..
      | error e => exact Function.update_idem ..

/-- A packet of the service counts for what was received only. -/
theorem processService_entries {size : Nat} (p : Short) :
    (((processService size localIP).exec s).2.mSessionMap p).map outgoing = (s.mSessionMap p).map outgoing := by
  rw [exec_processService]
  cases hentry : s.mSessionMap (TCPPacket.getDestinationPort s.ipPacket) with
  | none => rfl
  | some iport =>
    dsimp only
    cases (s.ipPacket.fromService localIP iport).tcpChecksum with
    | error e => rfl
    | ok r =>
      dsimp only [Vpn.withSession]
      by_cases hp : p = TCPPacket.getDestinationPort s.ipPacket
      · rw [hp, Function.update_self, hentry]
        rfl
      · rw [Function.update_of_ne hp]

theorem arrive_eq_some (h : arrive localIP fuel s a = some t) :
    ((processTCPPacket a.size localIP fuel).exec { s with ipPacket := a.packet }).2 = t := by
  unfold arrive at h
  split at h
  · cases h
  next heq =>
    cases h
    exact congrArg Prod.snd heq

theorem arrive_done (h : arrive localIP fuel s a = some t) :
    ((processTCPPacket a.size localIP fuel).exec { s with ipPacket := a.packet }).1 ≠ .ok none := by
  unfold arrive at h
  split at h
  · cases h
  next hrunning heq =>
    rw [heq]
    exact hrunning

theorem arrive_servicePort (h : arrive localIP fuel s a = some t) :
    t.mLocalServicePort = s.mLocalServicePort := by
  rw [← arrive_eq_some h]
  exact Sslocal.samePort_processTCPPacket a.size localIP fuel { s with ipPacket := a.packet }

/-- The entry for a destination after a packet. -/
theorem arrive_entry (hp : p ≠ s.mLocalServicePort) (h : arrive localIP fuel s a = some t) :
    (forDestination ip port (t.mSessionMap p)).outgoing =
      if a.SentFrom localIP p then
        if a.GoesTo ip port then
          account localIP s.mLocalServicePort fuel (forDestination ip port (s.mSessionMap p)).outgoing a.aligned
        else fresh ip port
      else (forDestination ip port (s.mSessionMap p)).outgoing := by
  have hdone := arrive_done h
  rw [exec_processTCPPacket] at hdone
  dsimp only at hdone
  rw [← arrive_eq_some h, exec_processTCPPacket]
  dsimp only
  by_cases hlocal : a.packet.alignTCP.getSourceIP = localIP
  case neg =>
    rw [if_neg hlocal, if_neg fun hsent => hlocal hsent.1]
  rw [if_pos hlocal]
  by_cases hservice : TCPPacket.getSourcePort a.packet.alignTCP = s.mLocalServicePort
  · have hother : ¬ a.SentFrom localIP p := fun hsent => hp (hsent.2.symm.trans hservice)
    rw [if_pos hservice, if_neg hother, Prog.exec_map]
    have hentries := @processService_entries localIP { s with ipPacket := a.packet.alignTCP } a.size p
    refine outgoing_forDestination ?_
    split
    next heq => rwa [heq] at hentries
    next heq => rwa [heq] at hentries
  rw [if_pos hlocal, if_neg hservice] at hdone
  rw [if_neg hservice, processApplication_entries hdone]
  dsimp only
  by_cases hsport : TCPPacket.getSourcePort a.packet.alignTCP = p
  · have hsent : a.SentFrom localIP p := ⟨hlocal, hsport⟩
    rw [if_pos hsent, hsport, Function.update_self, session_eq]
    have hdest := forDestination_fields a.aligned.getDestinationIP (TCPPacket.getDestinationPort a.aligned)
      (s.mSessionMap p)
    by_cases hgoes : a.GoesTo ip port
    · obtain ⟨rfl, rfl⟩ := hgoes
      rw [if_pos ⟨rfl, rfl⟩, ← account_outgoing]
      exact congrArg outgoing (forDestination_account hdest.1 hdest.2 a.aligned)
    · rw [if_neg hgoes]
      exact congrArg outgoing (forDestination_other hdest.1 hdest.2 hgoes)
  · have hother : ¬ a.SentFrom localIP p := fun hsent => hsport hsent.2
    rw [if_neg hother, Function.update_of_ne (Ne.symm hsport)]

-- ---------------------------------------------------------------------------
-- Runs
-- ---------------------------------------------------------------------------

/-- The entry for a destination has the packets since the last one elsewhere. -/
theorem run_entry {history : List Arrival} {packets : List IPPacket} (hp : p ≠ s.mLocalServicePort)
    (hpackets : (forDestination ip port (s.mSessionMap p)).outgoing =
      packets.foldl (account localIP s.mLocalServicePort fuel) (fresh ip port))
    (hrun : Machine.run (arrive localIP fuel) s history = some t) :
    (forDestination ip port (t.mSessionMap p)).outgoing =
      (recentAfter localIP p ip port packets history).foldl (account localIP s.mLocalServicePort fuel)
        (fresh ip port) := by
  induction history generalizing s packets with
  | nil =>
    cases hrun
    exact hpackets
  | cons a history ih =>
    obtain ⟨u, hu, hrun⟩ := Machine.run_cons.mp hrun
    have hservice := arrive_servicePort hu
    have hentry : (forDestination ip port (u.mSessionMap p)).outgoing = _ := arrive_entry hp hu
    have hnext : (forDestination ip port (u.mSessionMap p)).outgoing =
        (recentAfter localIP p ip port packets [a]).foldl (account localIP u.mLocalServicePort fuel)
          (fresh ip port) := by
      rw [hentry, hpackets, hservice]
      simp only [recentAfter, List.foldl_cons, List.foldl_nil]
      split
      · split
        · rw [List.foldl_append]
          rfl
        · rfl
      · rfl
    have hrest := ih (hservice ▸ hp) hnext hrun
    rwa [hservice] at hrest

/-- Only packets of the connection follow. -/
theorem recentAfter_connection {later : List Arrival} (packets : List IPPacket)
    (hlater : ∀ a ∈ later, a.SentFrom localIP p → a.GoesTo ip port) :
    recentAfter localIP p ip port packets later =
      packets ++ (later.filter (·.SentFrom localIP p)).map Arrival.aligned := by
  induction later generalizing packets with
  | nil => exact (List.append_nil packets).symm
  | cons a later ih =>
    obtain ⟨ha, hlater⟩ := List.forall_mem_cons.mp hlater
    have hstep : recentAfter localIP p ip port packets (a :: later) =
        recentAfter localIP p ip port (if a.SentFrom localIP p then packets ++ [a.aligned] else packets) later := by
      unfold recentAfter
      rw [List.foldl_cons]
      by_cases hsent : a.SentFrom localIP p
      · rw [if_pos hsent, if_pos (ha hsent), if_pos hsent]
      · rw [if_neg hsent, if_neg hsent]
    rw [hstep, ih _ hlater]
    by_cases hsent : a.SentFrom localIP p
    · rw [if_pos hsent, List.filter_cons, if_pos (decide_eq_true hsent), List.map_cons, List.append_assoc]
      rfl
    · rw [if_neg hsent, List.filter_cons, if_neg (mt of_decide_eq_true hsent)]

theorem foundHost_eq_none_iff (iport : IPort) (q : IPPacket) :
    iport.foundHost q fuel = none ↔ (iport.mBytesSent = 0 → ¬ Names fuel q) := by
  unfold foundHost sniffHost Names
  by_cases hlooks : iport.mBytesSent = 0 ∧ 10 < q.tcpDataSize
  · rw [if_pos hlooks]
    cases HttpHeaderParser.parseHost q.mData (q.tcpOffset + TCPPacket.getHeaderLength q) q.tcpDataSize fuel with
    | running =>
      refine ⟨fun _ _ hnames => ?_, fun _ => rfl⟩
      obtain ⟨-, host, hhost⟩ := hnames
      cases hhost
    | returned host =>
      constructor
      · rintro rfl _ ⟨-, host, hhost⟩
        cases hhost
      · intro hnone
        cases host with
        | none => rfl
        | some host => exact absurd ⟨hlooks.2, host, rfl⟩ (hnone hlooks.1)
  · rw [if_neg hlooks]
    exact ⟨fun _ hzero hnames => hlooks ⟨hzero, hnames.1⟩, fun _ => rfl⟩

theorem account_mBytesSent (iport : IPort) (q : IPPacket) :
    (account localIP servicePort fuel iport q).mBytesSent =
      iport.mBytesSent + BitVec.ofInt 32 (carried localIP servicePort q) := by
  unfold account carried
  by_cases hholds : iport.countPacket.HoldsBack q
  · rw [if_pos hholds, hholds.2]
    cases (q.toService localIP servicePort).tcpChecksum with
    | ok r => exact (BitVec.add_zero _).symm
    | error e => exact (BitVec.add_zero _).symm
  · rw [if_neg hholds]
    cases (q.toService localIP servicePort).tcpChecksum with
    | ok r => rfl
    | error e => exact (BitVec.add_zero _).symm

theorem account_mHost_iff (iport : IPort) (q : IPPacket) :
    (account localIP servicePort fuel iport q).mHost = none ↔
      iport.mHost = none ∧ (iport.mBytesSent = 0 → ¬ Names fuel q) := by
  have hfound : (iport.countPacket.foundHost q fuel).or iport.mHost = none ↔
      iport.mHost = none ∧ (iport.mBytesSent = 0 → ¬ Names fuel q) := by
    rw [Option.or_eq_none_iff, foundHost_eq_none_iff, and_comm]
    rfl
  unfold account
  by_cases hholds : iport.countPacket.HoldsBack q
  · have hsmall : ¬ Names fuel q := fun hnames => absurd hholds.2 (Int.ne_of_gt (Int.lt_trans (by decide) hnames.1))
    rw [if_pos hholds]
    exact ⟨fun hhost => ⟨hhost, fun _ => hsmall⟩, And.left⟩
  · rw [if_neg hholds, ← hfound]
    cases (q.toService localIP servicePort).tcpChecksum with
    | ok r => exact Iff.rfl
    | error e => exact Iff.rfl

theorem foldl_account_mBytesSent (packets : List IPPacket) (iport : IPort) :
    (packets.foldl (account localIP servicePort fuel) iport).mBytesSent =
      iport.mBytesSent + BitVec.ofInt 32 (packets.map (carried localIP servicePort)).sum := by
  induction packets generalizing iport with
  | nil => exact (BitVec.add_zero _).symm
  | cons q packets ih =>
    rw [List.foldl_cons, ih, account_mBytesSent, List.map_cons, List.sum_cons, BitVec.ofInt_add, BitVec.add_assoc]

theorem foldl_account_mHost_iff (packets : List IPPacket) (iport : IPort) :
    (packets.foldl (account localIP servicePort fuel) iport).mHost = none ↔
      iport.mHost = none ∧ ∀ before q after, packets = before ++ q :: after →
        iport.mBytesSent + BitVec.ofInt 32 (before.map (carried localIP servicePort)).sum = 0 → ¬ Names fuel q := by
  induction packets generalizing iport with
  | nil => exact ⟨fun hhost => ⟨hhost, fun before _ _ heq => absurd heq.symm (List.append_ne_nil_of_right_ne_nil
      before (List.cons_ne_nil _ _))⟩, And.left⟩
  | cons q packets ih =>
    have hbytes (before : List IPPacket) : (account localIP servicePort fuel iport q).mBytesSent +
        BitVec.ofInt 32 (before.map (carried localIP servicePort)).sum =
          iport.mBytesSent + BitVec.ofInt 32 ((q :: before).map (carried localIP servicePort)).sum := by
      rw [account_mBytesSent, List.map_cons, List.sum_cons, BitVec.ofInt_add, BitVec.add_assoc]
    rw [List.foldl_cons, ih, account_mHost_iff, and_assoc]
    refine and_congr_right fun _ => ⟨?_, fun hall => ⟨fun hzero => ?_, fun before r after heq => ?_⟩⟩
    · rintro ⟨hfirst, hrest⟩ (_ | ⟨r, before⟩) r' after heq hzero
      · cases heq
        exact hfirst ((BitVec.add_zero _).symm.trans hzero)
      · cases heq
        exact hrest before r' after rfl ((hbytes before).trans hzero)
    · exact hall [] q packets rfl ((BitVec.add_zero _).trans hzero)
    · rw [hbytes]
      exact hall (q :: before) r after (congrArg (q :: ·) heq)

theorem ofInt_eq_zero_iff (x : Int) : BitVec.ofInt 32 x = 0 ↔ 2 ^ 32 ∣ x := by
  rw [← BitVec.toInt_inj, BitVec.toInt_ofInt]
  exact Int.dvd_iff_bmod_eq_zero.symm

theorem blank_foldl_iff (packets : List IPPacket) :
    Blank (packets.foldl (account localIP servicePort fuel) (fresh ip port)) ↔
      packets = [] ∨ Wrapped localIP servicePort fuel packets := by
  have hcount : (packets.foldl (account localIP servicePort fuel) (fresh ip port)).mPacketsSent = 0 ↔
      2 ^ 32 ∣ packets.length := by
    have hzero : (fresh ip port).mPacketsSent + BitVec.ofNat 32 packets.length = BitVec.ofNat 32 packets.length :=
      BitVec.zero_add _
    rw [foldl_account_fields, hzero, ← BitVec.toNat_inj, BitVec.toNat_ofNat]
    exact Nat.dvd_iff_mod_eq_zero.symm
  have hsent (x : Int) : (fresh ip port).mBytesSent + BitVec.ofInt 32 x = 0 ↔ 2 ^ 32 ∣ x := by
    rw [← ofInt_eq_zero_iff]
    exact Eq.congr (BitVec.zero_add _) rfl
  have hwrapped : Blank (packets.foldl (account localIP servicePort fuel) (fresh ip port)) ↔
      Wrapped localIP servicePort fuel packets := by
    rw [Blank, hcount, foldl_account_mBytesSent, hsent, foldl_account_mHost_iff]
    simp only [hsent]
    exact ⟨fun ⟨hpackets, hdata, _, hhost⟩ => ⟨hpackets, hdata, hhost⟩,
      fun ⟨hpackets, hdata, hhost⟩ => ⟨hpackets, hdata, rfl, hhost⟩⟩
  rw [hwrapped]
  refine ⟨.inr, ?_⟩
  rintro (rfl | h)
  · exact ⟨Nat.dvd_zero _, Int.dvd_zero _, fun before _ _ heq => absurd heq.symm
      (List.append_ne_nil_of_right_ne_nil before (List.cons_ne_nil _ _))⟩
  · exact h

theorem outgoing_of_blank {iport : IPort} (hip : iport.mIP = ip) (hport : iport.mPort = port)
    (h : iport.Blank) : iport.outgoing = fresh ip port := by
  obtain ⟨hpackets, hbytes, hhost⟩ := h
  cases iport
  cases hip
  cases hport
  cases hpackets
  cases hbytes
  cases hhost
  rfl

/-- The record that the first packet of a connection is accounted to is a fresh
one just when no packet went there since the port was last used for another
destination, or the counters have wrapped. From a fresh one on, it is made of the
packets of the connection. -/
theorem record_fresh_iff {history : List Arrival} {syn : Arrival} (hstart : ∀ port, s.mSessionMap port = none)
    (hp : p ≠ s.mLocalServicePort) (hrun : Machine.run (arrive localIP fuel) s history = some t)
    (hsent : syn.SentFrom localIP p) (hgoes : syn.GoesTo ip port) :
    ((t.record syn).Blank ↔
      recent localIP p ip port history = [] ∨
        Wrapped localIP s.mLocalServicePort fuel (recent localIP p ip port history)) ∧
    ((t.record syn).Blank → ∀ later u,
      Machine.run (arrive localIP fuel) t (syn :: later) = some u →
      (∀ a ∈ later, a.SentFrom localIP p → a.GoesTo ip port) →
      (forDestination ip port (u.mSessionMap p)).outgoing =
        (((syn :: later).filter (·.SentFrom localIP p)).map Arrival.aligned).foldl
          (account localIP s.mLocalServicePort fuel) (fresh ip port)) := by
  have hsession : t.record syn = forDestination ip port (t.mSessionMap p) := by
    rw [Vpn.record, session_eq, hsent.2, hgoes.1, hgoes.2]
  have hempty : (forDestination ip port (s.mSessionMap p)).outgoing =
      [].foldl (account localIP s.mLocalServicePort fuel) (fresh ip port) := by
    rw [hstart p]
    rfl
  have hentry := run_entry hp hempty hrun
  rw [hsession]
  refine ⟨?_, fun hblank later u hlater hconnection => ?_⟩
  · rw [recent, ← blank_foldl_iff, ← hentry]
    rfl
  · have hservice : t.mLocalServicePort = s.mLocalServicePort :=
      Machine.run_keeps (fun _ _ _ hs hstep => (arrive_servicePort hstep).trans hs) rfl hrun
    obtain ⟨hip, hport⟩ := forDestination_fields ip port (t.mSessionMap p)
    have hblank' : (forDestination ip port (t.mSessionMap p)).outgoing =
        [].foldl (account localIP t.mLocalServicePort fuel) (fresh ip port) := outgoing_of_blank hip hport hblank
    have hrest := run_entry (hservice ▸ hp) hblank' hlater
    rw [hservice, recentAfter_connection [] (List.forall_mem_cons.mpr ⟨fun _ => hgoes, hconnection⟩)] at hrest
    exact hrest

end

-- ---------------------------------------------------------------------------
-- Connections
-- ---------------------------------------------------------------------------

namespace TCPPacket

def FIN : Byte := 1
def SYN : Byte := 2
def RST : Byte := 4

def getFlags (p : IPPacket) : Byte := p.mData.cell (p.tcpOffset + 13)

end TCPPacket

/-- The last connection of a port: it is over when it was reset, or when both ends
have sent a FIN. -/
structure Connection where
  opened : Bool := false
  finSent : Bool := false
  finReceived : Bool := false

def Connection.Over (c : Connection) : Prop := c.opened = false ∨ c.finSent = true ∧ c.finReceived = true

/-- A packet from port `p`, or one of the service to it. -/
def Connection.next (localIP : Word) (mLocalServicePort p : Short) (c : Connection) (a : Arrival) : Connection :=
  let flags := TCPPacket.getFlags a.aligned
  if a.SentFrom localIP p then
    if flags &&& TCPPacket.RST ≠ 0 then {}
    else if flags &&& TCPPacket.SYN ≠ 0 then { opened := true }
    else { c with finSent := c.finSent || flags &&& TCPPacket.FIN ≠ 0 }
  else if a.SentFrom localIP mLocalServicePort ∧ TCPPacket.getDestinationPort a.aligned = p then
    if flags &&& TCPPacket.RST ≠ 0 then {}
    else { c with finReceived := c.finReceived || flags &&& TCPPacket.FIN ≠ 0 }
  else c

/-- The first SYN of a new connection from port `p` to `ip:port`, with all earlier
connections of the port closed. -/
structure FirstSyn (localIP : Word) (mLocalServicePort p : Short) (ip : Word) (port : Short)
    (history : List Arrival) (syn : Arrival) : Prop where
  sentFrom : syn.SentFrom localIP p
  goesTo : syn.GoesTo ip port
  flags : TCPPacket.getFlags syn.aligned &&& TCPPacket.SYN ≠ 0
  closed : (history.foldl (Connection.next localIP mLocalServicePort p) {}).Over

-- ---------------------------------------------------------------------------
-- A port that is used again
-- ---------------------------------------------------------------------------

section
variable {localIP : Word} {fuel : Nat} {s : Vpn} {a : Arrival}

theorem processApplication_done (h : ∀ iport, sniffHost iport s.ipPacket fuel ≠ .running) :
    ((processApplication localIP fuel).exec s).1 ≠ .ok none := by
  have hpacket : (s.withSession (TCPPacket.getSourcePort s.ipPacket) s.iport).ipPacket = s.ipPacket := rfl
  rw [exec_processApplication]
  split
  · exact fun heq => nomatch heq
  rw [exec_forward, hpacket]
  cases hsniff : sniffHost s.iport s.ipPacket fuel with
  | running => exact absurd hsniff (h s.iport)
  | returned host =>
    dsimp only
    split
    · exact fun heq => nomatch heq
    · exact fun heq => nomatch heq

/-- A packet without much data is not looked into. -/
theorem arrive_small (h : a.aligned.tcpDataSize ≤ 10) : ∃ t, arrive localIP fuel s a = some t := by
  have hsniff (iport : IPort) : sniffHost iport a.packet.alignTCP fuel ≠ .running := by
    have hsmall : ¬ (iport.mBytesSent = 0 ∧ 10 < a.packet.alignTCP.tcpDataSize) := fun hdata =>
      absurd hdata.2 (Int.not_lt.mpr h)
    rw [sniffHost, if_neg hsmall]
    exact fun heq => nomatch heq
  have hdone : ((processTCPPacket a.size localIP fuel).exec { s with ipPacket := a.packet }).1 ≠ .ok none := by
    rw [exec_processTCPPacket]
    dsimp only
    split
    · split
      · rw [Prog.exec_map]
        split
        · exact fun heq => nomatch heq
        · exact fun heq => nomatch heq
      · exact processApplication_done hsniff
    · exact fun heq => nomatch heq
  unfold arrive
  split
  next heq => exact absurd (congrArg Prod.fst heq) hdone
  next => exact ⟨_, rfl⟩

theorem run_small {arrivals : List Arrival} (h : ∀ a ∈ arrivals, a.aligned.tcpDataSize ≤ 10) :
    ∃ t, Machine.run (arrive localIP fuel) s arrivals = some t := by
  induction arrivals generalizing s with
  | nil => exact ⟨s, rfl⟩
  | cons a arrivals ih =>
    obtain ⟨hsmall, hrest⟩ := List.forall_mem_cons.mp h
    obtain ⟨t, ht⟩ : ∃ t, arrive localIP fuel s a = some t := arrive_small hsmall
    obtain ⟨u, hu⟩ : ∃ u, Machine.run (arrive localIP fuel) t arrivals = some u := ih hrest
    exact ⟨u, Machine.run_cons.mpr ⟨t, ht, hu⟩⟩

end

/-- A packet without data, as the thread reads it. -/
def bareArrival (r : Sslocal.Route) (flags : Byte) : Arrival where
  packet := (Sslocal.idle.ipPacket.write 0 (Sslocal.emptyPacket r)).write 33 [flags]
  size := 40

theorem bareArrival_sent {flags : Byte} (h : flags = TCPPacket.SYN ∨ flags = TCPPacket.RST) :
    (bareArrival Sslocal.toFirst flags).SentFrom 0x0A000001 1000 ∧
      (bareArrival Sslocal.toFirst flags).GoesTo 0x01010101 80 ∧
      TCPPacket.getFlags (bareArrival Sslocal.toFirst flags).aligned = flags := by
  obtain rfl | rfl := h
  · exact ⟨by decide, by decide, by decide⟩
  · exact ⟨by decide, by decide, by decide⟩

/-- A connection that is opened and reset. -/
def resetArrivals (r : Sslocal.Route) : List Arrival := [bareArrival r TCPPacket.SYN, bareArrival r TCPPacket.RST]

/-- A connection of another port to the first server, and the next packet from port 1000. -/
def laterArrivals : List Arrival :=
  [bareArrival ⟨0x0A000001, 1001, 0x01010101, 80⟩ TCPPacket.SYN, bareArrival Sslocal.toFirst 0x10]

theorem first_record_fresh : ∃ t u,
    Machine.run (arrive 0x0A000001 1) Sslocal.idle (resetArrivals Sslocal.toSecond) = some t ∧
      (t.record (bareArrival Sslocal.toFirst TCPPacket.SYN)).Blank ∧
      Machine.run (arrive 0x0A000001 1) t (bareArrival Sslocal.toFirst TCPPacket.SYN :: laterArrivals) = some u ∧
      (forDestination 0x01010101 80 (u.mSessionMap 1000)).outgoing =
        [(bareArrival Sslocal.toFirst TCPPacket.SYN).aligned, (bareArrival Sslocal.toFirst 0x10).aligned].foldl
          (account 0x0A000001 2000 1) (fresh 0x01010101 80) := by
  obtain ⟨t, ht⟩ : ∃ t, Machine.run (arrive 0x0A000001 1) Sslocal.idle
      (resetArrivals Sslocal.toSecond) = some t := run_small (by decide)
  obtain ⟨u, hlater⟩ : ∃ u, Machine.run (arrive 0x0A000001 1) t
      (bareArrival Sslocal.toFirst TCPPacket.SYN :: laterArrivals) = some u := run_small (by decide)
  obtain ⟨hsent, hgoes, -⟩ := bareArrival_sent (.inl rfl)
  obtain ⟨hiff, hrest⟩ := record_fresh_iff (fun _ => rfl) (by decide) ht hsent hgoes
  -- the last packet from the port went to the second server
  have hblank := hiff.mpr (.inl (by decide))
  exact ⟨t, u, ht, hblank, hlater, hrest hblank laterArrivals u hlater (by decide)⟩

/-- The connection was reset, and is opened again from the same port. -/
theorem second_record_stale : ¬ ∀ (localIP ip : Word) (fuel : Nat) (s t : Vpn) (p port : Short)
    (history : List Arrival) (syn : Arrival), (∀ port, s.mSessionMap port = none) → p ≠ s.mLocalServicePort →
      Machine.run (arrive localIP fuel) s history = some t →
      FirstSyn localIP s.mLocalServicePort p ip port history syn → (t.record syn).Blank := by
  intro hall
  obtain ⟨hsent, hgoes, hsyn⟩ := bareArrival_sent (.inl rfl)
  obtain ⟨hsent', hgoes', hrst⟩ := bareArrival_sent (.inr rfl)
  have hport : (1000 : Short) ≠ Sslocal.idle.mLocalServicePort := by decide
  -- the reset ends the connection, but not its record
  have hclosed : ((resetArrivals Sslocal.toFirst).foldl
      (Connection.next 0x0A000001 Sslocal.idle.mLocalServicePort 1000) {}).Over := by
    simp only [resetArrivals, List.foldl_cons, List.foldl_nil, Connection.next, if_pos hsent', hrst]
    exact .inl rfl
  obtain ⟨u, hrun⟩ : ∃ u, Machine.run (arrive 0x0A000001 1) Sslocal.idle
      (resetArrivals Sslocal.toFirst) = some u := run_small (by decide)
  have hblank := hall _ _ _ _ _ _ _ _ (bareArrival Sslocal.toFirst TCPPacket.SYN) (fun _ => rfl) hport hrun
    ⟨hsent, hgoes, by rw [hsyn]; decide, hclosed⟩
  have hentry : (forDestination 0x01010101 80 (u.mSessionMap 1000)).outgoing =
      (recentAfter 0x0A000001 1000 0x01010101 80 [] (resetArrivals Sslocal.toFirst)).foldl
        (account 0x0A000001 Sslocal.idle.mLocalServicePort 1) (fresh 0x01010101 80) := run_entry hport rfl hrun
  have hrecord : u.record (bareArrival Sslocal.toFirst TCPPacket.SYN) =
      forDestination 0x01010101 80 (u.mSessionMap 1000) := by
    rw [Vpn.record, session_eq, hsent.2, hgoes.1, hgoes.2]
  have hcount : (u.record (bareArrival Sslocal.toFirst TCPPacket.SYN)).outgoing.mPacketsSent = 2 := by
    rw [hrecord, hentry, foldl_account_fields]
    simp only [recentAfter, resetArrivals, List.foldl_cons, List.foldl_nil, if_pos hsent, if_pos hgoes, if_pos hsent',
      if_pos hgoes']
    rfl
  exact absurd (hcount.symm.trans hblank.1) (by decide)

end SmartSocks.TcpIp
