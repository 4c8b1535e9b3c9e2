import SmartSocks.TcpIp.Process

/-!
# How a DNS query is forwarded

The query is parsed and given its new id in `mDNSBuffer`, which starts behind an
IP header without options, and what is sent starts behind the header that the
packet has. With options the bytes that are parsed are not those that are sent.
-/

namespace SmartSocks.TcpIp

open Jvm EasyValue Dns IPPacket

namespace IPPacket

variable (p : IPPacket)

/-- Where the payload of a UDP packet starts. -/
def payloadOffset : Nat := p.getHeaderLength + 8

theorem payloadOffset_le : p.payloadOffset ≤ p.mData.size := by
  have hheader : p.getHeaderLength ≤ 60 := getHeaderLength_le
  have hroom := p.size_ge
  unfold payloadOffset
  omega

/-- The array from the payload on. -/
def payloadBuffer : ByteBuffer Byte where
  array := p.mData
  arrayOffset := p.payloadOffset
  capacity := p.mData.size - p.payloadOffset
  position := 0
  limit := p.mData.size - p.payloadOffset
  position_le := Nat.zero_le _
  limit_le := Nat.le_refl _
  capacity_le := Nat.le_of_eq (Nat.add_sub_cancel' p.payloadOffset_le)

def udpPayload : List Byte := p.mData.slice p.payloadOffset (p.getDataLength - 8).toNat

/-- What `FromBytes` makes of the payload. -/
def payloadQuery (depth : Nat) : Except Throwable (Option DNSPacket) := do
  let buffer ← p.payloadBuffer.setLimit (p.getDataLength - 8)
  DNSPacket.fromBytes depth buffer

/-- The endpoints of the packet, with the id in front of its payload. -/
def expectedState : QueryState where
  ClientQueryID := short p.mData p.payloadOffset
  ClientIP := p.getSourceIP
  ClientPort := short p.mData p.getHeaderLength
  RemoteIP := p.getDestinationIP
  RemotePort := short p.mData (p.getHeaderLength + 2)

end IPPacket

/-- A UDP packet from the local IP to port 53 with consistent lengths, whose
payload is a message that `FromBytes` accepts. -/
structure IsQuery (localIP : Word) (depth : Nat) (p : IPPacket) : Prop where
  protocol : p.getProtocol = UDP
  sourceIP : p.getSourceIP = localIP
  header : 20 ≤ p.getHeaderLength
  destinationPort : short p.mData (p.getHeaderLength + 2) = 53
  udpLength : (short p.mData (p.getHeaderLength + 4)).toNat = p.getDataLength
  totalLength : p.getTotalLength ≤ p.mData.size
  accepted : ∃ packet, p.payloadQuery depth = .ok (some packet)

/-- The query is sent to its destination under the next id and otherwise as it
is, and what is kept for its answer are its id and its endpoints. -/
def ForwardedIntact (size : Nat) (localIP : Word) (depth fuel : Nat) (s : Vpn) : Prop :=
  let id := s.queries.mQueryID + 1
  ∃ flow t, (process size localIP depth fuel).exec s = (.ok flow, t) ∧
    t.sent = s.sent ++ [{
      address := (s.ipPacket.getDestinationIP, 53)
      data := shortBytes id ++ s.ipPacket.udpPayload.drop 2 }] ∧
    t.queries = ⟨id, Function.update s.queries.mQueryMap id (some s.ipPacket.expectedState)⟩

/-- The bytes behind a header without options are accepted as well, and start
with the id of the payload, which is the next id already. -/
def MisreadAlike (depth : Nat) (s : Vpn) : Prop :=
  (∃ packet, dnsQuery s.ipPacket depth = .ok (some packet)) ∧
    short s.ipPacket.mData 28 = s.queries.mQueryID + 1 ∧
    short s.ipPacket.mData s.ipPacket.payloadOffset = s.queries.mQueryID + 1

section
variable {size : Nat} {localIP : Word} {depth fuel : Nat} {s : Vpn}

theorem payloadQuery_eq {p : IPPacket} (h : p.getHeaderLength = 20) :
    p.payloadQuery depth = dnsQuery p depth := by
  have hoffset : p.payloadOffset = 28 := by rw [payloadOffset, h]
  have hbuffer : p.payloadBuffer = p.mDNSBuffer := by
    refine ByteBuffer.ext rfl hoffset ?_ rfl ?_
    · exact congrArg (p.mData.size - ·) hoffset
    · exact congrArg (p.mData.size - ·) hoffset
  rw [payloadQuery, hbuffer]
  rfl

theorem dnsQuery_some {p : IPPacket} {packet : DNSPacket} (h : dnsQuery p depth = .ok (some packet)) :
    packet.Size = (p.getDataLength - 8).toNat ∧ packet.Size ≤ 512 ∧ packet.Header.mOffset = 28 ∧
      packet.Header.mID = short p.mData 28 := by
  obtain ⟨buffer, hlimit, hfrom⟩ := bind_eq_ok.mp h
  obtain ⟨-, -, harray, hoffset, hlength, hpos⟩ := ByteBuffer.setLimit_eq_ok _ hlimit
  obtain ⟨hsize, -, hmax, hheader, hid⟩ := DNSPacket.fromBytes_some (hpos rfl) hfrom
  rw [hoffset, harray] at hid
  exact ⟨hsize.trans hlength, hmax, hheader.trans hoffset, hid⟩

/-- The length of an accepted payload. -/
theorem payloadQuery_some {p : IPPacket} {packet : DNSPacket}
    (h : p.payloadQuery depth = .ok (some packet)) : 12 ≤ (p.getDataLength - 8).toNat := by
  obtain ⟨buffer, hlimit, hfrom⟩ := bind_eq_ok.mp h
  obtain ⟨-, -, -, -, hlength, hpos⟩ := ByteBuffer.setLimit_eq_ok _ hlimit
  obtain ⟨hsize, hmin, -⟩ := DNSPacket.fromBytes_some (hpos rfl) hfrom
  omega

/-- What `process` does to a query: nothing is sent unless the bytes in
`mDNSBuffer` are accepted. -/
theorem exec_process_query (h : IsQuery localIP depth s.ipPacket) :
    (process size localIP depth fuel).exec s =
      match dnsQuery s.ipPacket depth with
      | .error e => (.error e, { s with ipPacket := s.ipPacket.alignUDP })
      | .ok none => (.ok (some (.outcoming, 0)), { s with ipPacket := s.ipPacket.alignUDP })
      | .ok (some packet) =>
        let id := s.queries.mQueryID + 1
        (.ok (some (.outcoming, 0)), { s with
          ipPacket := packet.setID id s.ipPacket.alignUDP
          queries := ⟨id, Function.update s.queries.mQueryMap id
            (some (packet.queryState s.ipPacket.alignUDP))⟩
          sent := s.sent ++ [packet.forwarded id s.ipPacket.alignUDP] }) := by
  have htcp : ¬ s.ipPacket.getProtocol = TCP := by
    rw [h.protocol]
    decide
  have hquery : s.ipPacket.alignUDP.getSourceIP = localIP ∧
      UDPPacket.getDestinationPort s.ipPacket.alignUDP = 53 := ⟨h.sourceIP, h.destinationPort⟩
  have hsame : dnsQuery s.ipPacket.alignUDP depth = dnsQuery s.ipPacket depth := rfl
  rw [exec_process, if_neg htcp, if_pos h.protocol, Prog.exec_map, exec_processUDPPacket]
  dsimp only
  rw [if_pos hquery, hsame]
  cases hparse : dnsQuery s.ipPacket depth with
  | error e => rfl
  | ok result =>
    cases result with
    | none => rfl
    | some packet =>
      have hport : 0 ≤ (packet.queryState s.ipPacket.alignUDP).RemotePort.toInt := by
        have hremote : (packet.queryState s.ipPacket.alignUDP).RemotePort = 53 := h.destinationPort
        rw [hremote]
        decide
      obtain ⟨-, hmax, -⟩ := dnsQuery_some hparse
      have hexec := exec_processRequest packet
        (Vpn.requests { s with ipPacket := s.ipPacket.alignUDP }) hport hmax
      dsimp only
      rw [hexec]
      rfl

/-- What is left to ask of a query that is parsed. -/
theorem forwardedIntact_iff_parsed (h : IsQuery localIP depth s.ipPacket) :
    ForwardedIntact size localIP depth fuel s ↔
      ∃ packet, dnsQuery s.ipPacket depth = .ok (some packet) ∧
        (packet.forwarded (s.queries.mQueryID + 1) s.ipPacket.alignUDP).data =
          shortBytes (s.queries.mQueryID + 1) ++ s.ipPacket.udpPayload.drop 2 ∧
        short s.ipPacket.mData 28 = short s.ipPacket.mData s.ipPacket.payloadOffset := by
  unfold ForwardedIntact
  rw [exec_process_query h]
  constructor
  · rintro ⟨flow, t, hexec, hsent, hqueries⟩
    cases hparse : dnsQuery s.ipPacket depth with
    | error e =>
      rw [hparse] at hexec
      cases hexec
    | ok result =>
      cases result with
      | none =>
        rw [hparse] at hexec
        cases hexec
        simp at hsent
      | some packet =>
        obtain ⟨-, -, -, hid⟩ := dnsQuery_some hparse
        rw [hparse] at hexec
        cases hexec
        refine ⟨packet, rfl, ?_, ?_⟩
        · have hone := List.singleton_inj.mp (List.append_cancel_left hsent)
          rw [hone]
        · have hmap := congrArg Queries.mQueryMap hqueries
          have hentry := congrFun hmap (s.queries.mQueryID + 1)
          simp only [Function.update_self, Option.some.injEq] at hentry
          rw [← hid]
          exact congrArg QueryState.ClientQueryID hentry
  · rintro ⟨packet, hparse, hdata, hsame⟩
    obtain ⟨-, -, -, hid⟩ := dnsQuery_some hparse
    have hstate : packet.queryState s.ipPacket.alignUDP = s.ipPacket.expectedState := by
      have hexpected : packet.queryState s.ipPacket.alignUDP =
          { s.ipPacket.expectedState with ClientQueryID := packet.Header.mID } := rfl
      rw [hexpected, hid, hsame]
      rfl
    have hremote : (packet.queryState s.ipPacket.alignUDP).RemotePort = 53 := h.destinationPort
    have hforwarded : packet.forwarded (s.queries.mQueryID + 1) s.ipPacket.alignUDP = {
        address := (s.ipPacket.getDestinationIP, 53)
        data := shortBytes (s.queries.mQueryID + 1) ++ s.ipPacket.udpPayload.drop 2 } := by
      rw [← hdata, ← hremote]
      rfl
    rw [hparse]
    refine ⟨_, _, rfl, ?_, ?_⟩
    · dsimp only
      rw [hforwarded]
    · dsimp only
      rw [hstate]

/-- The payload starts with its id. -/
theorem udpPayload_eq {p : IPPacket} (h : 2 ≤ (p.getDataLength - 8).toNat) :
    p.udpPayload = shortBytes (short p.mData p.payloadOffset) ++ p.udpPayload.drop 2 := by
  have htake : p.udpPayload.take 2 = shortBytes (short p.mData p.payloadOffset) := by
    rw [udpPayload, Bytes.take_slice _ _ h, slice_short]
  rw [← htake, List.take_append_drop]

/-- The bytes that are sent. -/
theorem forwarded_data {p : IPPacket} {packet : DNSPacket} (hheader : 20 ≤ p.getHeaderLength)
    (hlong : 2 ≤ (p.getDataLength - 8).toNat) (hparse : dnsQuery p depth = .ok (some packet)) (id : Short) :
    (packet.forwarded id p.alignUDP).data =
      if p.getHeaderLength = 20 then shortBytes id ++ p.udpPayload.drop 2 else p.udpPayload := by
  obtain ⟨hsize, -, hoffset, -⟩ := dnsQuery_some hparse
  have hdata : (packet.forwarded id p.alignUDP).data =
      (p.mData.write 28 (shortBytes id)).slice p.payloadOffset (p.getDataLength - 8).toNat := by
    rw [← hsize, ← hoffset]
    rfl
  rw [hdata]
  split
  next h20 =>
    have hstart : p.payloadOffset = 28 := by rw [payloadOffset, h20]
    have hsplit : (p.getDataLength - 8).toNat = 2 + ((p.getDataLength - 8).toNat - 2) := by omega
    have hrest : (p.mData.write 28 (shortBytes id)).slice 30 ((p.getDataLength - 8).toNat - 2) =
        p.udpPayload.drop 2 := by
      rw [udpPayload, hstart, Bytes.drop_slice _ _ hlong]
      exact Bytes.slice_congr _ fun k hk _ => cell_write_outside (.inr hk)
    rw [hstart, hsplit, Bytes.slice_add, slice_short, short_write_shortBytes, hrest]
  next h20 =>
    -- the header is a multiple of four, so the payload starts behind the id
    have hbehind : 28 + 2 ≤ p.payloadOffset := by
      unfold payloadOffset
      unfold getHeaderLength at hheader h20 ⊢
      omega
    exact Bytes.slice_congr _ fun k hk _ => cell_write_outside (.inr (Nat.le_trans hbehind hk))

/-- A query of a packet without IP options is forwarded intact, and one of a
packet with options only where its two readings happen to agree. -/
theorem forwarded_intact_iff (size : Nat) (localIP : Word) (depth fuel : Nat) (s : Vpn)
    (h : IsQuery localIP depth s.ipPacket) :
    ForwardedIntact size localIP depth fuel s ↔
      s.ipPacket.getHeaderLength = 20 ∨ MisreadAlike depth s := by
  obtain ⟨accepted, haccepted⟩ := h.accepted
  have hlong : 2 ≤ (s.ipPacket.getDataLength - 8).toNat :=
    Nat.le_trans (by decide) (payloadQuery_some haccepted)
  rw [forwardedIntact_iff_parsed h]
  by_cases h20 : s.ipPacket.getHeaderLength = 20
  · have hparse : dnsQuery s.ipPacket depth = .ok (some accepted) := by
      rw [← payloadQuery_eq h20, haccepted]
    refine iff_of_true ⟨accepted, hparse, ?_, ?_⟩ (.inl h20)
    · rw [forwarded_data h.header hlong hparse, if_pos h20]
    · rw [payloadOffset, h20]
  · -- the payload is sent as it is
    have hsent (packet : DNSPacket) (hparse : dnsQuery s.ipPacket depth = .ok (some packet)) :
        (packet.forwarded (s.queries.mQueryID + 1) s.ipPacket.alignUDP).data =
            shortBytes (s.queries.mQueryID + 1) ++ s.ipPacket.udpPayload.drop 2 ↔
          short s.ipPacket.mData s.ipPacket.payloadOffset = s.queries.mQueryID + 1 := by
      have hpayload := udpPayload_eq hlong
      rw [forwarded_data h.header hlong hparse, if_neg h20]
      generalize s.ipPacket.udpPayload.drop 2 = rest at hpayload ⊢
      rw [hpayload, List.append_left_inj, shortBytes_inj]
    rw [or_iff_right h20]
    constructor
    · rintro ⟨packet, hparse, hdata, hsame⟩
      have hid := (hsent packet hparse).mp hdata
      exact ⟨⟨packet, hparse⟩, hsame.trans hid, hid⟩
    · rintro ⟨⟨packet, hparse⟩, hfirst, hid⟩
      exact ⟨packet, hparse, (hsent packet hparse).mpr hid, hfirst.trans hid.symm⟩

end

/-- A query without questions, from 10.8.0.2:1000 to 8.8.8.8:53, behind an IP
header that starts with `start` and ends with `options`. -/
def sampleVpn (start options : List Byte) : Vpn where
  ipPacket := .ofData
    ⟨20000, (Bytes.ofList 0 (start ++ [0, 0, 0, 0, 64, 17, 0, 0, 10, 8, 0, 2, 8, 8, 8, 8] ++ options ++
      [3, 232, 0, 53, 0, 20, 0, 0] ++ [0, 7, 1, 0, 0, 0, 0, 0, 0, 0, 0, 0])).cell⟩
    IPPacket.size_le_mtu
  mLocalServicePort := 2000
  mSessionMap _ := none
  queries := ⟨0, fun _ => none⟩
  sent := []

theorem plainQuery_forwarded :
    ForwardedIntact 40 0x0A080002 1 0 (sampleVpn [0x45, 0, 0, 40] []) := by
  have hquery : IsQuery 0x0A080002 1 (sampleVpn [0x45, 0, 0, 40] []).ipPacket :=
    ⟨by decide, by decide, by decide, by decide, by decide, by decide, ⟨_, rfl⟩⟩
  exact (forwarded_intact_iff 40 0x0A080002 1 0 _ hquery).mpr (.inl rfl)

/-- With four bytes of options nothing is sent. -/
theorem optionsQuery_lost : ¬ ∀ size localIP depth fuel s, IsQuery localIP depth s.ipPacket →
    ForwardedIntact size localIP depth fuel s := by
  intro h
  have hquery : IsQuery 0x0A080002 1 (sampleVpn [0x46, 0, 0, 44] [1, 1, 1, 1]).ipPacket :=
    ⟨by decide, by decide, by decide, by decide, by decide, by decide, ⟨_, rfl⟩⟩
  obtain ⟨-, -, -, hsame⟩ :=
    (forwardedIntact_iff_parsed hquery).mp (h 44 0x0A080002 1 0 _ hquery)
  exact absurd hsame (by decide)

end SmartSocks.TcpIp
