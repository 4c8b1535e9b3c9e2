import SmartSocks.Dns.DNSPacket
import SmartSocks.TcpIp.IPPacket
import SmartSocks.Library.IdTable

/-!
# `processRequest` and `processResponse`

The map of pending queries is static: the VPN thread adds a query when it
forwards it under the next id, and the DNS thread removes it when a datagram
carries its id. Each side works on its own packet array. What is sent and
written is kept in the order in which it went out; a socket or a tun device
that fails is not modelled, it ends the VPN thread.
-/

namespace SmartSocks.Dns

open Jvm EasyValue TcpIp

structure QueryState where
  ClientQueryID : Short
  ClientIP : Word
  ClientPort : Short
  RemoteIP : Word
  RemotePort : Short
  deriving DecidableEq

structure Queries where
  mQueryID : Short
  mQueryMap : Short → Option QueryState

/-- `DatagramPacket` with its socket address. -/
structure Datagram where
  address : Word × Short
  data : List Byte

/-- What the VPN thread works on. -/
structure Requests where
  ipPacket : IPPacket
  queries : Queries
  sent : List Datagram

/-- What the DNS thread works on. -/
structure Responses where
  ipPacket : IPPacket
  queries : Queries
  written : List (List Byte)

namespace DNSPacket

/-- The `QueryState` that is stored for a packet. -/
def queryState (packet : DNSPacket) (ipPacket : IPPacket) : QueryState where
  ClientQueryID := packet.Header.mID
  ClientIP := ipPacket.getSourceIP
  ClientPort := IPPacket.UDPPacket.getSourcePort ipPacket
  RemoteIP := ipPacket.getDestinationIP
  RemotePort := IPPacket.UDPPacket.getDestinationPort ipPacket

/-- `Header.setID`, in the array that the header shares. -/
def setID (packet : DNSPacket) (value : Short) (ipPacket : IPPacket) : IPPacket :=
  ipPacket.write packet.Header.mOffset (shortBytes value)

def processRequest (packet : DNSPacket) : Prog Requests Unit := do
  let state := packet.queryState (← get).ipPacket
  modify fun s => { s with queries := { s.queries with mQueryID := s.queries.mQueryID + 1 } }
  let mQueryID := (← get).queries.mQueryID
  modify fun s => { s with ipPacket := packet.setID mQueryID s.ipPacket }
  modify fun s => { s with
    queries := { s.queries with
      mQueryMap := Function.update s.queries.mQueryMap mQueryID (some state) } }
  -- `InetSocketAddress` takes the port as a signed short
  if state.RemotePort.toInt < 0 then
    throw .illegalArgument
  let ipPacket := (← get).ipPacket
  let offset := ipPacket.udpOffset + 8
  if ipPacket.mData.size < offset + packet.Size then
    throw .illegalArgument
  let data := ipPacket.mData.slice offset packet.Size
  modify fun s => { s with sent := s.sent ++ [⟨(state.RemoteIP, state.RemotePort), data⟩] }

/-- The header fields of a response to a pending query. -/
def addressResponse (packet : DNSPacket) (state : QueryState) (ipPacket : IPPacket) : IPPacket :=
  let p := packet.setID state.ClientQueryID ipPacket
  let p := p.setSourceIP state.RemoteIP
  let p := p.setDestinationIP state.ClientIP
  let p := p.setProtocol IPPacket.UDP
  let p := p.setTotalLength (20 + 8 + packet.Size)
  let p := IPPacket.UDPPacket.setSourcePort p state.RemotePort
  let p := IPPacket.UDPPacket.setDestinationPort p state.ClientPort
  IPPacket.UDPPacket.setTotalLength p (8 + packet.Size)

/-- `SSVpnService.write(mData, getTotalLength(), 0)` -/
def writeVpn : Prog Responses Unit := do
  let p := (← get).ipPacket
  if p.getTotalLength < 0 ∨ p.mData.size < p.getTotalLength then
    throw .indexOutOfBounds
  modify fun s => { s with written := s.written ++ [p.mData.slice 0 p.getTotalLength.toNat] }

def processResponse (packet : DNSPacket) : Prog Responses Unit := do
  let state := (← get).queries.mQueryMap packet.Header.mID
  modify fun s => { s with
    queries := { s.queries with
      mQueryMap := Function.update s.queries.mQueryMap packet.Header.mID none } }
  match state with
  | none => return ()
  | some state =>
    modify fun s => { s with ipPacket := packet.addressResponse state s.ipPacket }
    let ipPacket ← Prog.lift (← get).ipPacket.setupResponseUDPIPHeader
    modify fun s => { s with ipPacket := ipPacket }
    writeVpn

end DNSPacket

-- ---------------------------------------------------------------------------
-- What the two sides do
-- ---------------------------------------------------------------------------

/-- The pending queries as a table under a wrapping 16-bit counter. -/
def Queries.table (q : Queries) : IdTable 16 QueryState := ⟨q.mQueryID, q.mQueryMap⟩

/-- Of the packet only the id is changed. -/
theorem ipPacket_processRequest (packet : DNSPacket) (r : Requests) :
    (packet.processRequest.exec r).2.ipPacket = packet.setID (r.queries.mQueryID + 1) r.ipPacket := by
  simp only [DNSPacket.processRequest, Prog.exec_bind, Prog.exec_get, Prog.exec_modify]
  split
  · rfl
  · simp only [Prog.exec_bind, Prog.exec_get]
    split <;> rfl

/-- The datagram that forwards a request under an id. -/
def DNSPacket.forwarded (packet : DNSPacket) (id : Short) (ipPacket : IPPacket) : Datagram where
  address := ((packet.queryState ipPacket).RemoteIP, (packet.queryState ipPacket).RemotePort)
  data := (packet.setID id ipPacket).mData.slice (ipPacket.udpOffset + 8) packet.Size

/-- A request to a port that is not negative is sent under the next id. -/
theorem exec_processRequest (packet : DNSPacket) (r : Requests)
    (hport : 0 ≤ (packet.queryState r.ipPacket).RemotePort.toInt) (hsize : packet.Size ≤ 512) :
    packet.processRequest.exec r = (.ok (), {
      ipPacket := packet.setID (r.queries.mQueryID + 1) r.ipPacket
      queries := ⟨r.queries.mQueryID + 1, Function.update r.queries.mQueryMap
        (r.queries.mQueryID + 1) (some (packet.queryState r.ipPacket))⟩
      sent := r.sent ++ [packet.forwarded (r.queries.mQueryID + 1) r.ipPacket] }) := by
  have hfit : ¬ (packet.setID (r.queries.mQueryID + 1) r.ipPacket).mData.size <
      (packet.setID (r.queries.mQueryID + 1) r.ipPacket).udpOffset + 8 + packet.Size := by
    have hroom := (packet.setID (r.queries.mQueryID + 1) r.ipPacket).size_ge
    have hoffset := (packet.setID (r.queries.mQueryID + 1) r.ipPacket).udpOffset_le
    omega
  simp only [DNSPacket.processRequest, Prog.exec_bind, Prog.exec_get, Prog.exec_modify,
    if_neg (Int.not_lt.mpr hport), if_neg hfit]
  rfl

/-- The packet of `w` answers a query: it goes from the server that was asked
to the client, under the id that the client gave. -/
structure IsAnswer (state : QueryState) (w : List Byte) : Prop where
  protocol : (Bytes.ofList 0 w).cell 9 = IPPacket.UDP
  sourceIP : int (Bytes.ofList 0 w) 12 = state.RemoteIP
  destinationIP : int (Bytes.ofList 0 w) 16 = state.ClientIP
  sourcePort : short (Bytes.ofList 0 w) 20 = state.RemotePort
  destinationPort : short (Bytes.ofList 0 w) 22 = state.ClientPort
  id : short (Bytes.ofList 0 w) 28 = state.ClientQueryID

theorem exec_processResponse_unknown (packet : DNSPacket) (r : Responses)
    (h : r.queries.mQueryMap packet.Header.mID = none) :
    packet.processResponse.exec r = (.ok (), { r with
      queries := ⟨r.queries.mQueryID, Function.update r.queries.mQueryMap packet.Header.mID none⟩ }) := by
  simp only [DNSPacket.processResponse, Prog.exec_bind, Prog.exec_get, Prog.exec_modify, h,
    Prog.exec_pure]

/-- The receive packet of the DNS thread: its header has no options, and its
UDP header is where it was set up. -/
structure Plain (p : IPPacket) : Prop where
  header : p.mData.cell 0 &&& 0x0F = 5
  udpOffset : p.udpOffset = 20

/-- The array of a response, before the checksums. -/
theorem addressResponse_mData (packet : DNSPacket) (state : QueryState) {p : IPPacket}
    (hudp : p.udpOffset = 20) (hoffset : packet.Header.mOffset = 28) :
    (packet.addressResponse state p).mData = ((((((((p.mData.write 28
      (shortBytes state.ClientQueryID)).write 12
      (intBytes state.RemoteIP)).write 16 (intBytes state.ClientIP)).write 9 [IPPacket.UDP]).write 2
      (shortBytes (BitVec.ofInt 16 (20 + 8 + packet.Size)))).write 20
      (shortBytes state.RemotePort)).write 22 (shortBytes state.ClientPort)).write 24
      (shortBytes (BitVec.ofInt 16 (8 + packet.Size)))) := by
  simp only [DNSPacket.addressResponse, DNSPacket.setID, IPPacket.setSourceIP,
    IPPacket.setDestinationIP, IPPacket.setProtocol, IPPacket.setTotalLength,
    IPPacket.UDPPacket.setSourcePort, IPPacket.UDPPacket.setDestinationPort,
    IPPacket.UDPPacket.setTotalLength, IPPacket.write_udpOffset, IPPacket.write_mData, hudp, hoffset]

/-- The fields that a response is given, before the checksums. -/
theorem addressResponse_fields (packet : DNSPacket) (state : QueryState) {p : IPPacket}
    (hp : Plain p) (hoffset : packet.Header.mOffset = 28) (hsize : packet.Size ≤ 512) :
    let q := packet.addressResponse state p
    Plain q ∧ q.getTotalLength = 28 + packet.Size ∧ q.mData.cell 9 = IPPacket.UDP ∧
      int q.mData 12 = state.RemoteIP ∧ int q.mData 16 = state.ClientIP ∧
      short q.mData 20 = state.RemotePort ∧ short q.mData 22 = state.ClientPort ∧
      short q.mData 28 = state.ClientQueryID := by
  obtain ⟨hheader, hudp⟩ := hp
  have hlen : (BitVec.ofInt 16 (20 + 8 + packet.Size : Int)).toInt = 28 + packet.Size := by
    rw [BitVec.toInt_ofInt, Int.bmod_eq_of_le]
    · omega
    · omega
    · omega
  have hmask : ∀ x : Short, x &&& 0xFFFF = x := fun x => BitVec.and_allOnes
  intro q
  have hq : q.mData = _ := addressResponse_mData packet state hudp hoffset
  refine ⟨⟨?_, hudp⟩, ?_, ?_, ?_, ?_, ?_, ?_, ?_⟩
  · rw [hq]
    simp (disch := simp) only [cell_write_outside]
    exact hheader
  · rw [IPPacket.getTotalLength, hmask, hq]
    simp (disch := simp) only [short_write_outside, short_write_shortBytes]
    exact hlen
  · rw [hq]
    simp (disch := simp) only [cell_write_outside]
    have hone : 0 < [IPPacket.UDP].length := Nat.one_pos
    exact Bytes.write_cell_add _ hone
  · rw [hq]
    simp (disch := simp) only [int_write_outside, int_write_intBytes]
  · rw [hq]
    simp (disch := simp) only [int_write_outside, int_write_intBytes]
  · rw [hq]
    simp (disch := simp) only [short_write_outside, short_write_shortBytes]
  · rw [hq]
    simp (disch := simp) only [short_write_outside, short_write_shortBytes]
  · rw [hq]
    simp (disch := simp) only [short_write_outside, short_write_shortBytes]

theorem ofList_slice_cell (a : Bytes Byte) {k len : Nat} (h : k < len) :
    (Bytes.ofList 0 (a.slice 0 len)).cell k = a.cell k := by
  have hk : k < (a.slice 0 len).length := by rwa [Bytes.length_slice]
  simp only [Bytes.ofList, List.getD_eq_getElem?_getD, List.getElem?_eq_getElem hk,
    Option.getD_some, Bytes.getElem_slice, Nat.zero_add]

theorem short_ofList_slice (a : Bytes Byte) {k len : Nat} (h : k + 1 < len) :
    short (Bytes.ofList 0 (a.slice 0 len)) k = short a k := by
  unfold short
  rw [ofList_slice_cell a (Nat.lt_of_succ_lt h), ofList_slice_cell a h]

theorem int_ofList_slice (a : Bytes Byte) {k len : Nat} (h : k + 3 < len) :
    int (Bytes.ofList 0 (a.slice 0 len)) k = int a k := by
  unfold int
  rw [ofList_slice_cell a (by omega), ofList_slice_cell a (by omega), ofList_slice_cell a (by omega),
    ofList_slice_cell a h]

/-- The packet that is written once its checksums are filled in. -/
theorem exec_processResponse_written {packet : DNSPacket} {r : Responses} {state : QueryState}
    {p : IPPacket} (hstate : r.queries.mQueryMap packet.Header.mID = some state)
    (hsetup : (packet.addressResponse state r.ipPacket).setupResponseUDPIPHeader = .ok p)
    (hlen : p.getTotalLength = 28 + packet.Size) (hmax : packet.Size ≤ 512) :
    packet.processResponse.exec r = (.ok (), {
      ipPacket := p
      queries := ⟨r.queries.mQueryID, Function.update r.queries.mQueryMap packet.Header.mID none⟩
      written := r.written ++ [p.mData.slice 0 (28 + packet.Size)] }) := by
  have hwrite : ¬ (p.getTotalLength < 0 ∨ p.mData.size < p.getTotalLength) := by
    have hroom := p.size_ge
    rw [hlen]
    omega
  have htotal : p.getTotalLength.toNat = 28 + packet.Size := by
    rw [hlen]
    omega
  simp only [DNSPacket.processResponse, Prog.exec_bind, Prog.exec_get, Prog.exec_modify, hstate,
    hsetup, Prog.exec_lift, DNSPacket.writeVpn, if_neg hwrite, htotal]

/-- A pending query is answered with one packet that is written. -/
theorem exec_processResponse_pending {packet : DNSPacket} {r : Responses} {state : QueryState}
    (hstate : r.queries.mQueryMap packet.Header.mID = some state) (hp : Plain r.ipPacket)
    (hoffset : packet.Header.mOffset = 28) (hmin : 12 ≤ packet.Size) (hmax : packet.Size ≤ 512) :
    ∃ ipPacket w, Plain ipPacket ∧ IsAnswer state w ∧ packet.processResponse.exec r = (.ok (), {
      ipPacket := ipPacket
      queries := ⟨r.queries.mQueryID, Function.update r.queries.mQueryMap packet.Header.mID none⟩
      written := r.written ++ [w] }) := by
  have hfields := addressResponse_fields packet state hp hoffset hmax
  obtain ⟨q, hq⟩ : ∃ q, packet.addressResponse state r.ipPacket = q := ⟨_, rfl⟩
  rw [hq] at hfields
  obtain ⟨hplain, hlen, hproto, hsrc, hdst, hsport, hdport, hid⟩ := hfields
  have hheader : q.getHeaderLength = 20 := by rw [IPPacket.getHeaderLength, hplain.header]; rfl
  have hfit : q.getDataLength ≤ 0 ∨ q.udpOffset + q.getDataLength ≤ q.mData.size := by
    have hroom := q.size_ge
    rw [IPPacket.getDataLength, hlen, hheader, hplain.udpOffset]
    omega
  -- the checksums are at 10 and 26, away from the fields
  have hsum : ∃ r, q.udpChecksum = .ok r ∧ IPPacket.EqExcept 10 (q.udpOffset + 6) q r.2 :=
    IPPacket.updateChecksums_ok hfit
  rw [hplain.udpOffset] at hsum
  obtain ⟨⟨good, p⟩, hsum, heq⟩ := hsum
  have hcell : ∀ k, k < 10 → p.mData.cell k = q.mData.cell k :=
    fun k hk => heq.cell k (.inl hk) (.inl (by omega))
  have hlen' : p.getTotalLength = 28 + packet.Size := by
    rw [← hlen, IPPacket.getTotalLength, IPPacket.getTotalLength,
      heq.short (.inl (by decide)) (.inl (by decide))]
  refine ⟨p, p.mData.slice 0 (28 + packet.Size), ⟨?_, ?_⟩, ⟨?_, ?_, ?_, ?_, ?_, ?_⟩, ?_⟩
  · rw [hcell 0 (by decide)]
    exact hplain.header
  · exact heq.udpOffset.trans hplain.udpOffset
  · rw [ofList_slice_cell _ (by omega), hcell 9 (by decide)]
    exact hproto
  · rw [int_ofList_slice _ (by omega), heq.int (.inr (by decide)) (.inl (by decide))]
    exact hsrc
  · rw [int_ofList_slice _ (by omega), heq.int (.inr (by decide)) (.inl (by decide))]
    exact hdst
  · rw [short_ofList_slice _ (by omega), heq.short (.inr (by decide)) (.inl (by decide))]
    exact hsport
  · rw [short_ofList_slice _ (by omega), heq.short (.inr (by decide)) (.inl (by decide))]
    exact hdport
  · rw [short_ofList_slice _ (by omega), heq.short (.inr (by decide)) (.inr (by decide))]
    exact hid
  · refine exec_processResponse_written hstate ?_ hlen' hmax
    rw [hq, IPPacket.setupResponseUDPIPHeader, hsum]
    rfl

end SmartSocks.Dns
