import SmartSocks.Sslocal.Answers
import SmartSocks.TcpIp.ValidPackets

/-!
# The packet of an answer

The receive packet is set up once. A response overwrites its lengths, addresses,
ports, id and checksums and nothing else, so the fields of `setDefault` are an
invariant of the runs and each answer is a whole UDP packet around the datagram
that was received (`answer_valid`).
-/

namespace SmartSocks.Sslocal

open Jvm EasyValue TcpIp Dns UDPProxyServer

-- ---------------------------------------------------------------------------
-- The packet as bytes
-- ---------------------------------------------------------------------------

section
variable (state : QueryState) (n : Nat)

/-- An IP header without options, for a datagram of `n` bytes. -/
def ipHeader (crc : Short) : List Byte :=
  [0x45, 0] ++ shortBytes (BitVec.ofNat 16 (28 + n)) ++ shortBytes 0 ++ shortBytes 0 ++ [64, 17] ++
    shortBytes crc ++ intBytes state.RemoteIP ++ intBytes state.ClientIP

def udpHeader (crc : Short) : List Byte :=
  shortBytes state.RemotePort ++ shortBytes state.ClientPort ++ shortBytes (BitVec.ofNat 16 (8 + n)) ++
    shortBytes crc

def udpPseudoHeader : List Byte :=
  intBytes state.RemoteIP ++ intBytes state.ClientIP ++ [0, 17] ++ shortBytes (BitVec.ofNat 16 (8 + n))

end

/-- `w` is a UDP packet from the server that was asked to the client, with both
checksums right, around the datagram `payload` under the id of the client. -/
structure ValidAnswer (state : QueryState) (payload w : List Byte) : Prop where
  size : 12 ≤ payload.length ∧ payload.length ≤ 512
  packet : ∃ crc udpCrc,
    w = ipHeader state payload.length crc ++ udpHeader state payload.length udpCrc ++
      shortBytes state.ClientQueryID ++ payload.drop 2 ∧
    SumsToOnes (ipHeader state payload.length crc) ∧
    SumsToOnes (udpPseudoHeader state payload.length ++ udpHeader state payload.length udpCrc ++
      shortBytes state.ClientQueryID ++ payload.drop 2)

-- ---------------------------------------------------------------------------
-- The receive packet
-- ---------------------------------------------------------------------------

/-- What stays of `setDefault`. -/
structure Preset (p : IPPacket) : Prop where
  udpOffset : p.udpOffset = 20
  version : p.mData.cell 0 = 0x45
  tos : p.mData.cell 1 = 0
  identification : short p.mData 4 = 0
  flagsAndOffset : short p.mData 6 = 0
  ttl : p.mData.cell 8 = 64

theorem Preset.plain {p : IPPacket} (h : Preset p) : Plain p := by
  refine ⟨?_, h.udpOffset⟩
  rw [h.version]
  decide

theorem preset_initial : Preset initial.ipPacket := by
  have hdata : initial.ipPacket.mData = (((((((⟨2000, fun _ => 0⟩ : Bytes Byte).write 0 [0x45]).write 1
      [0]).write 2 (shortBytes 0)).write 4 (shortBytes 0)).write 6 (shortBytes 0)).write 8 [64]) := rfl
  refine ⟨rfl, ?_, ?_, ?_, ?_, ?_⟩ <;> rw [hdata]
  all_goals decide

/-- A write that keeps off the preset fields. -/
theorem Preset.write {p : IPPacket} (h : Preset p) {offset : Nat} {xs : List Byte}
    (hoff : 2 ≤ offset ∧ offset + xs.length ≤ 4 ∨ 9 ≤ offset) : Preset (p.write offset xs) := by
  have hcell (k : Nat) (hk : k < 2 ∨ 4 ≤ k ∧ k < 9) :
      (p.mData.write offset xs).cell k = p.mData.cell k := cell_write_outside (by omega)
  have hshort (k : Nat) (hk : k = 4 ∨ k = 6) : short (p.mData.write offset xs) k = short p.mData k :=
    short_write_outside (by omega)
  refine ⟨h.udpOffset, ?_, ?_, ?_, ?_, ?_⟩
  · exact (hcell 0 (by decide)).trans h.version
  · exact (hcell 1 (by decide)).trans h.tos
  · exact (hshort 4 (by decide)).trans h.identification
  · exact (hshort 6 (by decide)).trans h.flagsAndOffset
  · exact (hcell 8 (by decide)).trans h.ttl

theorem Preset.receive {p : IPPacket} (h : Preset p) (payload : List Byte) :
    Preset (receive payload p) := h.write (.inr (by decide))

theorem Preset.addressResponse {p : IPPacket} (h : Preset p) (packet : DNSPacket) (state : QueryState)
    (hoffset : packet.Header.mOffset = 28) : Preset (packet.addressResponse state p) := by
  have hudp : 9 ≤ p.udpOffset := by
    rw [h.udpOffset]
    decide
  have hid : 9 ≤ packet.Header.mOffset := by
    rw [hoffset]
    decide
  have hlength (value : Short) : 2 + (shortBytes value).length ≤ 4 := Nat.le_refl 4
  refine Preset.write ?_ (.inr (Nat.le_add_right_of_le hudp))
  refine Preset.write ?_ (.inr (Nat.le_add_right_of_le hudp))
  refine Preset.write ?_ (.inr hudp)
  refine Preset.write ?_ (.inl ⟨Nat.le_refl 2, hlength _⟩)
  refine Preset.write ?_ (.inr (Nat.le_refl 9))
  refine Preset.write ?_ (.inr (by decide))
  refine Preset.write ?_ (.inr (by decide))
  exact h.write (.inr hid)

theorem Preset.checksums {p q : IPPacket} (h : Preset p) (heq : IPPacket.EqExcept 10 26 p q) :
    Preset q where
  udpOffset := heq.udpOffset.trans h.udpOffset
  version := (heq.cell 0 (.inl (by decide)) (.inl (by decide))).trans h.version
  tos := (heq.cell 1 (.inl (by decide)) (.inl (by decide))).trans h.tos
  identification := (heq.short (.inl (by decide)) (.inl (by decide))).trans h.identification
  flagsAndOffset := (heq.short (.inl (by decide)) (.inl (by decide))).trans h.flagsAndOffset
  ttl := (heq.cell 8 (.inl (by decide)) (.inl (by decide))).trans h.ttl

-- ---------------------------------------------------------------------------
-- One answer
-- ---------------------------------------------------------------------------

/-- The fields of a response, with its lengths as the bytes that are written. -/
structure Addressed (state : QueryState) (n : Nat) (p : IPPacket) : Prop where
  preset : Preset p
  totalLength : short p.mData 2 = BitVec.ofNat 16 (28 + n)
  protocol : p.mData.cell 9 = IPPacket.UDP
  sourceIP : int p.mData 12 = state.RemoteIP
  destinationIP : int p.mData 16 = state.ClientIP
  sourcePort : short p.mData 20 = state.RemotePort
  destinationPort : short p.mData 22 = state.ClientPort
  udpLength : short p.mData 24 = BitVec.ofNat 16 (8 + n)
  id : short p.mData 28 = state.ClientQueryID

section
variable {state : QueryState} {n : Nat} {p q : IPPacket}

theorem Addressed.checksums (h : Addressed state n p) (heq : IPPacket.EqExcept 10 26 p q) :
    Addressed state n q where
  preset := h.preset.checksums heq
  totalLength := (heq.short (.inl (by decide)) (.inl (by decide))).trans h.totalLength
  protocol := (heq.cell 9 (.inl (by decide)) (.inl (by decide))).trans h.protocol
  sourceIP := (heq.int (.inr (by decide)) (.inl (by decide))).trans h.sourceIP
  destinationIP := (heq.int (.inr (by decide)) (.inl (by decide))).trans h.destinationIP
  sourcePort := (heq.short (.inr (by decide)) (.inl (by decide))).trans h.sourcePort
  destinationPort := (heq.short (.inr (by decide)) (.inl (by decide))).trans h.destinationPort
  udpLength := (heq.short (.inr (by decide)) (.inl (by decide))).trans h.udpLength
  id := (heq.short (.inr (by decide)) (.inr (by decide))).trans h.id

theorem addressed_addressResponse (packet : DNSPacket) (state : QueryState) (hp : Preset p)
    (hoffset : packet.Header.mOffset = 28) (hsize : packet.Size ≤ 512) :
    Addressed state packet.Size (packet.addressResponse state p) := by
  obtain ⟨-, -, hprotocol, hsrc, hdst, hsport, hdport, hid⟩ :=
    addressResponse_fields packet state hp.plain hoffset hsize
  have hdata := addressResponse_mData packet state hp.udpOffset hoffset
  have hof (m : Nat) : BitVec.ofInt 16 (m : Int) = BitVec.ofNat 16 m := BitVec.ofInt_natCast 16 m
  refine ⟨hp.addressResponse packet state hoffset, ?_, hprotocol, hsrc, hdst, hsport, hdport, ?_, hid⟩
  · rw [hdata]
    simp (disch := simp) only [short_write_outside, short_write_shortBytes]
    exact hof (28 + packet.Size)
  · rw [hdata, short_write_shortBytes]
    exact hof (8 + packet.Size)

/-- The IP header in the array. -/
theorem Addressed.ipHeader_eq (h : Addressed state n p) :
    p.mData.slice 0 20 = ipHeader state n (short p.mData 10) := by
  have hparts : p.mData.slice 0 20 = p.mData.slice 0 2 ++ p.mData.slice 2 2 ++ p.mData.slice 4 2 ++
      p.mData.slice 6 2 ++ p.mData.slice 8 2 ++ p.mData.slice 10 2 ++ p.mData.slice 12 4 ++
      p.mData.slice 16 4 := rfl
  have hfirst : p.mData.slice 0 2 = [p.mData.cell 0, p.mData.cell 1] := rfl
  have httl : p.mData.slice 8 2 = [p.mData.cell 8, p.mData.cell 9] := rfl
  rw [hparts, hfirst, httl, h.preset.version, h.preset.tos, h.preset.ttl, h.protocol]
  simp only [slice_short, slice_int, h.totalLength, h.preset.identification, h.preset.flagsAndOffset,
    h.sourceIP, h.destinationIP]
  rfl

theorem Addressed.udpHeader_eq (h : Addressed state n p) :
    p.mData.slice 20 8 = udpHeader state n (short p.mData 26) := by
  have hparts : p.mData.slice 20 8 = p.mData.slice 20 2 ++ p.mData.slice 22 2 ++ p.mData.slice 24 2 ++
      p.mData.slice 26 2 := rfl
  rw [hparts]
  simp only [slice_short, h.sourcePort, h.destinationPort, h.udpLength]
  rfl

theorem Addressed.lengths (h : Addressed state n p) (hn : n ≤ 512) :
    p.getHeaderLength = 20 ∧ p.getTotalLength = 28 + n ∧ p.getDataLength = 8 + n := by
  have hheader : p.getHeaderLength = 20 := by
    rw [IPPacket.getHeaderLength, h.preset.version]
    rfl
  have htotal : p.getTotalLength = 28 + n := by
    have hmask (x : Short) : x &&& 0xFFFF = x := BitVec.and_allOnes
    rw [IPPacket.getTotalLength, hmask, h.totalLength, ← BitVec.ofInt_natCast, BitVec.toInt_ofInt, Int.bmod_eq_of_le]
    · omega
    · omega
    · omega
  refine ⟨hheader, htotal, ?_⟩
  rw [IPPacket.getDataLength, hheader, htotal]
  omega

end

/-- Where a pending query is answered, what is written is valid. -/
theorem exec_processResponse_valid {packet : DNSPacket} {r : Responses} {state : QueryState}
    {payload : List Byte} (hstate : r.queries.mQueryMap packet.Header.mID = some state)
    (hp : Preset r.ipPacket) (hoffset : packet.Header.mOffset = 28) (hsize : packet.Size = payload.length)
    (hmin : 12 ≤ payload.length) (hmax : payload.length ≤ 512)
    (hpayload : r.ipPacket.mData.slice 28 payload.length = payload) :
    ∃ ipPacket w, Preset ipPacket ∧ ipPacket.mData.size = r.ipPacket.mData.size ∧
      ValidAnswer state payload w ∧ packet.processResponse.exec r = (.ok (), {
      ipPacket := ipPacket
      queries := ⟨r.queries.mQueryID, Function.update r.queries.mQueryMap packet.Header.mID none⟩
      written := r.written ++ [w] }) := by
  have haddressed := addressed_addressResponse packet state hp hoffset (hsize ▸ hmax)
  have hrest : (packet.addressResponse state r.ipPacket).mData.slice 30 (payload.length - 2) =
      payload.drop 2 := by
    have hdrop : r.ipPacket.mData.slice 30 (payload.length - 2) = payload.drop 2 := by
      rw [← hpayload, Bytes.drop_slice _ _ (Nat.le_trans (by decide) hmin), Bytes.length_slice]
    rw [← hdrop, addressResponse_mData packet state hp.udpOffset hoffset]
    refine Bytes.slice_congr _ fun k hk _ => ?_
    have hk (m : Nat) (xs : List Byte) (hm : m + xs.length ≤ 30) : m + xs.length ≤ k := by omega
    simp (disch := exact .inr (hk _ _ (by simp))) only [cell_write_outside]
  have hsize' : (packet.addressResponse state r.ipPacket).mData.size = r.ipPacket.mData.size := rfl
  generalize hq : packet.addressResponse state r.ipPacket = q at haddressed hrest hsize'
  rw [hsize] at haddressed
  obtain ⟨hheader, htotal, hdata⟩ := haddressed.lengths hmax
  obtain ⟨⟨right, p⟩, hsum, hok, heq⟩ := udpChecksum_valid (p := q)
    (haddressed.preset.udpOffset.trans hheader.symm) (Nat.le_of_eq hheader.symm) (by omega)
    (by have hroom := q.size_ge; omega)
  rw [hheader] at heq
  have haddressed' : Addressed state payload.length p := haddressed.checksums heq
  obtain ⟨hheader', htotal', hdata'⟩ := haddressed'.lengths hmax
  have hbody : p.mData.slice 28 payload.length = shortBytes state.ClientQueryID ++ payload.drop 2 := by
    have hsplit : payload.length = 2 + (payload.length - 2) := by omega
    have hrest' : p.mData.slice 30 (payload.length - 2) = payload.drop 2 := by
      rw [← hrest]
      exact Bytes.slice_congr _ fun k hk _ => heq.cell k (.inr (by omega)) (.inr (by omega))
    rw [hsplit, Bytes.slice_add, slice_short, haddressed'.id, hrest']
  have hsegment : p.mData.slice 20 (8 + payload.length) =
      udpHeader state payload.length (short p.mData 26) ++
        (shortBytes state.ClientQueryID ++ payload.drop 2) := by
    rw [Bytes.slice_add, haddressed'.udpHeader_eq, hbody]
  have hwritten : p.mData.slice 0 (28 + packet.Size) =
      ipHeader state payload.length (short p.mData 10) ++
        (udpHeader state payload.length (short p.mData 26) ++
          (shortBytes state.ClientQueryID ++ payload.drop 2)) := by
    have hsplit : 28 + packet.Size = 20 + (8 + payload.length) := by omega
    rw [hsplit, Bytes.slice_add, haddressed'.ipHeader_eq, hsegment]
  refine ⟨p, _, haddressed'.preset, heq.size.trans hsize',
    ⟨⟨hmin, hmax⟩, short p.mData 10, short p.mData 26, ?_, ?_, ?_⟩,
    exec_processResponse_written hstate ?_ (by rw [htotal', hsize]) (hsize ▸ hmax)⟩
  · simpa only [List.append_assoc] using hwritten
  · rw [← haddressed'.ipHeader_eq, ← hheader']
    exact hok.header
  · have hpseudo : p.pseudoHeader = udpPseudoHeader state payload.length := by
      have haddresses : p.mData.slice 12 8 = intBytes state.RemoteIP ++ intBytes state.ClientIP := by
        rw [← haddressed'.sourceIP, ← haddressed'.destinationIP, ← slice_int, ← slice_int,
          ← Bytes.slice_add]
      have hlength : BitVec.ofInt 16 p.getDataLength = BitVec.ofNat 16 (8 + payload.length) := by
        rw [hdata']
        exact BitVec.ofInt_natCast 16 (8 + payload.length)
      rw [IPPacket.pseudoHeader, haddresses, hlength, IPPacket.getProtocol, haddressed'.protocol]
      rfl
    have hbytes : p.segmentBytes = p.mData.slice 20 (8 + payload.length) := by
      rw [IPPacket.segmentBytes, hheader', hdata']
      rfl
    have hsegmentSum := hok.segment
    rw [hpseudo, hbytes, hsegment] at hsegmentSum
    simpa only [List.append_assoc] using hsegmentSum
  · rw [hq, IPPacket.setupResponseUDPIPHeader, hsum]
    rfl

-- ---------------------------------------------------------------------------
-- Runs
-- ---------------------------------------------------------------------------

section
variable {depth : Nat} {s t : Proxy} {source : Word × Short} {payload : List Byte}

/-- A datagram that is parsed is received whole. -/
theorem receive_parsed {packet : DNSPacket} (hparse : parse depth payload s.ipPacket = .ok (some packet)) :
    (receive payload s.ipPacket).mData = s.ipPacket.mData.write 28 payload := by
  obtain ⟨-, hmax, -⟩ := parse_some hparse
  rw [(parse_payload hparse).1] at hmax
  have hroom := s.ipPacket.size_ge
  have hwhole : payload.take (s.ipPacket.mData.size - 28) = payload :=
    List.take_of_length_le (by omega)
  rw [receive, hwhole]
  rfl

/-- The id in its first two bytes. -/
theorem parse_key {packet : DNSPacket} (hparse : parse depth payload s.ipPacket = .ok (some packet)) :
    packet.Header.mID = short (Bytes.ofList 0 payload) 0 := by
  obtain ⟨hmin, -⟩ := parse_some hparse
  obtain ⟨hsize, hid⟩ := parse_payload hparse
  rw [hsize] at hmin
  have hcell (k : Nat) (hk : k < payload.length) :
      (s.ipPacket.mData.write 28 payload).cell (28 + k) = (Bytes.ofList 0 payload).cell k := by
    rw [Bytes.write_cell_add _ hk]
    simp [Bytes.ofList, hk]
  rw [hid, receive_parsed hparse, short_eq_append, short_eq_append, hcell 0 (by omega), hcell 1 (by omega)]

/-- A valid packet is written for a datagram of a pending query. -/
theorem step_datagram_pending {packet : DNSPacket} {state : QueryState} (hp : Preset s.ipPacket)
    (hparse : parse depth payload s.ipPacket = .ok (some packet))
    (hstate : s.queries.mQueryMap packet.Header.mID = some state) :
    ∃ p w, Preset p ∧ p.mData.size = s.ipPacket.mData.size ∧ ValidAnswer state payload w ∧
      UDPProxyServer.step depth s (.datagram source payload) = some { s with
        ipPacket := p
        queries := ⟨s.queries.mQueryID, Function.update s.queries.mQueryMap packet.Header.mID none⟩
        written := s.written ++ [w] } := by
  obtain ⟨hmin, hmax, hoffset⟩ := parse_some hparse
  obtain ⟨hsize, -⟩ := parse_payload hparse
  rw [hsize] at hmin hmax
  have hpayload : (receive payload s.ipPacket).mData.slice 28 payload.length = payload := by
    rw [receive_parsed hparse, Bytes.slice_write_self]
  obtain ⟨p, w, hp', hsize', hw, hexec⟩ :=
    exec_processResponse_valid (r := ⟨receive payload s.ipPacket, s.queries, s.written⟩) hstate
      (hp.receive payload) hoffset hsize hmin hmax hpayload
  exact ⟨p, w, hp', hsize', hw, step_of_exec hparse hexec⟩

/-- It goes to the client that asked. -/
theorem step_datagram_answer {packet : DNSPacket} {state : QueryState} (hp : Preset s.ipPacket)
    (hparse : parse depth payload s.ipPacket = .ok (some packet))
    (hstate : s.queries.mQueryMap packet.Header.mID = some state) :
    ∃ p w, Preset p ∧ IsAnswer state w ∧ ValidAnswer state payload w ∧
      UDPProxyServer.step depth s (.datagram source payload) = some { s with
        ipPacket := p
        queries := ⟨s.queries.mQueryID, Function.update s.queries.mQueryMap packet.Header.mID none⟩
        written := s.written ++ [w] } := by
  obtain ⟨p, w, hp', -, hvalid, hstep⟩ := step_datagram_pending hp hparse hstate
  refine ⟨p, w, hp', ?_, hvalid, hstep⟩
  -- the packet is the one that `step_datagram` speaks of
  obtain ⟨-, ⟨packet', state', w', hparse', hstate', hanswer, hone, -⟩ | ⟨hnone, -⟩⟩ :=
    step_datagram hp.plain hstep
  · cases hparse.symm.trans hparse'
    cases hstate.symm.trans hstate'
    obtain ⟨-, rfl⟩ := List.append_singleton_inj.mp hone
    exact hanswer
  · cases hstate.symm.trans (hnone packet hparse)

/-- A datagram is only received, or one valid packet is written for it. -/
theorem step_datagram_valid (hp : Preset s.ipPacket)
    (h : UDPProxyServer.step depth s (.datagram source payload) = some t) :
    Preset t.ipPacket ∧ t.ipPacket.mData.size = s.ipPacket.mData.size ∧ (t.written = s.written ∨
      ∃ state w, s.queries.mQueryMap (short (Bytes.ofList 0 payload) 0) = some state ∧
        t.written = s.written ++ [w] ∧ ValidAnswer state payload w) := by
  obtain ⟨packet, state, hparse, hstate⟩ | ⟨-, rfl⟩ := step_datagram_cases h
  · obtain ⟨p, w, hp', hsize, hw, hstep⟩ := step_datagram_pending hp hparse hstate
    rw [hstep] at h
    cases h
    exact ⟨hp', hsize, .inr ⟨state, w, parse_key hparse ▸ hstate, rfl, hw⟩⟩
  · exact ⟨hp.receive payload, rfl, .inl rfl⟩

theorem preset_step {e : Event} (hp : Preset s.ipPacket) (h : UDPProxyServer.step depth s e = some t) :
    Preset t.ipPacket := by
  cases e with
  | request q =>
    rw [step_request] at h
    cases h
    exact hp
  | datagram source payload => exact (step_datagram_valid hp h).1

theorem Reachable.preset (h : Reachable depth s) : Preset s.ipPacket := by
  obtain ⟨es, hes⟩ := h
  exact Machine.run_keeps (fun _ _ _ => preset_step) preset_initial hes

/-- Every packet that is written for a datagram, whatever was received before, is
a valid answer to the query that is pending under the id it carries. -/
theorem answer_valid (hs : Reachable depth s)
    (h : UDPProxyServer.step depth s (.datagram source payload) = some t) :
    t.written = s.written ∨
      ∃ state w, s.queries.mQueryMap (short (Bytes.ofList 0 payload) 0) = some state ∧
        t.written = s.written ++ [w] ∧ ValidAnswer state payload w :=
  (step_datagram_valid hs.preset h).2.2

end

theorem sampleAnswer_valid : ∃ t w,
    UDPProxyServer.step 1 afterQuery (.datagram (0x08080808, 53) sampleResponse) = some t ∧
      t.written = [w] ∧ ValidAnswer sampleQuery.state sampleResponse w := by
  obtain ⟨t, ht⟩ := step_of_carries reachable_afterQuery.plain (carries_sampleResponse (0x08080808, 53))
  have hanswered : t.written ≠ afterQuery.written := by
    obtain ⟨-, ⟨_, _, w, _, _, _, hone, _⟩ | ⟨hnone, -⟩⟩ := step_datagram reachable_afterQuery.plain ht
    · rw [hone]
      exact List.cons_ne_nil w []
    · cases hnone ⟨sampleHeader 1, [], [], [], [], 12⟩ rfl
  obtain hsame | ⟨state, w, hstate, hone, hvalid⟩ := answer_valid reachable_afterQuery ht
  · exact absurd hsame hanswered
  · cases hstate
    exact ⟨t, w, ht, hone, hvalid⟩

end SmartSocks.Sslocal
