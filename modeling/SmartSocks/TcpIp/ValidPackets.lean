import SmartSocks.Library.OnesComplement
import SmartSocks.TcpIp.Process

/-!
# The checksums of a rewritten packet

`getsum` adds the big-endian shorts of a range, and `fold` brings the carries
around: their results are those of one's complement arithmetic. So each checksum
that is filled in makes its range, with the pseudo-header of the rewritten
addresses, sum to all ones, whatever its length and contents.
-/

namespace SmartSocks.TcpIp

open Jvm EasyValue IPPacket OnesComplement

-- ---------------------------------------------------------------------------
-- One's complement sums
-- ---------------------------------------------------------------------------

/-- The sum of the big-endian shorts of some bytes. -/
def shortSum (xs : List Byte) : Nat := wordSum 256 (xs.map BitVec.toNat)

/-- The sum folds to all ones. -/
def SumsToOnes (xs : List Byte) : Prop := Checksum.fold (shortSum xs) = 0xFFFF

instance : DecidablePred SumsToOnes := fun _ => inferInstanceAs (Decidable (_ = _))

theorem toNat_short (data : Bytes Byte) (offset : Nat) :
    (short data offset).toNat = (data.cell offset).toNat * 256 + (data.cell (offset + 1)).toNat := by
  have hlow := (data.cell (offset + 1)).isLt
  rw [short_eq_append, BitVec.toNat_append, ← Nat.shiftLeft_add_eq_or_of_lt hlow, Nat.shiftLeft_eq]

theorem shortSum_append {xs ys : List Byte} (h : 2 ∣ xs.length) :
    shortSum (xs ++ ys) = shortSum xs + shortSum ys := by
  rw [shortSum, List.map_append, wordSum_append (by rwa [List.length_map])]
  rfl

theorem shortSum_shortBytes (value : Short) : shortSum (shortBytes value) = value.toNat := by
  have hvalue := value.isLt
  simp only [shortSum, shortBytes, List.map_cons, List.map_nil, wordSum, BitVec.toNat_setWidth,
    BitVec.toNat_ushiftRight, Nat.shiftRight_eq_div_pow]
  omega

/-- A short between other bytes counts for itself. -/
theorem shortSum_insert {xs ys : List Byte} (h : 2 ∣ xs.length) (value : Short) :
    shortSum (xs ++ (shortBytes value ++ ys)) = shortSum xs + value.toNat + shortSum ys := by
  rw [shortSum_append h, shortSum_append (by simp), shortSum_shortBytes, Nat.add_assoc]

theorem getsum_eq {buf : Bytes Byte} {offset len : Nat} (h : offset + len ≤ buf.size) (sum : Nat) :
    Checksum.getsum buf offset len sum = .ok (sum + shortSum (buf.slice offset len)) := by
  induction offset, len, sum using Checksum.getsum.induct with
  | case1 offset sum => rfl
  | case2 offset sum =>
    rw [Checksum.getsum, Bytes.get, if_pos (by omega)]
    simp [shortSum, wordSum, Bytes.slice, Nat.shiftLeft_eq, pure, Except.pure, bind, Except.bind]
  | case3 offset sum len ih =>
    have hread : offset + 1 < buf.size := by omega
    have hslice : buf.slice offset (len + 2) =
        [buf.cell offset, buf.cell (offset + 1)] ++ buf.slice (offset + 2) len := by
      rw [Nat.add_comm len 2, Bytes.slice_add]
      rfl
    have hfirst : shortSum [buf.cell offset, buf.cell (offset + 1)] = (short buf offset).toNat := by
      simp [shortSum, wordSum, toNat_short]
    rw [Checksum.getsum, readShort_eq hread, hslice, shortSum_append (by simp), hfirst, ← Nat.add_assoc]
    exact ih (short buf offset) (by omega)

/-- Adding the carries back in is one's complement reduction. -/
theorem fold_eq (check : Nat) : Checksum.fold check = reduce 0xFFFF check := by
  induction check using Checksum.fold.induct with
  | case1 check hcarry ih =>
    have hsplit : check = (check &&& 0xFFFF) + check >>> 16 * (0xFFFF + 1) := by
      have hmask : check &&& 0xFFFF = check % 2 ^ 16 := Nat.and_two_pow_sub_one_eq_mod check 16
      rw [hmask, Nat.shiftRight_eq_div_pow]
      omega
    rw [Checksum.fold, if_pos hcarry, ih, reduce_carry, ← hsplit]
  | case2 check hcarry =>
    rw [Checksum.fold, if_neg hcarry]
    refine (reduce_of_le ?_).symm
    rw [Nat.shiftRight_eq_div_pow] at hcarry
    omega

-- ---------------------------------------------------------------------------
-- A range with its checksum
-- ---------------------------------------------------------------------------

section
variable {buf : Bytes Byte} {offset k len : Nat}

/-- A range around a short that is written into it. -/
theorem slice_write_short (hfit : k + 2 ≤ len) (value : Short) :
    (buf.write (offset + k) (shortBytes value)).slice offset len =
      buf.slice offset k ++ (shortBytes value ++ buf.slice (offset + k + 2) (len - (k + 2))) := by
  obtain ⟨rest, rfl⟩ := Nat.exists_eq_add_of_le hfit
  have habove : (buf.write (offset + k) (shortBytes value)).slice (offset + (k + 2)) rest =
      buf.slice (offset + k + 2) rest := by
    refine Bytes.slice_congr _ fun i hi _ => buf.write_cell_of_ge _ ?_
    simpa [Nat.add_assoc] using hi
  have hself : (buf.write (offset + k) (shortBytes value)).slice (offset + k) 2 = shortBytes value :=
    buf.slice_write_self (offset + k) (shortBytes value)
  rw [Bytes.slice_add, Bytes.slice_add, buf.slice_write_below _ (Nat.le_refl _), hself, habove,
    Nat.add_sub_cancel_left, List.append_assoc]

/-- What a checksum field completes to all ones, with a sum from elsewhere. -/
theorem checksum_completes (buf : Bytes Byte) (offset : Nat) (heven : 2 ∣ k) (hfit : k + 2 ≤ len) (hlen : offset + len ≤ buf.size)
    (sum : Nat) : ∃ crc,
      Checksum.checksum sum (buf.write (offset + k) (shortBytes 0)) offset len = .ok crc ∧
      reduce 0xFFFF (sum + shortSum ((buf.write (offset + k) (shortBytes crc)).slice offset len)) =
        0xFFFF := by
  have hlen' : offset + len ≤ (buf.write (offset + k) (shortBytes 0)).size := hlen
  refine ⟨_, by rw [Checksum.checksum, getsum_eq hlen']; rfl, ?_⟩
  have hslice : 2 ∣ (buf.slice offset k).length := by rwa [Bytes.length_slice]
  rw [slice_write_short hfit, shortSum_insert hslice, slice_write_short hfit, shortSum_insert hslice,
    fold_eq]
  generalize shortSum (buf.slice offset k) = low
  generalize shortSum (buf.slice (offset + k + 2) (len - (k + 2))) = high
  have hle : reduce 0xFFFF (sum + (0 + (low + (0 : Short).toNat + high))) ≤ 0xFFFF :=
    reduce_le (by decide)
  have hones : 0 < 0xFFFF := by decide
  have hcrc := reduce_complement hones (sum + (0 + (low + (0 : Short).toNat + high)))
  generalize reduce 0xFFFF (sum + (0 + (low + (0 : Short).toNat + high))) = folded at hle hcrc ⊢
  have hnot : (~~~ BitVec.ofNat 16 folded).toNat = 0xFFFF - folded := by
    rw [BitVec.toNat_not, BitVec.toNat_ofNat, Nat.mod_eq_of_lt (by omega)]
  have hzero : (0 : Short).toNat = 0 := rfl
  rw [hnot]
  refine (congrArg (reduce 0xFFFF) ?_).trans hcrc
  omega

end

-- ---------------------------------------------------------------------------
-- The two checksums of a packet
-- ---------------------------------------------------------------------------

namespace IPPacket

variable (p : IPPacket)

def headerBytes : List Byte := p.mData.slice 0 p.getHeaderLength

/-- The addresses, a zero, the protocol and the length of the segment. -/
def pseudoHeader : List Byte :=
  p.mData.slice 12 8 ++ [0, p.getProtocol] ++ shortBytes (BitVec.ofInt 16 p.getDataLength)

@[simp] theorem length_pseudoHeader : p.pseudoHeader.length = 12 := by
  simp [pseudoHeader]

def segmentBytes : List Byte := p.mData.slice p.getHeaderLength p.getDataLength.toNat

/-- Both checksums are right. -/
structure ChecksumsOk : Prop where
  header : SumsToOnes p.headerBytes
  segment : SumsToOnes (p.pseudoHeader ++ p.segmentBytes)

end IPPacket

section
variable {p : IPPacket}

theorem getTotalLength_lt : p.getTotalLength < 2 ^ 16 := by
  have hlt := (short p.mData 2 &&& 0xFFFF).toInt_lt
  unfold getTotalLength
  omega

theorem shortSum_pseudoHeader (hlen : 0 ≤ p.getDataLength) :
    shortSum p.pseudoHeader =
      shortSum (p.mData.slice 12 8) + p.getProtocol.toNat + p.getDataLength.toNat := by
  have hbound : p.getDataLength < 2 ^ 16 := by
    have htotal := getTotalLength_lt (p := p)
    unfold getDataLength
    omega
  have hlength : (BitVec.ofInt 16 p.getDataLength).toNat = p.getDataLength.toNat := by
    rw [BitVec.toNat_ofInt]
    exact congrArg Int.toNat (Int.emod_eq_of_lt hlen hbound)
  have hprotocol : shortSum [0, p.getProtocol] = p.getProtocol.toNat := by
    simp [shortSum, wordSum]
  rw [pseudoHeader, shortSum_append (by simp), shortSum_append (by simp), shortSum_shortBytes, hlength,
    hprotocol]

/-- The IP checksum is filled in. -/
theorem setCrc_valid (hheader : 20 ≤ p.getHeaderLength) :
    ∃ crc, Checksum.checksum 0 (p.setCrc 0).mData 0 (p.setCrc 0).getHeaderLength = .ok crc ∧
      SumsToOnes (p.setCrc crc).headerBytes := by
  have hle : p.getHeaderLength ≤ 60 := getHeaderLength_le
  have hsize := p.size_ge
  have hfit : 10 + 2 ≤ p.getHeaderLength := by omega
  have hlen : 0 + p.getHeaderLength ≤ p.mData.size := by omega
  obtain ⟨crc, hcrc, hsum⟩ := checksum_completes p.mData 0 (by decide : 2 ∣ 10) hfit hlen 0
  refine ⟨crc, hcrc, ?_⟩
  rw [Nat.zero_add] at hsum
  exact (fold_eq _).trans hsum

/-- Both checksums are filled in, for a segment that ends in the array and whose
checksum field is `crcOffset` bytes behind the IP header. -/
theorem updateChecksums_valid {crcOffset : Nat} (heven : 2 ∣ crcOffset) (hheader : 20 ≤ p.getHeaderLength)
    (hsegment : (crcOffset : Int) + 2 ≤ p.getDataLength) (hlen : p.getTotalLength ≤ p.mData.size) :
    ∃ r, p.updateChecksums p.getHeaderLength crcOffset = .ok r ∧ ChecksumsOk r.2 ∧
      EqExcept 10 (p.getHeaderLength + crcOffset) p r.2 := by
  obtain ⟨crc, hcrc, hheaderSum⟩ := setCrc_valid hheader
  have hset : (p.setCrc 0).setCrc crc = p.setCrc crc := write_overwrite rfl
  -- the header is summed up; `q` is the packet behind it
  generalize hq : p.setCrc crc = q at hset hheaderSum
  have heq : EqExcept 10 (p.getHeaderLength + crcOffset) p q := hq ▸ eqExcept_write_left _ _ crc
  have hdata : q.getDataLength = p.getDataLength := by rw [← hq]; rfl
  have hlength : q.getHeaderLength = p.getHeaderLength := by rw [← hq]; rfl
  have hend : (p.getHeaderLength : Int) + p.getDataLength = p.getTotalLength := by
    unfold getDataLength
    omega
  have hfit : crcOffset + 2 ≤ p.getDataLength.toNat := by omega
  have hsize : p.getHeaderLength + p.getDataLength.toNat ≤ q.mData.size := by
    rw [heq.size]
    omega
  obtain ⟨crc', hcrc', hsum⟩ := checksum_completes q.mData p.getHeaderLength heven hfit
    hsize (shortSum (q.mData.slice 12 8) + q.getProtocol.toNat + p.getDataLength.toNat)
  have hbody : ¬ q.getTotalLength - q.getHeaderLength < 0 := by
    show ¬ q.getDataLength < 0
    omega
  have haddresses : 12 + 8 ≤ q.mData.size := Nat.le_trans (by decide) q.size_ge
  have hexec : ∃ right,
      p.updateChecksums p.getHeaderLength crcOffset =
        .ok (right, q.write (p.getHeaderLength + crcOffset) (shortBytes crc')) := by
    refine ⟨decide (short q.mData (p.getHeaderLength + crcOffset) = crc'), ?_⟩
    rw [updateChecksums]
    simp only [hcrc, ok_bind, hset, if_neg hbody, getsum_eq haddresses, Nat.zero_add]
    have hbodyLen : q.getTotalLength - q.getHeaderLength = p.getDataLength := hdata
    have hagain : (q.write (p.getHeaderLength + crcOffset) (shortBytes 0)).write (p.getHeaderLength + crcOffset)
        (shortBytes crc') = q.write (p.getHeaderLength + crcOffset) (shortBytes crc') := write_overwrite rfl
    rw [hbodyLen, transportChecksum]
    simp only [write_mData, hcrc', ok_bind, hagain]
    rfl
  obtain ⟨right, hexec⟩ := hexec
  have hq' : EqExcept 10 (p.getHeaderLength + crcOffset) q
      (q.write (p.getHeaderLength + crcOffset) (shortBytes crc')) := eqExcept_write_right _ _ crc'
  have hlow : ∀ k, k < p.getHeaderLength + crcOffset →
      (q.write (p.getHeaderLength + crcOffset) (shortBytes crc')).mData.cell k = q.mData.cell k :=
    fun k hk => cell_write_outside (.inl hk)
  have hwrite : (q.write (p.getHeaderLength + crcOffset) (shortBytes crc')).mData =
      q.mData.write (p.getHeaderLength + crcOffset) (shortBytes crc') := rfl
  generalize q.write (p.getHeaderLength + crcOffset) (shortBytes crc') = q' at hexec hq' hlow hwrite
  obtain ⟨hlength', htotal'⟩ := lengths_congr fun k hk => hlow k (by omega)
  have hdata' : q'.getDataLength = p.getDataLength := by
    rw [← hdata, getDataLength, getDataLength, hlength', htotal']
  refine ⟨_, hexec, ⟨?_, ?_⟩, heq.trans hq'⟩
  · have hbytes : q'.headerBytes = q.headerBytes := by
      rw [headerBytes, headerBytes, hlength', hlength]
      exact Bytes.slice_congr _ fun k _ hk => hlow k (by omega)
    rwa [hbytes]
  · have hslice : q'.mData.slice 12 8 = q.mData.slice 12 8 :=
      Bytes.slice_congr _ fun k _ hk => hlow k (by omega)
    have hprotocol : q'.getProtocol = q.getProtocol := hlow 9 (by omega)
    have hpseudo : 2 ∣ q'.pseudoHeader.length := by
      rw [length_pseudoHeader]
      decide
    have hnonneg : 0 ≤ q'.getDataLength := by omega
    rw [SumsToOnes, fold_eq, shortSum_append hpseudo, shortSum_pseudoHeader hnonneg, hslice, hprotocol,
      segmentBytes, hlength', hlength, hdata', hwrite]
    exact hsum

theorem tcpChecksum_valid (halign : p.tcpOffset = p.getHeaderLength) (hheader : 20 ≤ p.getHeaderLength)
    (hsegment : 20 ≤ p.getDataLength) (hlen : p.getTotalLength ≤ p.mData.size) :
    ∃ r, p.tcpChecksum = .ok r ∧ ChecksumsOk r.2 ∧ EqExcept 10 (p.getHeaderLength + 16) p r.2 := by
  rw [tcpChecksum, halign]
  exact updateChecksums_valid (by decide) hheader (by omega) hlen

theorem udpChecksum_valid (halign : p.udpOffset = p.getHeaderLength) (hheader : 20 ≤ p.getHeaderLength)
    (hsegment : 8 ≤ p.getDataLength) (hlen : p.getTotalLength ≤ p.mData.size) :
    ∃ r, p.udpChecksum = .ok r ∧ ChecksumsOk r.2 ∧ EqExcept 10 (p.getHeaderLength + 6) p r.2 := by
  rw [udpChecksum, halign]
  exact updateChecksums_valid (by decide) hheader (by omega) hlen

end

-- ---------------------------------------------------------------------------
-- Rewritten packets
-- ---------------------------------------------------------------------------

/-- A TCP packet is rewritten when it comes from the local IP and either is one
of the service with a known session, or is one of an application and not the
second of its session without data; with the index of the port that is changed. -/
inductive Rewrites (localIP : Word) (s : Vpn) : Nat → Prop
  | fromService (hsource : s.ipPacket.getSourceIP = localIP)
      (hservice : TCPPacket.getSourcePort s.ipPacket.alignTCP = s.mLocalServicePort) (iport : IPort)
      (hknown : s.mSessionMap (TCPPacket.getDestinationPort s.ipPacket.alignTCP) = some iport) :
      Rewrites localIP s s.ipPacket.getHeaderLength
  | toService (hsource : s.ipPacket.getSourceIP = localIP)
      (hother : TCPPacket.getSourcePort s.ipPacket.alignTCP ≠ s.mLocalServicePort)
      (hdata : ¬ (({ s with ipPacket := s.ipPacket.alignTCP } : Vpn).iport.mPacketsSent = 2 ∧
        s.ipPacket.alignTCP.tcpDataSize = 0)) :
      Rewrites localIP s (s.ipPacket.getHeaderLength + 2)

/-- The packet `q` is `p` sent back from its destination to the local IP, with
another port at `port` and with both checksums, which are right. -/
structure Rewritten (localIP : Word) (p q : IPPacket) (port : Nat) : Prop where
  size : q.mData.size = p.mData.size
  sourceIP : q.getSourceIP = p.getDestinationIP
  destinationIP : q.getDestinationIP = localIP
  unchanged : ∀ k, ¬ (10 ≤ k ∧ k < 12) → ¬ (12 ≤ k ∧ k < 20) → ¬ (port ≤ k ∧ k < port + 2) →
    ¬ (p.getHeaderLength + 16 ≤ k ∧ k < p.getHeaderLength + 18) → q.mData.cell k = p.mData.cell k
  checksums : ChecksumsOk q

section
variable {p q : IPPacket} {localIP : Word} {port : Nat}

/-- Other addresses and another port, and then `tcpChecksum`. -/
theorem rewritten_of_ends (hport : 20 ≤ port) (halign : q.tcpOffset = p.getHeaderLength)
    (hsize : q.mData.size = p.mData.size) (hsource : q.getSourceIP = p.getDestinationIP)
    (hdestination : q.getDestinationIP = localIP)
    (hcell : ∀ k, ¬ (12 ≤ k ∧ k < 20) → ¬ (port ≤ k ∧ k < port + 2) →
      q.mData.cell k = p.mData.cell k)
    (hheader : 20 ≤ p.getHeaderLength) (hsegment : p.getHeaderLength + 20 ≤ p.getTotalLength)
    (hlen : p.getTotalLength ≤ p.mData.size) :
    ∃ r, q.tcpChecksum = .ok r ∧ Rewritten localIP p r.2 port := by
  obtain ⟨hheader', htotal'⟩ := lengths_congr fun k hk => hcell k (by omega) (by omega)
  have hdata : 20 ≤ q.getDataLength := by
    rw [getDataLength, hheader', htotal']
    omega
  obtain ⟨r, hr, hok, heq⟩ := tcpChecksum_valid (halign.trans hheader'.symm) (hheader'.symm ▸ hheader) hdata
    (by rwa [htotal', hsize])
  rw [hheader'] at heq
  have hsource' : r.2.getSourceIP = q.getSourceIP := heq.int (.inr (by decide)) (.inl (by omega))
  have hdestination' : r.2.getDestinationIP = q.getDestinationIP :=
    heq.int (.inr (by decide)) (.inl (by omega))
  refine ⟨r, hr, heq.size.trans hsize, hsource'.trans hsource, hdestination'.trans hdestination,
    fun k hcrc haddresses hport hsum => ?_, hok⟩
  exact (heq.cell k (by omega) (by omega)).trans (hcell k haddresses hport)

theorem fromService_rewritten (localIP : Word) (hheader : 20 ≤ p.getHeaderLength)
    (hsegment : p.getHeaderLength + 20 ≤ p.getTotalLength) (hlen : p.getTotalLength ≤ p.mData.size)
    (iport : IPort) :
    ∃ r, (p.alignTCP.fromService localIP iport).tcpChecksum = .ok r ∧
      Rewritten localIP p r.2 p.getHeaderLength := by
  have hdata : (p.alignTCP.fromService localIP iport).mData =
      ((p.mData.write 12 (intBytes p.getDestinationIP)).write p.getHeaderLength
        (shortBytes iport.mPort)).write 16 (intBytes localIP) := rfl
  have hsource : (p.alignTCP.fromService localIP iport).getSourceIP = p.getDestinationIP := by
    rw [getSourceIP, hdata, int_write_outside (.inl (by decide)), int_write_outside (.inl (by omega)),
      int_write_intBytes]
  have hdestination : (p.alignTCP.fromService localIP iport).getDestinationIP = localIP := by
    rw [getDestinationIP, hdata, int_write_intBytes]
  refine rewritten_of_ends hheader rfl rfl hsource hdestination (fun k haddresses hport => ?_) hheader
    hsegment hlen
  rw [hdata, cell_write_outside (by simp; omega), cell_write_outside (by simp; omega),
    cell_write_outside (by simp; omega)]

theorem toService_rewritten (localIP : Word) (hheader : 20 ≤ p.getHeaderLength)
    (hsegment : p.getHeaderLength + 20 ≤ p.getTotalLength) (hlen : p.getTotalLength ≤ p.mData.size)
    (servicePort : Short) :
    ∃ r, (p.alignTCP.toService localIP servicePort).tcpChecksum = .ok r ∧
      Rewritten localIP p r.2 (p.getHeaderLength + 2) := by
  have hdata : (p.alignTCP.toService localIP servicePort).mData =
      ((p.mData.write 12 (intBytes p.getDestinationIP)).write 16 (intBytes localIP)).write
        (p.getHeaderLength + 2) (shortBytes servicePort) := rfl
  have hsource : (p.alignTCP.toService localIP servicePort).getSourceIP = p.getDestinationIP := by
    rw [getSourceIP, hdata, int_write_outside (.inl (by omega)), int_write_outside (.inl (by decide)),
      int_write_intBytes]
  have hdestination : (p.alignTCP.toService localIP servicePort).getDestinationIP = localIP := by
    rw [getDestinationIP, hdata, int_write_outside (.inl (by omega)), int_write_intBytes]
  refine rewritten_of_ends (by omega) rfl rfl hsource hdestination (fun k haddresses hport => ?_) hheader
    hsegment hlen
  rw [hdata, cell_write_outside (by simp; omega), cell_write_outside (by simp; omega),
    cell_write_outside (by simp; omega)]

end

/-- What comes of a packet that is rewritten. -/
theorem exec_processTCPPacket_rewrites (size fuel : Nat) {port : Nat} {localIP : Word} {s : Vpn}
    (hheader : 20 ≤ s.ipPacket.getHeaderLength)
    (hsegment : s.ipPacket.getHeaderLength + 20 ≤ s.ipPacket.getTotalLength)
    (hlen : s.ipPacket.getTotalLength ≤ s.ipPacket.mData.size) (hrewrites : Rewrites localIP s port) :
    (∃ t, (processTCPPacket size localIP fuel).exec s = (.ok none, t)) ∨
      ∃ flow t, (processTCPPacket size localIP fuel).exec s = (.ok (some flow), t) ∧
        Rewritten localIP s.ipPacket t.ipPacket port := by
  rw [exec_processTCPPacket]
  simp only
  cases hrewrites with
  | fromService hsource hservice iport hknown =>
    obtain ⟨r, hsum, hr⟩ := fromService_rewritten localIP hheader hsegment hlen iport
    have hsource' : s.ipPacket.alignTCP.getSourceIP = localIP := hsource
    have hexec : (processService size localIP).exec { s with ipPacket := s.ipPacket.alignTCP } = _ :=
      exec_processService_known rfl hknown hsum
    right
    rw [if_pos hsource', if_pos hservice, Prog.exec_map, hexec]
    exact ⟨_, _, rfl, hr⟩
  | toService hsource hother hdata =>
    obtain ⟨r, hsum, hr⟩ := toService_rewritten localIP hheader hsegment hlen s.mLocalServicePort
    have hsource' : s.ipPacket.alignTCP.getSourceIP = localIP := hsource
    rw [if_pos hsource', if_neg hother, exec_processApplication, if_neg hdata, exec_forward]
    split
    · exact .inl ⟨_, rfl⟩
    · right
      simp only [Vpn.withSession, hsum]
      exact ⟨_, _, rfl, hr⟩

/-- A packet that is rewritten is valid and otherwise unchanged, once the search
for its host has ended. -/
theorem processTCPPacket_rewritten (size : Nat) (localIP : Word) (fuel port : Nat) (s : Vpn)
    (hheader : 20 ≤ s.ipPacket.getHeaderLength)
    (hsegment : s.ipPacket.getHeaderLength + 20 ≤ s.ipPacket.getTotalLength)
    (hlen : s.ipPacket.getTotalLength ≤ s.ipPacket.mData.size) (hrewrites : Rewrites localIP s port) :
    ((processTCPPacket size localIP fuel).exec s).1 = .ok none ∨
      (∃ flow, ((processTCPPacket size localIP fuel).exec s).1 = .ok (some flow)) ∧
        Rewritten localIP s.ipPacket ((processTCPPacket size localIP fuel).exec s).2.ipPacket port := by
  rcases exec_processTCPPacket_rewrites size fuel hheader hsegment hlen hrewrites with
    ⟨t, hexec⟩ | ⟨flow, t, hexec, hrewritten⟩
  · rw [hexec]
    exact .inl rfl
  · rw [hexec]
    exact .inr ⟨⟨flow, rfl⟩, hrewritten⟩

/-- The VPN thread with a packet of an application that carries one byte, with a
word of options in its IP header. -/
def oddPacket : Vpn where
  ipPacket := .ofData
    ⟨20000, (Bytes.ofList 0
      ([0x46, 0, 0, 45, 0, 0, 0, 0, 64, 6, 0, 0, 10, 0, 0, 1, 1, 1, 1, 1, 1, 1, 1, 1] ++
        [3, 232, 0, 80, 0, 0, 0, 1, 0, 0, 0, 1, 0x50, 24, 0, 0, 0, 0, 0, 0] ++ [0x61])).cell⟩
    IPPacket.size_le_mtu
  mLocalServicePort := 2000
  mSessionMap _ := none
  queries := ⟨0, fun _ => none⟩
  sent := []

theorem oddPacket_rewritten :
    ChecksumsOk ((processTCPPacket 45 0x0A000001 1).exec oddPacket).2.ipPacket := by
  have hrewrites : Rewrites 0x0A000001 oddPacket 26 :=
    .toService (by decide) (by decide) (by decide)
  rcases processTCPPacket_rewritten 45 0x0A000001 1 26 oddPacket (by decide) (by decide) (by decide)
    hrewrites with hrunning | ⟨-, h⟩
  · exfalso
    revert hrunning
    decide +kernel
  · exact h.checksums

end SmartSocks.TcpIp
