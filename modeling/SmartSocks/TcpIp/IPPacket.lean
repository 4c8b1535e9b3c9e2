import SmartSocks.TcpIp.Checksum

/-!
# `IPPacket`, `TCPPacket` and `UDPPacket`

An `IPPacket` is a view of a reused array: of the 20000 bytes read from the tun
device or of the 2000 bytes of the DNS thread. Header fields lie below index
80 (the longest header and the fixed part of a TCP header), inside the array,
so their accessors are total. The transport headers are views of the same array
at offsets that `process` sets to the header length. Lengths are signed shorts.
-/

namespace SmartSocks.TcpIp

open Jvm EasyValue

structure IPPacket where
  mData : Bytes Byte
  /-- `mTCPPacket.mOffset` -/
  tcpOffset : Nat := 20
  /-- `mUDPPacket.mOffset` -/
  udpOffset : Nat := 20
  size_ge : 2000 ≤ mData.size
  tcpOffset_le : tcpOffset ≤ 60 := by decide
  udpOffset_le : udpOffset ≤ 60 := by decide

namespace IPPacket

theorem offset_le : 20 ≤ 60 := by decide

/-- A packet in `data`, as the constructor sets its offsets. -/
def ofData (data : Bytes Byte) (h : 2000 ≤ data.size) : IPPacket where
  mData := data
  size_ge := h
  tcpOffset_le := offset_le
  udpOffset_le := offset_le

/-- The buffer of the VPN thread is large enough. -/
theorem size_le_mtu : 2000 ≤ 20000 := by decide

def TCP : Byte := 6
def UDP : Byte := 17

variable (p : IPPacket)

/-- Writes bytes into the array. -/
def write (offset : Nat) (xs : List Byte) : IPPacket :=
  { p with mData := p.mData.write offset xs }

def getHeaderLength : Nat := (p.mData.cell 0 &&& 0x0F).toNat * 4
def setHeaderLength (value : Nat) : IPPacket := p.write 0 [4#8 <<< 4 ||| BitVec.ofNat 8 (value / 4)]
def setTos (value : Byte) : IPPacket := p.write 1 [value]
def getTotalLength : Int := (short p.mData 2 &&& 0xFFFF).toInt
def setTotalLength (value : Int) : IPPacket := p.write 2 (shortBytes (BitVec.ofInt 16 value))
def setIdentification (value : Int) : IPPacket := p.write 4 (shortBytes (BitVec.ofInt 16 value))
def setFlagsAndOffset (value : Short) : IPPacket := p.write 6 (shortBytes value)
def setTTL (value : Byte) : IPPacket := p.write 8 [value]
def getProtocol : Byte := p.mData.cell 9
def setProtocol (value : Byte) : IPPacket := p.write 9 [value]
def setCrc (value : Short) : IPPacket := p.write 10 (shortBytes value)
def getSourceIP : Word := int p.mData 12
def setSourceIP (value : Word) : IPPacket := p.write 12 (intBytes value)
def getDestinationIP : Word := int p.mData 16
def setDestinationIP (value : Word) : IPPacket := p.write 16 (intBytes value)

def getDataLength : Int := p.getTotalLength - p.getHeaderLength

def setDefault : IPPacket :=
  p.setHeaderLength 20 |>.setTos 0 |>.setTotalLength 0 |>.setIdentification 0
    |>.setFlagsAndOffset 0 |>.setTTL 64

-- ---------------------------------------------------------------------------
-- The transport headers
-- ---------------------------------------------------------------------------

namespace TCPPacket

def getHeaderLength : Nat := ((p.mData.cell (p.tcpOffset + 12)).toNat >>> 4) * 4
def getSourcePort : Short := short p.mData p.tcpOffset
def setSourcePort (value : Short) : IPPacket := p.write p.tcpOffset (shortBytes value)
def getDestinationPort : Short := short p.mData (p.tcpOffset + 2)
def setDestinationPort (value : Short) : IPPacket := p.write (p.tcpOffset + 2) (shortBytes value)

end TCPPacket

namespace UDPPacket

def getSourcePort : Short := short p.mData p.udpOffset
def setSourcePort (value : Short) : IPPacket := p.write p.udpOffset (shortBytes value)
def getDestinationPort : Short := short p.mData (p.udpOffset + 2)
def setDestinationPort (value : Short) : IPPacket := p.write (p.udpOffset + 2) (shortBytes value)
def setTotalLength (value : Int) : IPPacket :=
  p.write (p.udpOffset + 4) (shortBytes (BitVec.ofInt 16 value))

end UDPPacket

-- ---------------------------------------------------------------------------
-- Checksums
-- ---------------------------------------------------------------------------

/-- `checksum` of a transport header at `offset` whose checksum field is at
`crcOffset`: whether the checksum was right, and the packet with the new one. -/
def transportChecksum (offset crcOffset sum size : Nat) : Except Throwable (Bool × IPPacket) := do
  let oldCrc := short p.mData (offset + crcOffset)
  let p := p.write (offset + crcOffset) (shortBytes 0)
  let newCrc ← Checksum.checksum sum p.mData offset size
  return (oldCrc = newCrc, p.write (offset + crcOffset) (shortBytes newCrc))

/-- `tcpChecksum` and `udpChecksum`, which differ in the transport header only. -/
def updateChecksums (offset crcOffset : Nat) : Except Throwable (Bool × IPPacket) := do
  let p := p.setCrc 0
  let newCrc ← Checksum.checksum 0 p.mData 0 p.getHeaderLength
  let p := p.setCrc newCrc
  let bodyLen := p.getTotalLength - p.getHeaderLength
  if bodyLen < 0 then
    return (false, p)
  let sum ← Checksum.getsum p.mData 12 8 0
  transportChecksum p offset crcOffset (sum + p.getProtocol.toNat + bodyLen.toNat) bodyLen.toNat

def tcpChecksum : Except Throwable (Bool × IPPacket) := p.updateChecksums p.tcpOffset 16

def udpChecksum : Except Throwable (Bool × IPPacket) := p.updateChecksums p.udpOffset 6

def setupResponseUDPIPHeader : Except Throwable IPPacket := Prod.snd <$> p.udpChecksum

-- ---------------------------------------------------------------------------
-- What a write leaves alone
-- ---------------------------------------------------------------------------

section
variable {p} {offset at' : Nat} {xs : List Byte}

@[simp] theorem write_tcpOffset : (p.write offset xs).tcpOffset = p.tcpOffset := rfl
@[simp] theorem write_udpOffset : (p.write offset xs).udpOffset = p.udpOffset := rfl
@[simp] theorem write_mData : (p.write offset xs).mData = p.mData.write offset xs := rfl

theorem write_overwrite {ys : List Byte} (h : ys.length = xs.length) :
    (p.write offset xs).write offset ys = p.write offset ys := by
  simp only [write, Bytes.write_overwrite _ _ h]

theorem getHeaderLength_le : p.getHeaderLength ≤ 60 := by
  have h : (p.mData.cell 0 &&& 0x0F).toNat ≤ 15 := by
    rw [BitVec.toNat_and]
    exact Nat.and_le_right
  unfold getHeaderLength
  omega

/-- Equal up to the two bytes at `i` and the two bytes at `j`. -/
structure EqExcept (i j : Nat) (p q : IPPacket) : Prop where
  tcpOffset : q.tcpOffset = p.tcpOffset
  udpOffset : q.udpOffset = p.udpOffset
  size : q.mData.size = p.mData.size
  cell : ∀ k, (k < i ∨ i + 2 ≤ k) → (k < j ∨ j + 2 ≤ k) → q.mData.cell k = p.mData.cell k

theorem EqExcept.trans {i j : Nat} {p q r : IPPacket} (h : EqExcept i j p q) (h' : EqExcept i j q r) :
    EqExcept i j p r where
  tcpOffset := h'.tcpOffset.trans h.tcpOffset
  udpOffset := h'.udpOffset.trans h.udpOffset
  size := h'.size.trans h.size
  cell k hi hj := (h'.cell k hi hj).trans (h.cell k hi hj)

theorem eqExcept_write_left (i j : Nat) (value : Short) :
    EqExcept i j p (p.write i (shortBytes value)) :=
  ⟨rfl, rfl, rfl, fun _ hi _ => cell_write_outside hi⟩

theorem eqExcept_write_right (i j : Nat) (value : Short) :
    EqExcept i j p (p.write j (shortBytes value)) :=
  ⟨rfl, rfl, rfl, fun _ _ hj => cell_write_outside hj⟩

theorem EqExcept.short {i j : Nat} {q : IPPacket} (h : EqExcept i j p q)
    (hi : at' + 2 ≤ i ∨ i + 2 ≤ at') (hj : at' + 2 ≤ j ∨ j + 2 ≤ at') :
    short q.mData at' = EasyValue.short p.mData at' := by
  unfold EasyValue.short
  rw [h.cell _ (by omega) (by omega), h.cell _ (by omega) (by omega)]

theorem EqExcept.int {i j : Nat} {q : IPPacket} (h : EqExcept i j p q)
    (hi : at' + 4 ≤ i ∨ i + 2 ≤ at') (hj : at' + 4 ≤ j ∨ j + 2 ≤ at') :
    int q.mData at' = EasyValue.int p.mData at' := by
  unfold EasyValue.int
  rw [h.cell _ (by omega) (by omega), h.cell _ (by omega) (by omega),
    h.cell _ (by omega) (by omega), h.cell _ (by omega) (by omega)]

end

section
variable {p} {offset crcOffset sum size : Nat}

theorem transportChecksum_ok (h : size = 0 ∨ offset + size ≤ p.mData.size) : ∃ r,
    p.transportChecksum offset crcOffset sum size = .ok r ∧
      EqExcept 10 (offset + crcOffset) p r.2 := by
  have hcrc : ∃ crc, Checksum.checksum sum (p.write (offset + crcOffset) (shortBytes 0)).mData
      offset size = .ok crc := by
    rcases h with rfl | h
    · exact ⟨_, rfl⟩
    · have hsize : offset + size ≤ (p.write (offset + crcOffset) (shortBytes 0)).mData.size := h
      exact Checksum.checksum_ok hsize sum
  obtain ⟨crc, hcrc⟩ := hcrc
  refine ⟨_, by rw [transportChecksum, hcrc]; rfl, ?_⟩
  exact (eqExcept_write_right _ _ 0).trans (eqExcept_write_right _ _ crc)

theorem transportChecksum_error (hsize : 0 < size) (h : p.mData.size < offset + size) :
    p.transportChecksum offset crcOffset sum size = .error .arrayIndexOutOfBounds := by
  have hsize' : (p.write (offset + crcOffset) (shortBytes 0)).mData.size < offset + size := h
  rw [transportChecksum, Checksum.checksum_error hsize hsize']
  rfl

/-- The header part never fails, and leaves the lengths as they were. -/
theorem updateChecksums_eq (p : IPPacket) (offset crcOffset : Nat) :
    ∃ q sum, EqExcept 10 (offset + crcOffset) p q ∧
      p.updateChecksums offset crcOffset =
        if p.getDataLength < 0 then .ok (false, q)
        else q.transportChecksum offset crcOffset sum p.getDataLength.toNat := by
  have hzero : EqExcept 10 (offset + crcOffset) p (p.setCrc 0) := eqExcept_write_left _ _ _
  have hheader : 0 + (p.setCrc 0).getHeaderLength ≤ (p.setCrc 0).mData.size := by
    have hle : (p.setCrc 0).getHeaderLength ≤ 60 := getHeaderLength_le
    have hsize := (p.setCrc 0).size_ge
    omega
  obtain ⟨crc, hcrc⟩ := Checksum.checksum_ok hheader 0
  have hq : EqExcept 10 (offset + crcOffset) p ((p.setCrc 0).setCrc crc) :=
    hzero.trans (eqExcept_write_left _ _ _)
  have hlen : ((p.setCrc 0).setCrc crc).getTotalLength - ((p.setCrc 0).setCrc crc).getHeaderLength =
      p.getDataLength := rfl
  have haddresses : 12 + 8 ≤ ((p.setCrc 0).setCrc crc).mData.size :=
    Nat.le_trans (by decide) ((p.setCrc 0).setCrc crc).size_ge
  obtain ⟨sum, hsum⟩ := Checksum.getsum_ok haddresses 0
  refine ⟨_, sum + ((p.setCrc 0).setCrc crc).getProtocol.toNat + p.getDataLength.toNat, hq, ?_⟩
  rw [updateChecksums]
  simp only [hcrc, ok_bind, hlen]
  split
  · rfl
  · rw [hsum]
    rfl

/-- The checksums are written when the body ends inside the array. -/
theorem updateChecksums_ok (h : p.getDataLength ≤ 0 ∨ offset + p.getDataLength ≤ p.mData.size) :
    ∃ r, p.updateChecksums offset crcOffset = .ok r ∧ EqExcept 10 (offset + crcOffset) p r.2 := by
  obtain ⟨q, sum, hq, heq⟩ := p.updateChecksums_eq offset crcOffset
  rw [heq]
  split
  · exact ⟨_, rfl, hq⟩
  · have hfit : p.getDataLength.toNat = 0 ∨ offset + p.getDataLength.toNat ≤ q.mData.size := by
      rw [hq.size]
      omega
    obtain ⟨r, hr, hqr⟩ : ∃ r, q.transportChecksum offset crcOffset sum p.getDataLength.toNat = .ok r ∧
        EqExcept 10 (offset + crcOffset) q r.2 := transportChecksum_ok hfit
    exact ⟨r, hr, hq.trans hqr⟩

theorem updateChecksums_error (hpos : 0 < p.getDataLength)
    (h : p.mData.size < offset + p.getDataLength) :
    p.updateChecksums offset crcOffset = .error .arrayIndexOutOfBounds := by
  obtain ⟨q, sum, hq, heq⟩ := p.updateChecksums_eq offset crcOffset
  rw [heq, if_neg (by omega)]
  refine transportChecksum_error (by omega) ?_
  rw [hq.size]
  omega

end

/-- The slice of the array behind a header without options, cleared. -/
def mDNSBuffer : ByteBuffer Byte where
  array := p.mData
  arrayOffset := 28
  capacity := p.mData.size - 28
  position := 0
  limit := p.mData.size - 28
  position_le := Nat.zero_le _
  limit_le := Nat.le_refl _
  capacity_le := Nat.le_of_eq (Nat.add_sub_cancel' (Nat.le_trans (by decide) p.size_ge))

end IPPacket

end SmartSocks.TcpIp
