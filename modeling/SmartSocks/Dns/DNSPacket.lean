import SmartSocks.Dns.ReadDomain

/-!
# `DNSPacket.FromBytes`

A parser over a `ByteBuffer`: it consumes the buffer and throws where the
buffer ends or a count is negative. `null` is a packet of the wrong size or
with too many records. What is parsed shares the array of the buffer: the
header keeps its offset in it.
-/

namespace SmartSocks.Dns

open Jvm EasyValue

/-- A program that consumes a buffer. -/
abbrev Reader (α : Type) := StateT (ByteBuffer Byte) (Except Throwable) α

namespace Reader

variable {α β : Type} (b : ByteBuffer Byte)

@[simp] theorem bind_apply (m : Reader α) (k : α → Reader β) :
    (m >>= k) b = m b >>= fun r => k r.1 r.2 := rfl

@[simp] theorem pure_apply (a : α) : (pure a : Reader α) b = .ok (a, b) := rfl

@[simp] theorem get_apply : (get : Reader (ByteBuffer Byte)) b = .ok (b, b) := rfl

@[simp] theorem lift_apply (x : Except Throwable α) :
    (liftM x : Reader α) b = x >>= fun a => .ok (a, b) := rfl

end Reader

structure DNSFlags where
  QR : Bool
  OpCode : Nat
  AA : Bool
  TC : Bool
  RD : Bool
  RA : Bool
  Zero : Nat
  Rcode : Nat
  deriving DecidableEq, Repr

def DNSFlags.parse (value : Short) : DNSFlags :=
  let mFlags := value.toNat
  { QR := mFlags >>> 7 &&& 0x01 = 1
    OpCode := mFlags >>> 3 &&& 0x0F
    AA := mFlags >>> 2 &&& 0x01 = 1
    TC := mFlags >>> 1 &&& 0x01 = 1
    RD := mFlags &&& 0x01 = 1
    RA := mFlags >>> 15 = 1
    Zero := mFlags >>> 12 &&& 0x07
    Rcode := mFlags >>> 8 &&& 0xF }

structure DNSHeader where
  mOffset : Nat
  mID : Short
  mDNSFlags : DNSFlags
  mQuestionCount : Short
  mResourceCount : Short
  mAResourceCount : Short
  mEResourceCount : Short

structure Question where
  Domain : List Char
  Type' : Short
  Class : Short
  offset : Nat
  length : Nat

structure Resource where
  Domain : List Char
  Type' : Short
  Class : Short
  TTL : Word
  DataLength : Short
  Data : List Byte
  offset : Nat
  length : Nat

structure DNSPacket where
  Header : DNSHeader
  Questions : List Question
  Resources : List Resource
  AResources : List Resource
  EResources : List Resource
  Size : Nat

def DNSHeader.fromBytes : Reader DNSHeader := do
  let mOffset := (← get).index
  let mID ← ByteBuffer.getShort
  let flags ← ByteBuffer.getShort
  let mQuestionCount ← ByteBuffer.getShort
  let mResourceCount ← ByteBuffer.getShort
  let mAResourceCount ← ByteBuffer.getShort
  let mEResourceCount ← ByteBuffer.getShort
  return {
    mOffset, mID, mDNSFlags := DNSFlags.parse flags
    mQuestionCount, mResourceCount, mAResourceCount, mEResourceCount }

/-- The twelve bytes at the position of a buffer, as a header. -/
def headerAt (b : ByteBuffer Byte) : DNSHeader where
  mOffset := b.index
  mID := short b.array b.index
  mDNSFlags := DNSFlags.parse (short b.array (b.index + 2))
  mQuestionCount := short b.array (b.index + 4)
  mResourceCount := short b.array (b.index + 6)
  mAResourceCount := short b.array (b.index + 8)
  mEResourceCount := short b.array (b.index + 10)

section
variable {b : ByteBuffer Byte}

/-- A short behind `k` bytes. -/
theorem getShort_advance {k : Nat} (h : k + 2 ≤ b.remaining) :
    (b.advance k).getShort = .ok (short b.array (b.index + k), b.advance (k + 2)) := by
  unfold ByteBuffer.getShort
  have hstop : b.index + k ≤ b.stop := by
    rw [b.remaining_eq] at h
    omega
  rw [if_pos (by rw [b.advance_remaining]; omega), b.advance_index hstop, b.advance_advance]
  rfl

theorem getInt_advance {k : Nat} (h : k + 4 ≤ b.remaining) :
    (b.advance k).getInt = .ok (int b.array (b.index + k), b.advance (k + 4)) := by
  unfold ByteBuffer.getInt
  have hstop : b.index + k ≤ b.stop := by
    rw [b.remaining_eq] at h
    omega
  rw [if_pos (by rw [b.advance_remaining]; omega), b.advance_index hstop, b.advance_advance]
  rfl

theorem header_fromBytes (h : 12 ≤ b.remaining) :
    DNSHeader.fromBytes b = .ok (headerAt b, b.advance 12) := by
  have hread (k : Nat) (hk : k ≤ 10) := getShort_advance (k := k) (b := b) (by omega)
  have h0 := hread 0 (by decide)
  rw [b.advance_zero] at h0
  simp only [DNSHeader.fromBytes, Reader.bind_apply, Reader.get_apply, Reader.pure_apply, ok_bind, h0,
    Nat.zero_add, Nat.add_zero, hread 2 (by decide), hread 4 (by decide), hread 6 (by decide),
    hread 8 (by decide), hread 10 (by decide), headerAt]

end

/-- `DNSPacket.ReadDomain(buffer, buffer.arrayOffset())` -/
def nextDomain (depth : Nat) : Reader (List Char) := fun buffer => do
  let reading ← DNSPacket.readDomain buffer.arrayOffset depth buffer
  return (reading.name, reading.buffer)

def Question.fromBytes (depth : Nat) : Reader Question := do
  let offset := (← get).index
  let Domain ← nextDomain depth
  let Type' ← ByteBuffer.getShort
  let Class ← ByteBuffer.getShort
  let length := (← get).index - offset
  return { Domain, Type', Class, offset, length }

def Resource.fromBytes (depth : Nat) : Reader Resource := do
  let offset := (← get).index
  let Domain ← nextDomain depth
  let Type' ← ByteBuffer.getShort
  let Class ← ByteBuffer.getShort
  let TTL ← ByteBuffer.getInt
  let DataLength ← ByteBuffer.getShort
  let Data ← fun buffer => ByteBuffer.getBytes buffer DataLength.toNat
  let length := (← get).index - offset
  return { Domain, Type', Class, TTL, DataLength, Data, offset, length }

section
variable {depth : Nat} {name : List Char} {b c : ByteBuffer Byte}

/-- A question whose name ends at `c`. -/
theorem question_fromBytes (h : nextDomain depth b = .ok (name, c)) (hroom : 4 ≤ c.remaining) :
    Question.fromBytes depth b = .ok (
      { Domain := name
        Type' := short c.array c.index
        Class := short c.array (c.index + 2)
        offset := b.index
        length := (c.advance 4).index - b.index }, c.advance 4) := by
  have htype := getShort_advance (k := 0) (b := c) (by omega)
  have hclass := getShort_advance (k := 2) (b := c) (by omega)
  rw [c.advance_zero] at htype
  simp only [Question.fromBytes, Reader.bind_apply, Reader.get_apply, Reader.pure_apply, ok_bind, h, htype,
    Nat.zero_add, Nat.add_zero, hclass]

/-- A resource whose name ends at `c`. -/
theorem resource_fromBytes (h : nextDomain depth b = .ok (name, c))
    (hroom : 10 + (short c.array (c.index + 8)).toNat ≤ c.remaining) :
    Resource.fromBytes depth b = .ok (
      { Domain := name
        Type' := short c.array c.index
        Class := short c.array (c.index + 2)
        TTL := int c.array (c.index + 4)
        DataLength := short c.array (c.index + 8)
        Data := (c.advance 10).left.take (short c.array (c.index + 8)).toNat
        offset := b.index
        length := (c.advance (10 + (short c.array (c.index + 8)).toNat)).index - b.index },
      c.advance (10 + (short c.array (c.index + 8)).toNat)) := by
  have htype := getShort_advance (k := 0) (b := c) (by omega)
  have hclass := getShort_advance (k := 2) (b := c) (by omega)
  have httl := getInt_advance (k := 4) (b := c) (by omega)
  have hlength := getShort_advance (k := 8) (b := c) (by omega)
  have hleft : (short c.array (c.index + 8)).toNat ≤ (c.advance 10).remaining := by
    rw [c.advance_remaining]
    omega
  have hdata := ByteBuffer.getBytes_ok _ hleft
  rw [c.advance_advance] at hdata
  rw [c.advance_zero] at htype
  simp only [Resource.fromBytes, Reader.bind_apply, Reader.get_apply, Reader.pure_apply, ok_bind, h, htype,
    Nat.zero_add, Nat.add_zero, hclass, httl, hlength, hdata]

end

namespace DNSPacket

/-- `arrayOfNulls(count.toInt())`: the number of records to read. -/
def arrayOfNulls (count : Short) : Except Throwable Nat :=
  if count.toInt < 0 then .error .negativeArraySize else .ok count.toInt.toNat

/-- The loop over the indices of an array. -/
def readAll {α : Type} (read : Reader α) : Nat → Reader (List α)
  | 0 => return []
  | count + 1 => do
    let record ← read
    let records ← readAll read count
    return record :: records

/-- Too many records for a packet that is handled. -/
def Oversized (header : DNSHeader) : Prop :=
  2 < header.mQuestionCount.toInt ∨ 50 < header.mResourceCount.toInt ∨
    50 < header.mAResourceCount.toInt ∨ 50 < header.mEResourceCount.toInt

instance (header : DNSHeader) : Decidable (Oversized header) :=
  inferInstanceAs (Decidable (_ ∨ _))

/-- The records, in the order in which the arrays are allocated and read. -/
def readRecords (depth : Nat) (Header : DNSHeader) (Size : Nat) : Reader DNSPacket := do
  let questions ← arrayOfNulls Header.mQuestionCount
  let resources ← arrayOfNulls Header.mResourceCount
  let aResources ← arrayOfNulls Header.mAResourceCount
  let eResources ← arrayOfNulls Header.mEResourceCount
  let Questions ← readAll (Question.fromBytes depth) questions
  let Resources ← readAll (Resource.fromBytes depth) resources
  let AResources ← readAll (Resource.fromBytes depth) aResources
  let EResources ← readAll (Resource.fromBytes depth) eResources
  return { Header, Questions, Resources, AResources, EResources, Size }

def fromBytes (depth : Nat) (buffer : ByteBuffer Byte) : Except Throwable (Option DNSPacket) :=
  if buffer.limit < 12 then .ok none
  else if 512 < buffer.limit then .ok none
  else do
    let (header, rest) ← DNSHeader.fromBytes buffer
    if Oversized header then
      return none
    let (packet, _) ← readRecords depth header buffer.limit rest
    return some packet

theorem readRecords_header {depth size : Nat} {header : DNSHeader} {b b' : ByteBuffer Byte}
    {packet : DNSPacket} (h : readRecords depth header size b = .ok (packet, b')) :
    packet.Header = header ∧ packet.Size = size := by
  simp only [readRecords, Reader.bind_apply, Reader.lift_apply, Reader.pure_apply, bind_eq_ok] at h
  obtain ⟨_, _, _, _, _, _, _, _, _, _, _, _, _, _, _, _, hpacket⟩ := h
  cases hpacket
  exact ⟨rfl, rfl⟩

/-- What an accepted packet tells about the buffer it was read from. -/
theorem fromBytes_some {depth : Nat} {b : ByteBuffer Byte} {packet : DNSPacket}
    (hpos : b.position = 0) (h : fromBytes depth b = .ok (some packet)) :
    packet.Size = b.limit ∧ 12 ≤ packet.Size ∧ packet.Size ≤ 512 ∧
      packet.Header.mOffset = b.arrayOffset ∧ packet.Header.mID = short b.array b.arrayOffset := by
  have hindex : b.index = b.arrayOffset := by rw [ByteBuffer.index, hpos, Nat.add_zero]
  unfold fromBytes at h
  split at h
  · cases h
  next hmin =>
    split at h
    · cases h
    next hmax =>
      have hrem : 12 ≤ b.remaining := by
        rw [b.remaining_eq_limit hpos]
        omega
      rw [header_fromBytes hrem, ok_bind] at h
      simp only at h
      split at h
      · cases h
      next hcounts =>
        obtain ⟨⟨packet', b'⟩, hread, hsome⟩ := bind_eq_ok.mp h
        cases hsome
        obtain ⟨hheader, hsize⟩ := readRecords_header hread
        rw [hheader, hsize, headerAt, hindex]
        exact ⟨rfl, by omega, by omega, rfl, rfl⟩

end DNSPacket

end SmartSocks.Dns
