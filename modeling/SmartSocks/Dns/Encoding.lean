import SmartSocks.Dns.DNSPacket
import SmartSocks.Utils.Strings

/-!
# `DNSPacket.ToBytes`

A packet is written by relative puts, so with enough room it is one put of its
bytes. `WriteDomain` writes no byte behind the last label, and none before the
only label of a name.
-/

namespace SmartSocks.Dns

open Jvm EasyValue Strings

/-- `buffer.put(xs)`, also as the bytes of a short or of an int. -/
def putBytes (xs : List Byte) : Reader Unit := fun buffer => do
  let buffer ← buffer.put xs
  return ((), buffer)

def DNSFlags.toShort (f : DNSFlags) : Short :=
  BitVec.ofNat 16 (f.QR.toNat <<< 7 ||| (f.OpCode &&& 0x0F) <<< 3 ||| f.AA.toNat <<< 2 |||
    f.TC.toNat <<< 1 ||| f.RD.toNat ||| f.RA.toNat <<< 15 ||| (f.Zero &&& 0x07) <<< 12 |||
    (f.Rcode &&& 0x0F) <<< 8)

def DNSHeader.toBytes (h : DNSHeader) : Reader Unit := do
  putBytes (shortBytes h.mID)
  putBytes (shortBytes h.mDNSFlags.toShort)
  putBytes (shortBytes h.mQuestionCount)
  putBytes (shortBytes h.mResourceCount)
  putBytes (shortBytes h.mAResourceCount)
  putBytes (shortBytes h.mEResourceCount)

/-- `codePointAt` at each UTF-16 unit of a character: the second half of a pair stands for itself. -/
def codePointAt (c : Char) : List Nat :=
  if c.toNat < 0x10000 then [c.toNat] else [c.toNat, 0xDC00 + (c.toNat - 0x10000) % 0x400]

/-- `item.codePointAt(i)` for `i` in `0 until item.length`. -/
def codePoints (item : List Char) : List Nat := item.flatMap codePointAt

/-- `domain.split("\\.".toRegex()).dropLastWhile { it.isEmpty() }` -/
def domainItems (domain : List Char) : List (List Char) := dropLastEmpty (Strings.splitAt '.' domain)

def writeDomain (domain : List Char) : Reader Unit := do
  if domain = [] then
    putBytes [0]
  else
    (domainItems domain).forM fun item => do
      if 1 < (domainItems domain).length then
        putBytes [BitVec.ofNat 8 (codePoints item).length]
      (codePoints item).forM fun codePoint => putBytes [BitVec.ofNat 8 codePoint]

def Question.toBytes (q : Question) : Reader Question := do
  let offset := (← get).position
  writeDomain q.Domain
  putBytes (shortBytes q.Type')
  putBytes (shortBytes q.Class)
  return { q with offset, length := (← get).position - offset }

def Resource.toBytes (r : Resource) : Reader Resource := do
  let DataLength : Short := BitVec.ofNat 16 r.Data.length
  let offset := (← get).position
  writeDomain r.Domain
  putBytes (shortBytes r.Type')
  putBytes (shortBytes r.Class)
  putBytes (intBytes r.TTL)
  putBytes (shortBytes DataLength)
  putBytes r.Data
  return { r with DataLength, offset, length := (← get).position - offset }

namespace DNSPacket

/-- `for (i in 0 until count)` over an array that is written in place. -/
def writeAll {α : Type} (write : α → Reader α) (count : Short) (records : List α) : Reader (List α) := do
  let written ← (records.take count.toInt.toNat).mapM write
  return written ++ records.drop count.toInt.toNat

def toBytes (packet : DNSPacket) : Reader DNSPacket := do
  let Header := { packet.Header with
    mQuestionCount := BitVec.ofNat 16 packet.Questions.length
    mResourceCount := BitVec.ofNat 16 packet.Resources.length
    mAResourceCount := BitVec.ofNat 16 packet.AResources.length
    mEResourceCount := BitVec.ofNat 16 packet.EResources.length }
  Header.toBytes
  let Questions ← writeAll Question.toBytes Header.mQuestionCount packet.Questions
  let Resources ← writeAll Resource.toBytes Header.mResourceCount packet.Resources
  let AResources ← writeAll Resource.toBytes Header.mAResourceCount packet.AResources
  let EResources ← writeAll Resource.toBytes Header.mEResourceCount packet.EResources
  return { packet with Header, Questions, Resources, AResources, EResources }

end DNSPacket

-- ---------------------------------------------------------------------------
-- Programs that put bytes
-- ---------------------------------------------------------------------------

/-- With enough room, all the program does to the buffer is to put `xs`. -/
def Puts {α : Type} (m : Reader α) (xs : List Byte) : Prop :=
  ∀ b : ByteBuffer Byte, xs.length ≤ b.remaining → ∃ a, m b = .ok (a, b.store xs)

section
variable {α β : Type} {m : Reader α} {xs ys : List Byte}

theorem puts_putBytes (xs : List Byte) : Puts (putBytes xs) xs := by
  intro b h
  refine ⟨(), ?_⟩
  rw [putBytes, b.put_ok h]
  rfl

theorem puts_pure (a : α) : Puts (pure a : Reader α) [] := fun b _ => ⟨a, by rw [b.store_nil]; rfl⟩

theorem puts_get : Puts (get : Reader (ByteBuffer Byte)) [] := fun b _ => ⟨b, by rw [b.store_nil]; rfl⟩

theorem Puts.bind {k : α → Reader β} (hm : Puts m xs) (hk : ∀ a, Puts (k a) ys) :
    Puts (m >>= k) (xs ++ ys) := by
  intro b h
  rw [List.length_append] at h
  obtain ⟨a, ha⟩ := hm b (Nat.le_of_add_right_le h)
  obtain ⟨a', ha'⟩ := hk a (b.store xs) (by rw [b.store_remaining (by omega)]; omega)
  refine ⟨a', ?_⟩
  rw [Reader.bind_apply, ha, ok_bind, ha', b.store_store (by omega)]

theorem Puts.ite {c : Prop} [Decidable c] {n : Reader α} (hm : Puts m xs) (hn : Puts n ys) :
    Puts (if c then m else n) (if c then xs else ys) := by
  split
  · exact hm
  · exact hn

theorem puts_forM {f : β → Reader PUnit} {g : β → List Byte} (h : ∀ x, Puts (f x) (g x)) (items : List β) :
    Puts (items.forM f) (items.flatMap g) := by
  induction items with
  | nil => exact puts_pure _
  | cons x items ih => exact (h x).bind fun _ => ih

theorem puts_mapM {f : β → Reader α} {g : β → List Byte} (h : ∀ x, Puts (f x) (g x)) (items : List β) :
    Puts (items.mapM f) (items.flatMap g) := by
  induction items with
  | nil => exact puts_pure _
  | cons x items ih =>
    rw [List.mapM_cons, List.flatMap_cons, ← List.append_nil (items.flatMap g)]
    exact (h x).bind fun _ => ih.bind fun _ => puts_pure _

end

-- ---------------------------------------------------------------------------
-- The bytes of a packet
-- ---------------------------------------------------------------------------

/-- A label, with its length if it is not the only one. -/
def itemBytes (many : Bool) (item : List Char) : List Byte :=
  (if many then [BitVec.ofNat 8 (codePoints item).length] else []) ++ (codePoints item).map (BitVec.ofNat 8)

def domainBytes (domain : List Char) : List Byte :=
  if domain = [] then [0]
  else (domainItems domain).flatMap (itemBytes (1 < (domainItems domain).length))

def DNSHeader.bytes (h : DNSHeader) : List Byte :=
  shortBytes h.mID ++ (shortBytes h.mDNSFlags.toShort ++ (shortBytes h.mQuestionCount ++
    (shortBytes h.mResourceCount ++ (shortBytes h.mAResourceCount ++ shortBytes h.mEResourceCount))))

def Question.bytes (q : Question) : List Byte :=
  domainBytes q.Domain ++ (shortBytes q.Type' ++ shortBytes q.Class)

def Resource.bytes (r : Resource) : List Byte :=
  domainBytes r.Domain ++ (shortBytes r.Type' ++ (shortBytes r.Class ++ (intBytes r.TTL ++
    (shortBytes (BitVec.ofNat 16 r.Data.length) ++ r.Data))))

namespace DNSPacket

/-- The header with the lengths of the sections. -/
def counted (packet : DNSPacket) : DNSHeader :=
  { packet.Header with
    mQuestionCount := BitVec.ofNat 16 packet.Questions.length
    mResourceCount := BitVec.ofNat 16 packet.Resources.length
    mAResourceCount := BitVec.ofNat 16 packet.AResources.length
    mEResourceCount := BitVec.ofNat 16 packet.EResources.length }

def bytes (packet : DNSPacket) : List Byte :=
  packet.counted.bytes ++ (packet.Questions.flatMap Question.bytes ++
    (packet.Resources.flatMap Resource.bytes ++ (packet.AResources.flatMap Resource.bytes ++
      packet.EResources.flatMap Resource.bytes)))

/-- Not more records than `FromBytes` takes. -/
structure Limited (packet : DNSPacket) : Prop where
  questions : packet.Questions.length ≤ 2
  resources : packet.Resources.length ≤ 50
  aResources : packet.AResources.length ≤ 50
  eResources : packet.EResources.length ≤ 50

end DNSPacket

theorem puts_writeDomain (domain : List Char) : Puts (writeDomain domain) (domainBytes domain) := by
  refine (puts_putBytes [0]).ite (puts_forM (fun item => ?_) _)
  have hitem : (codePoints item).flatMap (fun codePoint => [BitVec.ofNat 8 codePoint]) =
      (codePoints item).map (BitVec.ofNat 8) := List.flatMap_pure_eq_map (BitVec.ofNat 8) (codePoints item)
  have hchars : Puts ((codePoints item).forM fun codePoint => putBytes [BitVec.ofNat 8 codePoint])
      ((codePoints item).map (BitVec.ofNat 8)) :=
    hitem ▸ puts_forM (fun codePoint => puts_putBytes [BitVec.ofNat 8 codePoint]) (codePoints item)
  unfold itemBytes
  by_cases hmany : 1 < (domainItems domain).length
  · simp only [hmany, if_true, decide_true]
    exact (puts_putBytes _).bind fun _ => hchars
  · simp only [hmany, if_false, decide_false, Bool.false_eq_true, List.nil_append]
    exact hchars

theorem puts_question (q : Question) : Puts q.toBytes q.bytes := by
  have hput := fun offset : Nat => (puts_writeDomain q.Domain).bind fun _ =>
    (puts_putBytes (shortBytes q.Type')).bind fun _ => (puts_putBytes (shortBytes q.Class)).bind fun _ =>
    puts_get.bind fun b => puts_pure ({ q with offset, length := b.position - offset } : Question)
  have hwrite : Puts q.toBytes _ := puts_get.bind fun b => hput b.position
  simp only [List.nil_append, List.append_nil] at hwrite
  exact hwrite

theorem puts_resource (r : Resource) : Puts r.toBytes r.bytes := by
  have hput := fun offset : Nat => (puts_writeDomain r.Domain).bind fun _ =>
    (puts_putBytes (shortBytes r.Type')).bind fun _ => (puts_putBytes (shortBytes r.Class)).bind fun _ =>
    (puts_putBytes (intBytes r.TTL)).bind fun _ =>
    (puts_putBytes (shortBytes (BitVec.ofNat 16 r.Data.length))).bind fun _ =>
    (puts_putBytes r.Data).bind fun _ => puts_get.bind fun b =>
      puts_pure ({ r with
        DataLength := BitVec.ofNat 16 r.Data.length
        offset
        length := b.position - offset } : Resource)
  have hwrite : Puts r.toBytes _ := puts_get.bind fun b => hput b.position
  simp only [List.nil_append, List.append_nil] at hwrite
  exact hwrite

theorem puts_header (h : DNSHeader) : Puts h.toBytes h.bytes :=
  (puts_putBytes _).bind fun _ => (puts_putBytes _).bind fun _ => (puts_putBytes _).bind fun _ =>
    (puts_putBytes _).bind fun _ => (puts_putBytes _).bind fun _ => puts_putBytes _

/-- All records are written if there are not too many. -/
theorem puts_writeAll {α : Type} {write : α → Reader α} {bytes : α → List Byte}
    (h : ∀ record, Puts (write record) (bytes record)) (records : List α)
    (hcount : records.length < 2 ^ 15) :
    Puts (DNSPacket.writeAll write (BitVec.ofNat 16 records.length) records) (records.flatMap bytes) := by
  have hall : (BitVec.ofNat 16 records.length : Short).toInt.toNat = records.length := by
    rw [toInt_ofNat_short hcount, Int.toNat_natCast]
  rw [DNSPacket.writeAll, hall, List.take_length, ← List.append_nil (records.flatMap bytes)]
  exact (puts_mapM h records).bind fun _ => puts_pure _

theorem puts_packet {packet : DNSPacket} (h : packet.Limited) : Puts packet.toBytes packet.bytes := by
  have hend := (puts_header packet.counted).bind fun _ =>
    (puts_writeAll puts_question packet.Questions (by have := h.questions; omega)).bind fun questions =>
    (puts_writeAll puts_resource packet.Resources (by have := h.resources; omega)).bind fun resources =>
    (puts_writeAll puts_resource packet.AResources (by have := h.aResources; omega)).bind fun aResources =>
    (puts_writeAll puts_resource packet.EResources (by have := h.eResources; omega)).bind fun eResources =>
      puts_pure ({ packet with
        Header := packet.counted
        Questions := questions
        Resources := resources
        AResources := aResources
        EResources := eResources } : DNSPacket)
  rw [List.append_nil] at hend
  exact hend

end SmartSocks.Dns
