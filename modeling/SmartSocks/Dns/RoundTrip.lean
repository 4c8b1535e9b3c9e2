import SmartSocks.Dns.Reads
import SmartSocks.Dns.NameCosts

/-!
# Writing and reading a packet

What `ToBytes` writes is read back if all names are the root. Any other name is
read with at least one byte more than it was written with, unless a byte is
taken for a pointer, and then the packet is not read back.
-/

namespace SmartSocks.Dns

open Jvm EasyValue Strings DNSPacket

-- ---------------------------------------------------------------------------
-- The round trip
-- ---------------------------------------------------------------------------

/-- The records of two packets agree. -/
structure SameRecords (packet result : DNSPacket) : Prop where
  questions : result.Questions.map (·.content) = packet.Questions.map (·.content)
  resources : result.Resources.map (·.content) = packet.Resources.map (·.content)
  aResources : result.AResources.map (·.content) = packet.AResources.map (·.content)
  eResources : result.EResources.map (·.content) = packet.EResources.map (·.content)

/-- The headers agree, apart from the offset in the array. -/
structure SameHeader (header result : DNSHeader) : Prop where
  id : result.mID = header.mID
  flags : result.mDNSFlags = header.mDNSFlags
  questions : result.mQuestionCount = header.mQuestionCount
  resources : result.mResourceCount = header.mResourceCount
  aResources : result.mAResourceCount = header.mAResourceCount
  eResources : result.mEResourceCount = header.mEResourceCount

/-- `FromBytes` gives `packet` and leaves the buffer at `rest`. -/
def ReadsPacket (depth : Nat) (b : ByteBuffer Byte) (packet : DNSPacket) (rest : ByteBuffer Byte) : Prop :=
  fromBytes depth b = .ok (some packet) ∧
    readRecords depth (headerAt b) b.limit (b.advance 12) = .ok (packet, rest)

/-- What `ToBytes` puts into `b`, `FromBytes` reads back to the last byte. -/
def RoundTrips (packet : DNSPacket) (b : ByteBuffer Byte) : Prop :=
  ∃ written c, packet.toBytes b = .ok (written, c) ∧
    ∃ bound, ∀ depth, bound ≤ depth → ∃ result rest, ReadsPacket depth c.flip result rest ∧
      rest.remaining = 0 ∧ SameHeader packet.counted result.Header ∧ SameRecords packet result

section
variable {packet : DNSPacket} {b : ByteBuffer Byte}

/-- The cost of a row depends on what the records contain. -/
theorem rowCost_congr {α γ : Type} (cost : α → Nat) {content : α → γ} (price : γ → Nat)
    (hcost : ∀ x, cost x = price (content x)) {records results : List α}
    (h : results.map content = records.map content) : rowCost cost results = rowCost cost records := by
  have hrow (row : List α) : rowCost cost row = ((row.map content).map price).sum := by
    rw [rowCost, List.map_map]
    exact congrArg List.sum (List.map_congr_left fun x _ => hcost x)
  rw [hrow, hrow, h]

theorem SameRecords.cost_eq {result : DNSPacket} (h : SameRecords packet result) :
    result.cost = packet.cost := by
  have hquestions : rowCost Question.cost result.Questions = rowCost Question.cost packet.Questions :=
    rowCost_congr Question.cost (fun x => nameCost x.1 + 4) (fun _ => rfl) h.questions
  have hrow {records results : List Resource} (h : results.map (·.content) = records.map (·.content)) :
      rowCost Resource.cost results = rowCost Resource.cost records :=
    rowCost_congr Resource.cost (fun x => nameCost x.1 + 10 + x.2.2.2.2.length) (fun _ => rfl) h
  rw [DNSPacket.cost, DNSPacket.cost, hquestions, hrow h.resources, hrow h.aResources, hrow h.eResources]

theorem reads_header (h : DNSHeader) : Reads DNSHeader.fromBytes h.bytes fun header =>
    SameHeader { h with mDNSFlags := DNSFlags.parse h.mDNSFlags.toShort } header := by
  have hbytes : h.bytes = [] ++ (shortBytes h.mID ++ (shortBytes h.mDNSFlags.toShort ++
      (shortBytes h.mQuestionCount ++ (shortBytes h.mResourceCount ++ (shortBytes h.mAResourceCount ++
        (shortBytes h.mEResourceCount ++ [])))))) := by
    rw [List.append_nil]
    rfl
  rw [hbytes]
  refine reads_get.bind fun b _ => (reads_getShort h.mID).bind fun id hid =>
    (reads_getShort h.mDNSFlags.toShort).bind fun flags hflags =>
    (reads_getShort h.mQuestionCount).bind fun questions hquestions =>
    (reads_getShort h.mResourceCount).bind fun resources hresources =>
    (reads_getShort h.mAResourceCount).bind fun aResources haResources =>
    (reads_getShort h.mEResourceCount).bind fun eResources heResources => reads_pure ?_
  exact ⟨hid, congrArg DNSFlags.parse hflags, hquestions, hresources, haResources, heResources⟩

theorem reads_arrayOfNulls {count : Short} {n : Nat} (hn : n < 2 ^ 15) (h : count = BitVec.ofNat 16 n) :
    Reads (liftM (arrayOfNulls count) : Reader Nat) [] (· = n) := by
  intro b rest _
  refine ⟨n, ?_, rfl⟩
  rw [Reader.lift_apply, arrayOfNulls, h, toInt_ofNat_short hn, if_neg (by omega), List.length_nil, b.advance_zero]
  rfl

theorem data_lt {records : List Resource} {r : Resource} (hmem : r ∈ records)
    (hlength : (records.flatMap Resource.bytes).length ≤ 512) : r.Data.length < 2 ^ 16 := by
  have hsub := List.sublist_flatten_of_mem (List.mem_map_of_mem (f := Resource.bytes) hmem)
  rw [← List.flatMap_def] at hsub
  have hle := hsub.length_le
  rw [length_resource] at hle
  omega

/-- A row of resources is read if all names are the root. -/
theorem reads_resources {records : List Resource} (hroot : ∀ r ∈ records, r.Domain = [])
    (hlength : (records.flatMap Resource.bytes).length ≤ 512) (depth : Nat) :
    Reads (readAll (Resource.fromBytes (depth + 1)) records.length) (records.flatMap Resource.bytes)
      fun out => out.map (·.content) = records.map (·.content) :=
  reads_readAll fun r hmem => reads_resource (hroot r hmem) (data_lt hmem hlength) depth

/-- The records are read if all names are the root. -/
theorem reads_readRecords {header : DNSHeader} (hlimited : packet.Limited)
    (hlength : packet.bytes.length ≤ 512) (hroot : ∀ domain ∈ packet.names, domain = [])
    (hheader : SameHeader { packet.counted with mDNSFlags := header.mDNSFlags } header) (depth size : Nat) :
    Reads (readRecords (depth + 1) header size) packet.recordBytes fun result =>
      result.Header = header ∧ SameRecords packet result := by
  have hq := hlimited.questions
  have hr := hlimited.resources
  have ha := hlimited.aResources
  have he := hlimited.eResources
  simp only [DNSPacket.names, List.forall_mem_append, List.forall_mem_map] at hroot
  simp only [DNSPacket.bytes, List.length_append] at hlength
  have hbytes : packet.recordBytes = [] ++ ([] ++ ([] ++ ([] ++ (packet.Questions.flatMap Question.bytes ++
      (packet.Resources.flatMap Resource.bytes ++ (packet.AResources.flatMap Resource.bytes ++
        (packet.EResources.flatMap Resource.bytes ++ []))))))) := by
    rw [List.append_nil]
    rfl
  rw [hbytes]
  refine (reads_arrayOfNulls (by omega) hheader.questions).bind ?_
  rintro _ rfl
  refine (reads_arrayOfNulls (by omega) hheader.resources).bind ?_
  rintro _ rfl
  refine (reads_arrayOfNulls (by omega) hheader.aResources).bind ?_
  rintro _ rfl
  refine (reads_arrayOfNulls (by omega) hheader.eResources).bind ?_
  rintro _ rfl
  refine (reads_readAll fun q hmem => reads_question (hroot.1 q hmem) depth).bind fun questions hquestions => ?_
  refine (reads_resources hroot.2.1 (by omega) depth).bind fun resources hresources => ?_
  refine (reads_resources hroot.2.2.1 (by omega) depth).bind fun aResources haResources => ?_
  refine (reads_resources hroot.2.2.2 (by omega) depth).bind fun eResources heResources => ?_
  exact reads_pure ⟨rfl, hquestions, hresources, haResources, heResources⟩

/-- What `ToBytes` puts. -/
theorem written_left (hroom : packet.bytes.length ≤ b.remaining) (hpos : b.position = 0) :
    (b.store packet.bytes).flip.left = packet.bytes := by
  rw [ByteBuffer.flip_left, b.store_drained hroom, ByteBuffer.drained, hpos]
  rfl

theorem roundTrips_of_root (hlimited : packet.Limited) (hlength : packet.bytes.length ≤ 512)
    (hroom : packet.bytes.length ≤ b.remaining) (hpos : b.position = 0)
    (hroot : ∀ domain ∈ packet.names, domain = []) (hflags : packet.Header.mDNSFlags.Fits) :
    RoundTrips packet b := by
  obtain ⟨written, hput⟩ := puts_packet hlimited b hroom
  refine ⟨written, _, hput, 1, fun depth hdepth => ?_⟩
  obtain ⟨depth, rfl⟩ := Nat.exists_eq_add_of_le' hdepth
  have hleft : (b.store packet.bytes).flip.left = packet.counted.bytes ++ packet.recordBytes :=
    written_left hroom hpos
  have hsize : (b.store packet.bytes).flip.remaining = 12 + packet.recordBytes.length := by
    rw [← ByteBuffer.length_left, hleft, List.length_append, length_header]
  have hlimit : (b.store packet.bytes).flip.limit = packet.bytes.length := by
    rw [ByteBuffer.flip_limit, b.store_position hroom, hpos, Nat.zero_add]
  have hlong : packet.bytes.length = 12 + packet.recordBytes.length := List.length_append
  generalize (b.store packet.bytes).flip = c at hleft hsize hlimit
  obtain ⟨header, hread, hheader⟩ := reads_header packet.counted c _ hleft
  rw [header_fromBytes (by omega)] at hread
  cases hread
  have hrest : (c.advance 12).left = packet.recordBytes ++ [] := by
    rw [List.append_nil]
    exact left_advance hleft
  obtain ⟨result, hrecords, hresult, hsame⟩ :=
    reads_readRecords hlimited hlength hroot { hheader with flags := rfl } depth c.limit _ _ hrest
  have hcounts : ¬ Oversized (headerAt c) := by
    have hq := hlimited.questions
    have hr := hlimited.resources
    have ha := hlimited.aResources
    have he := hlimited.eResources
    rw [Oversized, hheader.questions, hheader.resources, hheader.aResources, hheader.eResources]
    simp only [DNSPacket.counted]
    rw [toInt_ofNat_short (by omega), toInt_ofNat_short (by omega), toInt_ofNat_short (by omega), toInt_ofNat_short (by omega)]
    omega
  refine ⟨result, _, ⟨?_, hrecords⟩, ?_, ?_, hsame⟩
  · rw [fromBytes, if_neg (by omega), if_neg (by omega), header_fromBytes (by omega), ok_bind]
    exact (if_neg hcounts).trans (congrArg (· >>= _) hrecords)
  · rw [ByteBuffer.advance_remaining, ByteBuffer.advance_remaining]
    omega
  · rw [hresult]
    exact { hheader with flags := hheader.flags.trans (parse_toShort hflags) }

theorem root_of_roundTrips (hlimited : packet.Limited) (hroom : packet.bytes.length ≤ b.remaining)
    (hpos : b.position = 0) (h : RoundTrips packet b) : packet.Header.mDNSFlags.Fits ∧
      ((∀ domain ∈ packet.names, domain = []) ∨ ∃ x ∈ packet.bytes, IsPointer x) := by
  obtain ⟨written, c, hwrite, bound, hread⟩ := h
  obtain ⟨written', hput⟩ := puts_packet hlimited b hroom
  obtain ⟨-, rfl⟩ : written' = written ∧ b.store packet.bytes = c :=
    Prod.ext_iff.mp (Except.ok.inj (hput.symm.trans hwrite))
  obtain ⟨result, rest, ⟨-, hrecords⟩, hrest, hheader, hsame⟩ := hread bound (Nat.le_refl bound)
  have hleft := written_left hroom hpos
  refine ⟨?_, ?_⟩
  · have hflags : result.Header.mDNSFlags = packet.Header.mDNSFlags := hheader.flags
    rw [← hflags, (readRecords_header hrecords).1]
    exact fits_parse _
  · by_cases hpointer : ∃ x ∈ packet.bytes, IsPointer x
    · exact .inr hpointer
    · refine .inl (root_of_cost ?_)
      have hclear : Clear (b.store packet.bytes).flip := fun x hx hptr => hpointer ⟨x, hleft ▸ hx, hptr⟩
      have htotal : (b.store packet.bytes).flip.remaining = packet.bytes.length := by
        rw [← ByteBuffer.length_left, hleft]
      have hlong : 12 ≤ (b.store packet.bytes).flip.remaining := by
        rw [htotal, DNSPacket.bytes, List.length_append, length_header]
        exact Nat.le_add_right _ _
      obtain ⟨hcost, -⟩ := costs_readRecords bound _ _ _ result rest (hclear.advance hlong) hrecords
      rw [hsame.cost_eq, ByteBuffer.advance_remaining, htotal] at hcost
      omega

/-- A packet survives if its flags fit and every name is the root. No other packet
survives, unless a byte of it is taken for a pointer. -/
theorem survives_when_root (hlimited : packet.Limited) (hlength : packet.bytes.length ≤ 512)
    (hroom : packet.bytes.length ≤ b.remaining) (hpos : b.position = 0) :
    (packet.Header.mDNSFlags.Fits ∧ (∀ domain ∈ packet.names, domain = []) → RoundTrips packet b) ∧
      (RoundTrips packet b → packet.Header.mDNSFlags.Fits ∧
        ((∀ domain ∈ packet.names, domain = []) ∨ ∃ x ∈ packet.bytes, IsPointer x)) :=
  ⟨fun h => roundTrips_of_root hlimited hlength hroom hpos h.2 h.1,
    root_of_roundTrips hlimited hroom hpos⟩

end

-- ---------------------------------------------------------------------------
-- Two packets
-- ---------------------------------------------------------------------------

/-- A query for one name. -/
def query (domain : List Char) : DNSPacket where
  Header := ⟨0, 1, ⟨false, 0, false, false, true, false, 0, 0⟩, 0, 0, 0, 0⟩
  Questions := [⟨domain, 1, 1, 0, 0⟩]
  Resources := []
  AResources := []
  EResources := []
  Size := 0

/-- `ByteBuffer.allocate(512)` -/
def emptyBuffer : ByteBuffer Byte := ByteBuffer.allocate 0 512

theorem root_query_survives : RoundTrips (query []) emptyBuffer :=
  (survives_when_root ⟨by decide, by decide, by decide, by decide⟩ (by decide) (by decide) rfl).1
    ⟨by decide, by decide⟩

/-- The names `WriteDomain` should write. -/
def ValidName (domain : List Char) : Prop :=
  domain = [] ∨ (∀ item ∈ Strings.splitAt '.' domain, item ≠ [] ∧ item.length ≤ 63) ∧ domain.length + 2 ≤ 255 ∧
    ∀ c ∈ domain, c.toNat < 256

/-- A query for `a.b` is not read back. -/
theorem query_not_survives : ¬ ∀ (packet : DNSPacket) (b : ByteBuffer Byte), packet.Limited →
    (∀ domain ∈ packet.names, ValidName domain) → packet.bytes.length ≤ 512 →
    packet.bytes.length ≤ b.remaining → b.position = 0 → packet.Header.mDNSFlags.Fits →
    RoundTrips packet b := by
  intro hall
  have hchars : ∀ c ∈ ['a', '.', 'b'], c.toNat < 256 :=
    List.forall_mem_cons.mpr ⟨by decide, List.forall_mem_cons.mpr
      ⟨by decide, List.forall_mem_singleton.mpr (by decide)⟩⟩
  have hvalid : ∀ domain ∈ (query ['a', '.', 'b']).names, ValidName domain :=
    List.forall_mem_singleton.mpr (.inr ⟨by decide, by decide, hchars⟩)
  have hsurvives := hall (query ['a', '.', 'b']) emptyBuffer ⟨by decide, by decide, by decide, by decide⟩ hvalid
    (by decide) (by decide) rfl (by decide)
  obtain ⟨-, hroot | hpointer⟩ := root_of_roundTrips ⟨by decide, by decide, by decide, by decide⟩
    (by decide) rfl hsurvives
  · exact absurd hroot (by decide)
  · exact absurd hpointer (by decide)

end SmartSocks.Dns
