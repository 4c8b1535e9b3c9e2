import SmartSocks.Dns.Accepts

/-!
# The extents of the records

`Offset()` and `Length()` of the questions and resources of a packet. A name
ends where its labels end in the message itself, with a root byte or behind a
pointer, wherever the pointer leads. So the records follow each other without a
gap from the end of the header to the position that the buffer is left at.
-/

namespace SmartSocks.Dns

open Jvm EasyValue DNSPacket

/-- Where the name at `p` ends; a pointer is two bytes, and is not followed. -/
def nameEnd (a : Bytes Byte) (stop p : Nat) : Nat :=
  if EndsAt a stop (labelsEnd a stop p) then labelsEnd a stop p + 1 else labelsEnd a stop p + 2

/-- Each extent starts where the one before ends. -/
def Tiles : Nat → List (Nat × Nat) → Nat → Prop
  | start, [], stop => start = stop
  | start, (offset, length) :: extents, stop => offset = start ∧ Tiles (offset + length) extents stop

theorem Tiles.append {start mid stop : Nat} {xs ys : List (Nat × Nat)} (hxs : Tiles start xs mid)
    (hys : Tiles mid ys stop) : Tiles start (xs ++ ys) stop := by
  induction xs generalizing start with
  | nil =>
    cases hxs
    exact hys
  | cons x xs ih => exact ⟨hxs.1, ih hxs.2⟩

def Question.extent (q : Question) : Nat × Nat := (q.offset, q.length)

def Resource.extent (r : Resource) : Nat × Nat := (r.offset, r.length)

namespace DNSPacket

/-- The questions, and the resources of the three sections in order. -/
def extents (packet : DNSPacket) : List (Nat × Nat) :=
  packet.Questions.map Question.extent ++ (packet.Resources.map Resource.extent ++
    (packet.AResources.map Resource.extent ++ packet.EResources.map Resource.extent))

/-- `FromBytes`, with the buffer as it is left. -/
def consume (depth : Nat) (buffer : ByteBuffer Byte) :
    Except Throwable (Option (DNSPacket × ByteBuffer Byte)) :=
  if buffer.limit < 12 then .ok none
  else if 512 < buffer.limit then .ok none
  else do
    let (header, rest) ← DNSHeader.fromBytes buffer
    if Oversized header then
      return none
    let (packet, reached) ← readRecords depth header buffer.limit rest
    return some (packet, reached)

theorem fromBytes_eq_consume (depth : Nat) (buffer : ByteBuffer Byte) :
    fromBytes depth buffer = (Option.map Prod.fst) <$> consume depth buffer := by
  unfold fromBytes consume
  split
  · rfl
  split
  · rfl
  cases DNSHeader.fromBytes buffer with
  | error e => rfl
  | ok r =>
    simp only [ok_bind]
    split
    · rfl
    · cases readRecords depth r.1 buffer.limit r.2 with
      | error e => rfl
      | ok r' => rfl

end DNSPacket

-- ---------------------------------------------------------------------------
-- Names
-- ---------------------------------------------------------------------------

/-- The same bytes up to the same limit, at any position. -/
structure SameBytes (b c : ByteBuffer Byte) : Prop where
  array : c.array = b.array
  arrayOffset : c.arrayOffset = b.arrayOffset
  limit : c.limit = b.limit

instance : IsPreorder (ByteBuffer Byte) SameBytes where
  refl _ := ⟨rfl, rfl, rfl⟩
  trans _ _ _ h h' := ⟨h'.array.trans h.array, h'.arrayOffset.trans h.arrayOffset, h'.limit.trans h.limit⟩

section
variable {depth : Nat} {name : List Char} {b c d : ByteBuffer Byte}

theorem sameBytes_advance (b : ByteBuffer Byte) (k : Nat) : SameBytes b (b.advance k) := ⟨rfl, rfl, rfl⟩

theorem SameBytes.stop (h : SameBytes b c) : c.stop = b.stop := by
  rw [ByteBuffer.stop, h.arrayOffset, h.limit]
  rfl

/-- A name that is read takes its own bytes, and no others, from the buffer. -/
theorem nextDomain_end (h : nextDomain depth b = .ok (name, c)) :
    c = afterName b ∧ b.index ≤ nameEnd b.array b.stop b.index ∧ c.index = nameEnd b.array b.stop b.index := by
  obtain ⟨⟨d, hreach, hcloses⟩, rfl⟩ := settles_nextDomain.sound depth name c h
  have hlt : b.index < b.stop := by
    obtain rfl | ⟨d', hfollow, -⟩ := Chain.reaches_cases hreach
    · exact hcloses.1
    · exact (followPointer_eq_some.mp hfollow).1.1
  have hle := index_le_labelsStop b
  have hin : labelsStop b < b.stop := labelsEnd_lt hlt
  have hend : readEnd b = nameEnd b.array b.stop b.index := by
    unfold readEnd nameEnd Closes
    simp only [hlt, true_and]
    rfl
  have hstop : readEnd b ≤ b.stop := by
    by_cases hclose : Closes b
    · rw [readEnd, if_pos hclose]
      exact hin
    · have hlast : ¬ labelsStop b + 1 = b.stop := fun hlast => hclose ⟨hlt, .inr hlast⟩
      rw [readEnd, if_neg hclose]
      omega
  have hstart : b.index ≤ readEnd b := Nat.le_trans hle (Nat.le_of_lt (labelsStop_lt_readEnd b))
  rw [← hend]
  refine ⟨rfl, hstart, ?_⟩
  rw [afterName, b.advance_index (by omega)]
  omega

end

-- ---------------------------------------------------------------------------
-- Records
-- ---------------------------------------------------------------------------

/-- A record that was read: the bytes from its offset on, as many as its name and
what stands behind it. -/
structure Extent (b c : ByteBuffer Byte) (extent : Nat × Nat) (fields : Nat) : Prop where
  same : SameBytes b c
  offset : extent.1 = b.index
  length : extent.1 + extent.2 = c.index
  fields : extent.2 = nameEnd b.array b.stop extent.1 - extent.1 + fields

section
variable {depth : Nat} {b c : ByteBuffer Byte}

/-- A record whose fields are behind its name. -/
theorem extent_of_name {name : List Char} {c : ByteBuffer Byte} {fields : Nat}
    (hname : nextDomain depth b = .ok (name, c)) (hroom : fields ≤ c.remaining) :
    Extent b (c.advance fields) (b.index, (c.advance fields).index - b.index) fields := by
  obtain ⟨rfl, hstart, hend⟩ := nextDomain_end hname
  have hindex : ((afterName b).advance fields).index = (afterName b).index + fields := by
    refine (afterName b).advance_index ?_
    have hle := (afterName b).index_le_stop
    rw [(afterName b).remaining_eq] at hroom
    omega
  refine ⟨?_, rfl, ?_, ?_⟩
  · exact trans_of SameBytes (sameBytes_advance b _) (sameBytes_advance _ _)
  · omega
  · simp only [hindex, hend]
    omega

theorem question_extent {q : Question} (h : Question.fromBytes depth b = .ok (q, c)) :
    Extent b c q.extent 4 := by
  obtain ⟨⟨-, hroom⟩, -⟩ := settles_question.sound depth q c h
  have hname : ∃ name d, nextDomain depth b = .ok (name, d) := by
    simp only [Question.fromBytes, Reader.bind_apply, Reader.get_apply, ok_bind, bind_eq_ok] at h
    obtain ⟨⟨name, d⟩, hname, -⟩ := h
    exact ⟨name, d, hname⟩
  obtain ⟨name, d, hname⟩ := hname
  obtain ⟨rfl, -, -⟩ := nextDomain_end hname
  cases (question_fromBytes hname hroom).symm.trans h
  exact extent_of_name hname hroom

theorem resource_extent {r : Resource} (h : Resource.fromBytes depth b = .ok (r, c)) :
    Extent b c r.extent (10 + r.Data.length) := by
  obtain ⟨⟨-, hroom⟩, -⟩ := settles_resource.sound depth r c h
  have hname : ∃ name d, nextDomain depth b = .ok (name, d) := by
    simp only [Resource.fromBytes, Reader.bind_apply, Reader.get_apply, ok_bind, bind_eq_ok] at h
    obtain ⟨⟨name, d⟩, hname, -⟩ := h
    exact ⟨name, d, hname⟩
  obtain ⟨name, d, hname⟩ := hname
  obtain ⟨rfl, -, -⟩ := nextDomain_end hname
  cases (resource_fromBytes hname hroom).symm.trans h
  have hdata : (((afterName b).advance 10).left.take (dataLength b)).length = dataLength b := by
    have hlong : dataLength b ≤ ((afterName b).advance 10).left.length := by
      rw [ByteBuffer.length_left, ByteBuffer.advance_remaining]
      omega
    rw [List.length_take, Nat.min_eq_left hlong]
  obtain ⟨hsame, hoffset, hlength, hfields⟩ := extent_of_name hname hroom
  exact ⟨hsame, hoffset, hlength, hfields.trans (congrArg (fun length => _ + (10 + length)) hdata.symm)⟩

/-- The records of a section follow each other. -/
theorem readAll_tiles {α : Type} {read : Reader α} {extent : α → Nat × Nat} {fields : α → Nat}
    (hread : ∀ b c r, read b = .ok (r, c) → Extent b c (extent r) (fields r)) {count : Nat} {rs : List α}
    (h : readAll read count b = .ok (rs, c)) :
    SameBytes b c ∧ Tiles b.index (rs.map extent) c.index ∧
      ∀ r ∈ rs, (extent r).2 = nameEnd b.array b.stop (extent r).1 - (extent r).1 + fields r := by
  induction count generalizing b rs with
  | zero =>
    cases h
    exact ⟨refl _, rfl, fun _ hr => absurd hr List.not_mem_nil⟩
  | succ count ih =>
    simp only [readAll, Reader.bind_apply, Reader.pure_apply, bind_eq_ok] at h
    obtain ⟨⟨r, d⟩, hr, ⟨rest, d'⟩, hrest, hlast⟩ := h
    cases hlast
    obtain ⟨hsame, hoffset, hlength, hfields⟩ := hread b d r hr
    obtain ⟨hsame', htiles, hall⟩ := ih hrest
    refine ⟨trans_of SameBytes hsame hsame', ⟨hoffset, by rwa [hlength]⟩, ?_⟩
    rw [hsame.array, hsame.stop] at hall
    exact List.forall_mem_cons.mpr ⟨hfields, hall⟩

theorem getShort_ok {x : Short} (h : b.getShort = .ok (x, c)) : 2 ≤ b.remaining ∧ c = b.advance 2 := by
  unfold ByteBuffer.getShort at h
  split at h
  next hroom =>
    cases h
    exact ⟨hroom, rfl⟩
  next => cases h

theorem header_room {header : DNSHeader} (h : DNSHeader.fromBytes b = .ok (header, c)) : 12 ≤ b.remaining := by
  simp only [DNSHeader.fromBytes, Reader.bind_apply, Reader.get_apply, Reader.pure_apply, ok_bind,
    bind_eq_ok] at h
  obtain ⟨⟨id, b1⟩, h1, ⟨flags, b2⟩, h2, ⟨q, b3⟩, h3, ⟨r, b4⟩, h4, ⟨a, b5⟩, h5, ⟨e, b6⟩, h6, -⟩ := h
  obtain ⟨-, rfl⟩ := getShort_ok h1
  obtain ⟨-, rfl⟩ := getShort_ok h2
  obtain ⟨-, rfl⟩ := getShort_ok h3
  obtain ⟨-, rfl⟩ := getShort_ok h4
  obtain ⟨-, rfl⟩ := getShort_ok h5
  obtain ⟨hroom, -⟩ := getShort_ok h6
  simp only [ByteBuffer.advance_remaining] at hroom
  omega

end

-- ---------------------------------------------------------------------------
-- The message
-- ---------------------------------------------------------------------------

/-- The records of a packet tile what was read of the message. -/
structure Tiled (b : ByteBuffer Byte) (packet : DNSPacket) (reached : ByteBuffer Byte) : Prop where
  header : packet.Header.mOffset = b.index
  tiles : Tiles (packet.Header.mOffset + 12) packet.extents reached.index
  same : SameBytes b reached
  size : reached.position ≤ packet.Size
  questions : ∀ q ∈ packet.Questions, q.length = nameEnd b.array b.stop q.offset - q.offset + 4
  resources : ∀ r ∈ packet.Resources ++ (packet.AResources ++ packet.EResources),
    r.length = nameEnd b.array b.stop r.offset - r.offset + (10 + r.Data.length)

theorem readRecords_tiles {depth size : Nat} {header : DNSHeader} {b c : ByteBuffer Byte} {packet : DNSPacket}
    (h : readRecords depth header size b = .ok (packet, c)) :
    SameBytes b c ∧ Tiles b.index packet.extents c.index ∧
      (∀ q ∈ packet.Questions, q.length = nameEnd b.array b.stop q.offset - q.offset + 4) ∧
      ∀ r ∈ packet.Resources ++ (packet.AResources ++ packet.EResources),
        r.length = nameEnd b.array b.stop r.offset - r.offset + (10 + r.Data.length) := by
  simp only [readRecords, Reader.bind_apply, Reader.lift_apply, Reader.pure_apply, bind_eq_ok] at h
  obtain ⟨_, ⟨_, -, hq⟩, _, ⟨_, -, hr⟩, _, ⟨_, -, ha⟩, _, ⟨_, -, he⟩, ⟨questions, b1⟩, h1, ⟨resources, b2⟩, h2,
    ⟨aResources, b3⟩, h3, ⟨eResources, b4⟩, h4, hpacket⟩ := h
  cases hq
  cases hr
  cases ha
  cases he
  cases hpacket
  obtain ⟨hsame1, htiles1, hall1⟩ := readAll_tiles (fun _ _ _ => question_extent) h1
  obtain ⟨hsame2, htiles2, hall2⟩ := readAll_tiles (fun _ _ _ => resource_extent) h2
  obtain ⟨hsame3, htiles3, hall3⟩ := readAll_tiles (fun _ _ _ => resource_extent) h3
  obtain ⟨hsame4, htiles4, hall4⟩ := readAll_tiles (fun _ _ _ => resource_extent) h4
  have hsame2' := trans_of SameBytes hsame1 hsame2
  have hsame3' := trans_of SameBytes hsame2' hsame3
  rw [hsame1.array, hsame1.stop] at hall2
  rw [hsame2'.array, hsame2'.stop] at hall3
  rw [hsame3'.array, hsame3'.stop] at hall4
  exact ⟨trans_of SameBytes hsame3' hsame4, htiles1.append (htiles2.append (htiles3.append htiles4)), hall1,
    List.forall_mem_append.mpr ⟨hall2, List.forall_mem_append.mpr ⟨hall3, hall4⟩⟩⟩

/-- The records that `FromBytes` parses tile the message from behind its header. -/
theorem records_tile {depth : Nat} {b : ByteBuffer Byte} {packet : DNSPacket}
    (h : DNSPacket.fromBytes depth b = .ok (some packet)) :
    ∃ reached, consume depth b = .ok (some (packet, reached)) ∧ Tiled b packet reached := by
  have hconsume : ∃ reached, consume depth b = .ok (some (packet, reached)) := by
    rw [fromBytes_eq_consume] at h
    cases hresult : consume depth b with
    | error e =>
      rw [hresult] at h
      cases h
    | ok result =>
      rw [hresult] at h
      obtain ⟨⟨packet', reached⟩, hsome, rfl⟩ := Option.map_eq_some_iff.mp (Except.ok.inj h)
      exact ⟨reached, congrArg Except.ok hsome⟩
  obtain ⟨reached, hreached⟩ := hconsume
  refine ⟨reached, hreached, ?_⟩
  unfold consume at hreached
  split at hreached
  · cases hreached
  split at hreached
  · cases hreached
  obtain ⟨⟨header, rest⟩, hheader, hrest⟩ := bind_eq_ok.mp hreached
  have hroom := header_room hheader
  cases (header_fromBytes hroom).symm.trans hheader
  dsimp only at hrest
  split at hrest
  · cases hrest
  obtain ⟨⟨packet', reached'⟩, hrecords, hlast⟩ := bind_eq_ok.mp hrest
  cases hlast
  have hindex : (b.advance 12).index = b.index + 12 := by
    rw [b.remaining_eq] at hroom
    exact b.advance_index (by omega)
  obtain ⟨hpacket, hsize⟩ := readRecords_header hrecords
  obtain ⟨hsame, htiles, hquestions, hresources⟩ := readRecords_tiles hrecords
  have hsame' := trans_of SameBytes (sameBytes_advance b 12) hsame
  rw [hindex] at htiles
  refine ⟨by rw [hpacket]; rfl, by rw [hpacket]; exact htiles, hsame', ?_, hquestions, hresources⟩
  rw [hsize, ← hsame'.limit]
  exact ByteBuffer.position_le _

/-- A question for `a`, and an answer whose name is a pointer to it. -/
def pointedAnswer : ByteBuffer Byte where
  array := .ofList 0 ([0, 1, 0x81, 0x80, 0, 1, 0, 1, 0, 0, 0, 0, 1, 0x61, 0, 0, 1, 0, 1,
    0xC0, 12, 0, 1, 0, 1, 0, 0, 0, 0, 0, 1, 0x7F] ++ List.replicate 32 0)
  arrayOffset := 0
  capacity := 64
  position := 0
  limit := 32
  position_le := Nat.zero_le _
  limit_le := by decide
  capacity_le := by decide

theorem pointedAnswer_tiled : ∃ packet reached, packet.extents = [(12, 7), (19, 13)] ∧ reached.index = 32 ∧
    Tiled pointedAnswer packet reached := by
  have hparsed : (DNSPacket.fromBytes 2 pointedAnswer).toOption.join.map extents = some [(12, 7), (19, 13)] := by
    decide +kernel
  obtain ⟨packet, hpacket, hextents⟩ := Option.map_eq_some_iff.mp hparsed
  have hsome : DNSPacket.fromBytes 2 pointedAnswer = .ok (some packet) := by
    generalize DNSPacket.fromBytes 2 pointedAnswer = result at hpacket
    cases result with
    | error e => cases hpacket
    | ok result => exact congrArg Except.ok hpacket
  obtain ⟨reached, -, htiled⟩ := records_tile hsome
  have htiles := htiled.tiles
  rw [hextents] at htiles
  exact ⟨packet, reached, hextents, htiles.2.2.symm, htiled⟩

end SmartSocks.Dns
