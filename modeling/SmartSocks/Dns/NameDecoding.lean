import SmartSocks.Dns.WellFormed

/-!
# Names are decoded

A well-formed message is read with all its names as the grammar has them, if the
limits of all hops fit in the array and no name ends with labels before a
pointer to a root byte.
-/

namespace SmartSocks.Dns

open Jvm EasyValue DNSPacket

/-- The message is read, every domain is the name without its compression, and
each name leaves the buffer behind its encoding. -/
structure Decodes (depth : Nat) (m : Message) (c : Contents) : Prop where
  packet : ∃ packet, fromBytes depth m.buffer = .ok (some packet) ∧
    packet.Questions.map (·.Domain) = c.questions.map (·.domain) ∧
    packet.Resources.map (·.Domain) = c.resources.map (·.domain) ∧
    packet.AResources.map (·.Domain) = c.aResources.map (·.domain) ∧
    packet.EResources.map (·.Domain) = c.eResources.map (·.domain)
  names : ∀ x ∈ c.names,
    nextDomain depth (m.buffer.advance x.start) = .ok (x.domain, m.buffer.advance x.stop)

/-- All limits fit, and no label before a pointer comes last. -/
def Readable (m : Message) (x : EncodedName) : Prop := x.Room m ∧ x.EndsInLabels

section
variable {m : Message} {x : EncodedName} {depth : Nat} {rest : Nat → Nat} {p e : Nat}
  {names : List EncodedName} {c : Contents}

-- ---------------------------------------------------------------------------
-- Records
-- ---------------------------------------------------------------------------

/-- The hops of the name fit in the array and in the stack. -/
def Followed (depth : Nat) (m : Message) (x : EncodedName) : Prop := x.Room m ∧ x.hops.length < depth

/-- Rows of records are read one after the other. -/
theorem readAll_records {α : Type} {read : Reader α} {Domain : α → List Char}
    (h : RecordsAt m rest p names e)
    (hread : ∀ x ∈ names, x.stop + rest x.stop ≤ m.length → ∃ record,
      read (m.buffer.advance x.start) = .ok (record, m.buffer.advance (x.stop + rest x.stop)) ∧
        Domain record = x.text) :
    ∃ records, readAll read names.length (m.buffer.advance p) = .ok (records, m.buffer.advance e) ∧
      records.map Domain = names.map (·.text) := by
  induction h with
  | nil p => exact ⟨[], rfl, rfl⟩
  | @cons x names e hname hfit hrest ih =>
    obtain ⟨hfirst, hmore⟩ := List.forall_mem_cons.mp hread
    obtain ⟨record, hrecord, hdomain⟩ := hfirst hfit
    obtain ⟨records, hrecords, hdomains⟩ := ih hmore
    refine ⟨record :: records, ?_, by rw [List.map_cons, List.map_cons, hdomain, hdomains]⟩
    simp only [List.length_cons, readAll, Reader.bind_apply, hrecord, ok_bind, hrecords, Reader.pure_apply]

theorem readAll_questions (hpos : m.position = 0) (h : RecordsAt m questionRest p names e)
    (hfollowed : ∀ x ∈ names, Followed depth m x) :
    ∃ records, readAll (Question.fromBytes depth) names.length (m.buffer.advance p) =
        .ok (records, m.buffer.advance e) ∧ records.map (·.Domain) = names.map (·.text) := by
  refine readAll_records h fun x hx hfit => ?_
  have hname := nextDomain_of_room hpos (h.nameAt x hx) (hfollowed x hx).1 (hfollowed x hx).2
  have hroom : 4 ≤ (m.buffer.advance x.stop).remaining := by
    rw [remaining_advance hpos]
    exact Nat.le_sub_of_add_le' hfit
  have hquestion := question_fromBytes hname hroom
  rw [ByteBuffer.advance_advance] at hquestion
  exact ⟨_, hquestion, rfl⟩

theorem readAll_resources (hpos : m.position = 0) (h : RecordsAt m (resourceRest m) p names e)
    (hfollowed : ∀ x ∈ names, Followed depth m x) :
    ∃ records, readAll (Resource.fromBytes depth) names.length (m.buffer.advance p) =
        .ok (records, m.buffer.advance e) ∧ records.map (·.Domain) = names.map (·.text) := by
  refine readAll_records h fun x hx hfit => ?_
  have hname := nextDomain_of_room hpos (h.nameAt x hx) (hfollowed x hx).1 (hfollowed x hx).2
  have hindex : (m.buffer.advance x.stop).index = m.offset + x.stop :=
    (at_advance hpos (start_lt_stop (h.nameAt x hx)).2).index
  have hroom : 10 + (short m.array ((m.buffer.advance x.stop).index + 8)).toNat ≤
      (m.buffer.advance x.stop).remaining := by
    rw [remaining_advance hpos, hindex]
    exact Nat.le_sub_of_add_le' hfit
  have hresource := resource_fromBytes hname hroom
  rw [hindex] at hresource
  rw [← ByteBuffer.advance_advance]
  exact ⟨_, hresource, rfl⟩

-- ---------------------------------------------------------------------------
-- Messages
-- ---------------------------------------------------------------------------

theorem arrayOfNulls_ok {count : Short} {n limit : Nat} (h : count.toNat = n) (hlimit : n ≤ limit)
    (hsmall : limit < 2 ^ 15) : count.toInt = n ∧ arrayOfNulls count = .ok n := by
  have hint : count.toInt = n := by
    rw [BitVec.toInt_eq_toNat_of_lt (by omega), h]
  refine ⟨hint, ?_⟩
  rw [arrayOfNulls, hint, if_neg (Int.not_lt.mpr (Int.natCast_nonneg n)), Int.toNat_natCast]

theorem index_buffer (hpos : m.position = 0) : m.buffer.index = m.offset :=
  congrArg (m.offset + ·) hpos

/-- The header has the lengths of the sections. -/
theorem WellFormed.counts (h : WellFormed m c) :
    (headerAt m.buffer).mQuestionCount.toNat = c.questions.length ∧
      (headerAt m.buffer).mResourceCount.toNat = c.resources.length ∧
      (headerAt m.buffer).mAResourceCount.toNat = c.aResources.length ∧
      (headerAt m.buffer).mEResourceCount.toNat = c.eResources.length := by
  simp only [headerAt, index_buffer h.position]
  exact ⟨h.questionCount, h.resourceCount, h.aResourceCount, h.eResourceCount⟩

/-- A message whose names can be followed is read. -/
theorem packet_of_followed (h : WellFormed m c) (hhandled : c.Handled) (hmax : m.length ≤ 512)
    (hfollowed : ∀ x ∈ c.names, Followed depth m x) :
    ∃ packet, fromBytes depth m.buffer = .ok (some packet) ∧
      packet.Questions.map (·.Domain) = c.questions.map (·.text) ∧
      packet.Resources.map (·.Domain) = c.resources.map (·.text) ∧
      packet.AResources.map (·.Domain) = c.aResources.map (·.text) ∧
      packet.EResources.map (·.Domain) = c.eResources.map (·.text) := by
  obtain ⟨p, q, r, e, hquestions, hresources, haResources, heResources⟩ := h.records
  simp only [Contents.names, List.forall_mem_append] at hfollowed
  obtain ⟨hreadQ, hreadR, hreadA, hreadE⟩ := hfollowed
  obtain ⟨hlengthQ, hlengthR, hlengthA, hlengthE⟩ := h.counts
  obtain ⟨hcountQ, harrayQ⟩ := arrayOfNulls_ok hlengthQ hhandled.questions (by decide)
  obtain ⟨hcountR, harrayR⟩ := arrayOfNulls_ok hlengthR hhandled.resources (by decide)
  obtain ⟨hcountA, harrayA⟩ := arrayOfNulls_ok hlengthA hhandled.aResources (by decide)
  obtain ⟨hcountE, harrayE⟩ := arrayOfNulls_ok hlengthE hhandled.eResources (by decide)
  obtain ⟨questions, hokQ, hdomainsQ⟩ := readAll_questions h.position hquestions hreadQ
  obtain ⟨resources, hokR, hdomainsR⟩ := readAll_resources h.position hresources hreadR
  obtain ⟨aResources, hokA, hdomainsA⟩ := readAll_resources h.position haResources hreadA
  obtain ⟨eResources, hokE, hdomainsE⟩ := readAll_resources h.position heResources hreadE
  have hcounts : ¬ Oversized (headerAt m.buffer) := by
    have := hhandled.questions
    have := hhandled.resources
    have := hhandled.aResources
    have := hhandled.eResources
    unfold Oversized
    omega
  have hremaining : 12 ≤ m.buffer.remaining := by
    rw [m.buffer.remaining_eq_limit h.position]
    exact h.header
  have hrecords : readRecords depth (headerAt m.buffer) m.length (m.buffer.advance 12) =
      .ok (⟨headerAt m.buffer, questions, resources, aResources, eResources, m.length⟩, m.buffer.advance e) := by
    simp only [readRecords, Reader.bind_apply, Reader.lift_apply, Reader.pure_apply, ok_bind, harrayQ, harrayR,
      harrayA, harrayE, hokQ, hokR, hokA, hokE]
  refine ⟨⟨headerAt m.buffer, questions, resources, aResources, eResources, m.length⟩, ?_, hdomainsQ,
    hdomainsR, hdomainsA, hdomainsE⟩
  have hmin : ¬ m.buffer.limit < 12 := Nat.not_lt.mpr h.header
  have hlimit : ¬ 512 < m.buffer.limit := Nat.not_lt.mpr hmax
  rw [fromBytes, if_neg hmin, if_neg hlimit, header_fromBytes hremaining, ok_bind]
  simp only [if_neg hcounts]
  exact congrArg (· >>= _) hrecords

-- ---------------------------------------------------------------------------
-- Names
-- ---------------------------------------------------------------------------

/-- A name that is decoded has room, and its text is right. -/
theorem readable_of_nextDomain (hpos : m.position = 0) (hx : NameAt m x)
    (h : ∃ bound, ∀ depth, bound ≤ depth →
      nextDomain depth (m.buffer.advance x.start) = .ok (x.domain, m.buffer.advance x.stop)) :
    Readable m x := by
  obtain ⟨bound, h⟩ := h
  have hroom : x.Room m := (nameCloses_iff hpos hx).mp
    (settles_nextDomain.sound bound x.domain _ (h bound (Nat.le_refl bound))).1
  have hread := h (max bound (x.hops.length + 1)) (Nat.le_max_left _ _)
  rw [nextDomain_of_room hpos hx hroom (Nat.le_max_right _ _)] at hread
  exact ⟨hroom, (text_eq_domain_iff x).mp (Prod.ext_iff.mp (Except.ok.inj hread)).1⟩

/-- A well-formed message is decoded exactly when all its names are readable. -/
theorem decodes_iff (h : WellFormed m c) (hhandled : c.Handled) (hmax : m.length ≤ 512) :
    (∃ bound, ∀ depth, bound ≤ depth → Decodes depth m c) ↔ ∀ x ∈ c.names, Readable m x := by
  constructor
  · rintro ⟨bound, hdecodes⟩ x hx
    exact readable_of_nextDomain h.position (h.nameAt x hx)
      ⟨bound, fun depth hdepth => (hdecodes depth hdepth).names x hx⟩
  · intro hread
    refine ⟨m.length, fun depth hdepth => ?_⟩
    have hhops (x : EncodedName) (hx : x ∈ c.names) : x.hops.length < depth := by
      have hstart := hops_le_start (h.nameAt x hx)
      have hstop := start_lt_stop (h.nameAt x hx)
      omega
    have htext (names : List EncodedName) (hnames : ∀ x ∈ names, x ∈ c.names) :
        names.map (·.text) = names.map (·.domain) :=
      List.map_congr_left fun x hx => (text_eq_domain_iff x).mpr (hread x (hnames x hx)).2
    obtain ⟨packet, hpacket, hdomains⟩ := packet_of_followed h hhandled hmax
      fun x hx => ⟨(hread x hx).1, hhops x hx⟩
    refine ⟨⟨packet, hpacket, ?_⟩, fun x hx => ?_⟩
    · rwa [htext c.questions, htext c.resources, htext c.aResources, htext c.eResources] at hdomains
      all_goals
        intro x hx
        simp [Contents.names, hx]
    · rw [nextDomain_of_room h.position (h.nameAt x hx) (hread x hx).1 (hhops x hx),
        (text_eq_domain_iff x).mpr (hread x hx).2]

end

-- ---------------------------------------------------------------------------
-- Two answers
-- ---------------------------------------------------------------------------

/-- A message in the buffer of the UDP thread. -/
def received (bytes : List Byte) (h : 28 + bytes.length ≤ 2000) : Message where
  array := ⟨2000, fun i => bytes.getD (i - 28) 0⟩
  offset := 28
  length := bytes.length
  position := 0
  length_le := h
  position_le := Nat.zero_le _

/-- The question is `a`, and the answer is a pointer to it. -/
def plainAnswer : Message :=
  received [0, 1, 0x81, 0x80, 0, 1, 0, 1, 0, 0, 0, 0, 1, 0x61, 0, 0, 1, 0, 1,
    0xC0, 12, 0, 1, 0, 1, 0, 0, 0, 0, 0, 0] (by decide)

def plainContents : Contents :=
  ⟨[⟨12, [], [[0x61]], 15⟩], [⟨19, [([], 12)], [[0x61]], 21⟩], [], []⟩

theorem wellFormed_plainAnswer : WellFormed plainAnswer plainContents := by
  have hname : NameAt plainAnswer ⟨12, [], [[0x61]], 15⟩ :=
    .root (.label (by decide) (by decide) (by decide) (.stop 14)) (by decide) (by decide)
  have hpointer : NameAt plainAnswer ⟨19, [([], 12)], [[0x61]], 21⟩ :=
    .pointer (.stop 19) (by decide) (by decide) (by decide) (by decide) hname
  refine ⟨rfl, by decide, by decide, by decide, by decide, by decide, 19, 31, 31, 31, ?_, ?_, .nil 31, .nil 31⟩
  · exact .cons hname (by decide) (.nil 19)
  · exact .cons hpointer (by decide) (.nil 31)

theorem plainAnswer_decodes : ∃ bound, ∀ depth, bound ≤ depth → Decodes depth plainAnswer plainContents := by
  refine (decodes_iff wellFormed_plainAnswer ⟨by decide, by decide, by decide, by decide⟩ (by decide)).mpr ?_
  exact List.forall_mem_cons.mpr ⟨⟨by decide, .inl rfl⟩,
    List.forall_mem_singleton.mpr ⟨by decide, .inl rfl⟩⟩

/-- The question is the root, and the answer is `a` with a pointer to it. -/
def dottedAnswer : Message :=
  received [0, 1, 0x81, 0x80, 0, 1, 0, 1, 0, 0, 0, 0, 0, 0, 1, 0, 1,
    1, 0x61, 0xC0, 12, 0, 1, 0, 1, 0, 0, 0, 0, 0, 0] (by decide)

def dottedContents : Contents :=
  ⟨[⟨12, [], [], 13⟩], [⟨17, [([[0x61]], 12)], [], 21⟩], [], []⟩

theorem wellFormed_dottedAnswer : WellFormed dottedAnswer dottedContents := by
  have hname : NameAt dottedAnswer ⟨12, [], [], 13⟩ := .root (.stop 12) (by decide) (by decide)
  have hpointer : NameAt dottedAnswer ⟨17, [([[0x61]], 12)], [], 21⟩ :=
    .pointer (.label (by decide) (by decide) (by decide) (.stop 19)) (by decide) (by decide) (by decide)
      (by decide) hname
  refine ⟨rfl, by decide, by decide, by decide, by decide, by decide, 17, 31, 31, 31, ?_, ?_, .nil 31, .nil 31⟩
  · exact .cons hname (by decide) (.nil 17)
  · exact .cons hpointer (by decide) (.nil 31)

/-- The answer is read as `a.`, with a dot. -/
theorem dottedAnswer_not_decodes : ¬ ∀ (m : Message) (c : Contents), m.offset = 28 → m.array.size = 2000 →
    m.length ≤ 512 → WellFormed m c → c.Handled →
    ∃ bound, ∀ depth, bound ≤ depth → Decodes depth m c := by
  intro hall
  obtain ⟨bound, hdecodes⟩ := hall dottedAnswer dottedContents rfl rfl (by decide) wellFormed_dottedAnswer
    ⟨by decide, by decide, by decide, by decide⟩
  have hmem : (⟨17, [([[0x61]], 12)], [], 21⟩ : EncodedName) ∈ dottedContents.names :=
    List.mem_cons_of_mem _ (List.mem_cons_self ..)
  have hreadable := readable_of_nextDomain rfl (wellFormed_dottedAnswer.nameAt _ hmem)
    ⟨bound, fun depth hdepth => (hdecodes depth hdepth).names _ hmem⟩
  obtain hnone | hlast := hreadable.2
  · cases hnone
  · exact hlast rfl

end SmartSocks.Dns
