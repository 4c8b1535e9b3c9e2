import Mathlib.Algebra.GroupWithZero.Nat
import SmartSocks.Dns.Accepts
import SmartSocks.Dns.Encoding

/-!
# What a name costs

A name that is read without a pointer takes a byte for each label, the labels
and a root byte. `WriteDomain` writes at least one byte less, except for the
root. So a packet that is read back from its own bytes has no other name.
-/

namespace SmartSocks.Dns

open Jvm EasyValue Strings DNSPacket

-- ---------------------------------------------------------------------------
-- Names cost more than they were written with
-- ---------------------------------------------------------------------------

/-- The bytes of a name that is read without a pointer. -/
def nameCost (name : List Char) : Nat := if name = [] then 1 else (codePoints name).length + 2

def Question.cost (q : Question) : Nat := nameCost q.Domain + 4

def Resource.cost (r : Resource) : Nat := nameCost r.Domain + 10 + r.Data.length

/-- Nothing in the rest of the buffer is taken for a pointer. -/
def Clear (b : ByteBuffer Byte) : Prop := ∀ x ∈ b.left, ¬ IsPointer x

theorem Clear.advance {b : ByteBuffer Byte} (h : Clear b) {k : Nat} (hk : k ≤ b.remaining) :
    Clear (b.advance k) := by
  intro x hx
  rw [b.advance_left hk] at hx
  exact h x (List.mem_of_mem_drop hx)

theorem Clear.cell {b : ByteBuffer Byte} (h : Clear b) {i : Nat} (hle : b.index ≤ i) (hlt : i < b.stop) :
    ¬ IsPointer (b.array.cell i) := by
  obtain ⟨k, rfl⟩ := Nat.exists_eq_add_of_le hle
  have hk : k < b.left.length := by
    rw [b.length_left, b.remaining_eq]
    omega
  have hcell : b.left[k] = b.array.cell (b.index + k) := b.array.getElem_slice hk
  exact hcell ▸ h _ (List.getElem_mem hk)

theorem codePoints_cons (c : Char) (s : List Char) : codePoints (c :: s) = codePointAt c ++ codePoints s :=
  List.flatMap_cons

theorem codePoints_length (s : List Char) (h : ∀ c ∈ s, c.toNat < 0x10000) : (codePoints s).length = s.length := by
  induction s with
  | nil => rfl
  | cons c s ih =>
    obtain ⟨hc, hs⟩ := List.forall_mem_cons.mp h
    rw [codePoints_cons, List.length_append, ih hs, codePointAt, if_pos hc, List.length_singleton, List.length_cons,
      Nat.add_comm]

theorem toChar_lt (x : Byte) : (toChar x).toNat < 0x10000 := by
  have hnat : (toChar x).toNat = x.toNat := toNat_codePoint x
  omega

theorem labelsText_lt (a : Bytes Byte) (stop p : Nat) : ∀ c ∈ labelsText a stop p, c.toNat < 0x10000 := by
  induction p using labelsEnd.induct a stop with
  | case1 p h ih =>
    rw [labelsText_of_label h, List.forall_mem_append, List.forall_mem_append, List.forall_mem_map]
    exact ⟨⟨fun x _ => toChar_lt x, List.forall_mem_singleton.mpr (by decide)⟩, ih⟩
  | case2 p h =>
    rw [labelsText_of_end h]
    exact fun c hc => absurd hc List.not_mem_nil

theorem length_labelsText (a : Bytes Byte) (stop p : Nat) :
    (labelsText a stop p).length = labelsEnd a stop p - p := by
  induction p using labelsEnd.induct a stop with
  | case1 p h ih =>
    have hle := le_labelsEnd a stop (p + 1 + (a.cell p).toNat)
    rw [labelsText_of_label h, labelsEnd_of_label h, List.length_append, List.length_append, List.length_map,
      Bytes.length_slice, ih, List.length_singleton]
    omega
  | case2 p h => rw [labelsText_of_end h, labelsEnd_of_end h, Nat.sub_self, List.length_nil]

/-- A name that ends in a root byte is read from its labels and this byte. -/
theorem nameCost_lastLabels {b : ByteBuffer Byte} (hzero : (b.array.cell (labelsStop b)).toNat = 0) :
    nameCost (lastLabels b) = labelsStop b + 1 - b.index := by
  have hlength : (labels b).length = labelsStop b - b.index := length_labelsText ..
  by_cases hlabel : HasLabel b.array b.stop b.index
  · have hsome : b.index + 1 + (b.array.cell b.index).toNat ≤ labelsStop b := by
      rw [labelsStop, labelsEnd_of_label hlabel]
      exact le_labelsEnd ..
    have hlen := hlabel.1
    have hlabels : labels b ≠ [] := by
      rw [← List.length_pos_iff]
      omega
    rw [lastLabels, if_pos ⟨hzero, hlabels⟩]
    have hdrop : (labels b).dropLast.length = labelsStop b - b.index - 1 := by
      rw [List.length_dropLast, hlength]
    have hname : (labels b).dropLast ≠ [] := by
      rw [← List.length_pos_iff]
      omega
    have hunits : (codePoints (labels b).dropLast).length = (labels b).dropLast.length :=
      codePoints_length _ fun c hc => labelsText_lt _ _ _ c (List.dropLast_subset _ hc)
    rw [nameCost, if_neg hname, hunits, hdrop]
    omega
  · have hlabels : labels b = [] := labelsText_of_end hlabel
    have hstop : labelsStop b = b.index := labelsEnd_of_end hlabel
    rw [lastLabels, if_neg fun hand => hand.2 hlabels, hlabels, hstop, Nat.add_sub_cancel_left]
    rfl

/-- Without a pointer each label is read from its own bytes. -/
theorem cost_of_nextDomain {depth : Nat} {name : List Char} {b c : ByteBuffer Byte} (hclear : Clear b)
    (h : nextDomain depth b = .ok (name, c)) (hmore : 0 < c.remaining) :
    nameCost name + c.remaining = b.remaining := by
  obtain ⟨-, rfl⟩ := settles_nextDomain.sound depth name c h
  have hroom : b.index < b.stop := by
    rw [afterName, b.advance_remaining, b.remaining_eq] at hmore
    omega
  have hle := index_le_labelsStop b
  have hnone : followPointer b.arrayOffset b = none := by
    cases hf : followPointer b.arrayOffset b with
    | none => rfl
    | some d => exact absurd (followPointer_eq_some.mp hf).1.2.2 (hclear.cell hle (labelsEnd_lt hroom))
  obtain ⟨reading, hread, hname⟩ := bind_eq_ok.mp h
  cases depth with
  | zero => cases hread
  | succ depth =>
    by_cases hc : Closes b
    · rw [readDomain_closes hc] at hread
      cases hread
      have htext : lastLabels b = name := congrArg Prod.fst (Except.ok.inj hname)
      have hrest : (afterName b).remaining = b.stop - (labelsStop b + 1) := by
        rw [afterName, b.advance_remaining, b.remaining_eq, readEnd, if_pos hc]
        omega
      rw [hrest] at hmore
      have hzero : (b.array.cell (labelsStop b)).toNat = 0 := hc.2.resolve_right (by omega)
      rw [hrest, b.remaining_eq, ← htext, nameCost_lastLabels hzero]
      omega
    · obtain ⟨e, -, he⟩ := readDomain_fails hc hnone
      rw [he] at hread
      cases hread

-- ---------------------------------------------------------------------------
-- Records cost more than they were written with
-- ---------------------------------------------------------------------------

/-- What the program reads without a pointer is as long as the cost of its result. -/
def Costs {α : Type} (m : Reader α) (cost : α → Nat) : Prop :=
  ∀ b a c, Clear b → m b = .ok (a, c) → cost a + c.remaining = b.remaining ∧ Clear c

theorem clear_afterName {b : ByteBuffer Byte} (hclear : Clear b) (hmore : 0 < (afterName b).remaining) :
    Clear (afterName b) := by
  refine hclear.advance ?_
  rw [afterName, b.advance_remaining] at hmore
  omega

theorem costs_question (depth : Nat) : Costs (Question.fromBytes depth) Question.cost := by
  intro b q c hclear h
  obtain ⟨⟨-, hroom⟩, rfl⟩ := settles_question.sound depth q c h
  obtain ⟨⟨name, c⟩, hname, -⟩ := bind_eq_ok.mp h
  obtain ⟨-, rfl⟩ := settles_nextDomain.sound depth name c hname
  rw [question_fromBytes hname hroom] at h
  have hdomain : name = q.Domain := congrArg (·.1.Domain) (Except.ok.inj h)
  have hmore : 0 < (afterName b).remaining := Nat.lt_of_lt_of_le (by decide) hroom
  have hcost := cost_of_nextDomain hclear hname hmore
  have hrest : (afterQuestion b).remaining = (afterName b).remaining - 4 := (afterName b).advance_remaining 4
  rw [Question.cost, ← hdomain, hrest]
  exact ⟨by omega, (clear_afterName hclear hmore).advance hroom⟩

theorem costs_resource (depth : Nat) : Costs (Resource.fromBytes depth) Resource.cost := by
  intro b r c hclear h
  obtain ⟨⟨-, hroom⟩, rfl⟩ := settles_resource.sound depth r c h
  obtain ⟨⟨name, c⟩, hname, -⟩ := bind_eq_ok.mp h
  obtain ⟨-, rfl⟩ := settles_nextDomain.sound depth name c hname
  rw [resource_fromBytes hname hroom] at h
  have hdomain : name = r.Domain := congrArg (·.1.Domain) (Except.ok.inj h)
  have hdata : ((afterName b).advance 10).left.take (dataLength b) = r.Data :=
    congrArg (·.1.Data) (Except.ok.inj h)
  have hlength : r.Data.length = dataLength b := by
    rw [← hdata, List.length_take, ByteBuffer.length_left, ByteBuffer.advance_remaining]
    omega
  have hmore : 0 < (afterName b).remaining := by omega
  have hcost := cost_of_nextDomain hclear hname hmore
  have hrest : (afterResource b).remaining = (afterName b).remaining - (10 + dataLength b) :=
    (afterName b).advance_remaining _
  rw [Resource.cost, ← hdomain, hlength, hrest]
  exact ⟨by omega, (clear_afterName hclear hmore).advance hroom⟩

def rowCost {α : Type} (cost : α → Nat) (records : List α) : Nat := (records.map cost).sum

theorem rowCost_cons {α : Type} (cost : α → Nat) (record : α) (records : List α) :
    rowCost cost (record :: records) = cost record + rowCost cost records := List.sum_cons

theorem costs_readAll {α : Type} {read : Reader α} {cost : α → Nat} (h : Costs read cost) (count : Nat) :
    Costs (readAll read count) (rowCost cost) := by
  induction count with
  | zero =>
    intro b a c hclear hread
    cases hread
    exact ⟨Nat.zero_add _, hclear⟩
  | succ count ih =>
    intro b a c hclear hread
    obtain ⟨⟨record, b'⟩, hone, hread⟩ := bind_eq_ok.mp hread
    obtain ⟨⟨records, c'⟩, hrest, hread⟩ := bind_eq_ok.mp hread
    cases hread
    obtain ⟨hcost, hclear'⟩ := h b record b' hclear hone
    obtain ⟨hcosts, hclear''⟩ := ih b' records c hclear' hrest
    rw [rowCost_cons]
    exact ⟨by omega, hclear''⟩

namespace DNSPacket

def names (packet : DNSPacket) : List (List Char) :=
  packet.Questions.map (·.Domain) ++ (packet.Resources.map (·.Domain) ++
    (packet.AResources.map (·.Domain) ++ packet.EResources.map (·.Domain)))

def recordBytes (packet : DNSPacket) : List Byte :=
  packet.Questions.flatMap Question.bytes ++ (packet.Resources.flatMap Resource.bytes ++
    (packet.AResources.flatMap Resource.bytes ++ packet.EResources.flatMap Resource.bytes))

def cost (packet : DNSPacket) : Nat :=
  rowCost Question.cost packet.Questions + rowCost Resource.cost packet.Resources +
    rowCost Resource.cost packet.AResources + rowCost Resource.cost packet.EResources

end DNSPacket

theorem costs_readRecords (depth size : Nat) (header : DNSHeader) :
    Costs (readRecords depth header size) DNSPacket.cost := by
  intro b packet c hclear h
  simp only [readRecords, Reader.bind_apply, Reader.lift_apply, Reader.pure_apply, bind_eq_ok] at h
  obtain ⟨_, ⟨nq, -, hq⟩, _, ⟨nr, -, hr⟩, _, ⟨na, -, ha⟩, _, ⟨ne, -, he⟩, h⟩ := h
  cases hq
  cases hr
  cases ha
  cases he
  obtain ⟨⟨questions, b₁⟩, hq, ⟨resources, b₂⟩, hr, ⟨aResources, b₃⟩, ha, ⟨eResources, b₄⟩, he, h⟩ := h
  cases h
  obtain ⟨hq, hclear⟩ := costs_readAll (costs_question depth) nq b questions b₁ hclear hq
  obtain ⟨hr, hclear⟩ := costs_readAll (costs_resource depth) nr b₁ resources b₂ hclear hr
  obtain ⟨ha, hclear⟩ := costs_readAll (costs_resource depth) na b₂ aResources b₃ hclear ha
  obtain ⟨he, hclear⟩ := costs_readAll (costs_resource depth) ne b₃ eResources b₄ hclear he
  refine ⟨?_, hclear⟩
  simp only [DNSPacket.cost]
  omega

/-- The units of a name are those of its labels, with their dots. -/
theorem length_splitAt (s : List Char) :
    ((splitAt '.' s).map fun item => (codePoints item).length + 1).sum = (codePoints s).length + 1 := by
  induction s with
  | nil => rfl
  | cons c s ih =>
    rw [splitAt, codePoints_cons, List.length_append]
    split
    next hdot =>
      have hunit : (codePointAt c).length = 1 := by
        rw [hdot]
        rfl
      have hnone : (codePoints []).length = 0 := rfl
      rw [List.map_cons, List.sum_cons, ih, hunit, hnone]
      omega
    next =>
      split
      next h =>
        rw [h] at ih
        cases ih
      next piece pieces h =>
        rw [h] at ih
        simp only [List.map_cons, List.sum_cons, codePoints_cons, List.length_append] at ih ⊢
        omega

/-- A label and its length byte are not longer than the label and its dot. -/
theorem length_itemBytes_le (many : Bool) (item : List Char) :
    (itemBytes many item).length ≤ (codePoints item).length + 1 := by
  cases many with
  | true => simp [itemBytes]
  | false => simp [itemBytes]

theorem length_flatMap_le {α : Type} {bytes : α → List Byte} {cost : α → Nat}
    (h : ∀ x, (bytes x).length ≤ cost x) (records : List α) :
    (records.flatMap bytes).length ≤ rowCost cost records := by
  induction records with
  | nil => exact Nat.zero_le _
  | cons record records ih =>
    rw [List.flatMap_cons, List.length_append, rowCost_cons]
    exact Nat.add_le_add (h record) ih

/-- A row that costs no more than it was written with is one of such records. -/
theorem length_eq_cost {α : Type} {bytes : α → List Byte} {cost : α → Nat}
    (h : ∀ x, (bytes x).length ≤ cost x) {records : List α}
    (hrow : rowCost cost records ≤ (records.flatMap bytes).length) :
    ∀ x ∈ records, (bytes x).length = cost x := by
  induction records with
  | nil => exact fun _ hx => absurd hx List.not_mem_nil
  | cons record records ih =>
    have hrecord := h record
    have hrecords := length_flatMap_le h records
    rw [List.flatMap_cons, List.length_append, rowCost_cons] at hrow
    exact List.forall_mem_cons.mpr ⟨by omega, ih (by omega)⟩

theorem domainItems_prefix (domain : List Char) : domainItems domain <+: Strings.splitAt '.' domain := by
  rw [domainItems, dropLastEmpty, ← List.reverse_suffix, List.reverse_reverse]
  exact List.dropWhile_suffix _

/-- Every name but the root is written without its last byte. -/
theorem length_domainBytes {domain : List Char} (h : domain ≠ []) :
    (domainBytes domain).length ≤ (codePoints domain).length + 1 := by
  obtain ⟨dropped, hsplit⟩ := domainItems_prefix domain
  have hsum := length_splitAt domain
  rw [← hsplit, List.map_append, List.sum_append] at hsum
  rw [domainBytes, if_neg h]
  have hitems := length_flatMap_le (length_itemBytes_le (1 < (domainItems domain).length)) (domainItems domain)
  rw [rowCost] at hitems
  omega

theorem length_domainBytes_le (domain : List Char) : (domainBytes domain).length ≤ nameCost domain := by
  by_cases h : domain = []
  · rw [h]
    exact Nat.le_refl _
  · rw [nameCost, if_neg h]
    exact Nat.le_succ_of_le (length_domainBytes h)

theorem root_of_length {domain : List Char} (h : (domainBytes domain).length = nameCost domain) :
    domain = [] := by
  by_contra hroot
  have hlength := length_domainBytes hroot
  rw [h, nameCost, if_neg hroot] at hlength
  omega

theorem length_question (q : Question) : q.bytes.length = (domainBytes q.Domain).length + 4 := by
  simp [Question.bytes]

theorem length_resource (r : Resource) : r.bytes.length = (domainBytes r.Domain).length + 10 + r.Data.length := by
  simp [Resource.bytes]
  omega

theorem question_le (q : Question) : q.bytes.length ≤ q.cost := by
  rw [length_question, Question.cost]
  exact Nat.add_le_add_right (length_domainBytes_le _) _

theorem resource_le (r : Resource) : r.bytes.length ≤ r.cost := by
  rw [length_resource, Resource.cost]
  have := length_domainBytes_le r.Domain
  omega

theorem root_of_question {q : Question} (h : q.bytes.length = q.cost) : q.Domain = [] := by
  rw [length_question, Question.cost] at h
  exact root_of_length (Nat.add_right_cancel h)

theorem root_of_resource {r : Resource} (h : r.bytes.length = r.cost) : r.Domain = [] := by
  rw [length_resource, Resource.cost] at h
  exact root_of_length (by omega)

theorem length_header (h : DNSHeader) : h.bytes.length = 12 := rfl

/-- A packet that costs no more than its bytes has the root as its only name. -/
theorem root_of_cost {packet : DNSPacket} (h : 12 + packet.cost ≤ packet.bytes.length) :
    ∀ domain ∈ packet.names, domain = [] := by
  have hquestions := length_flatMap_le question_le packet.Questions
  have hresources := length_flatMap_le resource_le packet.Resources
  have haResources := length_flatMap_le resource_le packet.AResources
  have heResources := length_flatMap_le resource_le packet.EResources
  simp only [DNSPacket.cost, DNSPacket.bytes, List.length_append, length_header] at h
  intro domain hdomain
  simp only [DNSPacket.names, List.mem_append, List.mem_map] at hdomain
  obtain ⟨q, hq, rfl⟩ | ⟨r, hr, rfl⟩ | ⟨r, hr, rfl⟩ | ⟨r, hr, rfl⟩ := hdomain
  · exact root_of_question (length_eq_cost question_le (by omega) q hq)
  · exact root_of_resource (length_eq_cost resource_le (by omega) r hr)
  · exact root_of_resource (length_eq_cost resource_le (by omega) r hr)
  · exact root_of_resource (length_eq_cost resource_le (by omega) r hr)

end SmartSocks.Dns
