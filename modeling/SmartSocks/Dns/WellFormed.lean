import Mathlib.Algebra.GroupWithZero.Nat
import SmartSocks.Dns.Accepts

/-!
# Well-formed messages

The names of a message by the grammar: labels of 1 to 63 bytes, ended by a zero
byte or by a pointer to an earlier name. `ReadDomain` comes to the end of such a
name when the limits of all its hops fit in the array, and what it returns is
right unless a pointer behind labels leads to no more labels.
-/

namespace SmartSocks.Dns

open Jvm EasyValue DNSPacket

/-- A byte of the message. -/
def Message.byte (m : Message) (p : Nat) : Byte := m.array.cell (m.offset + p)

/-- Labels from `p` on, up to the byte at `e` that is no length of a label. -/
inductive LabelsAt (m : Message) : Nat → List (List Byte) → Nat → Prop
  | stop (p : Nat) : LabelsAt m p [] p
  | label {p e : Nat} {labels : List (List Byte)} (hpos : 0 < (m.byte p).toNat) (hmax : (m.byte p).toNat ≤ 63)
      (hfit : p + 1 + (m.byte p).toNat < m.length)
      (hrest : LabelsAt m (p + 1 + (m.byte p).toNat) labels e) :
      LabelsAt m p (m.array.slice (m.offset + p + 1) (m.byte p).toNat :: labels) e

/-- The encoding of a name: the labels before each of its pointers, with the
pointer, and the labels behind the last one. -/
structure EncodedName where
  start : Nat
  hops : List (List (List Byte) × Nat)
  last : List (List Byte)
  stop : Nat

inductive NameAt (m : Message) : EncodedName → Prop
  | root {p e : Nat} {labels : List (List Byte)} (hlabels : LabelsAt m p labels e) (hlt : e < m.length)
      (hroot : (m.byte e).toNat = 0) : NameAt m ⟨p, [], labels, e + 1⟩
  | pointer {p e : Nat} {labels : List (List Byte)} {target : EncodedName} (hlabels : LabelsAt m p labels e)
      (hlt : e + 1 < m.length) (hpointer : IsPointer (m.byte e))
      (htarget : pointerAt m.array (m.offset + e) = target.start) (hearlier : target.start < p)
      (hname : NameAt m target) : NameAt m ⟨p, (labels, target.start) :: target.hops, target.last, e + 2⟩

/-- Labels joined by dots. -/
def joined (labels : List (List Byte)) : List Char := ['.'].intercalate (labels.map (·.map toChar))

namespace EncodedName

variable (x : EncodedName)

def firstLabels : List (List Byte) := x.hops.flatMap Prod.fst

/-- The name without its compression. -/
def domain : List Char := joined (x.firstLabels ++ x.last)

/-- What the hops of the name add to the limit: each adds the offset twice, and
the pointer. -/
def growth (m : Message) : Nat := (x.hops.map fun hop => 2 * m.offset + hop.2).sum

def Room (m : Message) : Prop := m.length + x.growth m ≤ m.array.size

instance (m : Message) : Decidable (x.Room m) := inferInstanceAs (Decidable (_ ≤ _))

/-- Labels before a pointer do not come last. -/
def EndsInLabels : Prop := x.firstLabels = [] ∨ x.last ≠ []

end EncodedName

-- ---------------------------------------------------------------------------
-- Labels with their dots
-- ---------------------------------------------------------------------------

def dotted (labels : List (List Byte)) : List Char := labels.flatMap fun label => label.map toChar ++ ['.']

/-- What is read for a name. -/
def EncodedName.text (x : EncodedName) : List Char := dotted x.firstLabels ++ (dotted x.last).dropLast

section
variable {labels : List (List Byte)}

theorem dotted_cons (label : List Byte) (labels : List (List Byte)) :
    dotted (label :: labels) = label.map toChar ++ '.' :: dotted labels := by
  simp [dotted]

theorem dotted_append (labels labels' : List (List Byte)) :
    dotted (labels ++ labels') = dotted labels ++ dotted labels' := List.flatMap_append

theorem dotted_eq_nil : dotted labels = [] ↔ labels = [] := by
  cases labels with
  | nil => simp [dotted]
  | cons label labels => simp [dotted_cons]

/-- A dot behind each label but the last. -/
theorem dropLast_dotted (labels : List (List Byte)) : (dotted labels).dropLast = joined labels := by
  induction labels with
  | nil => rfl
  | cons label labels ih =>
    cases labels with
    | nil => simp [dotted, joined]
    | cons next labels =>
      have hne : dotted (next :: labels) ≠ [] := mt dotted_eq_nil.mp (List.cons_ne_nil _ _)
      rw [dotted_cons, List.append_cons, List.dropLast_append_of_ne_nil hne, ih, joined, joined, List.map_cons,
        List.map_cons, List.map_cons, List.intercalate_cons_cons]

/-- The name is right unless labels before a pointer come last. -/
theorem text_eq_domain_iff (x : EncodedName) : x.text = x.domain ↔ x.EndsInLabels := by
  rw [EncodedName.text, EncodedName.domain, EncodedName.EndsInLabels, ← dropLast_dotted, dotted_append]
  by_cases hlast : x.last = []
  · rw [hlast, or_iff_left (not_not.mpr rfl), ← dotted_eq_nil]
    constructor
    · intro h
      have hlength := congrArg List.length h
      simp only [dotted, List.flatMap_nil, List.dropLast_nil, List.append_nil, List.length_dropLast] at hlength
      exact List.length_eq_zero_iff.mp (by unfold dotted; omega)
    · intro h
      rw [h]
      rfl
  · rw [List.dropLast_append_of_ne_nil (mt dotted_eq_nil.mp hlast)]
    exact iff_of_true rfl (.inr hlast)

end

-- ---------------------------------------------------------------------------
-- Reading a name
-- ---------------------------------------------------------------------------

/-- A buffer over the array of a message, at the byte `p` of it. -/
structure At (m : Message) (c : ByteBuffer Byte) (p : Nat) : Prop where
  array : c.array = m.array
  index : c.index = m.offset + p
  covers : m.offset + m.length ≤ c.stop
  base : c.arrayOffset ≤ m.offset

section
variable {m : Message} {c : ByteBuffer Byte} {p e : Nat} {labels : List (List Byte)}

theorem not_isPointer {b : Byte} (h : b.toNat ≤ 63) : ¬ IsPointer b := by
  have hle : b.toNat &&& 0xC0 ≤ b.toNat := Nat.and_le_left
  unfold IsPointer
  omega

/-- The labels end where a zero byte or a pointer ends them. -/
theorem labelsAt_labelsEnd {stop : Nat} (h : LabelsAt m p labels e) (hstop : m.offset + m.length ≤ stop)
    (hend : (m.byte e).toNat = 0 ∨ IsPointer (m.byte e)) :
    labelsEnd m.array stop (m.offset + p) = m.offset + e ∧
      labelsText m.array stop (m.offset + p) = dotted labels := by
  induction h with
  | stop p =>
    have hnone : ¬ HasLabel m.array stop (m.offset + p) := by
      rintro ⟨hpos, hnot, -⟩
      exact hend.elim (Nat.ne_of_gt hpos) hnot
    exact ⟨labelsEnd_of_end hnone, labelsText_of_end hnone⟩
  | @label p e labels hpos hmax hfit hrest ih =>
    have hlabel : HasLabel m.array stop (m.offset + p) := by
      refine ⟨hpos, not_isPointer hmax, ?_⟩
      unfold Message.byte at hfit
      omega
    obtain ⟨ihend, ihtext⟩ := ih hend
    have hnext : m.offset + (p + 1 + (m.byte p).toNat) = m.offset + p + 1 + (m.array.cell (m.offset + p)).toNat := by
      rw [Message.byte]
      omega
    rw [hnext] at ihend ihtext
    rw [labelsEnd_of_label hlabel, labelsText_of_label hlabel, ihend, ihtext, dotted_cons]
    simp [Message.byte]

theorem le_of_labelsAt (h : LabelsAt m p labels e) : p ≤ e := by
  induction h with
  | stop p => exact Nat.le_refl p
  | label hpos hmax hfit hrest ih => omega

theorem At.readsLabels (h : At m c p) (hlabels : LabelsAt m p labels e)
    (hend : (m.byte e).toNat = 0 ∨ IsPointer (m.byte e)) :
    labelsStop c = m.offset + e ∧ Dns.labels c = dotted labels := by
  unfold labelsStop Dns.labels
  rw [h.array, h.index]
  exact labelsAt_labelsEnd hlabels h.covers hend

/-- A name without pointers is read in one buffer. -/
theorem At.closes (h : At m c p) (hlabels : LabelsAt m p labels e) (hlt : e < m.length)
    (hroot : (m.byte e).toNat = 0) :
    Closes c ∧ readEnd c - c.index = e + 1 - p ∧ lastLabels c = (dotted labels).dropLast := by
  obtain ⟨hstop, htext⟩ := h.readsLabels hlabels (.inl hroot)
  have hle := le_of_labelsAt hlabels
  have hcell : (c.array.cell (labelsStop c)).toNat = 0 := by rwa [hstop, h.array]
  have hcloses : Closes c := by
    refine ⟨?_, .inl hcell⟩
    have := h.index
    have := h.covers
    omega
  refine ⟨hcloses, ?_, ?_⟩
  · rw [readEnd, if_pos hcloses, hstop, h.index]
    omega
  · rw [lastLabels, htext, hcell]
    split
    · rfl
    · next hnot =>
      have hnil : dotted labels = [] := by_contra fun hne => hnot ⟨rfl, hne⟩
      rw [hnil]
      rfl

theorem isPointer_ne_zero {b : Byte} (h : IsPointer b) : b.toNat ≠ 0 := by
  intro hzero
  unfold IsPointer at h
  rw [hzero, Nat.zero_and] at h
  cases h

/-- A pointer is followed if the new limit fits in the array. -/
theorem At.follow (h : At m c p) (hlabels : LabelsAt m p labels e) (hlt : e + 1 < m.length)
    (hpointer : IsPointer (m.byte e)) :
    ¬ Closes c ∧ Dns.labels c = dotted labels ∧ readEnd c - c.index = e + 2 - p ∧
      followPointer m.offset c = (ByteBuffer.wrapRange m.array
        (m.offset + pointerAt m.array (m.offset + e)) (m.offset + c.limit)).toOption := by
  obtain ⟨hstop, htext⟩ := h.readsLabels hlabels (.inr hpointer)
  have hle := le_of_labelsAt hlabels
  have hindex := h.index
  have hcovers := h.covers
  have hopen : ¬ EndsAt c.array c.stop (labelsStop c) := by
    rintro (hzero | hlast)
    · rw [hstop, h.array] at hzero
      exact isPointer_ne_zero hpointer hzero
    · omega
  have hcloses : ¬ Closes c := fun hc => hopen hc.2
  refine ⟨hcloses, htext, ?_, ?_⟩
  · rw [readEnd, if_neg hcloses, hstop, h.index]
    omega
  · rw [followPointer, if_pos, hstop, h.array]
    refine ⟨by omega, hopen, ?_⟩
    rw [hstop, h.array]
    exact hpointer

/-- A hop leads to a buffer over the array, if it fits. -/
theorem At.hop (h : At m c p) (target : Nat) :
    (m.offset + target + (m.offset + c.limit) ≤ m.array.size ∧ ∃ d, ByteBuffer.wrapRange m.array
      (m.offset + target) (m.offset + c.limit) = .ok d ∧ At m d target ∧
        d.limit = c.limit + (2 * m.offset + target)) ∨
    m.array.size < m.offset + target + (m.offset + c.limit) ∧ ByteBuffer.wrapRange m.array
      (m.offset + target) (m.offset + c.limit) = .error .indexOutOfBounds := by
  by_cases hfit : m.offset + target + (m.offset + c.limit) ≤ m.array.size
  · have hcovers := h.covers
    have hbase := h.base
    refine .inl ⟨hfit, _, dif_pos hfit, ⟨rfl, ?_, ?_, Nat.zero_le _⟩, ?_⟩
    · simp [ByteBuffer.index, ByteBuffer.wrap]
    · simp only [ByteBuffer.stop, ByteBuffer.wrap] at hcovers ⊢
      omega
    · show m.offset + target + (m.offset + c.limit) = _
      omega
  · exact .inr ⟨Nat.not_le.mp hfit, dif_neg hfit⟩

theorem At.limit_le (h : At m c p) : c.limit ≤ m.array.size := by
  have hcapacity := c.capacity_le
  have hlimit := c.limit_le
  rw [h.array] at hcapacity
  omega

end

section
variable {m : Message} {c : ByteBuffer Byte} {x : EncodedName}

/-- The chain of pointers comes to its end exactly when all limits fit. -/
theorem closes_iff_room (hx : NameAt m x) (hc : At m c x.start) :
    (∃ d, Chain.Reaches (followPointer m.offset) c d ∧ Closes d) ↔ c.limit + x.growth m ≤ m.array.size := by
  induction hx generalizing c with
  | root hlabels hlt hroot =>
    obtain ⟨hcloses, -⟩ := hc.closes hlabels hlt hroot
    exact iff_of_true ⟨c, Chain.reaches_refl c, hcloses⟩ hc.limit_le
  | @pointer p e labels target hlabels hlt hpointer htarget hearlier hname ih =>
    obtain ⟨hopen, -, -, hfollow⟩ := hc.follow hlabels hlt hpointer
    rw [htarget] at hfollow
    have hgrowth : EncodedName.growth ⟨p, (labels, target.start) :: target.hops, target.last, e + 2⟩ m =
        2 * m.offset + target.start + target.growth m := rfl
    obtain ⟨-, d, hwrap, hd, hlimit⟩ | ⟨hover, hwrap⟩ := hc.hop target.start
    · rw [hwrap] at hfollow
      have hstep : followPointer m.offset c = some d := hfollow
      rw [hgrowth, ← Nat.add_assoc, ← hlimit, ← ih hd]
      refine exists_congr fun f => and_congr_left fun hf => ⟨fun hreach => ?_, Chain.reaches_head hstep⟩
      rcases Chain.reaches_cases hreach with rfl | ⟨d', hd', hreach⟩
      · exact absurd hf hopen
      · cases hstep.symm.trans hd'
        exact hreach
    · rw [hwrap] at hfollow
      refine iff_of_false ?_ (by omega)
      rintro ⟨d, hreach, hd⟩
      rcases Chain.reaches_cases hreach with rfl | ⟨d', hd', -⟩
      · exact hopen hd
      · cases hfollow.symm.trans hd'

/-- What `ReadDomain` returns for a name, and where it leaves the buffer. -/
theorem readDomain_of_room (hx : NameAt m x) (hc : At m c x.start)
    (hroom : c.limit + x.growth m ≤ m.array.size) (depth : Nat) (hdepth : x.hops.length < depth) :
    ∃ spans, readDomain m.offset depth c = .ok ⟨x.text, c.advance (x.stop - x.start), spans⟩ := by
  induction hx generalizing c depth with
  | root hlabels hlt hroot =>
    obtain ⟨depth, rfl⟩ := Nat.exists_eq_add_of_lt hdepth
    obtain ⟨hcloses, hend, htext⟩ := hc.closes hlabels hlt hroot
    rw [readDomain_closes hcloses, hend, htext]
    exact ⟨_, rfl⟩
  | @pointer p e labels target hlabels hlt hpointer htarget hearlier hname ih =>
    obtain ⟨depth, rfl⟩ := Nat.exists_eq_add_of_lt hdepth
    obtain ⟨hopen, htext, hend, hfollow⟩ := hc.follow hlabels hlt hpointer
    rw [htarget] at hfollow
    have hgrowth : EncodedName.growth ⟨p, (labels, target.start) :: target.hops, target.last, e + 2⟩ m =
        2 * m.offset + target.start + target.growth m := rfl
    obtain ⟨-, d, hwrap, hd, hlimit⟩ | ⟨hover, -⟩ := hc.hop target.start
    · rw [hwrap] at hfollow
      have hstep : followPointer m.offset c = some d := hfollow
      have hdepth' : target.hops.length < (target.hops.length + 1) + depth := by omega
      obtain ⟨spans, hread⟩ := ih hd (by omega) _ hdepth'
      have htexts : EncodedName.text ⟨p, (labels, target.start) :: target.hops, target.last, e + 2⟩ =
          dotted labels ++ target.text := by
        simp [EncodedName.text, EncodedName.firstLabels, dotted_append]
      refine ⟨(c.index, readEnd c) :: spans, (readDomain_follow hstep _).trans ?_⟩
      simp only [List.length_cons]
      rw [hread, htexts, ← htext, hend]
      rfl
    · omega

end

-- ---------------------------------------------------------------------------
-- Messages
-- ---------------------------------------------------------------------------

/-- Records from `p` on, each a name with some more bytes. -/
inductive RecordsAt (m : Message) (rest : Nat → Nat) : Nat → List EncodedName → Nat → Prop
  | nil (p : Nat) : RecordsAt m rest p [] p
  | cons {x : EncodedName} {names : List EncodedName} {e : Nat} (hname : NameAt m x)
      (hfit : x.stop + rest x.stop ≤ m.length) (hrest : RecordsAt m rest (x.stop + rest x.stop) names e) :
      RecordsAt m rest x.start (x :: names) e

/-- Type and class. -/
def questionRest (_ : Nat) : Nat := 4

/-- Type, class, TTL, and the data with its length. -/
def resourceRest (m : Message) (e : Nat) : Nat := 10 + (short m.array (m.offset + e + 8)).toNat

/-- The names of the four sections. -/
structure Contents where
  questions : List EncodedName
  resources : List EncodedName
  aResources : List EncodedName
  eResources : List EncodedName

def Contents.names (c : Contents) : List EncodedName :=
  c.questions ++ (c.resources ++ (c.aResources ++ c.eResources))

structure WellFormed (m : Message) (c : Contents) : Prop where
  position : m.position = 0
  header : 12 ≤ m.length
  questionCount : (short m.array (m.offset + 4)).toNat = c.questions.length
  resourceCount : (short m.array (m.offset + 6)).toNat = c.resources.length
  aResourceCount : (short m.array (m.offset + 8)).toNat = c.aResources.length
  eResourceCount : (short m.array (m.offset + 10)).toNat = c.eResources.length
  records : ∃ p q r e, RecordsAt m questionRest 12 c.questions p ∧ RecordsAt m (resourceRest m) p c.resources q ∧
    RecordsAt m (resourceRest m) q c.aResources r ∧ RecordsAt m (resourceRest m) r c.eResources e

/-- Not more records than are handled. -/
structure Contents.Handled (c : Contents) : Prop where
  questions : c.questions.length ≤ 2
  resources : c.resources.length ≤ 50
  aResources : c.aResources.length ≤ 50
  eResources : c.eResources.length ≤ 50

section
variable {m : Message} {x : EncodedName} {rest : Nat → Nat} {p e : Nat} {names : List EncodedName}

/-- Each hop leads to an earlier start. -/
theorem hops_le_start (h : NameAt m x) : x.hops.length ≤ x.start := by
  induction h with
  | root => exact Nat.zero_le _
  | pointer hlabels hlt hpointer htarget hearlier hname ih =>
    rw [List.length_cons]
    exact Nat.lt_of_le_of_lt ih hearlier

theorem start_lt_stop (h : NameAt m x) : x.start < x.stop ∧ x.stop ≤ m.length := by
  cases h with
  | root hlabels hlt =>
    have hle := le_of_labelsAt hlabels
    exact ⟨Nat.lt_succ_of_le hle, hlt⟩
  | pointer hlabels hlt =>
    have hle := le_of_labelsAt hlabels
    exact ⟨Nat.lt_add_right 1 (Nat.lt_succ_of_le hle), hlt⟩

theorem RecordsAt.nameAt (h : RecordsAt m rest p names e) : ∀ x ∈ names, NameAt m x := by
  induction h with
  | nil => exact List.forall_mem_nil _
  | cons hname hfit hrest ih => exact List.forall_mem_cons.mpr ⟨hname, ih⟩

theorem WellFormed.nameAt {c : Contents} (h : WellFormed m c) : ∀ x ∈ c.names, NameAt m x := by
  obtain ⟨p, q, r, e, hquestions, hresources, haResources, heResources⟩ := h.records
  simp only [Contents.names, List.forall_mem_append]
  exact ⟨hquestions.nameAt, hresources.nameAt, haResources.nameAt, heResources.nameAt⟩

/-- The buffer of a message, at some byte. -/
theorem at_advance (hpos : m.position = 0) (hp : p ≤ m.length) : At m (m.buffer.advance p) p where
  array := rfl
  index := by
    rw [m.buffer.advance_index]
    · simp [ByteBuffer.index, Message.buffer, hpos]
    · simp only [ByteBuffer.index, ByteBuffer.stop, Message.buffer, hpos]
      omega
  covers := Nat.le_refl _
  base := Nat.le_refl _

theorem remaining_advance (hpos : m.position = 0) (p : Nat) : (m.buffer.advance p).remaining = m.length - p := by
  rw [m.buffer.advance_remaining, m.buffer.remaining_eq_limit hpos]
  rfl

theorem nameCloses_iff (hpos : m.position = 0) (hx : NameAt m x) :
    NameCloses (m.buffer.advance x.start) ↔ x.Room m :=
  closes_iff_room hx (at_advance hpos (by have := start_lt_stop hx; omega))

theorem nextDomain_of_room (hpos : m.position = 0) (hx : NameAt m x) (hroom : x.Room m) {depth : Nat}
    (hdepth : x.hops.length < depth) :
    nextDomain depth (m.buffer.advance x.start) = .ok (x.text, m.buffer.advance x.stop) := by
  have hstart := start_lt_stop hx
  obtain ⟨spans, hread⟩ := readDomain_of_room hx (at_advance hpos (by omega)) hroom depth hdepth
  have hskip : x.start + (x.stop - x.start) = x.stop := by omega
  rw [ByteBuffer.advance_advance, hskip] at hread
  show (readDomain m.offset depth _ >>= _) = _
  rw [hread]
  rfl

end

end SmartSocks.Dns
