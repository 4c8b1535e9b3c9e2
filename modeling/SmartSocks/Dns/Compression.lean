import SmartSocks.Dns.ReadDomain
import SmartSocks.Library.Chain

/-!
# Name decompression stays in the message

One call of `ReadDomain` reads the labels of one buffer and then ends
(`Closes`), fails, or goes on in the buffer of a pointer (`followPointer`): a
reading is a chain of buffers. Each hop moves the limit by the header offset and
the pointer, so the chain is finite unless a name is a pointer to itself, but
the limit may be moved past the end of the message.
-/

namespace SmartSocks.Dns

open Jvm DNSPacket

section
variable (hdr : Nat) (b : ByteBuffer Byte)

/-- The length byte that ends the labels of a buffer. -/
def labelsStop : Nat := labelsEnd b.array b.stop b.index

/-- The name is over in this buffer. -/
def Closes : Prop := b.index < b.stop ∧ EndsAt b.array b.stop (labelsStop b)

instance : Decidable (Closes b) := inferInstanceAs (Decidable (_ ∧ _))

/-- The buffer in which the name goes on. -/
def followPointer : Option (ByteBuffer Byte) :=
  if b.index < b.stop ∧ ¬ EndsAt b.array b.stop (labelsStop b) ∧
      IsPointer (b.array.cell (labelsStop b)) then
    (ByteBuffer.wrapRange b.array (hdr + pointerAt b.array (labelsStop b)) (hdr + b.limit)).toOption
  else none

/-- The end of what is read in this buffer: the terminator or the pointer is
included. -/
def readEnd : Nat := if Closes b then labelsStop b + 1 else labelsStop b + 2

/-- The labels of this buffer, each with its dot. -/
def labels : List Char := labelsText b.array b.stop b.index

/-- The last dot goes where the name ends in a root byte. -/
def lastLabels : List Char :=
  if (b.array.cell (labelsStop b)).toNat = 0 ∧ labels b ≠ [] then (labels b).dropLast else labels b

end

section
variable {hdr : Nat} {b c : ByteBuffer Byte}

theorem followPointer_eq_some : followPointer hdr b = some c ↔
    (b.index < b.stop ∧ ¬ EndsAt b.array b.stop (labelsStop b) ∧
      IsPointer (b.array.cell (labelsStop b))) ∧
    ByteBuffer.wrapRange b.array (hdr + pointerAt b.array (labelsStop b)) (hdr + b.limit) = .ok c := by
  unfold followPointer
  split
  next h =>
    cases ByteBuffer.wrapRange b.array (hdr + pointerAt b.array (labelsStop b)) (hdr + b.limit) with
    | ok d => simp [h, Except.toOption]
    | error e => simp [Except.toOption]
  next h => simp [h]

theorem Closes.followPointer (h : Closes b) : followPointer hdr b = none := by
  unfold Dns.followPointer
  rw [if_neg]
  rintro ⟨-, hend, -⟩
  exact hend h.2

theorem not_closes_of_follow (h : followPointer hdr b = some c) : ¬ Closes b := by
  intro hc
  rw [hc.followPointer] at h
  cases h

-- ---------------------------------------------------------------------------
-- What one call does
-- ---------------------------------------------------------------------------

theorem readDomain_step (depth : Nat) (h : b.index < b.stop) :
    readDomain hdr (depth + 1) b =
      readLabels hdr (readDomain hdr depth) b.index (b.array.cell b.index).toNat [] (b.advance 1) := by
  rw [readDomain, b.get_ok (b.index_lt_stop.mp h)]
  rfl

theorem index_advance_one (h : b.index < b.stop) : (b.advance 1).index = b.index + 1 :=
  b.advance_index h

theorem index_le_labelsStop (b : ByteBuffer Byte) : b.index ≤ labelsStop b := le_labelsEnd ..

theorem readDomain_closes (h : Closes b) (depth : Nat) :
    readDomain hdr (depth + 1) b =
      .ok ⟨lastLabels b, b.advance (readEnd b - b.index), [(b.index, readEnd b)]⟩ := by
  have hle := index_le_labelsStop b
  have hskip : 1 + (labelsStop b - b.index) = labelsStop b + 1 - b.index := by omega
  rw [readDomain_step depth h.1]
  refine (readLabels_eq hdr _ _ [] (b.advance 1) (index_advance_one h.1)).trans ?_
  simp only [readEnd, if_pos h, ← hskip, ← b.advance_advance]
  exact if_pos h.2

theorem readDomain_follow (h : followPointer hdr b = some c) (depth : Nat) :
    readDomain hdr (depth + 1) b = do
      let target ← readDomain hdr depth c
      return ⟨labels b ++ target.name, b.advance (readEnd b - b.index),
        (b.index, readEnd b) :: target.spans⟩ := by
  obtain ⟨⟨hlt, hend, hptr⟩, hwrap⟩ := followPointer_eq_some.mp h
  have hle := index_le_labelsStop b
  have hskip : 1 + (labelsStop b - b.index + 1) = labelsStop b + 2 - b.index := by omega
  rw [readDomain_step depth hlt]
  refine (readLabels_eq hdr _ _ [] (b.advance 1) (index_advance_one hlt)).trans ?_
  refine (if_neg hend).trans ((if_pos hptr).trans ?_)
  simp only [readEnd, if_neg (not_closes_of_follow h), ← hskip, ← b.advance_advance]
  exact congrArg (· >>= _) hwrap

theorem readDomain_fails (hc : ¬ Closes b) (hf : followPointer hdr b = none) :
    ∃ e : Throwable, e ≠ .stackOverflow ∧ ∀ depth, readDomain hdr (depth + 1) b = .error e := by
  by_cases hlt : b.index < b.stop
  · have hend : ¬ EndsAt b.array b.stop (labelsStop b) := fun hend => hc ⟨hlt, hend⟩
    have hread := fun depth => (readDomain_step depth hlt).trans
      ((readLabels_eq hdr (readDomain hdr depth) _ [] (b.advance 1) (index_advance_one hlt)).trans
        (if_neg hend))
    by_cases hptr : IsPointer (b.array.cell (labelsStop b))
    · cases hwrap : ByteBuffer.wrapRange b.array (hdr + pointerAt b.array (labelsStop b))
          (hdr + b.limit) with
      | ok d => rw [followPointer_eq_some.mpr ⟨⟨hlt, hend, hptr⟩, hwrap⟩] at hf; cases hf
      | error e =>
        refine ⟨e, ?_, fun depth => (hread depth).trans ((if_pos hptr).trans ?_)⟩
        · rintro rfl
          unfold ByteBuffer.wrapRange at hwrap
          split at hwrap <;> cases hwrap
        · exact congrArg (· >>= _) hwrap
    · exact ⟨.bufferUnderflow, by simp, fun depth => (hread depth).trans (if_neg hptr)⟩
  · refine ⟨.bufferUnderflow, by simp, fun depth => ?_⟩
    rw [readDomain, b.get_underflow fun h => hlt (b.index_lt_stop.mpr h)]
    rfl

-- ---------------------------------------------------------------------------
-- A reading is a chain
-- ---------------------------------------------------------------------------

/-- Every frame is used up exactly when the chain has that many hops. -/
theorem readDomain_stackOverflow_iff (depth : Nat) :
    readDomain hdr depth b = .error .stackOverflow ↔
      Chain.follow (followPointer hdr) depth b ≠ none := by
  induction depth generalizing b with
  | zero => exact iff_of_true rfl (by simp [Chain.follow])
  | succ depth ih =>
    cases hf : followPointer hdr b with
    | some c =>
      rw [Chain.follow_succ hf, ← ih, readDomain_follow hf, bind_eq_error]
      simp [pure, Except.pure]
    | none =>
      refine iff_of_false ?_ (by simp [Chain.follow, hf])
      by_cases hc : Closes b
      · rw [readDomain_closes hc]
        simp
      · obtain ⟨e, hne, he⟩ := readDomain_fails hc hf
        rw [he]
        simpa using hne

/-- The spans of a reading are those of the buffers on its chain, and the last
of them closes. -/
theorem spans_of_readDomain {depth : Nat} {r : Reading} (h : readDomain hdr depth b = .ok r) :
    (∃ c, Chain.Reaches (followPointer hdr) b c ∧ Closes c) ∧
      (∀ c, Chain.Reaches (followPointer hdr) b c → (c.index, readEnd c) ∈ r.spans) ∧
      ∀ s ∈ r.spans, ∃ c, Chain.Reaches (followPointer hdr) b c ∧ s = (c.index, readEnd c) := by
  induction depth generalizing b r with
  | zero => cases h
  | succ depth ih =>
    cases hf : followPointer hdr b with
    | some c =>
      rw [readDomain_follow hf, bind_eq_ok] at h
      obtain ⟨target, htarget, h⟩ := h
      cases h
      obtain ⟨⟨d, hd, hclose⟩, hall, hmem⟩ := ih htarget
      refine ⟨⟨d, Chain.reaches_head hf hd, hclose⟩, fun d hd => ?_, fun s hs => ?_⟩
      · rcases Chain.reaches_cases hd with rfl | ⟨c', hc', hd⟩
        · exact List.mem_cons_self
        · cases hf.symm.trans hc'
          exact List.mem_cons_of_mem _ (hall d hd)
      · rcases List.mem_cons.mp hs with rfl | hs
        · exact ⟨b, Chain.reaches_refl b, rfl⟩
        · obtain ⟨d, hd, rfl⟩ := hmem s hs
          exact ⟨d, Chain.reaches_head hf hd, rfl⟩
    | none =>
      by_cases hc : Closes b
      · rw [readDomain_closes hc] at h
        cases h
        refine ⟨⟨b, Chain.reaches_refl b, hc⟩, fun d hd => ?_, fun s hs => ?_⟩
        · rcases Chain.reaches_cases hd with rfl | ⟨c', hc', -⟩
          · exact List.mem_singleton_self _
          · cases hf.symm.trans hc'
        · exact ⟨b, Chain.reaches_refl b, List.mem_singleton.mp hs⟩
      · obtain ⟨e, -, he⟩ := readDomain_fails hc hf
        rw [he] at h
        cases h

theorem readDomain_of_closes (h : Chain.Reaches (followPointer hdr) b c) (hc : Closes c) :
    ∃ depth r, readDomain hdr depth b = .ok r := by
  induction h using Relation.ReflTransGen.head_induction_on with
  | refl => exact ⟨1, _, readDomain_closes hc 0⟩
  | head hstep _ ih =>
    obtain ⟨depth, r, hr⟩ := ih
    exact ⟨depth + 1, _, by rw [readDomain_follow hstep, hr]; rfl⟩

-- ---------------------------------------------------------------------------
-- Hops
-- ---------------------------------------------------------------------------

/-- A hop leads to a buffer over the whole array, whose limit has grown by the
header offset and the pointer. -/
theorem wrapRange_eq_ok {a : Bytes Byte} {offset length : Nat} :
    ByteBuffer.wrapRange a offset length = .ok c ↔
      c.array = a ∧ c.arrayOffset = 0 ∧ c.capacity = a.size ∧ c.position = offset ∧
        c.limit = offset + length := by
  unfold ByteBuffer.wrapRange
  split
  next h =>
    constructor
    · intro hc
      cases hc
      exact ⟨rfl, rfl, rfl, rfl, rfl⟩
    · rintro ⟨rfl, hofs, hcap, rfl, hlim⟩
      cases c
      dsimp only at hofs hcap hlim
      subst hofs hcap hlim
      rfl
  next h =>
    refine ⟨nofun, ?_⟩
    rintro ⟨rfl, hofs, hcap, rfl, hlim⟩
    have := c.limit_le
    omega

/-- A buffer that reaches to the end of its array and starts at the header or at
the start of the array, as those of a reading do. -/
def OverArray (hdr : Nat) (b : ByteBuffer Byte) : Prop :=
  (b.arrayOffset = hdr ∨ b.arrayOffset = 0) ∧ b.arrayOffset + b.capacity = b.array.size

theorem OverArray.of_reaches (h : OverArray hdr b) (hr : Chain.Reaches (followPointer hdr) b c) :
    OverArray hdr c ∧ c.array = b.array := by
  induction hr with
  | refl => exact ⟨h, rfl⟩
  | tail _ hstep ih =>
    obtain ⟨harray, hofs, hcap, -⟩ := wrapRange_eq_ok.mp (followPointer_eq_some.mp hstep).2
    refine ⟨⟨.inr hofs, ?_⟩, harray.trans ih.2⟩
    rw [hofs, hcap, harray, Nat.zero_add]

/-- What is left of the array beyond the limit, and whether the name starts
elsewhere than at index 0. -/
def room (b : ByteBuffer Byte) : Nat := 2 * (b.array.size - b.stop) + if b.index = 0 then 0 else 1

theorem room_lt_of_follow (h : OverArray hdr b) (hf : followPointer hdr b = some c) (hne : c ≠ b) :
    room c < room b := by
  obtain ⟨harray, hofs, hcap, hpos, hlim⟩ := wrapRange_eq_ok.mp (followPointer_eq_some.mp hf).2
  obtain ⟨hbase, hend⟩ := h
  have hgrow : c.index + b.stop ≤ c.stop := by
    simp only [ByteBuffer.index, ByteBuffer.stop]
    omega
  have hfit : c.stop ≤ b.array.size := by
    have := c.limit_le
    simp only [ByteBuffer.stop]
    omega
  have hmove : c.index = 0 → b.index = 0 → c.stop ≠ b.stop := by
    -- otherwise both buffers start at index 0 and have one limit
    intro hc hb hstop
    refine hne ?_
    cases b
    cases c
    simp only [ByteBuffer.index, ByteBuffer.stop, ByteBuffer.mk.injEq] at *
    exact ⟨harray, by omega, by omega, by omega, by omega⟩
  simp only [room, harray]
  split <;> split <;> omega

-- ---------------------------------------------------------------------------
-- Bytes that are not read
-- ---------------------------------------------------------------------------

theorem labelsEnd_congr {a a' : Bytes Byte} {stop p : Nat}
    (h : ∀ i, p ≤ i → i ≤ labelsEnd a stop p → a'.cell i = a.cell i) :
    labelsEnd a' stop p = labelsEnd a stop p ∧ labelsText a' stop p = labelsText a stop p := by
  have hp : a'.cell p = a.cell p := h p (Nat.le_refl p) (le_labelsEnd a stop p)
  have hlabel : HasLabel a' stop p ↔ HasLabel a stop p := by unfold HasLabel; rw [hp]
  induction p using labelsEnd.induct a stop with
  | case1 p hl ih =>
    have hle := le_labelsEnd a stop (p + 1 + (a.cell p).toNat)
    rw [labelsEnd_of_label hl] at h
    have hnext : a'.cell (p + 1 + (a.cell p).toNat) = a.cell (p + 1 + (a.cell p).toNat) :=
      h _ (by omega) hle
    obtain ⟨hend, htext⟩ := ih (fun i hi => h i (by omega)) hnext (by unfold HasLabel; rw [hnext])
    have hslice : a'.slice (p + 1) (a.cell p).toNat = a.slice (p + 1) (a.cell p).toNat :=
      Bytes.slice_congr _ fun i hi hi' => h i (by omega) (by omega)
    rw [labelsEnd_of_label hl, labelsText_of_label hl, labelsEnd_of_label (hlabel.mpr hl),
      labelsText_of_label (hlabel.mpr hl), hp, hend, htext, hslice]
    exact ⟨rfl, rfl⟩
  | case2 p hl =>
    have hl' := fun h' => hl (hlabel.mp h')
    rw [labelsEnd_of_end hl, labelsText_of_end hl, labelsEnd_of_end hl', labelsText_of_end hl']
    exact ⟨rfl, rfl⟩

/-- The same buffer over an array with the same cells from `lo` to `hi`. -/
structure Twin (lo hi : Nat) (b b' : ByteBuffer Byte) : Prop where
  size : b'.array.size = b.array.size
  arrayOffset : b'.arrayOffset = b.arrayOffset
  position : b'.position = b.position
  limit : b'.limit = b.limit
  cell : ∀ i, lo ≤ i → i < hi → b'.array.cell i = b.array.cell i

section
variable {lo hi : Nat} {b' : ByteBuffer Byte}

theorem Twin.index (h : Twin lo hi b b') : b'.index = b.index := by
  simp only [ByteBuffer.index, h.arrayOffset, h.position]

theorem Twin.stop (h : Twin lo hi b b') : b'.stop = b.stop := by
  simp only [ByteBuffer.stop, h.arrayOffset, h.limit]

theorem labelsStop_lt_readEnd (b : ByteBuffer Byte) : labelsStop b < readEnd b := by
  unfold readEnd
  split <;> omega

theorem Twin.labels (h : Twin lo hi b b') (hlo : lo ≤ b.index) (hhi : readEnd b ≤ hi) :
    labelsStop b' = labelsStop b ∧ Dns.labels b' = Dns.labels b := by
  have hlt := labelsStop_lt_readEnd b
  unfold labelsStop Dns.labels
  rw [h.index, h.stop]
  refine labelsEnd_congr fun i hi hi' => h.cell i (by omega) ?_
  unfold labelsStop at hlt
  omega

theorem Twin.stopCell (h : Twin lo hi b b') (hlo : lo ≤ b.index) (hhi : readEnd b ≤ hi) :
    b'.array.cell (labelsStop b) = b.array.cell (labelsStop b) := by
  have := labelsStop_lt_readEnd b
  have := index_le_labelsStop b
  exact h.cell _ (by omega) (by omega)

theorem Twin.closes (h : Twin lo hi b b') (hlo : lo ≤ b.index) (hhi : readEnd b ≤ hi) :
    Closes b' ↔ Closes b := by
  unfold Closes EndsAt
  rw [h.index, h.stop, (h.labels hlo hhi).1, h.stopCell hlo hhi]

theorem Twin.lastLabels (h : Twin lo hi b b') (hlo : lo ≤ b.index) (hhi : readEnd b ≤ hi) :
    Dns.lastLabels b' = Dns.lastLabels b := by
  unfold Dns.lastLabels
  rw [(h.labels hlo hhi).1, (h.labels hlo hhi).2, h.stopCell hlo hhi]

theorem Twin.follow (h : Twin lo hi b b') (hlo : lo ≤ b.index) (hhi : readEnd b ≤ hi)
    (hf : followPointer hdr b = some c) : ∃ c', followPointer hdr b' = some c' ∧ Twin lo hi c c' := by
  have hle := index_le_labelsStop b
  obtain ⟨⟨hlt, hend, hptr⟩, hwrap⟩ := followPointer_eq_some.mp hf
  have hpointer : pointerAt b'.array (labelsStop b) = pointerAt b.array (labelsStop b) := by
    unfold readEnd at hhi
    rw [if_neg (not_closes_of_follow hf)] at hhi
    unfold pointerAt
    rw [h.cell _ (by omega) (by omega), h.cell _ (by omega) (by omega)]
  obtain ⟨harray, hofs, hcap, hpos, hlim⟩ := wrapRange_eq_ok.mp hwrap
  have hfit : hdr + pointerAt b.array (labelsStop b) + (hdr + b.limit) ≤ b'.array.size := by
    have := c.limit_le
    rw [h.size]
    omega
  have hwrap' : ∃ c', ByteBuffer.wrapRange b'.array
      (hdr + pointerAt b.array (labelsStop b)) (hdr + b.limit) = .ok c' := ⟨_, dif_pos hfit⟩
  obtain ⟨c', hc'⟩ := hwrap'
  obtain ⟨harray', hofs', -, hpos', hlim'⟩ := wrapRange_eq_ok.mp hc'
  refine ⟨c', followPointer_eq_some.mpr ?_, ?_⟩
  · unfold EndsAt
    rw [(h.labels hlo hhi).1, h.index, h.stop, h.stopCell hlo hhi, hpointer, h.limit]
    exact ⟨⟨hlt, hend, hptr⟩, hc'⟩
  · refine ⟨?_, hofs'.trans hofs.symm, hpos'.trans hpos.symm, hlim'.trans hlim.symm, ?_⟩
    · rw [harray, harray', h.size]
    · rw [harray, harray']
      exact h.cell

/-- A reading that stays below `hi` is the same in every array that agrees up
to there. -/
theorem readDomain_congr {depth : Nat} {r : Reading} (hhdr : lo ≤ hdr) (ht : Twin lo hi b b')
    (hlo : lo ≤ b.index) (h : readDomain hdr depth b = .ok r) (hin : ∀ s ∈ r.spans, s.2 ≤ hi) :
    ∃ r', readDomain hdr depth b' = .ok r' ∧ r'.name = r.name := by
  induction depth generalizing b b' r with
  | zero => cases h
  | succ depth ih =>
    have hhi : readEnd b ≤ hi := by
      obtain ⟨-, hall, -⟩ := spans_of_readDomain h
      exact hin _ (hall b (Chain.reaches_refl b))
    cases hf : followPointer hdr b with
    | some c =>
      rw [readDomain_follow hf, bind_eq_ok] at h
      obtain ⟨target, htarget, h⟩ := h
      cases h
      obtain ⟨c', hf', htc⟩ := ht.follow hlo hhi hf
      have hstart : lo ≤ c.index := by
        obtain ⟨-, hofs, -, hpos, -⟩ := wrapRange_eq_ok.mp (followPointer_eq_some.mp hf).2
        simp only [ByteBuffer.index]
        omega
      obtain ⟨target', htarget', hname⟩ :=
        ih htc hstart htarget fun s hs => hin s (List.mem_cons_of_mem _ hs)
      rw [readDomain_follow hf', htarget']
      refine ⟨_, rfl, ?_⟩
      simp only [(ht.labels hlo hhi).2, hname]
    | none =>
      by_cases hc : Closes b
      · rw [readDomain_closes hc] at h
        cases h
        refine ⟨_, readDomain_closes ((ht.closes hlo hhi).mpr hc) depth, ?_⟩
        exact ht.lastLabels hlo hhi
      · obtain ⟨e, -, he⟩ := readDomain_fails hc hf
        rw [he] at h
        cases h

end

end

-- ---------------------------------------------------------------------------
-- Messages in an array
-- ---------------------------------------------------------------------------

/-- A message of `length` bytes at `offset` in an array, and a position in it. -/
structure Message where
  array : Bytes Byte
  offset : Nat
  length : Nat
  position : Nat
  length_le : offset + length ≤ array.size
  position_le : position ≤ length

namespace Message

variable (m : Message)

/-- The slice of the array from the message on, limited to the message. -/
def buffer : ByteBuffer Byte where
  array := m.array
  arrayOffset := m.offset
  capacity := m.array.size - m.offset
  position := m.position
  limit := m.length
  position_le := m.position_le
  limit_le := Nat.le_sub_of_add_le' m.length_le
  capacity_le := by
    have := m.length_le
    omega

/-- `ReadDomain` at the position, with `depth` stack frames. -/
def read (depth : Nat) : Except Throwable Reading := readDomain m.offset depth m.buffer

/-- The same place in an array that has the same bytes of the message. -/
def Agrees (m m' : Message) : Prop :=
  m'.array.size = m.array.size ∧ m'.offset = m.offset ∧ m'.length = m.length ∧
    m'.position = m.position ∧
    ∀ i, m.offset ≤ i → i < m.offset + m.length → m'.array.cell i = m.array.cell i

/-- Decompression ends, and a name that is returned is read from the message
and depends on nothing else. -/
structure Confined : Prop where
  ends : ∃ bound, ∀ depth, bound ≤ depth → m.read depth ≠ .error .stackOverflow
  inside : ∀ depth r, m.read depth = .ok r →
    ∀ span ∈ r.spans, m.offset ≤ span.1 ∧ span.2 ≤ m.offset + m.length
  depends : ∀ depth r, m.read depth = .ok r →
    ∀ m', m.Agrees m' → ∃ r', m'.read depth = .ok r' ∧ r'.name = r.name

/-- The buffers on the chain of pointers from the position. -/
def Visits (b : ByteBuffer Byte) : Prop := Chain.Reaches (followPointer m.offset) m.buffer b

/-- No name on the chain of pointers is a pointer to itself, and if the chain
closes, every name on it ends inside the message. -/
structure ChainInside : Prop where
  noLoop : ∀ b, m.Visits b → followPointer m.offset b ≠ some b
  inside : ∀ c, m.Visits c → Closes c → ∀ b, m.Visits b → readEnd b ≤ m.offset + m.length

theorem overArray_buffer : OverArray m.offset m.buffer :=
  ⟨.inl rfl, Nat.add_sub_cancel' (Nat.le_trans (Nat.le_add_right _ _) m.length_le)⟩

variable {m}

theorem Visits.overArray {b : ByteBuffer Byte} (h : m.Visits b) : OverArray m.offset b :=
  (m.overArray_buffer.of_reaches h).1

theorem Visits.offset_le {b : ByteBuffer Byte} (h : m.Visits b) : m.offset ≤ b.index := by
  cases h with
  | refl => exact Nat.le_add_right _ _
  | tail _ hstep =>
    obtain ⟨-, hofs, -, hpos, -⟩ := wrapRange_eq_ok.mp (followPointer_eq_some.mp hstep).2
    simp only [ByteBuffer.index]
    omega

theorem ends_iff_noLoop : (∃ bound, ∀ depth, bound ≤ depth → m.read depth ≠ .error .stackOverflow) ↔
    ∀ b, m.Visits b → followPointer m.offset b ≠ some b := by
  have hlower : ∀ b c, m.Visits b → followPointer m.offset b = some c → c ≠ b → room c < room b :=
    fun b c hb => room_lt_of_follow hb.overArray
  refine Iff.trans ⟨?_, ?_⟩ (Chain.ends_iff room hlower)
  · rintro ⟨bound, hbound⟩
    have hread := hbound bound (Nat.le_refl bound)
    rw [read, Ne, readDomain_stackOverflow_iff, not_not] at hread
    exact ⟨bound, hread⟩
  · rintro ⟨bound, hbound⟩
    refine ⟨bound, fun depth hle => ?_⟩
    rw [read, Ne, readDomain_stackOverflow_iff, not_not]
    exact Chain.follow_none_mono hbound hle

end Message

/-- Decompression from a position is confined to the message exactly when the
chain of pointers from there is. -/
theorem confined_iff (m : Message) : m.Confined ↔ m.ChainInside := by
  constructor
  · rintro ⟨hends, hinside, -⟩
    refine ⟨Message.ends_iff_noLoop.mp hends, fun c hc hclose b hb => ?_⟩
    obtain ⟨depth, r, hr⟩ := readDomain_of_closes hc hclose
    obtain ⟨-, hall, -⟩ := spans_of_readDomain hr
    exact (hinside depth r hr _ (hall b hb)).2
  · rintro ⟨hnoLoop, hinside⟩
    have hspans : ∀ depth r, m.read depth = .ok r →
        ∀ span ∈ r.spans, m.offset ≤ span.1 ∧ span.2 ≤ m.offset + m.length := by
      intro depth r hr span hspan
      obtain ⟨⟨c, hc, hclose⟩, -, hmem⟩ := spans_of_readDomain hr
      obtain ⟨b, hb, rfl⟩ := hmem span hspan
      exact ⟨Message.Visits.offset_le hb, hinside c hc hclose b hb⟩
    refine ⟨Message.ends_iff_noLoop.mpr hnoLoop, hspans, ?_⟩
    intro depth r hr m' ⟨hsize, hofs, hlen, hpos, hcell⟩
    have htwin : Twin m.offset (m.offset + m.length) m.buffer m'.buffer :=
      ⟨hsize, hofs, hpos, hlen, hcell⟩
    rw [Message.read, hofs]
    exact readDomain_congr (Nat.le_refl _) htwin (Nat.le_add_right _ _) hr
      fun s hs => (hspans depth r hr s hs).2

-- ---------------------------------------------------------------------------
-- A pointer past the end
-- ---------------------------------------------------------------------------

/-- Fourteen bytes behind a UDP header, whose only name is a pointer to the
byte after them, and `stale` there from an earlier datagram. -/
def pastEnd (stale : Byte) : Message where
  array := ⟨2000, fun i =>
    if i = 40 then 0xC0 else if i = 41 then 14 else if i = 42 then 1 else if i = 43 then stale else 0⟩
  offset := 28
  length := 14
  position := 12
  length_le := Nat.le_of_ble_eq_true rfl
  position_le := by decide

theorem not_confined_pastEnd : ¬ ∀ m : Message, m.Confined := by
  intro h
  have hread : ((pastEnd 0x61).read 2).toOption.map Reading.name = some ['a'] ∧
      ((pastEnd 0x62).read 2).toOption.map Reading.name = some ['b'] := by decide +kernel
  have hagree : (pastEnd 0x61).Agrees (pastEnd 0x62) := by
    refine ⟨rfl, rfl, rfl, rfl, fun i _ hi => ?_⟩
    simp only [pastEnd] at hi ⊢
    have : i ≠ 43 := by omega
    simp [this]
  cases hr : (pastEnd 0x61).read 2 with
  | error e =>
    rw [hr] at hread
    cases hread.1
  | ok r =>
    obtain ⟨r', hr', hname⟩ := (h (pastEnd 0x61)).depends 2 r hr _ hagree
    rw [hr, hr'] at hread
    have ha : r.name = ['a'] := Option.some.inj hread.1
    have hb : r'.name = ['b'] := Option.some.inj hread.2
    rw [hname, ha] at hb
    cases hb

end SmartSocks.Dns
