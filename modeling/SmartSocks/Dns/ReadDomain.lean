import SmartSocks.Utils.EasyValue

/-!
# `DNSPacket.ReadDomain`

A compression pointer makes `ReadDomain` call itself on a new buffer over the
whole array. `depth` counts the stack frames that are left, and running out of
them is `StackOverflowError`. The second argument of a hop is
`dnsHeaderOffset + buffer.limit()`, which `ByteBuffer.wrap` takes for a length.

A buffer is read by relative gets only, so the bytes read by one call are those
between its position on entry and on exit: a reading lists these spans, first
the span of the outermost call.
-/

namespace SmartSocks.Dns

open Jvm

structure Reading where
  name : List Char
  buffer : ByteBuffer Byte
  spans : List (Nat × Nat)

namespace DNSPacket

/-- `(byte and 0xFF).toChar()` -/
def toChar (b : Byte) : Char := Char.ofNat b.toNat

/-- The inner loop: it stops early where the buffer ends. -/
def readLabel (len : Nat) (buffer : ByteBuffer Byte) : List Char × ByteBuffer Byte :=
  let count := min len buffer.remaining
  ((buffer.left.take count).map toChar, buffer.advance count)

/-- The outer loop, with the length byte `len` just read. `start` is the index
at which this call began. -/
def readLabels (dnsHeaderOffset : Nat) (readDomain : ByteBuffer Byte → Except Throwable Reading)
    (start len : Nat) (sb : List Char) (buffer : ByteBuffer Byte) : Except Throwable Reading :=
  if buffer.hasRemaining ∧ 0 < len then
    if len &&& 0xC0 = 0xC0 then
      match buffer.get with
      | .error e => .error e
      | .ok (low, buffer) => do
        let pointer := low.toNat ||| (len &&& 0x3F) <<< 8
        let newBuffer ← ByteBuffer.wrapRange buffer.array (dnsHeaderOffset + pointer)
          (dnsHeaderOffset + buffer.limit)
        let target ← readDomain newBuffer
        return {
          name := sb ++ target.name
          buffer := buffer
          spans := (start, buffer.index) :: target.spans }
    else
      match _h : (readLabel len buffer).2.get with
      | .error e => .error e
      | .ok (next, rest) =>
        readLabels dnsHeaderOffset readDomain start next.toNat
          (sb ++ (readLabel len buffer).1 ++ ['.']) rest
  else
    .ok {
      name := if len = 0 ∧ sb ≠ [] then sb.dropLast else sb
      buffer := buffer
      spans := [(start, buffer.index)] }
termination_by buffer.remaining
decreasing_by
  have hget := ByteBuffer.remaining_of_get _ _h
  have hlabel := ByteBuffer.advance_remaining buffer (min len buffer.remaining)
  simp only [readLabel] at hget
  omega

def readDomain (dnsHeaderOffset : Nat) : Nat → ByteBuffer Byte → Except Throwable Reading
  | 0, _ => .error .stackOverflow
  | depth + 1, buffer => do
    let (len, rest) ← buffer.get
    readLabels dnsHeaderOffset (readDomain dnsHeaderOffset depth)
      buffer.index len.toNat [] rest

end DNSPacket

open DNSPacket

-- ---------------------------------------------------------------------------
-- The labels of one buffer
-- ---------------------------------------------------------------------------

/-- The two high bits of a length byte mark a pointer. -/
def IsPointer (b : Byte) : Prop := b.toNat &&& 0xC0 = 0xC0

instance (b : Byte) : Decidable (IsPointer b) := inferInstanceAs (Decidable (_ = _))

/-- The length byte at `p` opens a label that ends, with the byte after it,
before `stop`. -/
def HasLabel (a : Bytes Byte) (stop p : Nat) : Prop :=
  0 < (a.cell p).toNat ∧ ¬ IsPointer (a.cell p) ∧ p + 1 + (a.cell p).toNat < stop

instance (a : Bytes Byte) (stop p : Nat) : Decidable (HasLabel a stop p) :=
  inferInstanceAs (Decidable (_ ∧ _))

/-- Where the labels from `p` end: the first length byte that opens none. -/
def labelsEnd (a : Bytes Byte) (stop p : Nat) : Nat :=
  if HasLabel a stop p then labelsEnd a stop (p + 1 + (a.cell p).toNat) else p
termination_by stop - p
decreasing_by
  rename_i h
  have := h.2.2
  omega

/-- The labels from `p`, each with its dot. -/
def labelsText (a : Bytes Byte) (stop p : Nat) : List Char :=
  if HasLabel a stop p then
    (a.slice (p + 1) (a.cell p).toNat).map toChar ++ ['.'] ++
      labelsText a stop (p + 1 + (a.cell p).toNat)
  else []
termination_by stop - p
decreasing_by
  rename_i h
  have := h.2.2
  omega

/-- The name is over at `e`: a root byte, or the last byte of the buffer. -/
def EndsAt (a : Bytes Byte) (stop e : Nat) : Prop := (a.cell e).toNat = 0 ∨ e + 1 = stop

instance (a : Bytes Byte) (stop e : Nat) : Decidable (EndsAt a stop e) :=
  inferInstanceAs (Decidable (_ ∨ _))

/-- The pointer at `e`: the low six bits of its first byte and its second byte. -/
def pointerAt (a : Bytes Byte) (e : Nat) : Nat :=
  (a.cell (e + 1)).toNat ||| ((a.cell e).toNat &&& 0x3F) <<< 8

theorem labelsEnd_of_label {a : Bytes Byte} {stop p : Nat} (h : HasLabel a stop p) :
    labelsEnd a stop p = labelsEnd a stop (p + 1 + (a.cell p).toNat) := by
  rw [labelsEnd, if_pos h]

theorem labelsEnd_of_end {a : Bytes Byte} {stop p : Nat} (h : ¬ HasLabel a stop p) :
    labelsEnd a stop p = p := by
  rw [labelsEnd, if_neg h]

theorem labelsText_of_label {a : Bytes Byte} {stop p : Nat} (h : HasLabel a stop p) :
    labelsText a stop p = (a.slice (p + 1) (a.cell p).toNat).map toChar ++ ['.'] ++
      labelsText a stop (p + 1 + (a.cell p).toNat) := by
  rw [labelsText, if_pos h]

theorem labelsText_of_end {a : Bytes Byte} {stop p : Nat} (h : ¬ HasLabel a stop p) :
    labelsText a stop p = [] := by
  rw [labelsText, if_neg h]

theorem le_labelsEnd (a : Bytes Byte) (stop p : Nat) : p ≤ labelsEnd a stop p := by
  induction p using labelsEnd.induct a stop with
  | case1 p h ih =>
    rw [labelsEnd_of_label h]
    omega
  | case2 p h => exact Nat.le_of_eq (labelsEnd_of_end h).symm

theorem labelsEnd_lt {a : Bytes Byte} {stop p : Nat} (hp : p < stop) : labelsEnd a stop p < stop := by
  induction p using labelsEnd.induct a stop with
  | case1 p h ih =>
    rw [labelsEnd_of_label h]
    exact ih h.2.2
  | case2 p h => rwa [labelsEnd_of_end h]

section
variable {hdr : Nat} {rd : ByteBuffer Byte → Except Throwable Reading} {start len : Nat}
  {sb : List Char} {b : ByteBuffer Byte}

theorem readLabels_done (h : ¬ (b.hasRemaining ∧ 0 < len)) :
    readLabels hdr rd start len sb b =
      .ok ⟨if len = 0 ∧ sb ≠ [] then sb.dropLast else sb, b, [(start, b.index)]⟩ := by
  rw [readLabels, if_neg h]

theorem readLabels_pointer (h : b.hasRemaining ∧ 0 < len) (hp : len &&& 0xC0 = 0xC0)
    {low : Byte} {rest : ByteBuffer Byte} (hget : b.get = .ok (low, rest)) :
    readLabels hdr rd start len sb b = do
      let newBuffer ← ByteBuffer.wrapRange rest.array (hdr + (low.toNat ||| (len &&& 0x3F) <<< 8))
        (hdr + rest.limit)
      let target ← rd newBuffer
      return ⟨sb ++ target.name, rest, (start, rest.index) :: target.spans⟩ := by
  rw [readLabels, if_pos h, if_pos hp, hget]

theorem readLabels_label (h : b.hasRemaining ∧ 0 < len) (hp : ¬ len &&& 0xC0 = 0xC0)
    {next : Byte} {rest : ByteBuffer Byte} (hget : (readLabel len b).2.get = .ok (next, rest)) :
    readLabels hdr rd start len sb b =
      readLabels hdr rd start next.toNat (sb ++ (readLabel len b).1 ++ ['.']) rest := by
  rw [readLabels, if_pos h, if_neg hp]
  split
  next e heq => cases hget.symm.trans heq
  next next' rest' heq =>
    cases hget.symm.trans heq
    rfl

theorem readLabels_cut (h : b.hasRemaining ∧ 0 < len) (hp : ¬ len &&& 0xC0 = 0xC0)
    {e : Throwable} (hget : (readLabel len b).2.get = .error e) :
    readLabels hdr rd start len sb b = .error e := by
  rw [readLabels, if_pos h, if_neg hp]
  split
  next e' heq =>
    cases hget.symm.trans heq
    rfl
  next next' rest' heq => cases hget.symm.trans heq

end

/-- The loop, started on the length byte at `p`, goes to the end of the labels
and does what the byte there says. -/
theorem readLabels_eq (hdr : Nat) (rd : ByteBuffer Byte → Except Throwable Reading) (start : Nat)
    (sb : List Char) (b : ByteBuffer Byte) {p : Nat} (hp : b.index = p + 1) :
    readLabels hdr rd start (b.array.cell p).toNat sb b =
      let e := labelsEnd b.array b.stop p
      let name := sb ++ labelsText b.array b.stop p
      if EndsAt b.array b.stop e then
        .ok {
          name := if (b.array.cell e).toNat = 0 ∧ name ≠ [] then name.dropLast else name
          buffer := b.advance (e - p)
          spans := [(start, e + 1)] }
      else if IsPointer (b.array.cell e) then do
        let newBuffer ← ByteBuffer.wrapRange b.array (hdr + pointerAt b.array e) (hdr + b.limit)
        let target ← rd newBuffer
        return {
          name := name ++ target.name
          buffer := b.advance (e - p + 1)
          spans := (start, e + 2) :: target.spans }
      else .error .bufferUnderflow := by
  obtain ⟨a, ha⟩ : ∃ a, b.array = a := ⟨_, rfl⟩
  obtain ⟨stop, hstop⟩ : ∃ stop, b.stop = stop := ⟨_, rfl⟩
  rw [ha, hstop]
  induction p using labelsEnd.induct a stop generalizing b sb with
  | case1 p h ih =>
    have hlen := h.1
    have hfit := h.2.2
    have hrem : b.remaining = stop - (p + 1) := by rw [b.remaining_eq, hp, hstop]
    have hmore : b.hasRemaining ∧ 0 < (a.cell p).toNat :=
      ⟨b.hasRemaining_iff.mpr (by omega), hlen⟩
    have hlabel : readLabel (a.cell p).toNat b =
        ((a.slice (p + 1) (a.cell p).toNat).map toChar, b.advance (a.cell p).toNat) := by
      rw [readLabel, Nat.min_eq_left (by omega), ByteBuffer.left, Bytes.take_slice _ _ (by omega), ha,
        ← hp]
      rfl
    have hindex : (b.advance (a.cell p).toNat).index = p + 1 + (a.cell p).toNat := by
      rw [ByteBuffer.advance_index _ (by omega), hp]
    have hnext : (readLabel (a.cell p).toNat b).2.get =
        .ok (a.cell (p + 1 + (a.cell p).toNat), b.advance ((a.cell p).toNat + 1)) := by
      rw [hlabel, ByteBuffer.get_ok, hindex, ByteBuffer.advance_advance, ByteBuffer.advance_array, ha]
      rw [← ByteBuffer.index_lt_stop, hindex, ByteBuffer.advance_stop]
      omega
    have hindex' : (b.advance ((a.cell p).toNat + 1)).index = p + 1 + (a.cell p).toNat + 1 := by
      rw [ByteBuffer.advance_index _ (by omega), hp]
      omega
    rw [readLabels_label hmore h.2.1 hnext, hlabel, labelsEnd_of_label h, labelsText_of_label h,
      ih _ _ hindex' ha hstop]
    have hle := le_labelsEnd a stop (p + 1 + (a.cell p).toNat)
    have hadv : ∀ k, (b.advance ((a.cell p).toNat + 1)).advance
        (labelsEnd a stop (p + 1 + (a.cell p).toNat) - (p + 1 + (a.cell p).toNat) + k) =
        b.advance (labelsEnd a stop (p + 1 + (a.cell p).toNat) - p + k) := fun k => by
      rw [ByteBuffer.advance_advance]
      congr 1
      omega
    have hadv0 := hadv 0
    simp only [Nat.add_zero] at hadv0
    simp only [hadv, hadv0, ByteBuffer.advance_limit, List.append_assoc]
  | case2 p h =>
    rw [labelsEnd_of_end h, labelsText_of_end h]
    simp only [Nat.sub_self, Nat.zero_add, List.append_nil]
    have hlt : p + 1 ≤ stop := by rw [← hp, ← hstop]; exact b.index_le_stop
    by_cases hend : EndsAt a stop p
    · rw [if_pos hend, readLabels_done, hp, b.advance_zero]
      rintro ⟨hmore, hlen⟩
      rw [b.hasRemaining_iff, b.remaining_eq, hp, hstop] at hmore
      rcases hend with hzero | hlast
      · omega
      · omega
    · rw [if_neg hend]
      simp only [EndsAt, not_or] at hend
      have hmore : b.hasRemaining ∧ 0 < (a.cell p).toNat := by
        rw [b.hasRemaining_iff, b.remaining_eq, hp, hstop]
        omega
      by_cases hptr : IsPointer (a.cell p)
      · have hget : b.get = .ok (a.cell (p + 1), b.advance 1) := by
          rw [b.get_ok, hp, ha]
          rw [← b.index_lt_stop, hp, hstop]
          omega
        have hindex : (b.advance 1).index = p + 2 := by
          rw [b.advance_index, hp]
          rw [hp, hstop]
          omega
        rw [if_pos hptr, readLabels_pointer hmore hptr hget, hindex, ByteBuffer.advance_array, ha]
        rfl
      · rw [if_neg hptr]
        have hcut : stop ≤ p + 1 + (a.cell p).toNat := by
          by_contra hfit
          exact h ⟨hmore.2, hptr, Nat.not_le.mp hfit⟩
        refine readLabels_cut hmore hptr ?_
        have hall : min (a.cell p).toNat b.remaining = b.remaining := by
          rw [b.remaining_eq, hp, hstop]
          omega
        rw [readLabel, hall, ByteBuffer.get_underflow]
        rw [ByteBuffer.advance_position _ (Nat.le_refl _), ByteBuffer.advance_limit]
        simp only [ByteBuffer.remaining]
        omega

end SmartSocks.Dns
