import SmartSocks.Dns.Accepts
import SmartSocks.Dns.Encoding

/-!
# Reading what was written

`Reads` says which bytes a program reads and what it makes of them. Records
with the root as name and flags that fit are read as they were written.
-/

namespace SmartSocks.Dns

open Jvm EasyValue Strings DNSPacket

-- ---------------------------------------------------------------------------
-- Programs that read bytes
-- ---------------------------------------------------------------------------

/-- From a buffer that begins with `xs` the program reads these bytes. -/
def Reads {α : Type} (m : Reader α) (xs : List Byte) (post : α → Prop) : Prop :=
  ∀ (b : ByteBuffer Byte) (rest : List Byte), b.left = xs ++ rest →
    ∃ a, m b = .ok (a, b.advance xs.length) ∧ post a

section
variable {α β : Type} {m : Reader α} {xs ys rest : List Byte} {post : α → Prop} {post' : β → Prop}
  {b : ByteBuffer Byte}

theorem length_le_remaining (h : b.left = xs ++ rest) : xs.length ≤ b.remaining := by
  rw [← b.length_left, h, List.length_append]
  exact Nat.le_add_right _ _

theorem left_advance (h : b.left = xs ++ rest) : (b.advance xs.length).left = rest := by
  rw [b.advance_left (length_le_remaining h), h, List.drop_left]

/-- The bytes at the position. -/
theorem slice_of_left (h : b.left = xs ++ rest) : b.array.slice b.index xs.length = xs := by
  have htake := Bytes.take_slice b.array b.index (length_le_remaining h)
  have hleft : b.array.slice b.index b.remaining = xs ++ rest := h
  rw [← htake, hleft, List.take_left]

theorem reads_pure {a : α} (h : post a) : Reads (pure a) [] post := by
  intro b rest _
  refine ⟨a, ?_, h⟩
  rw [List.length_nil, b.advance_zero]
  rfl

theorem reads_get : Reads (get : Reader (ByteBuffer Byte)) [] fun _ => True := by
  intro b rest _
  refine ⟨b, ?_, trivial⟩
  rw [List.length_nil, b.advance_zero]
  rfl

theorem Reads.bind {k : α → Reader β} (hm : Reads m xs post) (hk : ∀ a, post a → Reads (k a) ys post') :
    Reads (m >>= k) (xs ++ ys) post' := by
  intro b rest h
  rw [List.append_assoc] at h
  obtain ⟨a, ha, hpost⟩ := hm b _ h
  obtain ⟨a', ha', hpost'⟩ := hk a hpost _ _ (left_advance h)
  refine ⟨a', ?_, hpost'⟩
  rw [Reader.bind_apply, ha, ok_bind, ha', b.advance_advance, List.length_append]

theorem reads_getShort (value : Short) : Reads ByteBuffer.getShort (shortBytes value) (· = value) := by
  intro b rest h
  have hvalue : short b.array b.index = value := by
    rw [← shortBytes_inj, ← slice_short]
    exact slice_of_left h
  exact ⟨_, if_pos (length_le_remaining h), hvalue⟩

theorem reads_getInt (value : Word) : Reads ByteBuffer.getInt (intBytes value) (· = value) := by
  intro b rest h
  have hvalue : int b.array b.index = value := by
    have hbytes : intBytes (int b.array b.index) = intBytes value := by
      rw [← slice_int]
      exact slice_of_left h
    exact intBytes_inj.mp hbytes
  exact ⟨_, if_pos (length_le_remaining h), hvalue⟩

theorem reads_getBytes {n : Nat} (h : xs.length = n) :
    Reads (fun b => ByteBuffer.getBytes b n) xs (· = xs) := by
  subst h
  intro b rest h
  refine ⟨xs, ?_, rfl⟩
  refine (ByteBuffer.getBytes_ok b (length_le_remaining h)).trans ?_
  rw [h, List.take_left]

/-- A zero byte is the root. -/
theorem reads_root (depth : Nat) : Reads (nextDomain (depth + 1)) [0] (· = []) := by
  intro b rest h
  have hcell : b.array.cell b.index = 0 := (List.cons.inj (slice_of_left h)).1
  have hnone : ¬ HasLabel b.array b.stop b.index := by
    rintro ⟨hpos, -⟩
    rw [hcell] at hpos
    exact absurd hpos (by decide)
  have hstop : labelsStop b = b.index := labelsEnd_of_end hnone
  have htext : labels b = [] := labelsText_of_end hnone
  have hcloses : Closes b := by
    refine ⟨?_, .inl ?_⟩
    · have hremaining := length_le_remaining h
      rw [b.remaining_eq, List.length_singleton] at hremaining
      omega
    · rw [hstop, hcell]
      rfl
  refine ⟨[], ?_, rfl⟩
  rw [nextDomain, readDomain_closes hcloses, lastLabels, htext, readEnd, if_pos hcloses, hstop,
    Nat.add_sub_cancel_left, if_neg fun hand => hand.2 rfl]
  rfl

end

-- ---------------------------------------------------------------------------
-- Records with the root
-- ---------------------------------------------------------------------------

/-- What a round trip has to keep. -/
def Question.content (q : Question) : List Char × Short × Short := (q.Domain, q.Type', q.Class)

def Resource.content (r : Resource) : List Char × Short × Short × Word × List Byte :=
  (r.Domain, r.Type', r.Class, r.TTL, r.Data)

theorem reads_question {q : Question} (hroot : q.Domain = []) (depth : Nat) :
    Reads (Question.fromBytes (depth + 1)) q.bytes (·.content = q.content) := by
  have hbytes : q.bytes = [] ++ ([0] ++ (shortBytes q.Type' ++ (shortBytes q.Class ++ ([] ++ [])))) := by
    rw [Question.bytes, hroot]
    simp [domainBytes]
  rw [hbytes]
  refine reads_get.bind fun b _ => (reads_root depth).bind fun name hname =>
    (reads_getShort q.Type').bind fun type htype => (reads_getShort q.Class).bind fun cls hcls =>
    reads_get.bind fun c _ => reads_pure ?_
  rw [Question.content, Question.content, hroot, hname, htype, hcls]

theorem reads_resource {r : Resource} (hroot : r.Domain = []) (hdata : r.Data.length < 2 ^ 16) (depth : Nat) :
    Reads (Resource.fromBytes (depth + 1)) r.bytes (·.content = r.content) := by
  have hbytes : r.bytes = [] ++ ([0] ++ (shortBytes r.Type' ++ (shortBytes r.Class ++ (intBytes r.TTL ++
      (shortBytes (BitVec.ofNat 16 r.Data.length) ++ (r.Data ++ ([] ++ []))))))) := by
    rw [Resource.bytes, hroot]
    simp [domainBytes]
  have hlength (x : Short) (hx : x = BitVec.ofNat 16 r.Data.length) : r.Data.length = x.toNat := by
    rw [hx, BitVec.toNat_ofNat, Nat.mod_eq_of_lt hdata]
  rw [hbytes]
  refine reads_get.bind fun b _ => (reads_root depth).bind fun name hname =>
    (reads_getShort r.Type').bind fun type htype => (reads_getShort r.Class).bind fun cls hcls =>
    (reads_getInt r.TTL).bind fun ttl httl =>
    (reads_getShort (BitVec.ofNat 16 r.Data.length)).bind fun length hx =>
    (reads_getBytes (hlength length hx)).bind fun data hdata => reads_get.bind fun c _ => reads_pure ?_
  rw [Resource.content, Resource.content, hroot, hname, htype, hcls, httl, hdata]

/-- A row of records. -/
theorem reads_readAll {α γ : Type} {read : Reader α} {bytes : α → List Byte} {content : α → γ}
    {records : List α} (h : ∀ record ∈ records, Reads read (bytes record) (content · = content record)) :
    Reads (readAll read records.length) (records.flatMap bytes)
      fun out => out.map content = records.map content := by
  induction records with
  | nil => exact reads_pure rfl
  | cons record records ih =>
    obtain ⟨hfirst, hrest⟩ := List.forall_mem_cons.mp h
    rw [List.flatMap_cons, ← List.append_nil (records.flatMap bytes)]
    refine hfirst.bind fun first hone => (ih hrest).bind fun out hall => reads_pure ?_
    rw [List.map_cons, List.map_cons, hone, hall]

-- ---------------------------------------------------------------------------
-- Flags
-- ---------------------------------------------------------------------------

/-- The numbers have as many bits as the comments in the source say. -/
structure DNSFlags.Fits (f : DNSFlags) : Prop where
  opCode : f.OpCode < 16
  zero : f.Zero < 8
  rcode : f.Rcode < 16

instance (f : DNSFlags) : Decidable f.Fits :=
  decidable_of_iff (f.OpCode < 16 ∧ f.Zero < 8 ∧ f.Rcode < 16)
    ⟨fun h => ⟨h.1, h.2.1, h.2.2⟩, fun h => ⟨h.opCode, h.zero, h.rcode⟩⟩

theorem fits_parse (value : Short) : (DNSFlags.parse value).Fits where
  opCode := Nat.lt_of_le_of_lt Nat.and_le_right (by decide)
  zero := Nat.lt_of_le_of_lt Nat.and_le_right (by decide)
  rcode := Nat.lt_of_le_of_lt Nat.and_le_right (by decide)

theorem lor_shift (a : Nat) {b i : Nat} (h : b < 2 ^ i) : a <<< i ||| b = a * 2 ^ i + b := by
  rw [← Nat.shiftLeft_add_eq_or_of_lt h, Nat.shiftLeft_eq]

/-- The flags do not overlap. -/
theorem toNat_toShort {f : DNSFlags} (h : f.Fits) :
    f.toShort.toNat = f.RA.toNat * 32768 + f.Zero * 4096 + f.Rcode * 256 + f.QR.toNat * 128 + f.OpCode * 8 +
      f.AA.toNat * 4 + f.TC.toNat * 2 + f.RD.toNat := by
  obtain ⟨hop, hzero, hrcode⟩ := h
  have hbool (b : Bool) : b.toNat < 2 := Bool.toNat_lt b
  have hRD := hbool f.RD
  have hTC := hbool f.TC
  have hAA := hbool f.AA
  have hQR := hbool f.QR
  have hRA := hbool f.RA
  have hopCode : f.OpCode &&& 0x0F = f.OpCode := by
    rw [Nat.and_two_pow_sub_one_eq_mod f.OpCode 4]
    exact Nat.mod_eq_of_lt hop
  have hZero : f.Zero &&& 0x07 = f.Zero := by
    rw [Nat.and_two_pow_sub_one_eq_mod f.Zero 3]
    exact Nat.mod_eq_of_lt hzero
  have hRcode : f.Rcode &&& 0x0F = f.Rcode := by
    rw [Nat.and_two_pow_sub_one_eq_mod f.Rcode 4]
    exact Nat.mod_eq_of_lt hrcode
  have horder : f.QR.toNat <<< 7 ||| f.OpCode <<< 3 ||| f.AA.toNat <<< 2 ||| f.TC.toNat <<< 1 ||| f.RD.toNat |||
      f.RA.toNat <<< 15 ||| f.Zero <<< 12 ||| f.Rcode <<< 8 =
      f.RA.toNat <<< 15 ||| (f.Zero <<< 12 ||| (f.Rcode <<< 8 ||| (f.QR.toNat <<< 7 ||| (f.OpCode <<< 3 |||
        (f.AA.toNat <<< 2 ||| (f.TC.toNat <<< 1 ||| f.RD.toNat)))))) := by ac_rfl
  rw [DNSFlags.toShort, hopCode, hZero, hRcode, horder, BitVec.toNat_ofNat]
  rw [lor_shift f.TC.toNat (i := 1), lor_shift f.AA.toNat (i := 2), lor_shift f.OpCode (i := 3),
    lor_shift f.QR.toNat (i := 7), lor_shift f.Rcode (i := 8), lor_shift f.Zero (i := 12),
    lor_shift f.RA.toNat (i := 15)]
  all_goals omega

theorem parse_toShort {f : DNSFlags} (h : f.Fits) : DNSFlags.parse f.toShort = f := by
  have hvalue := toNat_toShort h
  obtain ⟨hop, hzero, hrcode⟩ := h
  have hRD := Bool.toNat_lt f.RD
  have hTC := Bool.toNat_lt f.TC
  have hAA := Bool.toNat_lt f.AA
  have hQR := Bool.toNat_lt f.QR
  have hRA := Bool.toNat_lt f.RA
  have hbit {n : Nat} {b : Bool} (h : n = b.toNat) : decide (n = 1) = b := by
    rw [h]
    cases b <;> rfl
  have h1 (n : Nat) : n &&& 0x01 = n % 2 := Nat.and_two_pow_sub_one_eq_mod n 1
  have h3 (n : Nat) : n &&& 0x07 = n % 8 := Nat.and_two_pow_sub_one_eq_mod n 3
  have h4 (n : Nat) : n &&& 0x0F = n % 16 := Nat.and_two_pow_sub_one_eq_mod n 4
  obtain ⟨QR, OpCode, AA, TC, RD, RA, Zero, Rcode⟩ := f
  simp only [DNSFlags.parse, Nat.shiftRight_eq_div_pow, h1, h3, h4, DNSFlags.mk.injEq]
  refine ⟨hbit ?_, ?_, hbit ?_, hbit ?_, hbit ?_, hbit ?_, ?_, ?_⟩
  all_goals
    simp only at hvalue hop hzero hrcode hRD hTC hAA hQR hRA
    omega

end SmartSocks.Dns
