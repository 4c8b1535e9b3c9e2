import SmartSocks.Dns.Compression
import SmartSocks.Dns.DNSPacket

/-!
# Which messages `FromBytes` parses

`FromBytes` returns, a packet or `null`, when the records of the message are as
many as its counts say and each of them is complete: its name closes and its
fields end before the limit. A reader settles on a condition when it succeeds,
given enough stack, where the condition holds, and throws where it does not.
-/

namespace SmartSocks.Dns

open Jvm EasyValue DNSPacket

-- ---------------------------------------------------------------------------
-- Complete records
-- ---------------------------------------------------------------------------

section
variable (b : ByteBuffer Byte)

/-- The chain of pointers of the name comes to its end. -/
def NameCloses : Prop := ∃ c, Chain.Reaches (followPointer b.arrayOffset) b c ∧ Closes c

def afterName : ByteBuffer Byte := b.advance (readEnd b - b.index)

def QuestionFits : Prop := NameCloses b ∧ 4 ≤ (afterName b).remaining

def afterQuestion : ByteBuffer Byte := (afterName b).advance 4

/-- The length of the data of the resource, behind its type, class and TTL. -/
def dataLength : Nat := (short b.array ((afterName b).index + 8)).toNat

def ResourceFits : Prop := NameCloses b ∧ 10 + dataLength b ≤ (afterName b).remaining

def afterResource : ByteBuffer Byte := (afterName b).advance (10 + dataLength b)

end

/-- A row of `count` records that are all complete. -/
def AllFit (fits : ByteBuffer Byte → Prop) (after : ByteBuffer Byte → ByteBuffer Byte) :
    Nat → ByteBuffer Byte → Prop
  | 0, _ => True
  | count + 1, b => fits b ∧ AllFit fits after count (after b)

/-- The records that a header counts are complete. -/
structure RecordsFit (header : DNSHeader) (b : ByteBuffer Byte) : Prop where
  counts : 0 ≤ header.mQuestionCount.toInt ∧ 0 ≤ header.mResourceCount.toInt ∧
    0 ≤ header.mAResourceCount.toInt ∧ 0 ≤ header.mEResourceCount.toInt
  questions : AllFit QuestionFits afterQuestion header.mQuestionCount.toInt.toNat b
  resources : AllFit ResourceFits afterResource
    (header.mResourceCount.toInt.toNat + header.mAResourceCount.toInt.toNat +
      header.mEResourceCount.toInt.toNat)
    (afterQuestion^[header.mQuestionCount.toInt.toNat] b)

/-- A message of a size that is not handled, with too many records, or with
complete ones. -/
def Acceptable (b : ByteBuffer Byte) : Prop :=
  b.limit < 12 ∨ 512 < b.limit ∨ Oversized (headerAt b) ∨ RecordsFit (headerAt b) (b.advance 12)

-- ---------------------------------------------------------------------------
-- Readers that settle
-- ---------------------------------------------------------------------------

structure Settles {α : Type} (m : Nat → Reader α) (b : ByteBuffer Byte) (fits : Prop)
    (post : α → ByteBuffer Byte → Prop) : Prop where
  complete : fits → ∃ bound a c, ∀ depth, bound ≤ depth → m depth b = .ok (a, c)
  sound : ∀ depth a c, m depth b = .ok (a, c) → fits ∧ post a c

section
variable {α β : Type} {m : Nat → Reader α} {b : ByteBuffer Byte} {fits fits' : Prop}
  {post post' : α → ByteBuffer Byte → Prop}

/-- A sequence settles on what its first part asks for and what is then left. -/
theorem Settles.bind {k : α → Nat → Reader β} {post' : β → ByteBuffer Byte → Prop}
    (hm : Settles m b fits post) (hfits : fits' → fits)
    (hk : ∀ a c, fits → post a c → Settles (k a) c fits' post') :
    Settles (fun depth => m depth >>= fun a => k a depth) b fits' post' where
  complete := by
    intro hfits'
    obtain ⟨bound, a, c, hok⟩ := hm.complete (hfits hfits')
    obtain ⟨hf, hpost⟩ := hm.sound _ _ _ (hok bound (Nat.le_refl bound))
    obtain ⟨bound', a', c', hok'⟩ := (hk a c hf hpost).complete hfits'
    refine ⟨max bound bound', a', c', fun depth hdepth => ?_⟩
    rw [Reader.bind_apply, hok depth (Nat.le_trans (Nat.le_max_left _ _) hdepth), ok_bind]
    exact hok' depth (Nat.le_trans (Nat.le_max_right _ _) hdepth)
  sound := by
    intro depth a' c' h
    rw [Reader.bind_apply, bind_eq_ok] at h
    obtain ⟨⟨a, c⟩, hok, hok'⟩ := h
    obtain ⟨hf, hpost⟩ := hm.sound depth a c hok
    exact (hk a c hf hpost).sound depth a' c' hok'

theorem settles_pure {a : α} (hfits : fits) (hpost : post a b) :
    Settles (fun _ => pure a) b fits post where
  complete _ := ⟨0, a, b, fun _ _ => rfl⟩
  sound _ _ _ h := by
    cases h
    exact ⟨hfits, hpost⟩

theorem settles_get : Settles (fun _ => get) b True fun a c => b = a ∧ b = c where
  complete _ := ⟨0, b, b, fun _ _ => rfl⟩
  sound _ _ _ h := by
    cases h
    exact ⟨trivial, rfl, rfl⟩

/-- A read that does not depend on the stack. -/
theorem settles_if {x : α} {c : ByteBuffer Byte} {e : Throwable} {read : Reader α} [Decidable fits]
    (h : read b = if fits then .ok (x, c) else .error e) :
    Settles (fun _ => read) b fits fun x' c' => x' = x ∧ c' = c where
  complete hfits := ⟨0, x, c, fun _ _ => h.trans (if_pos hfits)⟩
  sound _ x' c' hok := by
    rw [h] at hok
    split at hok
    next hfits =>
      cases hok
      exact ⟨hfits, rfl, rfl⟩
    next => cases hok

/-- With enough stack a reader returns where it settles, and only there. -/
theorem Settles.returns_iff (h : Settles m b fits post) :
    (∃ bound, ∀ depth, bound ≤ depth → ∃ r, m depth b = .ok r) ↔ fits := by
  constructor
  · rintro ⟨bound, hok⟩
    obtain ⟨⟨a, c⟩, hr⟩ := hok bound (Nat.le_refl bound)
    exact (h.sound bound a c hr).1
  · intro hfits
    obtain ⟨bound, a, c, hok⟩ := h.complete hfits
    exact ⟨bound, fun depth hdepth => ⟨_, hok depth hdepth⟩⟩

end

-- ---------------------------------------------------------------------------
-- Names and records
-- ---------------------------------------------------------------------------

section
variable {hdr : Nat} {b : ByteBuffer Byte}

theorem readDomain_buffer {depth : Nat} {r : Reading} (h : readDomain hdr depth b = .ok r) :
    r.buffer = b.advance (readEnd b - b.index) := by
  cases depth with
  | zero => cases h
  | succ depth =>
    cases hf : followPointer hdr b with
    | some c =>
      rw [readDomain_follow hf, bind_eq_ok] at h
      obtain ⟨target, -, hr⟩ := h
      cases hr
      rfl
    | none =>
      by_cases hc : Closes b
      · rw [readDomain_closes hc] at h
        cases h
        rfl
      · obtain ⟨e, -, he⟩ := readDomain_fails hc hf
        rw [he] at h
        cases h

/-- More stack changes nothing for a name that does not use it up. -/
theorem readDomain_stable {depth depth' : Nat} (hle : depth ≤ depth')
    (h : readDomain hdr depth b ≠ .error .stackOverflow) :
    readDomain hdr depth' b = readDomain hdr depth b := by
  induction depth generalizing b depth' with
  | zero => exact absurd rfl h
  | succ depth ih =>
    obtain ⟨more, rfl⟩ := Nat.exists_eq_add_of_le' hle
    rw [← Nat.add_assoc]
    cases hf : followPointer hdr b with
    | some c =>
      rw [readDomain_follow hf] at h
      rw [readDomain_follow hf, readDomain_follow hf, ih (Nat.le_add_left depth more)]
      intro hover
      rw [hover] at h
      exact h rfl
    | none =>
      by_cases hc : Closes b
      · rw [readDomain_closes hc, readDomain_closes hc]
      · obtain ⟨e, -, he⟩ := readDomain_fails hc hf
        rw [he, he]

theorem settles_nextDomain : Settles nextDomain b (NameCloses b) fun _ c => c = afterName b where
  complete := by
    rintro ⟨c, hreach, hclose⟩
    obtain ⟨bound, r, hr⟩ := readDomain_of_closes hreach hclose
    refine ⟨bound, r.name, r.buffer, fun depth hdepth => ?_⟩
    rw [nextDomain, readDomain_stable hdepth (by simp [hr]), hr]
    rfl
  sound := by
    intro depth name c h
    rw [nextDomain, bind_eq_ok] at h
    obtain ⟨r, hr, hc⟩ := h
    cases hc
    exact ⟨(spans_of_readDomain hr).1, readDomain_buffer hr⟩

theorem settles_getShort : Settles (fun _ => ByteBuffer.getShort) b (2 ≤ b.remaining)
    fun x c => x = short b.array b.index ∧ c = b.advance 2 := settles_if rfl

theorem settles_getInt : Settles (fun _ => ByteBuffer.getInt) b (4 ≤ b.remaining)
    fun x c => x = int b.array b.index ∧ c = b.advance 4 := settles_if rfl

theorem settles_getBytes (n : Nat) : Settles (fun _ b => ByteBuffer.getBytes b n) b
    (n ≤ b.remaining) fun xs c => xs = b.left.take n ∧ c = b.advance n := settles_if rfl

theorem settles_question : Settles Question.fromBytes b (QuestionFits b)
    fun _ c => c = afterQuestion b := by
  have hroom (k : Nat) := (afterName b).advance_remaining k
  refine settles_get.bind (fun _ => trivial) ?_
  rintro _ _ - ⟨rfl, rfl⟩
  refine settles_nextDomain.bind And.left ?_
  rintro name _ hname rfl
  refine settles_getShort.bind (fun h => Nat.le_trans (by decide) h.2) ?_
  rintro type _ htype ⟨-, rfl⟩
  refine settles_getShort.bind (fun h => by rw [hroom]; exact Nat.le_sub_of_add_le h.2) ?_
  rintro cls _ hcls ⟨-, rfl⟩
  rw [hroom] at hcls
  refine settles_get.bind (fun _ => trivial) ?_
  rintro _ _ - ⟨rfl, rfl⟩
  exact settles_pure ⟨hname, by omega⟩ ((afterName _).advance_advance 2 2)

theorem settles_resource : Settles Resource.fromBytes b (ResourceFits b)
    fun _ c => c = afterResource b := by
  have hroom (k : Nat) := (afterName b).advance_remaining k
  have hindex : 8 ≤ (afterName b).remaining →
      ((afterName b).advance 8).index = (afterName b).index + 8 := by
    intro h
    rw [(afterName b).remaining_eq] at h
    exact (afterName b).advance_index (by omega)
  refine settles_get.bind (fun _ => trivial) ?_
  rintro _ _ - ⟨rfl, rfl⟩
  refine settles_nextDomain.bind And.left ?_
  rintro name _ hname rfl
  refine settles_getShort.bind (fun h => by have := h.2; omega) ?_
  rintro type _ htype ⟨-, rfl⟩
  refine settles_getShort.bind (fun h => by have := h.2; rw [hroom]; omega) ?_
  rintro cls _ hcls ⟨-, rfl⟩
  rw [(afterName _).advance_advance]
  refine settles_getInt.bind (fun h => by have := h.2; rw [hroom]; omega) ?_
  rintro ttl _ httl ⟨-, rfl⟩
  rw [(afterName _).advance_advance]
  refine settles_getShort.bind (fun h => by have := h.2; rw [hroom]; omega) ?_
  rintro length _ hlength ⟨rfl, rfl⟩
  rw [hroom] at hlength
  rw [(afterName _).advance_advance, hindex (by omega)]
  refine (settles_getBytes _).bind (fun h => ?_) ?_
  · rw [hroom]
    exact Nat.le_sub_of_add_le' h.2
  rintro data _ hdata ⟨-, rfl⟩
  rw [hroom] at hdata
  refine settles_get.bind (fun _ => trivial) ?_
  rintro _ _ - ⟨rfl, rfl⟩
  have hroomy : dataLength b ≤ (afterName b).remaining - 10 := hdata
  exact settles_pure ⟨hname, by omega⟩ ((afterName b).advance_advance _ _)

/-- A loop that reads records settles when its body does. -/
theorem settles_readAll {α : Type} {read : Nat → Reader α} {fits : ByteBuffer Byte → Prop}
    {after : ByteBuffer Byte → ByteBuffer Byte}
    (h : ∀ b, Settles read b (fits b) fun _ c => c = after b) (count : Nat) :
    Settles (fun depth => readAll (read depth) count) b (AllFit fits after count b)
      fun _ c => c = after^[count] b := by
  induction count generalizing b with
  | zero => exact settles_pure trivial rfl
  | succ count ih =>
    refine (h b).bind And.left ?_
    rintro record _ hrecord rfl
    refine ih.bind And.right ?_
    rintro records _ hrecords rfl
    exact settles_pure ⟨hrecord, hrecords⟩ (Function.iterate_succ_apply ..).symm

theorem allFit_add {fits : ByteBuffer Byte → Prop} {after : ByteBuffer Byte → ByteBuffer Byte}
    (m n : Nat) : AllFit fits after (m + n) b ↔
      AllFit fits after m b ∧ AllFit fits after n (after^[m] b) := by
  induction m generalizing b with
  | zero => simp [AllFit]
  | succ m ih =>
    rw [Nat.succ_add, AllFit, ih, AllFit, Function.iterate_succ_apply, and_assoc]

/-- Three rows of records, one after the other, are one row. -/
theorem allFit_rows {fits : ByteBuffer Byte → Prop} {after : ByteBuffer Byte → ByteBuffer Byte}
    (l m n : Nat) : AllFit fits after (l + m + n) b ↔
      AllFit fits after l b ∧ AllFit fits after m (after^[l] b) ∧
        AllFit fits after n (after^[m] (after^[l] b)) := by
  rw [allFit_add, allFit_add, and_assoc, Nat.add_comm l, Function.iterate_add_apply]

theorem settles_arrayOfNulls (count : Short) :
    Settles (fun _ => (liftM (arrayOfNulls count) : Reader Nat)) b (0 ≤ count.toInt)
      fun n c => n = count.toInt.toNat ∧ c = b := by
  refine settles_if (e := .negativeArraySize) ?_
  rw [Reader.lift_apply, arrayOfNulls]
  by_cases hneg : count.toInt < 0
  · rw [if_pos hneg, if_neg (Int.not_le.mpr hneg)]
    rfl
  · rw [if_neg hneg, if_pos (Int.not_lt.mp hneg)]
    rfl

theorem settles_readRecords (header : DNSHeader) (size : Nat) :
    Settles (fun depth => readRecords depth header size) b (RecordsFit header b)
      fun _ _ => True := by
  unfold readRecords
  refine (settles_arrayOfNulls _).bind (fun h => h.counts.1) ?_
  rintro _ _ hq ⟨rfl, rfl⟩
  refine (settles_arrayOfNulls _).bind (fun h => h.counts.2.1) ?_
  rintro _ _ hr ⟨rfl, rfl⟩
  refine (settles_arrayOfNulls _).bind (fun h => h.counts.2.2.1) ?_
  rintro _ _ ha ⟨rfl, rfl⟩
  refine (settles_arrayOfNulls _).bind (fun h => h.counts.2.2.2) ?_
  rintro _ _ he ⟨rfl, rfl⟩
  refine (settles_readAll (fun _ => settles_question) _).bind (fun h => h.questions) ?_
  rintro questions _ hquestions rfl
  refine (settles_readAll (fun _ => settles_resource) _).bind
    (fun h => ((allFit_rows _ _ _).mp h.resources).1) ?_
  rintro resources _ hfirst rfl
  refine (settles_readAll (fun _ => settles_resource) _).bind
    (fun h => ((allFit_rows _ _ _).mp h.resources).2.1) ?_
  rintro aResources _ hsecond rfl
  refine (settles_readAll (fun _ => settles_resource) _).bind
    (fun h => ((allFit_rows _ _ _).mp h.resources).2.2) ?_
  rintro eResources _ hthird rfl
  exact settles_pure
    ⟨⟨hq, hr, ha, he⟩, hquestions, (allFit_rows _ _ _).mpr ⟨hfirst, hsecond, hthird⟩⟩ trivial

/-- `FromBytes` returns exactly on the messages that are acceptable. -/
theorem fromBytes_returns_iff (hpos : b.position = 0) :
    (∃ bound, ∀ depth, bound ≤ depth → ∃ r, DNSPacket.fromBytes depth b = .ok r) ↔ Acceptable b := by
  unfold Acceptable DNSPacket.fromBytes
  by_cases hshort : b.limit < 12
  · exact iff_of_true ⟨0, fun _ _ => ⟨_, if_pos hshort⟩⟩ (.inl hshort)
  by_cases hlong : 512 < b.limit
  · exact iff_of_true ⟨0, fun _ _ => ⟨_, (if_neg hshort).trans (if_pos hlong)⟩⟩ (.inr (.inl hlong))
  have hremaining : 12 ≤ b.remaining := by
    rw [b.remaining_eq_limit hpos]
    omega
  simp only [header_fromBytes hremaining, ok_bind, hshort, hlong, if_false, false_or]
  by_cases hcounts : Oversized (headerAt b)
  · exact iff_of_true ⟨0, fun _ _ => ⟨none, if_pos hcounts⟩⟩ (.inl hcounts)
  · simp only [hcounts, if_false, false_or]
    rw [← (settles_readRecords (headerAt b) b.limit).returns_iff]
    have hresult (depth : Nat) : (∃ r, (readRecords depth (headerAt b) b.limit (b.advance 12) >>=
        fun r => pure (some r.1) : Except Throwable (Option DNSPacket)) = .ok r) ↔
        ∃ r, readRecords depth (headerAt b) b.limit (b.advance 12) = .ok r := by
      cases readRecords depth (headerAt b) b.limit (b.advance 12) with
      | ok r => exact iff_of_true ⟨_, rfl⟩ ⟨_, rfl⟩
      | error e => simp
    exact exists_congr fun bound => forall₂_congr fun depth _ => hresult depth

end

end SmartSocks.Dns
