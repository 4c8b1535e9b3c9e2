import SmartSocks.Dns.Accepts

/-!
# Which messages use up the stack

`ReadDomain` calls itself for every pointer, and a `StackOverflowError` is not
caught with the exceptions of a malformed message. `FromBytes` throws it exactly
when a record of the message, behind complete ones, has a name with at least as
many pointers in a row as the stack has frames.
-/

namespace SmartSocks.Dns

open Jvm EasyValue DNSPacket

/-- The chain of pointers of the name needs more than the stack. -/
def TooDeep (depth : Nat) (b : ByteBuffer Byte) : Prop :=
  Chain.follow (followPointer b.arrayOffset) depth b ≠ none

/-- A name of a row of records is too deep, and the records before are complete. -/
def SomeTooDeep (fits : ByteBuffer Byte → Prop) (after : ByteBuffer Byte → ByteBuffer Byte)
    (depth : Nat) : Nat → ByteBuffer Byte → Prop
  | 0, _ => False
  | count + 1, b => TooDeep depth b ∨ fits b ∧ SomeTooDeep fits after depth count (after b)

/-- A record that a header counts is too deep. -/
structure RecordsOverflow (header : DNSHeader) (b : ByteBuffer Byte) (depth : Nat) : Prop where
  counts : 0 ≤ header.mQuestionCount.toInt ∧ 0 ≤ header.mResourceCount.toInt ∧
    0 ≤ header.mAResourceCount.toInt ∧ 0 ≤ header.mEResourceCount.toInt
  deep : SomeTooDeep QuestionFits afterQuestion depth header.mQuestionCount.toInt.toNat b ∨
    AllFit QuestionFits afterQuestion header.mQuestionCount.toInt.toNat b ∧
      SomeTooDeep ResourceFits afterResource depth
        (header.mResourceCount.toInt.toNat + header.mAResourceCount.toInt.toNat +
          header.mEResourceCount.toInt.toNat)
        (afterQuestion^[header.mQuestionCount.toInt.toNat] b)

/-- A message that is read and has such a record. -/
structure Overflows (depth : Nat) (b : ByteBuffer Byte) : Prop where
  handled : 12 ≤ b.limit ∧ b.limit ≤ 512 ∧ ¬ Oversized (headerAt b)
  records : RecordsOverflow (headerAt b) (b.advance 12) depth

-- ---------------------------------------------------------------------------
-- Readers and the stack
-- ---------------------------------------------------------------------------

/-- More stack changes nothing for a reader that does not use it up, and it is
used up under the condition `deep`. -/
structure Exhausts {α : Type} (m : Nat → Reader α) (b : ByteBuffer Byte) (deep : Nat → Prop) :
    Prop where
  stable : ∀ depth depth', depth ≤ depth' → m depth b ≠ .error .stackOverflow → m depth' b = m depth b
  overflows : ∀ depth, m depth b = .error .stackOverflow ↔ deep depth

/-- A read that never uses up the stack. -/
def Shallow {α : Type} (read : Reader α) : Prop := ∀ b, read b ≠ .error .stackOverflow

section
variable {α β : Type} {m : Nat → Reader α} {b : ByteBuffer Byte} {fits : Prop}
  {post : α → ByteBuffer Byte → Prop} {deep deep' : Nat → Prop}

theorem Exhausts.congr (h : Exhausts m b deep) (hover : ∀ depth, deep depth ↔ deep' depth) :
    Exhausts m b deep' :=
  ⟨h.stable, fun depth => (h.overflows depth).trans (hover depth)⟩

/-- A reader returns where it settles, unless it uses up the stack. -/
theorem Exhausts.returns (h : Exhausts m b deep) (hm : Settles m b fits post) {depth : Nat}
    (hfits : fits) (hover : ¬ deep depth) : ∃ a c, m depth b = .ok (a, c) := by
  obtain ⟨bound, a, c, hok⟩ := hm.complete hfits
  have hstable := h.stable depth _ (Nat.le_max_right bound depth) (mt (h.overflows depth).mp hover)
  exact ⟨a, c, hstable.symm.trans (hok _ (Nat.le_max_left bound depth))⟩

/-- A sequence uses up the stack in its first part or, if this returns, in its
second. -/
theorem Exhausts.bind {k : α → Nat → Reader β} (h : Exhausts m b deep) (hm : Settles m b fits post)
    (hk : ∀ a c, fits → post a c → Exhausts (k a) c deep') :
    Exhausts (fun depth => m depth >>= fun a => k a depth) b
      fun depth => deep depth ∨ fits ∧ deep' depth where
  stable := by
    intro depth depth' hle hover
    simp only [Reader.bind_apply] at hover ⊢
    have hfirst : m depth b ≠ .error .stackOverflow := by
      intro hfirst
      rw [hfirst] at hover
      exact hover rfl
    rw [h.stable depth depth' hle hfirst]
    cases hok : m depth b with
    | error e => rfl
    | ok r =>
      obtain ⟨a, c⟩ := r
      obtain ⟨hfits, hpost⟩ := hm.sound depth a c hok
      rw [hok] at hover
      exact (hk a c hfits hpost).stable depth depth' hle hover
  overflows := by
    intro depth
    rw [Reader.bind_apply, bind_eq_error]
    constructor
    · rintro (hfirst | ⟨⟨a, c⟩, hok, hsecond⟩)
      · exact .inl ((h.overflows depth).mp hfirst)
      · obtain ⟨hfits, hpost⟩ := hm.sound depth a c hok
        exact .inr ⟨hfits, ((hk a c hfits hpost).overflows depth).mp hsecond⟩
    · rintro (hover | ⟨hfits, hover'⟩)
      · exact .inl ((h.overflows depth).mpr hover)
      · by_cases hover : deep depth
        · exact .inl ((h.overflows depth).mpr hover)
        · obtain ⟨a, c, hok⟩ := h.returns hm hfits hover
          obtain ⟨-, hpost⟩ := hm.sound depth a c hok
          exact .inr ⟨(a, c), hok, ((hk a c hfits hpost).overflows depth).mpr hover'⟩

theorem Shallow.exhausts {read : Reader α} (h : Shallow read) :
    Exhausts (fun _ => read) b fun _ => False where
  stable _ _ _ _ := rfl
  overflows _ := iff_of_false (h b) id

theorem Shallow.bind {read : Reader α} {k : α → Reader β} (h : Shallow read)
    (hk : ∀ a, Shallow (k a)) : Shallow (read >>= k) := by
  intro b
  rw [Reader.bind_apply, Ne, bind_eq_error]
  rintro (hfirst | ⟨⟨a, c⟩, -, hsecond⟩)
  · exact h b hfirst
  · exact hk a c hsecond

/-- Nothing more is used up behind a reader. -/
theorem Exhausts.followed {k : α → Reader β} (h : Exhausts m b deep) (hm : Settles m b fits post)
    (hk : ∀ a, Shallow (k a)) : Exhausts (fun depth => m depth >>= k) b deep :=
  (h.bind hm fun a _ _ _ => (hk a).exhausts).congr fun _ => by simp only [and_false, or_false]

theorem shallow_pure (a : α) : Shallow (pure a : Reader α) := fun _ h => nomatch h

theorem shallow_get : Shallow (get : Reader (ByteBuffer Byte)) := fun _ h => nomatch h

/-- A read behind a check. -/
theorem shallow_if {read : Reader α} {ok : ByteBuffer Byte → Prop} [DecidablePred ok]
    {r : ByteBuffer Byte → α × ByteBuffer Byte} {e : Throwable} (he : e ≠ .stackOverflow)
    (h : ∀ b, read b = if ok b then .ok (r b) else .error e) : Shallow read := by
  intro b
  rw [h]
  split
  · simp
  · simpa using he

end

-- ---------------------------------------------------------------------------
-- Names and records
-- ---------------------------------------------------------------------------

section
variable {b : ByteBuffer Byte}

theorem shallow_getShort : Shallow ByteBuffer.getShort := shallow_if (by simp) fun _ => rfl

theorem shallow_getInt : Shallow ByteBuffer.getInt := shallow_if (by simp) fun _ => rfl

theorem shallow_getBytes (n : Nat) : Shallow fun b => ByteBuffer.getBytes b n :=
  shallow_if (by simp) fun _ => rfl

theorem exhausts_nextDomain : Exhausts nextDomain b fun depth => TooDeep depth b where
  stable := by
    intro depth depth' hle hover
    have hread : readDomain b.arrayOffset depth b ≠ .error .stackOverflow := by
      intro hread
      rw [nextDomain, hread] at hover
      exact hover rfl
    rw [nextDomain, nextDomain, readDomain_stable hle hread]
  overflows := by
    intro depth
    rw [nextDomain, bind_eq_error, readDomain_stackOverflow_iff]
    simp [TooDeep, pure, Except.pure]

/-- A record that is read behind its name uses up the stack in the name. -/
theorem exhausts_record {α : Type} {k : ByteBuffer Byte → List Char → Reader α}
    (hk : ∀ start name, Shallow (k start name)) :
    Exhausts (fun depth => get >>= fun start => nextDomain depth >>= fun name => k start name) b
      fun depth => TooDeep depth b := by
  have hname (start c : ByteBuffer Byte) (hpost : b = start ∧ b = c) :
      Exhausts (fun depth => nextDomain depth >>= fun name => k start name) c
        fun depth => TooDeep depth b := by
    obtain ⟨-, rfl⟩ := hpost
    exact exhausts_nextDomain.followed settles_nextDomain (hk start)
  refine (shallow_get.exhausts.bind settles_get fun start c _ => hname start c).congr fun depth => ?_
  simp only [false_or, true_and]

theorem exhausts_question : Exhausts Question.fromBytes b fun depth => TooDeep depth b :=
  exhausts_record fun _ _ => shallow_getShort.bind fun _ => shallow_getShort.bind fun _ =>
    shallow_get.bind fun _ => shallow_pure _

theorem exhausts_resource : Exhausts Resource.fromBytes b fun depth => TooDeep depth b :=
  exhausts_record fun _ _ => shallow_getShort.bind fun _ => shallow_getShort.bind fun _ =>
    shallow_getInt.bind fun _ => shallow_getShort.bind fun length =>
      (shallow_getBytes length.toNat).bind fun _ => shallow_get.bind fun _ => shallow_pure _

/-- A loop over records uses up the stack in one of them, behind complete ones. -/
theorem exhausts_readAll {α : Type} {read : Nat → Reader α} {fits : ByteBuffer Byte → Prop}
    {after : ByteBuffer Byte → ByteBuffer Byte}
    (h : ∀ b, Exhausts read b fun depth => TooDeep depth b)
    (hread : ∀ b, Settles read b (fits b) fun _ c => c = after b) (count : Nat) :
    Exhausts (fun depth => readAll (read depth) count) b
      fun depth => SomeTooDeep fits after depth count b := by
  induction count generalizing b with
  | zero => exact (shallow_pure []).exhausts
  | succ count ih =>
    refine (h b).bind (hread b) fun record c _ hc => ?_
    obtain rfl : c = after b := hc
    exact ih.followed (settles_readAll hread count) fun records => shallow_pure (record :: records)

theorem someTooDeep_add {fits : ByteBuffer Byte → Prop} {after : ByteBuffer Byte → ByteBuffer Byte}
    {depth : Nat} (m n : Nat) : SomeTooDeep fits after depth (m + n) b ↔
      SomeTooDeep fits after depth m b ∨
        AllFit fits after m b ∧ SomeTooDeep fits after depth n (after^[m] b) := by
  induction m generalizing b with
  | zero => simp [SomeTooDeep, AllFit]
  | succ m ih =>
    rw [Nat.succ_add, SomeTooDeep, ih, SomeTooDeep, AllFit, Function.iterate_succ_apply]
    tauto

theorem someTooDeep_rows {fits : ByteBuffer Byte → Prop} {after : ByteBuffer Byte → ByteBuffer Byte}
    {depth : Nat} (l m n : Nat) : SomeTooDeep fits after depth (l + m + n) b ↔
      SomeTooDeep fits after depth l b ∨ AllFit fits after l b ∧
        (SomeTooDeep fits after depth m (after^[l] b) ∨
          AllFit fits after m (after^[l] b) ∧
            SomeTooDeep fits after depth n (after^[m] (after^[l] b))) := by
  rw [someTooDeep_add, someTooDeep_add, allFit_add, or_assoc, and_assoc, ← and_or_left,
    Nat.add_comm l, Function.iterate_add_apply]

theorem shallow_arrayOfNulls (count : Short) :
    Shallow (liftM (arrayOfNulls count) : Reader Nat) := by
  intro b
  rw [Reader.lift_apply, arrayOfNulls]
  split <;> simp

/-- Three rows of resources use up the stack as one. -/
theorem exhausts_resources {α : Type} (l m n : Nat)
    (k : List Resource → List Resource → List Resource → α) :
    Exhausts (fun depth => readAll (Resource.fromBytes depth) l >>= fun resources =>
        readAll (Resource.fromBytes depth) m >>= fun aResources =>
          readAll (Resource.fromBytes depth) n >>= fun eResources =>
            pure (k resources aResources eResources)) b
      fun depth => SomeTooDeep ResourceFits afterResource depth (l + m + n) b := by
  have hrow (count : Nat) (c : ByteBuffer Byte) :=
    exhausts_readAll (b := c) (fun _ => exhausts_resource) (fun _ => settles_resource) count
  have hsettles (count : Nat) (c : ByteBuffer Byte) :=
    settles_readAll (b := c) (fun _ => settles_resource) count
  simp only [someTooDeep_rows]
  refine (hrow l b).bind (hsettles l b) ?_
  rintro resources _ - rfl
  refine (hrow m _).bind (hsettles m _) ?_
  rintro aResources _ - rfl
  exact (hrow n _).followed (hsettles n _) fun eResources =>
    shallow_pure (k resources aResources eResources)

/-- The arrays are allocated, and then the rows of records are read. -/
theorem exhausts_readRecords (header : DNSHeader) (size : Nat) :
    Exhausts (fun depth => readRecords depth header size) b (RecordsOverflow header b) := by
  have hrows : Exhausts (fun depth => readRecords depth header size) b fun depth =>
      False ∨ 0 ≤ header.mQuestionCount.toInt ∧ (False ∨ 0 ≤ header.mResourceCount.toInt ∧
        (False ∨ 0 ≤ header.mAResourceCount.toInt ∧ (False ∨ 0 ≤ header.mEResourceCount.toInt ∧
          (SomeTooDeep QuestionFits afterQuestion depth header.mQuestionCount.toInt.toNat b ∨
            AllFit QuestionFits afterQuestion header.mQuestionCount.toInt.toNat b ∧
              SomeTooDeep ResourceFits afterResource depth
                (header.mResourceCount.toInt.toNat + header.mAResourceCount.toInt.toNat +
                  header.mEResourceCount.toInt.toNat)
                (afterQuestion^[header.mQuestionCount.toInt.toNat] b))))) := by
    unfold readRecords
    refine (shallow_arrayOfNulls _).exhausts.bind (settles_arrayOfNulls _) ?_
    rintro _ _ - ⟨rfl, rfl⟩
    refine (shallow_arrayOfNulls _).exhausts.bind (settles_arrayOfNulls _) ?_
    rintro _ _ - ⟨rfl, rfl⟩
    refine (shallow_arrayOfNulls _).exhausts.bind (settles_arrayOfNulls _) ?_
    rintro _ _ - ⟨rfl, rfl⟩
    refine (shallow_arrayOfNulls _).exhausts.bind (settles_arrayOfNulls _) ?_
    rintro _ _ - ⟨rfl, rfl⟩
    refine (exhausts_readAll (fun _ => exhausts_question) (fun _ => settles_question) _).bind
      (settles_readAll (fun _ => settles_question) _) ?_
    rintro questions _ - rfl
    exact exhausts_resources _ _ _ _
  refine hrows.congr fun depth => ⟨?_, ?_⟩
  · rintro (⟨⟨⟩⟩ | ⟨hq, ⟨⟨⟩⟩ | ⟨hr, ⟨⟨⟩⟩ | ⟨ha, ⟨⟨⟩⟩ | ⟨he, hdeep⟩⟩⟩⟩)
    exact ⟨⟨hq, hr, ha, he⟩, hdeep⟩
  · rintro ⟨⟨hq, hr, ha, he⟩, hdeep⟩
    exact .inr ⟨hq, .inr ⟨hr, .inr ⟨ha, .inr ⟨he, hdeep⟩⟩⟩⟩

/-- `FromBytes` uses up the stack exactly on the messages that overflow. -/
theorem fromBytes_stackOverflow_iff (hpos : b.position = 0) (depth : Nat) :
    DNSPacket.fromBytes depth b = .error .stackOverflow ↔ Overflows depth b := by
  unfold DNSPacket.fromBytes
  by_cases hshort : b.limit < 12
  · rw [if_pos hshort]
    exact iff_of_false (by simp) fun h => absurd h.handled.1 (Nat.not_le.mpr hshort)
  by_cases hlong : 512 < b.limit
  · rw [if_neg hshort, if_pos hlong]
    exact iff_of_false (by simp) fun h => absurd h.handled.2.1 (Nat.not_le.mpr hlong)
  have hremaining : 12 ≤ b.remaining := by
    rw [b.remaining_eq_limit hpos]
    exact Nat.le_of_not_lt hshort
  rw [if_neg hshort, if_neg hlong, header_fromBytes hremaining, ok_bind]
  by_cases hcounts : Oversized (headerAt b)
  · simp only [if_pos hcounts]
    exact iff_of_false (by simp [pure, Except.pure]) fun h => h.handled.2.2 hcounts
  · simp only [if_neg hcounts]
    rw [bind_eq_error, (exhausts_readRecords (headerAt b) b.limit).overflows]
    constructor
    · rintro (h | ⟨r, -, hr⟩)
      · exact ⟨⟨Nat.le_of_not_lt hshort, Nat.le_of_not_lt hlong, hcounts⟩, h⟩
      · cases hr
    · exact fun h => .inl h.records

end

end SmartSocks.Dns
