import SmartSocks.Utils.Strings

/-!
# Decoding character by character

An ASCII byte is no continuation byte, so what stands before it is decoded on
its own, and a character below 0x80 comes from its own byte.
-/

namespace SmartSocks.Strings

/-- The lead bytes of sequences of two, three and four bytes. -/
def IsLead2 (b : Byte) : Prop := 0xC2 ≤ b.toNat ∧ b.toNat ≤ 0xDF

def IsLead3 (b : Byte) : Prop := 0xE0 ≤ b.toNat ∧ b.toNat ≤ 0xEF

def IsLead4 (b : Byte) : Prop := 0xF0 ≤ b.toNat ∧ b.toNat ≤ 0xF4

/-- The next byte, if there is one, is none of these. -/
def Stops (p : Byte → Bool) (rest : List Byte) : Prop := ∀ b ∈ rest.head?, p b = false

section
variable {b0 b1 b2 b3 : Byte} {rest : List Byte}

attribute [local grind =] decodeUtf8.eq_def

theorem decode_nil : decodeUtf8 [] = [] := decodeUtf8.eq_def []

theorem decode_ascii (h : b0.toNat < 0x80) :
    decodeUtf8 (b0 :: rest) = codePoint b0.toNat :: decodeUtf8 rest :=
  (decodeUtf8.eq_def _).trans (if_pos h)

theorem decode_other (h1 : ¬ b0.toNat < 0x80) (h2 : ¬ IsLead2 b0) (h3 : ¬ IsLead3 b0) (h4 : ¬ IsLead4 b0) :
    decodeUtf8 (b0 :: rest) = replacement :: decodeUtf8 rest := by
  have h (lo hi : Nat) (hnot : ¬ (lo ≤ b0.toNat ∧ b0.toNat ≤ hi)) :
      ¬ (decide (lo ≤ b0.toNat) && decide (b0.toNat ≤ hi)) = true := by
    rw [Bool.and_eq_true, decide_eq_true_iff, decide_eq_true_iff]
    exact hnot
  refine (decodeUtf8.eq_def _).trans ?_
  exact (if_neg h1).trans ((if_neg (h _ _ h2)).trans ((if_neg (h _ _ h3)).trans (if_neg (h _ _ h4))))

theorem decode_lead2_stop (h : IsLead2 b0) (hstop : Stops isContinuation rest) :
    decodeUtf8 (b0 :: rest) = replacement :: decodeUtf8 rest := by
  obtain ⟨hlo, hhi⟩ := h
  have h1 : ¬ b0.toNat < 0x80 := by omega
  refine (decodeUtf8.eq_def _).trans ?_
  cases rest with
  | nil => simp [h1, hlo, hhi, decode_nil]
  | cons b1 rest => simp [h1, hlo, hhi, hstop b1 rfl]

theorem decode_lead2 (h : IsLead2 b0) (hb1 : isContinuation b1 = true) :
    decodeUtf8 (b0 :: b1 :: rest) = codePoint (b0.toNat % 32 * 64 + low6 b1) :: decodeUtf8 rest := by
  obtain ⟨hlo, hhi⟩ := h
  have h1 : ¬ b0.toNat < 0x80 := by omega
  refine (decodeUtf8.eq_def _).trans ?_
  simp [h1, hlo, hhi, hb1]

theorem decode_lead3_stop (h : IsLead3 b0) (hstop : Stops (isSecond b0) rest) :
    decodeUtf8 (b0 :: rest) = replacement :: decodeUtf8 rest := by
  obtain ⟨hlo, hhi⟩ := h
  have h1 : ¬ b0.toNat < 0x80 := by omega
  have h2 : ¬ b0.toNat ≤ 0xDF := by omega
  refine (decodeUtf8.eq_def _).trans ?_
  rcases rest with _ | ⟨b1, _ | ⟨b2, rest⟩⟩
  · simp [h1, h2, hlo, hhi, decode_nil]
  · simp [h1, h2, hlo, hhi, hstop b1 rfl]
  · simp [h1, h2, hlo, hhi, hstop b1 rfl]

theorem decode_lead3_cut (h : IsLead3 b0) (hb1 : isSecond b0 b1 = true) (hstop : Stops isContinuation rest) :
    decodeUtf8 (b0 :: b1 :: rest) = replacement :: decodeUtf8 rest := by
  obtain ⟨hlo, hhi⟩ := h
  have h1 : ¬ b0.toNat < 0x80 := by omega
  have h2 : ¬ b0.toNat ≤ 0xDF := by omega
  refine (decodeUtf8.eq_def _).trans ?_
  cases rest with
  | nil => simp [h1, h2, hlo, hhi, hb1, decode_nil]
  | cons b2 rest => simp [h1, h2, hlo, hhi, hb1, hstop b2 rfl]

theorem decode_lead3 (h : IsLead3 b0) (hb1 : isSecond b0 b1 = true) (hb2 : isContinuation b2 = true) :
    decodeUtf8 (b0 :: b1 :: b2 :: rest) =
      codePoint (b0.toNat % 16 * 4096 + low6 b1 * 64 + low6 b2) :: decodeUtf8 rest := by
  obtain ⟨hlo, hhi⟩ := h
  have h1 : ¬ b0.toNat < 0x80 := by omega
  have h2 : ¬ b0.toNat ≤ 0xDF := by omega
  refine (decodeUtf8.eq_def _).trans ?_
  simp [h1, h2, hlo, hhi, hb1, hb2]

theorem decode_lead4_stop (h : IsLead4 b0) (hstop : Stops (isSecond b0) rest) :
    decodeUtf8 (b0 :: rest) = replacement :: decodeUtf8 rest := by
  obtain ⟨hlo, hhi⟩ := h
  have h1 : ¬ b0.toNat < 0x80 := by omega
  have h2 : ¬ b0.toNat ≤ 0xDF := by omega
  have h3 : ¬ b0.toNat ≤ 0xEF := by omega
  refine (decodeUtf8.eq_def _).trans ?_
  rcases rest with _ | ⟨b1, _ | ⟨b2, _ | ⟨b3, rest⟩⟩⟩
  · simp [h1, h2, h3, hlo, hhi, decode_nil]
  · simp [h1, h2, h3, hlo, hhi, hstop b1 rfl]
  · simp [h1, h2, h3, hlo, hhi, hstop b1 rfl]
  · simp [h1, h2, h3, hlo, hhi, hstop b1 rfl]

theorem decode_lead4_cut (h : IsLead4 b0) (hb1 : isSecond b0 b1 = true) (hstop : Stops isContinuation rest) :
    decodeUtf8 (b0 :: b1 :: rest) = replacement :: decodeUtf8 rest := by
  obtain ⟨hlo, hhi⟩ := h
  have h1 : ¬ b0.toNat < 0x80 := by omega
  have h2 : ¬ b0.toNat ≤ 0xDF := by omega
  have h3 : ¬ b0.toNat ≤ 0xEF := by omega
  refine (decodeUtf8.eq_def _).trans ?_
  rcases rest with _ | ⟨b2, _ | ⟨b3, rest⟩⟩
  · simp [h1, h2, h3, hlo, hhi, hb1, decode_nil]
  · simp [h1, h2, h3, hlo, hhi, hb1, hstop b2 rfl]
  · simp [h1, h2, h3, hlo, hhi, hb1, hstop b2 rfl]

theorem decode_lead4_late (h : IsLead4 b0) (hb1 : isSecond b0 b1 = true) (hb2 : isContinuation b2 = true)
    (hstop : Stops isContinuation rest) :
    decodeUtf8 (b0 :: b1 :: b2 :: rest) = replacement :: decodeUtf8 rest := by
  obtain ⟨hlo, hhi⟩ := h
  have h1 : ¬ b0.toNat < 0x80 := by omega
  have h2 : ¬ b0.toNat ≤ 0xDF := by omega
  have h3 : ¬ b0.toNat ≤ 0xEF := by omega
  refine (decodeUtf8.eq_def _).trans ?_
  cases rest with
  | nil => simp [h1, h2, h3, hlo, hhi, hb1, hb2, decode_nil]
  | cons b3 rest => simp [h1, h2, h3, hlo, hhi, hb1, hb2, hstop b3 rfl]

theorem decode_lead4 (h : IsLead4 b0) (hb1 : isSecond b0 b1 = true) (hb2 : isContinuation b2 = true)
    (hb3 : isContinuation b3 = true) :
    decodeUtf8 (b0 :: b1 :: b2 :: b3 :: rest) =
      codePoint (b0.toNat % 8 * 262144 + low6 b1 * 4096 + low6 b2 * 64 + low6 b3) :: decodeUtf8 rest := by
  obtain ⟨hlo, hhi⟩ := h
  have h1 : ¬ b0.toNat < 0x80 := by omega
  have h2 : ¬ b0.toNat ≤ 0xDF := by omega
  have h3 : ¬ b0.toNat ≤ 0xEF := by omega
  refine (decodeUtf8.eq_def _).trans ?_
  simp [h1, h2, h3, hlo, hhi, hb1, hb2, hb3]

end

-- ---------------------------------------------------------------------------
-- The first character
-- ---------------------------------------------------------------------------

theorem not_continuation {b : Byte} (h : b.toNat < 0x80) : isContinuation b = false := by
  have hlo : ¬ 0x80 ≤ b.toNat := Nat.not_le.mpr h
  simp [isContinuation, hlo]

theorem not_second {lead b : Byte} (h : b.toNat < 0x80) : isSecond lead b = false := by
  rw [isSecond, not_continuation h, Bool.false_and]

theorem Stops.append {p : Byte → Bool} {rest more : List Byte} (hrest : Stops p rest) (hmore : Stops p more) :
    Stops p (rest ++ more) := by
  cases rest with
  | nil => exact hmore
  | cons b rest => exact hrest

theorem stops_cons {p : Byte → Bool} {b : Byte} {rest : List Byte} (h : p b = false) : Stops p (b :: rest) := by
  rintro _ ⟨⟩
  exact h

/-- The character of a sequence of several bytes is not ASCII. -/
theorem codePoint_large {n : Nat} (h : 0x80 ≤ n) (hpos : 0 < (codePoint n).toNat) :
    ¬ (codePoint n).toNat < 0x80 := by
  unfold codePoint at hpos ⊢
  by_cases hvalid : n.isValidChar
  · rw [Char.ofNat, dif_pos hvalid]
    exact Nat.not_lt.mpr h
  · rw [Char.ofNat, dif_neg hvalid] at hpos
    exact absurd hpos (by decide)

theorem continuation_range {b : Byte} (h : isContinuation b = true) : 0x80 ≤ b.toNat ∧ b.toNat ≤ 0xBF := by
  simpa [isContinuation] using h

/-- The shortest form of three bytes and that of four are not taken for less. -/
theorem second_range {lead b : Byte} (h : isSecond lead b = true) : b.toNat ≤ 0xBF ∧
    (lead.toNat = 0xE0 → 0xA0 ≤ b.toNat) ∧ (lead.toNat = 0xF0 → 0x90 ≤ b.toNat) := by
  rw [isSecond, Bool.and_eq_true] at h
  obtain ⟨hrange, hsecond⟩ := h
  refine ⟨(continuation_range hrange).2, fun hlead => ?_, fun hlead => ?_⟩
  · simpa [hlead] using hsecond
  · simpa [hlead] using hsecond

/-- What the first character is decoded from, and what is left then. The bytes
behind do not change it, unless they begin with a continuation byte. -/
theorem decode_head (b0 : Byte) (rest : List Byte) : ∃ c tail, tail <:+ rest ∧
    (0 < c.toNat → c.toNat < 0x80 → c = codePoint b0.toNat) ∧
    ∀ more, (∀ b ∈ more.head?, b.toNat < 0x80) →
      decodeUtf8 (b0 :: (rest ++ more)) = c :: decodeUtf8 (tail ++ more) := by
  have hreplacement : 0 < replacement.toNat → replacement.toNat < 0x80 → replacement = codePoint b0.toNat :=
    fun _ h => absurd h (by decide)
  have hlarge {n : Nat} (hn : 0x80 ≤ n) (hpos : 0 < (codePoint n).toNat) (hlt : (codePoint n).toNat < 0x80) :
      codePoint n = codePoint b0.toNat := absurd hlt (codePoint_large hn hpos)
  have hnot {more : List Byte} (h : ∀ b ∈ more.head?, b.toNat < 0x80) : Stops isContinuation more :=
    fun b hb => not_continuation (h b hb)
  have hnot' {more : List Byte} (h : ∀ b ∈ more.head?, b.toNat < 0x80) : Stops (isSecond b0) more :=
    fun b hb => not_second (h b hb)
  by_cases h1 : b0.toNat < 0x80
  · exact ⟨codePoint b0.toNat, rest, List.suffix_refl _, fun _ _ => rfl, fun _ _ => decode_ascii h1⟩
  by_cases h2 : IsLead2 b0
  · cases rest with
    | nil => exact ⟨_, [], List.suffix_refl _, hreplacement, fun _ hmore => decode_lead2_stop h2 (hnot hmore)⟩
    | cons b1 rest =>
      by_cases hb1 : isContinuation b1 = true
      · refine ⟨_, rest, List.suffix_cons _ _, hlarge ?_, fun _ _ => decode_lead2 h2 hb1⟩
        have := h2.1
        have := h2.2
        omega
      · have hstop : Stops isContinuation (b1 :: rest) := stops_cons (Bool.eq_false_iff.mpr hb1)
        exact ⟨_, b1 :: rest, List.suffix_refl _, hreplacement,
          fun _ hmore => decode_lead2_stop h2 (hstop.append (hnot hmore))⟩
  by_cases h3 : IsLead3 b0
  · cases rest with
    | nil => exact ⟨_, [], List.suffix_refl _, hreplacement, fun _ hmore => decode_lead3_stop h3 (hnot' hmore)⟩
    | cons b1 rest =>
      by_cases hb1 : isSecond b0 b1 = true
      · cases rest with
        | nil => exact ⟨_, [], List.suffix_cons _ _, hreplacement,
            fun _ hmore => decode_lead3_cut h3 hb1 (hnot hmore)⟩
        | cons b2 rest =>
          by_cases hb2 : isContinuation b2 = true
          · have hsuffix : rest <:+ b1 :: b2 :: rest := (List.suffix_cons b2 rest).trans (List.suffix_cons b1 _)
            refine ⟨_, rest, hsuffix, hlarge ?_, fun _ _ => decode_lead3 h3 hb1 hb2⟩
            obtain ⟨hlo, hhi⟩ := h3
            obtain ⟨hmax, hmin, -⟩ := second_range hb1
            rw [low6]
            omega
          · have hstop : Stops isContinuation (b2 :: rest) := stops_cons (Bool.eq_false_iff.mpr hb2)
            exact ⟨_, b2 :: rest, List.suffix_cons _ _, hreplacement,
              fun _ hmore => decode_lead3_cut h3 hb1 (hstop.append (hnot hmore))⟩
      · have hstop : Stops (isSecond b0) (b1 :: rest) := stops_cons (Bool.eq_false_iff.mpr hb1)
        exact ⟨_, b1 :: rest, List.suffix_refl _, hreplacement,
          fun _ hmore => decode_lead3_stop h3 (hstop.append (hnot' hmore))⟩
  by_cases h4 : IsLead4 b0
  · cases rest with
    | nil => exact ⟨_, [], List.suffix_refl _, hreplacement, fun _ hmore => decode_lead4_stop h4 (hnot' hmore)⟩
    | cons b1 rest =>
      by_cases hb1 : isSecond b0 b1 = true
      · cases rest with
        | nil => exact ⟨_, [], List.suffix_cons _ _, hreplacement,
            fun _ hmore => decode_lead4_cut h4 hb1 (hnot hmore)⟩
        | cons b2 rest =>
          have hsuffix : rest <:+ b1 :: b2 :: rest := (List.suffix_cons b2 rest).trans (List.suffix_cons b1 _)
          by_cases hb2 : isContinuation b2 = true
          · cases rest with
            | nil => exact ⟨_, [], hsuffix, hreplacement,
                fun _ hmore => decode_lead4_late h4 hb1 hb2 (hnot hmore)⟩
            | cons b3 rest =>
              by_cases hb3 : isContinuation b3 = true
              · refine ⟨_, rest, (List.suffix_cons b3 rest).trans hsuffix, hlarge ?_,
                  fun _ _ => decode_lead4 h4 hb1 hb2 hb3⟩
                obtain ⟨hlo, hhi⟩ := h4
                obtain ⟨hmax, -, hmin⟩ := second_range hb1
                rw [low6]
                omega
              · have hstop : Stops isContinuation (b3 :: rest) := stops_cons (Bool.eq_false_iff.mpr hb3)
                exact ⟨_, b3 :: rest, hsuffix, hreplacement,
                  fun _ hmore => decode_lead4_late h4 hb1 hb2 (hstop.append (hnot hmore))⟩
          · have hstop : Stops isContinuation (b2 :: rest) := stops_cons (Bool.eq_false_iff.mpr hb2)
            exact ⟨_, b2 :: rest, List.suffix_cons _ _, hreplacement,
              fun _ hmore => decode_lead4_cut h4 hb1 (hstop.append (hnot hmore))⟩
      · have hstop : Stops (isSecond b0) (b1 :: rest) := stops_cons (Bool.eq_false_iff.mpr hb1)
        exact ⟨_, b1 :: rest, List.suffix_refl _, hreplacement,
          fun _ hmore => decode_lead4_stop h4 (hstop.append (hnot' hmore))⟩
  · exact ⟨_, rest, List.suffix_refl _, hreplacement, fun _ _ => decode_other h1 h2 h3 h4⟩

-- ---------------------------------------------------------------------------
-- ASCII boundaries
-- ---------------------------------------------------------------------------

/-- What stands before an ASCII byte is decoded on its own. -/
theorem decodeUtf8_append {more : List Byte} (hmore : ∀ b ∈ more.head?, b.toNat < 0x80) (xs : List Byte) :
    decodeUtf8 (xs ++ more) = decodeUtf8 xs ++ decodeUtf8 more := by
  induction hn : xs.length using Nat.strongRecOn generalizing xs with
  | ind n ih =>
    subst hn
    cases xs with
    | nil => rw [decode_nil, List.nil_append, List.nil_append]
    | cons b0 rest =>
      obtain ⟨c, tail, hsuffix, -, hstep⟩ := decode_head b0 rest
      have hlt : tail.length < (b0 :: rest).length := Nat.lt_succ_of_le hsuffix.length_le
      have hone := hstep [] (by simp)
      rw [List.append_nil, List.append_nil] at hone
      rw [List.cons_append, hstep more hmore, hone, ih _ hlt tail rfl, List.cons_append]

/-- An ASCII character comes from its own byte. -/
theorem mem_decodeUtf8 {c : Char} {xs : List Byte} (h : c ∈ decodeUtf8 xs) (hpos : 0 < c.toNat)
    (hlt : c.toNat < 0x80) : ∃ b ∈ xs, c = codePoint b.toNat := by
  induction hn : xs.length using Nat.strongRecOn generalizing xs with
  | ind n ih =>
    subst hn
    cases xs with
    | nil =>
      rw [decode_nil] at h
      cases h
    | cons b0 rest =>
      obtain ⟨c', tail, hsuffix, hown, hstep⟩ := decode_head b0 rest
      have hshort : tail.length < (b0 :: rest).length := Nat.lt_succ_of_le hsuffix.length_le
      have hone := hstep [] (by simp)
      rw [List.append_nil, List.append_nil] at hone
      rw [hone] at h
      cases h with
      | head => exact ⟨b0, List.mem_cons_self, hown hpos hlt⟩
      | tail _ h =>
        obtain ⟨b, hb, hc⟩ := ih _ hshort h rfl
        exact ⟨b, List.mem_cons_of_mem _ (hsuffix.subset hb), hc⟩

theorem decodeUtf8_ascii {xs : List Byte} (h : ∀ b ∈ xs, b.toNat < 0x80) :
    decodeUtf8 xs = xs.map fun b => codePoint b.toNat := by
  induction xs with
  | nil => exact decode_nil
  | cons x xs ih =>
    obtain ⟨hx, hxs⟩ := List.forall_mem_cons.mp h
    rw [decode_ascii hx, ih hxs, List.map_cons]

end SmartSocks.Strings
