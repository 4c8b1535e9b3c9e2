import SmartSocks.Jvm.JsonText

/-!
# Strings in JSON texts

What a JSON reader makes of the characters between two quotation marks, when it
takes raw line breaks as well. A string with a quotation mark or a backslash can
only be denoted by a longer body that has a backslash, and a quotation mark that
stands behind no backslash is never inside a body. This limits where in a text a
given string can be read from.
-/

namespace SmartSocks.Jvm

namespace JString

/-- A character that stands for itself, line breaks included. -/
def Raw (c : CodeUnit) : Prop := c ≠ quotation ∧ c ≠ backslash

instance (c : CodeUnit) : Decidable (Raw c) := inferInstanceAs (Decidable (_ ∧ _))

/-- No character of the string needs a backslash. -/
def Verbatim (s : JString) : Prop := ∀ c ∈ s, Raw c

instance (s : JString) : Decidable (Verbatim s) := List.decidableBAll Raw s

/-- The characters between two quotation marks, and the string they denote. -/
inductive StringBody : JString → JString → Prop
  | nil : StringBody [] []
  | raw {body s : JString} {c : CodeUnit} (hc : Raw c) (hs : StringBody body s) :
      StringBody (c :: body) (c :: s)
  | char {t body s : JString} {c : CodeUnit} (hc : CharText t c) (hs : StringBody body s) :
      StringBody (t ++ body) (c :: s)

/-- The characters that need a backslash. -/
def isSpecial (c : CodeUnit) : Bool := c = quotation ∨ c = backslash

theorem isSpecial_iff {c : CodeUnit} : isSpecial c = true ↔ ¬ Raw c := by
  unfold isSpecial Raw
  rw [decide_eq_true_iff, not_and_or, not_not, not_not]

section
variable {body s t : JString} {c : CodeUnit}

/-- A character is written as it is, or behind a backslash and without further
special characters but one. -/
theorem charText_cases (h : CharText t c) :
    t = [c] ∧ Raw c ∨ ∃ e rest, t = backslash :: e :: rest ∧ (e = quotation → c = quotation) ∧
      quotation ∉ rest ∧ comma ∉ e :: rest := by
  have hdigit {d : CodeUnit} {i : Nat} (hd : hexDigit d = some i) : d ≠ quotation ∧ d ≠ comma := by
    constructor
    · rintro rfl
      cases hd
    · rintro rfl
      cases hd
  cases h with
  | plain hc => exact .inl ⟨rfl, hc.2⟩
  | @escape e _ he =>
    refine .inr ⟨e, [], rfl, ?_, by simp, ?_⟩
    · rintro rfl
      simp [escapes, quotation, backslash] at he
      exact he
    · simp only [List.mem_cons, List.not_mem_nil, or_false]
      rintro rfl
      simp [escapes, quotation, backslash, comma] at he
  | @code a b c d _ _ _ _ ha hb hc hd =>
    refine .inr ⟨_, [a, b, c, d], rfl, by simp [quotation], ?_, ?_⟩
    · simp [(hdigit ha).1.symm, (hdigit hb).1.symm, (hdigit hc).1.symm, (hdigit hd).1.symm]
    · have hu : comma ≠ 0x75 := by decide
      simp only [List.mem_cons, List.not_mem_nil, or_false, hu, false_or, not_or]
      exact ⟨(hdigit ha).2.symm, (hdigit hb).2.symm, (hdigit hc).2.symm, (hdigit hd).2.symm⟩

/-- Without a backslash a body denotes itself. -/
theorem StringBody.eq_of_notMem (h : StringBody body s) (hbody : backslash ∉ body) :
    body = s ∧ Verbatim s := by
  induction h with
  | nil => exact ⟨rfl, by simp [Verbatim]⟩
  | raw hc hs ih =>
    obtain ⟨rfl, hverbatim⟩ := ih fun hmem => hbody (List.mem_cons_of_mem _ hmem)
    exact ⟨rfl, List.forall_mem_cons.mpr ⟨hc, hverbatim⟩⟩
  | char hc hs ih =>
    obtain ⟨rfl, hverbatim⟩ := ih fun hmem => hbody (List.mem_append_right _ hmem)
    obtain ⟨rfl, hraw⟩ | ⟨e, rest, rfl, -⟩ := charText_cases hc
    · exact ⟨rfl, List.forall_mem_cons.mpr ⟨hraw, hverbatim⟩⟩
    · exact absurd (List.mem_append_left _ (List.mem_cons_self ..)) hbody

/-- Each special character costs one more character. -/
theorem StringBody.length_le (h : StringBody body s) :
    s.length + s.countP isSpecial ≤ body.length := by
  induction h with
  | nil => exact Nat.le_refl 0
  | @raw body s c hc hs ih =>
    have hnot : ¬ isSpecial c = true := fun hspecial => isSpecial_iff.mp hspecial hc
    rw [List.countP_cons_of_neg hnot, List.length_cons, List.length_cons]
    omega
  | @char t body s c hc hs ih =>
    have hchar : 1 + (if isSpecial c then 1 else 0) ≤ t.length := by
      obtain ⟨rfl, hraw⟩ | ⟨e, rest, rfl, -⟩ := charText_cases hc
      · rw [if_neg fun hspecial => isSpecial_iff.mp hspecial hraw]
        exact Nat.le_refl 1
      · rw [List.length_cons, List.length_cons]
        split <;> omega
    rw [List.countP_cons, List.length_cons, List.length_append]
    omega

theorem StringBody.quotation_mem (h : StringBody body s) (hbody : quotation ∈ body) :
    quotation ∈ s := by
  induction h with
  | nil => cases hbody
  | raw hc hs ih =>
    rcases List.mem_cons.mp hbody with rfl | hmem
    · exact List.mem_cons_self ..
    · exact List.mem_cons_of_mem _ (ih hmem)
  | char hc hs ih =>
    rcases List.mem_append.mp hbody with ht | hmem
    · obtain ⟨rfl, hraw⟩ | ⟨e, rest, rfl, he, hrest, -⟩ := charText_cases hc
      · exact absurd (List.mem_singleton.mp ht).symm hraw.1
      · simp only [List.mem_cons, hrest, or_false] at ht
        rcases ht with hback | rfl
        · cases hback
        · rw [he rfl]
          exact List.mem_cons_self ..
    · exact List.mem_cons_of_mem _ (ih hmem)

/-- A quotation mark in a body stands right behind a backslash. -/
theorem StringBody.quotation_escaped (h : StringBody body s) {before after : JString}
    (hbody : body = before ++ quotation :: after) : ∃ before', before = before' ++ [backslash] := by
  induction h generalizing before with
  | nil => simp at hbody
  | @raw body s c hc hs ih =>
    cases before with
    | nil => exact absurd (List.cons.inj hbody).1 hc.1
    | cons b before =>
      obtain ⟨rfl, hrest⟩ := List.cons.inj hbody
      obtain ⟨before', rfl⟩ := ih hrest
      exact ⟨c :: before', rfl⟩
  | @char t body s c hc hs ih =>
    rcases List.append_eq_append_iff.mp hbody with ⟨mid, rfl, hmid⟩ | ⟨mid, rfl, hmid⟩
    · obtain ⟨mid', rfl⟩ := ih hmid
      exact ⟨t ++ mid', (List.append_assoc ..).symm⟩
    · cases mid with
      | nil =>
        obtain ⟨before', hnil⟩ := ih ((List.nil_append _).trans hmid).symm
        simp at hnil
      | cons q mid =>
        obtain ⟨rfl, -⟩ := List.cons.inj hmid
        -- the mark is inside an escape
        obtain ⟨hone, hraw⟩ | ⟨e, rest, hescape, -, hrest, -⟩ := charText_cases hc
        · cases before with
          | nil => exact absurd (List.cons.inj hone).1.symm hraw.1
          | cons b before => simp at hone
        · rcases before with _ | ⟨b, _ | ⟨b', before⟩⟩
          · cases (List.cons.inj hescape).1
          · exact ⟨[], congrArg (· :: []) (List.cons.inj hescape).1⟩
          · obtain ⟨-, hescape⟩ := List.cons.inj hescape
            obtain ⟨-, hescape⟩ := List.cons.inj hescape
            exact absurd (hescape ▸ List.mem_append_right _ (List.mem_cons_self ..)) hrest

/-- A comma at the end of a body is one at the end of the string. -/
theorem StringBody.comma_last (h : StringBody body s) {before : JString}
    (hbody : body = before ++ [comma]) : ∃ s', s = s' ++ [comma] := by
  induction h generalizing before with
  | nil => simp at hbody
  | @raw body s c hc hs ih =>
    rcases List.eq_nil_or_concat' body with rfl | ⟨init, last, rfl⟩
    · cases hs.eq_of_notMem (by simp) |>.1
      obtain ⟨-, rfl⟩ := List.append_singleton_inj.mp ((List.nil_append [c]).trans hbody)
      exact ⟨[], rfl⟩
    · obtain ⟨-, rfl⟩ := List.append_singleton_inj.mp ((List.cons_append ..).trans hbody)
      obtain ⟨s', rfl⟩ := ih rfl
      exact ⟨c :: s', rfl⟩
  | @char t body s c hc hs ih =>
    rcases List.eq_nil_or_concat' body with rfl | ⟨init, last, rfl⟩
    · cases hs.eq_of_notMem (by simp) |>.1
      rw [List.append_nil] at hbody
      obtain ⟨rfl, -⟩ | ⟨e, rest, hescape, -, -, hrest⟩ := charText_cases hc
      · obtain ⟨-, rfl⟩ := List.append_singleton_inj.mp ((List.nil_append [c]).trans hbody)
        exact ⟨[], rfl⟩
      · cases before with
        | nil => cases (List.cons.inj (hescape.symm.trans hbody)).2
        | cons b before =>
          obtain ⟨-, htail⟩ := List.cons.inj (hescape.symm.trans hbody)
          exact absurd (htail ▸ List.mem_append_right _ (List.mem_singleton_self _)) hrest
    · obtain ⟨-, rfl⟩ := List.append_singleton_inj.mp ((List.append_assoc ..).trans hbody)
      obtain ⟨s', rfl⟩ := ih rfl
      exact ⟨c :: s', rfl⟩

end

-- ---------------------------------------------------------------------------
-- Where a string is read from
-- ---------------------------------------------------------------------------

/-- The body stands between two quotation marks of the text. -/
def Token (text body : JString) : Prop :=
  ∃ before after, text = before ++ quotation :: (body ++ quotation :: after)

section
variable {left right body s d : JString}

/-- A mark behind no backslash separates the tokens of a text. -/
theorem Token.split (h : Token (left ++ quotation :: right) body) (hbody : StringBody body s)
    (hleft : ∀ x, left ≠ x ++ [backslash]) :
    Token (left ++ [quotation]) body ∨ Token (quotation :: right) body := by
  obtain ⟨before, after, h⟩ := h
  rcases List.append_eq_append_iff.mp h with ⟨mid, rfl, hmid⟩ | ⟨mid, rfl, hmid⟩
  · exact .inr ⟨mid, after, hmid⟩
  · cases mid with
    | nil => exact .inr ⟨[], after, hmid.symm⟩
    | cons q mid =>
      left
      obtain ⟨rfl, htail⟩ := List.cons.inj hmid
      rcases List.append_eq_append_iff.mp htail with ⟨more, rfl, hmore⟩ | ⟨more, rfl, hmore⟩
      · -- the token ends before the mark, or with it
        cases more with
        | nil => exact ⟨before, [], by simp⟩
        | cons q more =>
          obtain ⟨rfl, -⟩ := List.cons.inj hmore
          exact ⟨before, more ++ [quotation], by simp⟩
      · cases more with
        | nil => exact ⟨before, [], by simp⟩
        | cons q more =>
          obtain ⟨rfl, -⟩ := List.cons.inj hmore
          obtain ⟨x, rfl⟩ := hbody.quotation_escaped rfl
          exact absurd (by simp) (hleft (before ++ quotation :: x))

theorem Token.split_behind {c : CodeUnit} (h : Token (left ++ c :: quotation :: right) body)
    (hbody : StringBody body s) (hc : c ≠ backslash) :
    Token (left ++ [c, quotation]) body ∨ Token (quotation :: right) body := by
  have hleft (x : JString) : left ++ [c] ≠ x ++ [backslash] := fun heq =>
    hc (List.append_singleton_inj.mp heq).2
  rw [List.append_cons] at h
  have hsplit := h.split hbody hleft
  rwa [List.append_assoc, List.singleton_append] at hsplit

/-- A string that is not verbatim was read with a backslash. -/
theorem StringBody.backslash_mem (h : StringBody body s) (hs : ¬ Verbatim s) : backslash ∈ body := by
  by_contra hback
  exact hs (h.eq_of_notMem hback).2

theorem countP_special_pos (hs : ¬ Verbatim s) : 0 < s.countP isSpecial := by
  rw [List.countP_pos_iff]
  by_contra hnone
  exact hs fun c hc => by_contra fun hraw => hnone ⟨c, hc, isSpecial_iff.mpr hraw⟩

theorem two_le_countP_special (hq : quotation ∈ s) (hb : backslash ∈ s) : 2 ≤ s.countP isSpecial := by
  have hquotation : quotation ∈ s.filter isSpecial := List.mem_filter.mpr ⟨hq, by decide⟩
  have hbackslash : backslash ∈ s.filter isSpecial := List.mem_filter.mpr ⟨hb, by decide⟩
  rw [List.countP_eq_length_filter]
  rcases hfilter : s.filter isSpecial with _ | ⟨c, _ | ⟨d, rest⟩⟩
  · rw [hfilter] at hquotation
    cases hquotation
  · rw [hfilter] at hquotation hbackslash
    cases (List.mem_singleton.mp hquotation).trans (List.mem_singleton.mp hbackslash).symm
  · exact Nat.le_add_left 2 rest.length

theorem Token.mem {text : JString} {c : CodeUnit} (h : Token text body) (hc : c ∈ body) : c ∈ text := by
  obtain ⟨before, after, rfl⟩ := h
  exact List.mem_append_right _ (List.mem_cons_of_mem _ (List.mem_append_left _ hc))

theorem Token.length_add_two_le {text : JString} (h : Token text body) :
    body.length + 2 ≤ text.length := by
  obtain ⟨before, after, rfl⟩ := h
  simp only [List.length_cons, List.length_append]
  omega

/-- Between a mark and the next one that is behind no backslash. -/
theorem Token.length_le (h : Token (quotation :: (d ++ [quotation])) body) :
    body.length ≤ d.length := by
  have hlength := h.length_add_two_le
  simp only [List.length_cons, List.length_append, List.length_nil] at hlength
  omega

theorem Token.append_singleton {text : JString} {c : CodeUnit} (h : Token (text ++ [c]) body) :
    Token text body ∨ c = quotation ∧ ∃ before, text = before ++ quotation :: body := by
  obtain ⟨before, after, h⟩ := h
  obtain rfl | ⟨after, last, rfl⟩ := List.eq_nil_or_concat' after
  · have hlast : text ++ [c] = (before ++ quotation :: body) ++ [quotation] := by simpa using h
    obtain ⟨rfl, rfl⟩ := List.append_singleton_inj.mp hlast
    exact .inr ⟨rfl, before, rfl⟩
  · have hlast : text ++ [c] = (before ++ quotation :: (body ++ quotation :: after)) ++ [last] := by
      simpa using h
    exact .inl ⟨before, after, (List.append_singleton_inj.mp hlast).1⟩

/-- Behind `d` there is one more mark, which a backslash at the end of `d` would
hide. -/
theorem Token.length_le_or (h : Token (quotation :: (d ++ [quotation, comma, quotation])) body)
    (hbody : StringBody body s) (hd : d ≠ []) :
    body.length ≤ d.length ∨
      (∃ x, d = x ++ [backslash]) ∧ ∃ y, body = y ++ [quotation, comma] := by
  have hzone : Token ((quotation :: (d ++ [quotation]) ++ [comma]) ++ [quotation]) body := by
    simpa using h
  obtain hin | ⟨-, before, hbefore⟩ := hzone.append_singleton
  · obtain hin | ⟨hmark, -⟩ := hin.append_singleton
    · exact .inl hin.length_le
    · cases hmark
  · -- the token ends with the last mark
    obtain rfl | ⟨y, last, rfl⟩ := List.eq_nil_or_concat' body
    · exact .inl (Nat.zero_le _)
    have hcomma : quotation :: (d ++ [quotation]) ++ [comma] = (before ++ quotation :: y) ++ [last] := by
      simpa using hbefore
    obtain ⟨hmost, rfl⟩ := List.append_singleton_inj.mp hcomma
    obtain rfl | ⟨z, last, rfl⟩ := List.eq_nil_or_concat' y
    · exact .inl (List.length_pos_iff.mpr hd)
    have hquotation : quotation :: d ++ [quotation] = (before ++ quotation :: z) ++ [last] := by
      simpa using hmost
    obtain ⟨hrest, rfl⟩ := List.append_singleton_inj.mp hquotation
    -- the mark behind `d` is inside the body, so it is escaped
    obtain ⟨x, rfl⟩ := hbody.quotation_escaped (List.append_assoc ..)
    obtain rfl | ⟨init, last, rfl⟩ := List.eq_nil_or_concat' d
    · exact absurd rfl hd
    have hback : quotation :: init ++ [last] = (before ++ quotation :: x) ++ [backslash] := by
      simpa using hrest
    obtain ⟨-, rfl⟩ := List.append_singleton_inj.mp hback
    exact .inr ⟨⟨init, rfl⟩, x ++ [backslash], by simp⟩

end

end JString

end SmartSocks.Jvm
