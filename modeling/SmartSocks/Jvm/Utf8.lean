import SmartSocks.Jvm.JString
import SmartSocks.Utils.EasyValue

/-!
# Two encodings of a string

`toByteArray` writes UTF-8, where a pair of surrogates is one character and a
surrogate alone is replaced. `GetStringUTFChars` writes modified UTF-8: every
code unit is encoded by itself, and the zero takes two bytes. They agree on the
strings that have neither zeros nor surrogates.
-/

namespace SmartSocks.Jvm

namespace JString

def isHighSurrogate (c : CodeUnit) : Bool := 0xD800 ≤ c.toNat && c.toNat ≤ 0xDBFF

def isLowSurrogate (c : CodeUnit) : Bool := 0xDC00 ≤ c.toNat && c.toNat ≤ 0xDFFF

def isSurrogate (c : CodeUnit) : Bool := isHighSurrogate c || isLowSurrogate c

/-- A code point of the first plane. -/
def encodeUnit (n : Nat) : List Byte :=
  if n < 0x80 then [BitVec.ofNat 8 n]
  else if n < 0x800 then [BitVec.ofNat 8 (0xC0 + n / 0x40), BitVec.ofNat 8 (0x80 + n % 0x40)]
  else [BitVec.ofNat 8 (0xE0 + n / 0x1000), BitVec.ofNat 8 (0x80 + n / 0x40 % 0x40),
    BitVec.ofNat 8 (0x80 + n % 0x40)]

/-- The code point of a pair of surrogates. -/
def codePoint (high low : CodeUnit) : Nat :=
  0x10000 + (high.toNat - 0xD800) * 0x400 + (low.toNat - 0xDC00)

/-- A code point beyond the first plane. -/
def encodePair (n : Nat) : List Byte :=
  [BitVec.ofNat 8 (0xF0 + n / 0x40000), BitVec.ofNat 8 (0x80 + n / 0x1000 % 0x40),
    BitVec.ofNat 8 (0x80 + n / 0x40 % 0x40), BitVec.ofNat 8 (0x80 + n % 0x40)]

/-- A code unit that is no half of a pair; `?` replaces a surrogate. -/
def encodeSingle (c : CodeUnit) : List Byte := if isSurrogate c then [0x3F] else encodeUnit c.toNat

/-- `toByteArray(charset("UTF-8"))` -/
def toByteArray : JString → List Byte
  | [] => []
  | [c] => encodeSingle c
  | c :: d :: s =>
    if isHighSurrogate c && isLowSurrogate d then encodePair (codePoint c d) ++ toByteArray s
    else encodeSingle c ++ toByteArray (d :: s)

/-- The zero never ends the string. -/
def encodeModified (c : CodeUnit) : List Byte :=
  if c.toNat = 0 then [0xC0, 0x80] else encodeUnit c.toNat

/-- `GetStringUTFChars`, without the zero byte behind. -/
def modifiedUtf8 (s : JString) : List Byte := s.flatMap encodeModified

/-- Neither a zero nor a surrogate. -/
def Plain (c : CodeUnit) : Prop := c.toNat ≠ 0 ∧ isSurrogate c = false

instance (c : CodeUnit) : Decidable (Plain c) := inferInstanceAs (Decidable (_ ∧ _))

section
variable {c d : CodeUnit} {s : JString}

theorem encodeSingle_of_plain (h : Plain c) : encodeSingle c = encodeModified c := by
  simp [encodeSingle, encodeModified, h.1, h.2]

theorem isSurrogate_of_high (h : isHighSurrogate c = true) : isSurrogate c = true := by
  simp [isSurrogate, h]

/-- A surrogate is encoded with three bytes, the first of which is always the same. -/
theorem encodeModified_surrogate (h : isSurrogate c = true) :
    ∃ rest, encodeModified c = 0xED :: rest := by
  have hrange : 0xD800 ≤ c.toNat ∧ c.toNat ≤ 0xDFFF := by
    simp only [isSurrogate, isHighSurrogate, isLowSurrogate, Bool.or_eq_true, Bool.and_eq_true,
      decide_eq_true_eq] at h
    omega
  have hdiv : c.toNat / 0x1000 = 0xD := by omega
  unfold encodeModified encodeUnit
  rw [if_neg (by omega), if_neg (by omega), if_neg (by omega), hdiv]
  exact ⟨_, rfl⟩

theorem codePoint_lt (c d : CodeUnit) (hc : isHighSurrogate c = true) (hd : isLowSurrogate d = true) :
    codePoint c d / 0x40000 ≤ 4 := by
  simp only [isHighSurrogate, isLowSurrogate, Bool.and_eq_true, decide_eq_true_eq] at hc hd
  unfold codePoint
  omega

theorem toByteArray_cons (c : CodeUnit) (s : JString) :
    toByteArray (c :: s) = encodeSingle c ++ toByteArray s ∨
      isHighSurrogate c = true ∧ ∃ d rest, isLowSurrogate d = true ∧
        toByteArray (c :: s) = encodePair (codePoint c d) ++ rest := by
  cases s with
  | nil => exact .inl (List.append_nil _).symm
  | cons d s =>
    by_cases hpair : (isHighSurrogate c && isLowSurrogate d) = true
    · obtain ⟨hc, hd⟩ := Bool.and_eq_true_iff.mp hpair
      exact .inr ⟨hc, d, toByteArray s, hd, by rw [toByteArray, if_pos hpair]⟩
    · exact .inl (by rw [toByteArray, if_neg hpair])

theorem toByteArray_of_plain (h : Plain c) :
    toByteArray (c :: s) = encodeModified c ++ toByteArray s := by
  rcases toByteArray_cons c s with heq | ⟨hc, -⟩
  · rw [heq, encodeSingle_of_plain h]
  · cases h.2.symm.trans (isSurrogate_of_high hc)

/-- The beginnings differ where a code unit is not plain. -/
theorem toByteArray_ne (h : ¬ Plain c) (t : List Byte) : toByteArray (c :: s) ≠ encodeModified c ++ t := by
  by_cases hsurrogate : isSurrogate c = true
  · obtain ⟨rest, hmodified⟩ := encodeModified_surrogate hsurrogate
    rw [hmodified]
    rcases toByteArray_cons c s with heq | ⟨hc, d, rest, hd, heq⟩
    · rw [heq, encodeSingle, if_pos hsurrogate]
      simp
    · rw [heq, encodePair]
      intro hhead
      have hbyte := congrArg BitVec.toNat (List.cons.inj hhead).1
      have hfour := codePoint_lt c d hc hd
      have hfirst : (0xED : Byte).toNat = 0xED := rfl
      rw [BitVec.toNat_ofNat, hfirst] at hbyte
      omega
  · have hzero : c.toNat = 0 := by
      by_contra hne
      exact h ⟨hne, by simpa using hsurrogate⟩
    rcases toByteArray_cons c s with heq | ⟨hc, -⟩
    · rw [heq, encodeSingle, if_neg hsurrogate, encodeModified, if_pos hzero, hzero]
      simp [encodeUnit]
    · exact absurd (isSurrogate_of_high hc) hsurrogate

/-- The encodings agree just on the plain strings. -/
theorem toByteArray_eq_iff : toByteArray s = modifiedUtf8 s ↔ ∀ c ∈ s, Plain c := by
  induction s with
  | nil => simp [toByteArray, modifiedUtf8]
  | cons c s ih =>
    rw [List.forall_mem_cons, ← ih, modifiedUtf8, List.flatMap_cons]
    by_cases hc : Plain c
    · rw [toByteArray_of_plain hc, List.append_cancel_left_eq]
      exact (and_iff_right hc).symm
    · exact iff_of_false (toByteArray_ne hc _) fun h => hc h.1

theorem ofNat_ne_zero {n : Nat} (hpos : 0 < n) (hlt : n < 256) : (0 : Byte) ≠ BitVec.ofNat 8 n := by
  intro h
  have hnat := congrArg BitVec.toNat h
  have hzero : (0 : Byte).toNat = 0 := rfl
  rw [BitVec.toNat_ofNat, hzero] at hnat
  omega

/-- There is no zero byte before the end. -/
theorem zero_notMem_modifiedUtf8 (s : JString) : (0 : Byte) ∉ modifiedUtf8 s := by
  intro hmem
  obtain ⟨c, -, hc⟩ := List.mem_flatMap.mp hmem
  have hlt := c.isLt
  unfold encodeModified at hc
  by_cases hzero : c.toNat = 0
  · rw [if_pos hzero] at hc
    revert hc
    decide
  · rw [if_neg hzero] at hc
    unfold encodeUnit at hc
    split at hc
    · have h := ofNat_ne_zero (n := c.toNat) (by omega) (by omega)
      exact h (List.mem_singleton.mp hc)
    split at hc
    · have h := ofNat_ne_zero (n := 0xC0 + c.toNat / 0x40) (by omega) (by omega)
      have h' := ofNat_ne_zero (n := 0x80 + c.toNat % 0x40) (by omega) (by omega)
      simp only [List.mem_cons, h, h', List.not_mem_nil, or_self] at hc
    · have h := ofNat_ne_zero (n := 0xE0 + c.toNat / 0x1000) (by omega) (by omega)
      have h' := ofNat_ne_zero (n := 0x80 + c.toNat / 0x40 % 0x40) (by omega) (by omega)
      have h'' := ofNat_ne_zero (n := 0x80 + c.toNat % 0x40) (by omega) (by omega)
      simp only [List.mem_cons, h, h', h'', List.not_mem_nil, or_self] at hc

end

end JString

end SmartSocks.Jvm
