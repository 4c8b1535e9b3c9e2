import Mathlib.Data.Nat.ModEq

/-!
# One's complement sums

With words of `ones + 1` values, one's complement addition brings the carry
around: sums are taken modulo `ones`, and a sum that is not zero never becomes
the zero word. `reduce` is that representative. A checksum field filled with the
complement of the sum of everything else makes the whole sum `ones`.
-/

namespace OnesComplement

variable {ones a b n : Nat}

/-- The word that a sum stands for. -/
def reduce (ones n : Nat) : Nat := if n = 0 then 0 else (n - 1) % ones + 1

@[simp] theorem reduce_zero : reduce ones 0 = 0 := rfl

theorem reduce_le (hones : 0 < ones) : reduce ones n ≤ ones := by
  unfold reduce
  split
  · exact Nat.zero_le _
  · exact Nat.mod_lt _ hones

/-- A word stands for itself. -/
theorem reduce_of_le (h : n ≤ ones) : reduce ones n = n := by
  unfold reduce
  split
  · next hzero => exact hzero.symm
  · next hpos =>
    have hlt : n - 1 < ones := Nat.lt_of_lt_of_le (Nat.sub_one_lt hpos) h
    rw [Nat.mod_eq_of_lt hlt, Nat.sub_one_add_one hpos]

theorem reduce_modEq : reduce ones n ≡ n [MOD ones] := by
  unfold reduce
  split
  · next hzero => rw [hzero]
  · next hpos =>
    have hmod : (n - 1) % ones + 1 ≡ n - 1 + 1 [MOD ones] := (Nat.mod_modEq _ _).add_right 1
    rwa [Nat.sub_one_add_one hpos] at hmod

/-- Sums that are congruent, and both zero or both not, stand for the same word. -/
theorem reduce_congr (h : a ≡ b [MOD ones]) (hzero : a = 0 ↔ b = 0) : reduce ones a = reduce ones b := by
  unfold reduce
  by_cases ha : a = 0
  · rw [if_pos ha, if_pos (hzero.mp ha)]
  · have hb : b ≠ 0 := mt hzero.mpr ha
    rw [if_neg ha, if_neg hb]
    have hpred : a - 1 ≡ b - 1 [MOD ones] := by
      refine Nat.ModEq.add_right_cancel' 1 ?_
      rwa [Nat.sub_one_add_one ha, Nat.sub_one_add_one hb]
    exact congrArg (· + 1) hpred

/-- Bringing the carries around changes nothing. -/
theorem reduce_carry (low high : Nat) : reduce ones (low + high) = reduce ones (low + high * (ones + 1)) := by
  refine reduce_congr ?_ ?_
  · have hmul : high * (ones + 1) ≡ high [MOD ones] := by
      rw [Nat.mul_succ]
      simp [Nat.ModEq]
    exact (hmul.add_left low).symm
  · simp

/-- The complement of a sum fills it up to all ones. -/
theorem reduce_complement {ones : Nat} (hones : 0 < ones) (n : Nat) :
    reduce ones (n + (ones - reduce ones n)) = ones := by
  have hle := reduce_le (n := n) hones
  have hmod : n + (ones - reduce ones n) ≡ ones [MOD ones] := by
    have hadd := (reduce_modEq : reduce ones n ≡ n [MOD ones]).symm.add_right (ones - reduce ones n)
    rwa [Nat.add_sub_cancel' hle] at hadd
  have hpos : ¬ n + (ones - reduce ones n) = 0 := by
    intro hzero
    obtain ⟨rfl, hrest⟩ := Nat.add_eq_zero_iff.mp hzero
    rw [reduce_zero, Nat.sub_zero] at hrest
    exact Nat.ne_of_gt hones hrest
  rw [reduce_congr hmod (iff_of_false hpos (Nat.ne_of_gt hones)), reduce_of_le (Nat.le_refl _)]

-- ---------------------------------------------------------------------------
-- Adding with the carry around
-- ---------------------------------------------------------------------------

/-- The sum of two words, with the carry added to its low end. -/
def carryAdd (ones a b : Nat) : Nat := if a + b ≤ ones then a + b else a + b - ones

/-- The sum of some words, one after the other. -/
def carrySum (ones : Nat) (words : List Nat) : Nat := words.foldl (carryAdd ones) 0

theorem carryAdd_eq (ha : a ≤ ones) (hb : b ≤ ones) : carryAdd ones a b = reduce ones (a + b) := by
  unfold carryAdd
  by_cases hsum : a + b ≤ ones
  · rw [if_pos hsum, reduce_of_le hsum]
  · have hpred : a + b - 1 = a + b - ones - 1 + ones := by omega
    have hlt : a + b - ones - 1 < ones := by omega
    rw [if_neg hsum, reduce, if_neg (by omega), hpred, Nat.add_mod_right, Nat.mod_eq_of_lt hlt]
    omega

/-- A part of a sum may be brought down first. -/
theorem reduce_add (a b : Nat) : reduce ones (reduce ones a + b) = reduce ones (a + b) := by
  refine reduce_congr (reduce_modEq.add_right b) ?_
  have hzero : reduce ones a = 0 ↔ a = 0 := by
    unfold reduce
    split <;> simp_all
  rw [Nat.add_eq_zero_iff, Nat.add_eq_zero_iff, hzero]

theorem foldl_carryAdd {acc : Nat} {words : List Nat} (hones : 0 < ones) (hacc : acc ≤ ones)
    (hwords : ∀ w ∈ words, w ≤ ones) :
    words.foldl (carryAdd ones) acc = reduce ones (acc + words.sum) := by
  induction words generalizing acc with
  | nil => exact (reduce_of_le hacc).symm
  | cons w words ih =>
    obtain ⟨hw, hwords⟩ := List.forall_mem_cons.mp hwords
    have hnext : carryAdd ones acc w ≤ ones := by
      rw [carryAdd_eq hacc hw]
      exact reduce_le hones
    rw [List.foldl_cons, ih hnext hwords, carryAdd_eq hacc hw, reduce_add, List.sum_cons, Nat.add_assoc]

/-- The words may be added up before the carries are brought around. -/
theorem carrySum_eq {words : List Nat} (hones : 0 < ones) (hwords : ∀ w ∈ words, w ≤ ones) :
    carrySum ones words = reduce ones words.sum := by
  rw [carrySum, foldl_carryAdd hones (Nat.zero_le _) hwords, Nat.zero_add]

-- ---------------------------------------------------------------------------
-- Sums of words
-- ---------------------------------------------------------------------------

/-- The sum of the two-digit words of a list of digits; a last digit alone is the
high one. -/
def wordSum (base : Nat) : List Nat → Nat
  | [] => 0
  | [high] => high * base
  | high :: low :: digits => high * base + low + wordSum base digits

/-- The words themselves. -/
def toWords (base : Nat) : List Nat → List Nat
  | [] => []
  | [high] => [high * base]
  | high :: low :: digits => (high * base + low) :: toWords base digits

variable {base : Nat} {xs ys : List Nat}

theorem sum_toWords (xs : List Nat) : (toWords base xs).sum = wordSum base xs := by
  induction xs using toWords.induct with
  | case1 => rfl
  | case2 high => simp [toWords, wordSum]
  | case3 high low digits ih => simp [toWords, wordSum, ih]

theorem toWords_le (hxs : ∀ x ∈ xs, x < base) : ∀ w ∈ toWords base xs, w ≤ base * base - 1 := by
  have hword {high low : Nat} (hhigh : high < base) (hlow : low < base) :
      high * base + low ≤ base * base - 1 := by
    have hmul : (high + 1) * base ≤ base * base := Nat.mul_le_mul_right base hhigh
    rw [Nat.succ_mul] at hmul
    omega
  induction xs using toWords.induct with
  | case1 => exact fun _ hw => absurd hw List.not_mem_nil
  | case2 high =>
    have hhigh := hxs high (List.mem_singleton.mpr rfl)
    refine List.forall_mem_singleton.mpr ?_
    exact hword hhigh (Nat.zero_lt_of_lt hhigh)
  | case3 high low digits ih =>
    obtain ⟨hhigh, hrest⟩ := List.forall_mem_cons.mp hxs
    obtain ⟨hlow, hdigits⟩ := List.forall_mem_cons.mp hrest
    exact List.forall_mem_cons.mpr ⟨hword hhigh hlow, ih hdigits⟩

theorem wordSum_append (h : 2 ∣ xs.length) :
    wordSum base (xs ++ ys) = wordSum base xs + wordSum base ys := by
  induction xs using wordSum.induct with
  | case1 => simp [wordSum]
  | case2 high => exact absurd h (by decide : ¬ 2 ∣ 1)
  | case3 high low digits ih =>
    have hdigits : 2 ∣ digits.length := (Nat.dvd_add_iff_left (Nat.dvd_refl 2)).mpr h
    simp only [List.cons_append, wordSum, ih hdigits, Nat.add_assoc]

end OnesComplement
