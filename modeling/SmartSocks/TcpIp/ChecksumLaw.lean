import SmartSocks.TcpIp.ValidPackets

/-!
# The checksum in 64 bits

`getsum` and `checksum` as they compute, in `Long`: a short is extended with its
sign and masked, and the carries come down by an arithmetic shift. An array is
too short for the sum to overflow, so this is the sum of the other modules, and
the checksum obeys the law of the Internet checksum.
-/

namespace SmartSocks.TcpIp

open Jvm EasyValue OnesComplement

abbrev Long := BitVec 64

namespace LongChecksum

/-- The loop of `getsum`, and the last odd byte behind it. -/
def addShorts (buf : Bytes Byte) (offset len : Nat) (sum : Long) : Except Throwable Long :=
  match len with
  | 0 => .ok sum
  | 1 => do
    let last ← buf.get offset
    return sum + (last.signExtend 64 &&& 0xFF) <<< 8
  | len + 2 => do
    let value ← readShort buf offset
    addShorts buf (offset + 2) len (sum + (value.signExtend 64 &&& 0xFFFF))

def getsum (buf : Bytes Byte) (offset len : Nat) : Except Throwable Long := addShorts buf offset len 0

/-- `check shr 16 > 0` says that there is a carry. -/
theorem carry_step {check : Long} (h : 0 < (check.sshiftRight 16).toInt) :
    check.toNat < 2 ^ 63 ∧ 2 ^ 16 ≤ check.toNat ∧
      ((check &&& 0xFFFF) + check.sshiftRight 16).toNat = check.toNat % 2 ^ 16 + check.toNat / 2 ^ 16 := by
  rw [BitVec.toInt_sshiftRight, Int.shiftRight_eq_div_pow] at h
  have hnonneg : 0 ≤ check.toInt := by omega
  have hlt : check.toNat < 2 ^ 63 := by
    have hdouble := BitVec.toInt_pos_iff.mp hnonneg
    omega
  have hint : check.toInt = check.toNat := BitVec.toInt_eq_toNat_of_lt (by omega)
  have hmsb : check.msb = false := BitVec.msb_eq_false_iff_two_mul_lt.mpr (by omega)
  have hmask : (check &&& 0xFFFF).toNat = check.toNat % 2 ^ 16 := by
    rw [BitVec.toNat_and]
    exact Nat.and_two_pow_sub_one_eq_mod check.toNat 16
  have hshift : (check.sshiftRight 16).toNat = check.toNat / 2 ^ 16 := by
    rw [BitVec.sshiftRight_eq_of_msb_false hmsb, BitVec.toNat_ushiftRight, Nat.shiftRight_eq_div_pow]
  refine ⟨hlt, by omega, ?_⟩
  rw [BitVec.toNat_add, hmask, hshift, Nat.mod_eq_of_lt (by omega)]

/-- The loop of `checksum`. -/
def fold (check : Long) : Long :=
  if 0 < (check.sshiftRight 16).toInt then fold ((check &&& 0xFFFF) + check.sshiftRight 16) else check
termination_by check.toNat
decreasing_by
  rename_i h
  obtain ⟨-, hcarry, hnext⟩ := carry_step h
  rw [hnext]
  omega

def checksum (sum : Long) (buf : Bytes Byte) (offset len : Nat) : Except Throwable Short := do
  let check ← getsum buf offset len
  return (~~~ fold (sum + check)).setWidth 16

-- ---------------------------------------------------------------------------
-- The sum
-- ---------------------------------------------------------------------------

section
variable {buf : Bytes Byte} {offset len : Nat}

/-- Masking takes the sign away. -/
theorem signExtend_mask {w n : Nat} (hn : n = 2 ^ w - 1) (value : BitVec w) :
    value.signExtend 64 &&& BitVec.ofNat 64 n = BitVec.ofNat 64 value.toNat := by
  subst hn
  ext i hi
  rw [BitVec.getElem_and, BitVec.getElem_signExtend, ← BitVec.getLsbD_eq_getElem (x := BitVec.ofNat 64 (2 ^ w - 1)),
    BitVec.getLsbD_ofNat, ← BitVec.getLsbD_eq_getElem (x := BitVec.ofNat 64 value.toNat), BitVec.getLsbD_ofNat,
    Nat.testBit_two_pow_sub_one, BitVec.testBit_toNat]
  by_cases hlow : i < w
  · simp [hlow, hi]
  · simp [hlow, hi, BitVec.getLsbD_of_ge value i (by omega)]

theorem addShorts_eq (h : offset + len ≤ buf.size) (sum : Long) :
    addShorts buf offset len sum = .ok (sum + BitVec.ofNat 64 (shortSum (buf.slice offset len))) := by
  induction offset, len, sum using addShorts.induct with
  | case1 offset sum => exact congrArg Except.ok (BitVec.add_zero sum).symm
  | case2 offset sum =>
    have hbyte : (buf.cell offset).signExtend 64 &&& (0xFF : Long) = BitVec.ofNat 64 (buf.cell offset).toNat :=
      signExtend_mask (n := 0xFF) (by decide) (buf.cell offset)
    have hlast : BitVec.ofNat 64 (buf.cell offset).toNat <<< 8 =
        BitVec.ofNat 64 (shortSum (buf.slice offset 1)) := by
      have htwo : BitVec.twoPow 64 8 = BitVec.ofNat 64 256 := rfl
      rw [BitVec.shiftLeft_eq_mul_twoPow, htwo, ← BitVec.ofNat_mul]
      rfl
    rw [addShorts, Bytes.get, if_pos (by omega), ok_bind, Int.toNat_natCast, hbyte, hlast]
    rfl
  | case3 offset sum len ih =>
    have hshort : (short buf offset).signExtend 64 &&& (0xFFFF : Long) =
        BitVec.ofNat 64 (short buf offset).toNat :=
      signExtend_mask (n := 0xFFFF) (by decide) (short buf offset)
    have hslice : buf.slice offset (len + 2) =
        [buf.cell offset, buf.cell (offset + 1)] ++ buf.slice (offset + 2) len := by
      rw [Nat.add_comm len 2, Bytes.slice_add]
      rfl
    have hfirst : shortSum [buf.cell offset, buf.cell (offset + 1)] = (short buf offset).toNat := by
      simp [shortSum, wordSum, toNat_short]
    rw [addShorts, readShort_eq (by omega), ok_bind, ih (short buf offset) (by omega), hshort, hslice,
      shortSum_append (by simp), hfirst, BitVec.ofNat_add, BitVec.add_assoc]

theorem getsum_eq (h : offset + len ≤ buf.size) :
    getsum buf offset len = .ok (BitVec.ofNat 64 (shortSum (buf.slice offset len))) := by
  rw [getsum, addShorts_eq h]
  exact congrArg Except.ok (BitVec.zero_add _)

theorem shortSum_le (xs : List Byte) : shortSum xs ≤ 0xFFFF * xs.length := by
  unfold shortSum
  have hlength : (xs.map BitVec.toNat).length = xs.length := List.length_map _
  rw [← hlength]
  have hbyte : ∀ x ∈ xs.map BitVec.toNat, x < 256 := List.forall_mem_map.mpr fun x _ => x.isLt
  generalize xs.map BitVec.toNat = digits at hbyte ⊢
  induction digits using wordSum.induct with
  | case1 => exact Nat.le_refl 0
  | case2 high =>
    have hhigh := hbyte high (List.mem_singleton.mpr rfl)
    simp only [wordSum, List.length_singleton]
    omega
  | case3 high low digits ih =>
    obtain ⟨hhigh, hrest⟩ := List.forall_mem_cons.mp hbyte
    obtain ⟨hlow, hdigits⟩ := List.forall_mem_cons.mp hrest
    have hsum := ih hdigits
    simp only [wordSum, List.length_cons]
    omega

/-- The sum of a range of an array does not overflow. -/
theorem toNat_getsum (hsize : buf.size < 2 ^ 31) (h : offset + len ≤ buf.size) :
    (BitVec.ofNat 64 (shortSum (buf.slice offset len))).toNat = shortSum (buf.slice offset len) ∧
      shortSum (buf.slice offset len) < 2 ^ 47 := by
  have hsum := shortSum_le (buf.slice offset len)
  rw [Bytes.length_slice] at hsum
  exact ⟨Nat.mod_eq_of_lt (by omega), by omega⟩

end

-- ---------------------------------------------------------------------------
-- The carries
-- ---------------------------------------------------------------------------

theorem toNat_fold {check : Long} (h : check.toNat < 2 ^ 63) :
    (fold check).toNat = Checksum.fold check.toNat := by
  induction check using fold.induct with
  | case1 check hcarry ih =>
    obtain ⟨-, hlow, hnext⟩ := carry_step hcarry
    have hmask : check.toNat &&& 0xFFFF = check.toNat % 2 ^ 16 :=
      Nat.and_two_pow_sub_one_eq_mod check.toNat 16
    have hshift : check.toNat >>> 16 = check.toNat / 2 ^ 16 := Nat.shiftRight_eq_div_pow _ _
    rw [fold, if_pos hcarry, ih (by omega), hnext, Checksum.fold.eq_def check.toNat, hmask, hshift,
      if_pos (by omega)]
  | case2 check hcarry =>
    have hint : check.toInt = check.toNat := BitVec.toInt_eq_toNat_of_lt (by omega)
    rw [BitVec.toInt_sshiftRight, hint, Int.shiftRight_eq_div_pow] at hcarry
    rw [fold, if_neg (by rwa [BitVec.toInt_sshiftRight, hint, Int.shiftRight_eq_div_pow]), Checksum.fold.eq_def,
      Nat.shiftRight_eq_div_pow, if_neg (by omega)]

section
variable {buf : Bytes Byte} {offset len : Nat} {sum : Long}

/-- A starting sum between 0 and 2^32. -/
def IsStart (sum : Long) : Prop := 0 ≤ sum.toInt ∧ sum.toInt ≤ 2 ^ 32

theorem IsStart.toNat_le (h : IsStart sum) : sum.toNat ≤ 2 ^ 32 := by
  have hdouble := BitVec.toInt_pos_iff.mp h.1
  have hint : sum.toInt = sum.toNat := BitVec.toInt_eq_toNat_of_lt hdouble
  have hle := h.2
  omega

theorem toNat_start_add (hsum : IsStart sum) {n : Nat} (hn : n < 2 ^ 47) :
    (sum + BitVec.ofNat 64 n).toNat = sum.toNat + n := by
  have hle := hsum.toNat_le
  rw [BitVec.toNat_add, BitVec.toNat_ofNat]
  omega

theorem fold_start_add (hsum : IsStart sum) {n : Nat} (hn : n < 2 ^ 47) :
    (fold (sum + BitVec.ofNat 64 n)).toNat = reduce 0xFFFF (sum.toNat + n) := by
  have hle := hsum.toNat_le
  have hadd := toNat_start_add hsum hn
  rw [toNat_fold (by omega), hadd, fold_eq]

/-- The checksum in `Long` is that of the other modules. -/
theorem checksum_eq (hsum : IsStart sum) (hsize : buf.size < 2 ^ 31) (h : offset + len ≤ buf.size) :
    checksum sum buf offset len = Checksum.checksum sum.toNat buf offset len := by
  obtain ⟨-, hlt⟩ := toNat_getsum hsize h
  rw [checksum, getsum_eq h, Checksum.checksum, TcpIp.getsum_eq h, ok_bind, ok_bind, Nat.zero_add]
  refine congrArg Except.ok ?_
  have hfold := fold_start_add hsum hlt
  rw [fold_eq, ← hfold]
  generalize fold (sum + BitVec.ofNat 64 (shortSum (buf.slice offset len))) = check
  rw [BitVec.setWidth_not (by decide), BitVec.ofNat_toNat]

end

-- ---------------------------------------------------------------------------
-- The law
-- ---------------------------------------------------------------------------

/-- The big-endian words of a range, the last one padded on the right. -/
def rangeWords (buf : Bytes Byte) (offset len : Nat) : List Nat :=
  toWords 256 ((buf.slice offset len).map BitVec.toNat)

/-- The words of a starting sum. -/
def startWords (n : Nat) : List Nat := [n / 2 ^ 32, n / 2 ^ 16 % 2 ^ 16, n % 2 ^ 16]

theorem carrySum_start {n : Nat} (hn : n ≤ 2 ^ 32) {words : List Nat} (hwords : ∀ w ∈ words, w ≤ 0xFFFF) :
    carrySum 0xFFFF (startWords n ++ words) = reduce 0xFFFF (n + words.sum) := by
  have hstart : ∀ w ∈ startWords n, w ≤ 0xFFFF := by
    simp only [startWords, List.forall_mem_cons]
    exact ⟨by omega, by omega, by omega, fun _ hw => absurd hw List.not_mem_nil⟩
  have hsplit : n + words.sum =
      n % 2 ^ 16 + words.sum + (n / 2 ^ 16 % 2 ^ 16 + n / 2 ^ 32 * (0xFFFF + 1)) * (0xFFFF + 1) := by
    omega
  have hone := @reduce_carry 0xFFFF (n % 2 ^ 16 + words.sum) (n / 2 ^ 16 % 2 ^ 16 + n / 2 ^ 32 * (0xFFFF + 1))
  have htwo := @reduce_carry 0xFFFF (n % 2 ^ 16 + words.sum + n / 2 ^ 16 % 2 ^ 16) (n / 2 ^ 32)
  rw [carrySum_eq (by decide) (List.forall_mem_append.mpr ⟨hstart, hwords⟩), hsplit, ← hone, ← Nat.add_assoc,
    ← htwo]
  refine congrArg _ ?_
  simp only [startWords, List.sum_append, List.sum_cons, List.sum_nil]
  omega

section
variable {buf : Bytes Byte} {offset len : Nat} {sum : Long}

theorem checksum_carrySum (hsum : IsStart sum) (hsize : buf.size < 2 ^ 31) (h : offset + len ≤ buf.size) :
    checksum sum buf offset len =
      .ok (~~~ BitVec.ofNat 16 (carrySum 0xFFFF (startWords sum.toNat ++ rangeWords buf offset len))) := by
  have hdigits : ∀ x ∈ (buf.slice offset len).map BitVec.toNat, x < 256 :=
    List.forall_mem_map.mpr fun x _ => x.isLt
  have hwords : ∀ w ∈ rangeWords buf offset len, w ≤ 0xFFFF := toWords_le hdigits
  rw [checksum_eq hsum hsize h, Checksum.checksum, TcpIp.getsum_eq h, ok_bind, fold_eq,
    carrySum_start hsum.toNat_le hwords, rangeWords, sum_toWords, Nat.zero_add]
  rfl

/-- A range that is split at an even distance. -/
theorem getsum_split {k rest : Nat} (heven : 2 ∣ k) (h : offset + (k + rest) ≤ buf.size) :
    ∃ first second, getsum buf offset k = .ok first ∧ getsum buf (offset + k) rest = .ok second ∧
      getsum buf offset (k + rest) = .ok (first + second) := by
  refine ⟨_, _, getsum_eq (by omega), getsum_eq (by omega), ?_⟩
  rw [getsum_eq h, Bytes.slice_add, shortSum_append (by rwa [Bytes.length_slice]), BitVec.ofNat_add]

/-- A field that was zero completes the sum to all ones. -/
theorem getsum_completed {k : Nat} {crc : Short} (hsum : IsStart sum) (hsize : buf.size < 2 ^ 31)
    (h : offset + len ≤ buf.size) (heven : 2 ∣ k) (hfield : k + 2 ≤ len) (hzero : short buf (offset + k) = 0)
    (hcrc : checksum sum buf offset len = .ok crc) :
    ∃ total, getsum (writeShort buf (offset + k) crc) offset len = .ok total ∧ fold (sum + total) = 0xFFFF := by
  have hsame : buf.write (offset + k) (shortBytes 0) = buf := by
    rw [← hzero, ← slice_short]
    exact buf.write_slice _ _
  obtain ⟨crc', hcrc', hones⟩ := checksum_completes buf offset heven hfield h sum.toNat
  rw [hsame, ← checksum_eq hsum hsize h, hcrc] at hcrc'
  cases hcrc'
  have hwrite : offset + len ≤ (writeShort buf (offset + k) crc).size := h
  have hwriteSize : (writeShort buf (offset + k) crc).size < 2 ^ 31 := hsize
  refine ⟨_, getsum_eq hwrite, BitVec.eq_of_toNat_eq ?_⟩
  rw [fold_start_add hsum (toNat_getsum hwriteSize hwrite).2]
  exact hones

/-- The law of the Internet checksum. -/
theorem checksum_law (hsum : IsStart sum) (hsize : buf.size < 2 ^ 31) (h : offset + len ≤ buf.size) :
    checksum sum buf offset len =
        .ok (~~~ BitVec.ofNat 16 (carrySum 0xFFFF (startWords sum.toNat ++ rangeWords buf offset len))) ∧
      (∀ k rest, 2 ∣ k → k + rest = len → ∃ first second, getsum buf offset k = .ok first ∧
        getsum buf (offset + k) rest = .ok second ∧ getsum buf offset len = .ok (first + second)) ∧
      ∀ k crc, 2 ∣ k → k + 2 ≤ len → short buf (offset + k) = 0 → checksum sum buf offset len = .ok crc →
        ∃ total, getsum (writeShort buf (offset + k) crc) offset len = .ok total ∧
          fold (sum + total) = 0xFFFF := by
  refine ⟨checksum_carrySum hsum hsize h, ?_, ?_⟩
  · rintro k rest heven rfl
    exact getsum_split heven h
  · exact fun k crc heven hfield hzero hcrc => getsum_completed hsum hsize h heven hfield hzero hcrc

end

/-- Five bytes around a field. -/
def sampleRange : Bytes Byte := .ofList 0 [0xFF, 0xFF, 0, 0, 0x12]

theorem sampleRange_law : checksum 3 sampleRange 0 5 = .ok 0xEDFC ∧
    ∃ total, getsum (writeShort sampleRange 2 0xEDFC) 0 5 = .ok total ∧ fold (3 + total) = 0xFFFF := by
  have hstart : IsStart 3 := ⟨by decide, by decide⟩
  obtain ⟨hsum, -, hfield⟩ := @checksum_law sampleRange 0 5 3 hstart (by decide) (by decide)
  have hresult : checksum 3 sampleRange 0 5 = .ok 0xEDFC := by
    rw [hsum]
    decide
  exact ⟨hresult, hfield 2 0xEDFC (by decide) (by decide) (by decide) hresult⟩

end LongChecksum

end SmartSocks.TcpIp
