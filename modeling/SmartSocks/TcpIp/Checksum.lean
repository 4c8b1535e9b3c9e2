import SmartSocks.Utils.EasyValue

/-!
# `Checksum`

The one's complement sum of a range of an array. Its reads are checked: a
length that comes from a packet may lead past the end of the array.
-/

namespace SmartSocks.TcpIp

open Jvm

namespace Checksum

def getsum (buf : Bytes Byte) (offset len : Nat) (sum : Nat) : Except Throwable Nat :=
  match len with
  | 0 => .ok sum
  | 1 => do
    let last ← buf.get offset
    return sum + last.toNat <<< 8
  | len + 2 => do
    let value ← EasyValue.readShort buf offset
    getsum buf (offset + 2) len (sum + value.toNat)

/-- Adds the carries back in. -/
def fold (check : Nat) : Nat :=
  if 0 < check >>> 16 then fold ((check &&& 0xFFFF) + check >>> 16) else check
termination_by check
decreasing_by
  rename_i h
  have hmask : check &&& 0xFFFF = check % 2 ^ 16 := Nat.and_two_pow_sub_one_eq_mod check 16
  rw [hmask]
  rw [Nat.shiftRight_eq_div_pow] at h ⊢
  omega

def checksum (sum : Nat) (buf : Bytes Byte) (offset len : Nat) : Except Throwable Short := do
  let check ← getsum buf offset len 0
  return ~~~ BitVec.ofNat 16 (fold (sum + check))

theorem getsum_ok {buf : Bytes Byte} {offset len : Nat} (h : offset + len ≤ buf.size) (sum : Nat) :
    ∃ total, getsum buf offset len sum = .ok total := by
  induction offset, len, sum using getsum.induct with
  | case1 offset sum => exact ⟨sum, rfl⟩
  | case2 offset sum =>
    refine ⟨sum + (buf.cell offset).toNat <<< 8, ?_⟩
    rw [getsum, Bytes.get, if_pos (by omega)]
    rfl
  | case3 offset sum len ih =>
    have hread : offset + 1 < buf.size := by omega
    rw [getsum, EasyValue.readShort_eq hread]
    exact ih (EasyValue.short buf offset) (by omega)

/-- A range that leaves the array throws when the sum gets there. -/
theorem getsum_error {buf : Bytes Byte} {offset len : Nat} (hlen : 0 < len)
    (h : buf.size < offset + len) (sum : Nat) :
    getsum buf offset len sum = .error .arrayIndexOutOfBounds := by
  induction offset, len, sum using getsum.induct with
  | case1 offset sum => cases hlen
  | case2 offset sum =>
    rw [getsum, Bytes.get, if_neg (by omega)]
    rfl
  | case3 offset sum len ih =>
    by_cases hread : offset + 1 < buf.size
    · rw [getsum, EasyValue.readShort_eq hread]
      exact ih (EasyValue.short buf offset) (by omega) (by omega)
    · have hlow : buf.get ((offset : Int) + 1) = .error .arrayIndexOutOfBounds := if_neg (by omega)
      rw [getsum, EasyValue.readShort, hlow]
      cases hhigh : buf.get offset with
      | ok b => rfl
      | error e =>
        unfold Bytes.get at hhigh
        split at hhigh <;> cases hhigh
        rfl

theorem checksum_ok {buf : Bytes Byte} {offset len : Nat} (h : offset + len ≤ buf.size) (sum : Nat) :
    ∃ crc, checksum sum buf offset len = .ok crc := by
  obtain ⟨total, htotal⟩ := getsum_ok h 0
  exact ⟨_, by rw [checksum, htotal]; rfl⟩

theorem checksum_error {buf : Bytes Byte} {offset len : Nat} (hlen : 0 < len)
    (h : buf.size < offset + len) (sum : Nat) :
    checksum sum buf offset len = .error .arrayIndexOutOfBounds := by
  rw [checksum, getsum_error hlen h]
  rfl

end Checksum

end SmartSocks.TcpIp
