import Mathlib.Algebra.Group.Nat.Defs
import Mathlib.Data.List.Basic

/-!
# Numbers in memory, the lowest byte first

The number of some bytes and the bytes of a number (`toNat`, `ofNat`), the loop that
adds a small number with a carry (`carry`), and words of 32 bits (`word`, `bytes`).
-/

namespace LittleEndian

def toNat : List (BitVec 8) → Nat
  | [] => 0
  | b :: bs => b.toNat + 256 * toNat bs

theorem toNat_replicate (count : Nat) : toNat (List.replicate count 0) = 0 := by
  induction count with
  | zero => rfl
  | succ count ih =>
    rw [List.replicate_succ, toNat, ih]
    rfl

/-- What does not fit a byte is added to the next one. -/
def carry : Nat → List (BitVec 8) → List (BitVec 8)
  | _, [] => []
  | c, b :: bs => BitVec.ofNat 8 (c + b.toNat) :: carry ((c + b.toNat) / 256) bs

theorem length_carry (c : Nat) (n : List (BitVec 8)) : (carry c n).length = n.length := by
  induction n generalizing c with
  | nil => rfl
  | cons b bs ih => rw [carry, List.length_cons, List.length_cons, ih]

theorem toNat_carry (c : Nat) (n : List (BitVec 8)) : toNat (carry c n) = (c + toNat n) % 256 ^ n.length := by
  induction n generalizing c with
  | nil => simp [carry, toNat, Nat.mod_one]
  | cons b bs ih =>
    rw [carry, toNat, toNat, ih, List.length_cons, Nat.pow_succ, Nat.mul_comm (256 ^ bs.length), Nat.mod_mul,
      BitVec.toNat_ofNat]
    have hlow : (c + (b.toNat + 256 * toNat bs)) % 256 = (c + b.toNat) % 256 := by omega
    have hhigh : (c + (b.toNat + 256 * toNat bs)) / 256 = (c + b.toNat) / 256 + toNat bs := by omega
    rw [hlow, hhigh]

/-- The lowest bytes of a number. -/
def ofNat : Nat → Nat → List (BitVec 8)
  | 0, _ => []
  | count + 1, n => BitVec.ofNat 8 n :: ofNat count (n / 256)

theorem carry_ofNat (count c n : Nat) : carry c (ofNat count n) = ofNat count (n + c) := by
  induction count generalizing c n with
  | zero => rfl
  | succ count ih =>
    have hbyte : (BitVec.ofNat 8 n).toNat = n % 256 := BitVec.toNat_ofNat n 8
    have hlow : BitVec.ofNat 8 (c + n % 256) = BitVec.ofNat 8 (n + c) := by
      rw [← BitVec.toNat_inj, BitVec.toNat_ofNat, BitVec.toNat_ofNat]
      omega
    have hhigh : n / 256 + (c + n % 256) / 256 = (n + c) / 256 := by omega
    rw [ofNat, ofNat, carry, ih, hbyte, hlow, hhigh]

/-- Four bytes as a word. -/
def word : List (BitVec 8) → BitVec 32
  | [a, b, c, d] => d ++ c ++ b ++ a
  | _ => 0

def bytes (w : BitVec 32) : List (BitVec 8) :=
  [w.extractLsb' 0 8, w.extractLsb' 8 8, w.extractLsb' 16 8, w.extractLsb' 24 8]

/-- A word that is XORed into bytes. -/
theorem bytes_xor_word (w : BitVec 32) (a b c d : BitVec 8) :
    bytes (w ^^^ word [a, b, c, d]) = List.zipWith (· ^^^ ·) [a, b, c, d] (bytes w) := by
  have hbyte (x : BitVec 8) (k : Nat) (hx : (word [a, b, c, d]).extractLsb' k 8 = x) :
      (w ^^^ word [a, b, c, d]).extractLsb' k 8 = x ^^^ w.extractLsb' k 8 := by
    rw [BitVec.extractLsb'_xor, hx, BitVec.xor_comm]
  simp only [bytes, List.zipWith_cons_cons, List.zipWith_nil_left]
  rw [hbyte a 0, hbyte b 8, hbyte c 16, hbyte d 24]
  all_goals
    simp only [word]
    ext i hi
    simp only [BitVec.getElem_extractLsb', BitVec.getLsbD_append]
    grind

end LittleEndian
