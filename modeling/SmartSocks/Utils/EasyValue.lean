import Mathlib.Algebra.Group.Nat.Defs
import SmartSocks.Jvm.ByteBuffer

/-!
# `EasyValue`: big-endian values in a byte array

The JVM integers are bit vectors: `toInt` is the signed reading and `toNat` the
reading after `and 0xFF` or `and 0xFFFF`. The readers are checked, as an array
access is; `short` and `int` are their values where the access is in range.
-/

namespace SmartSocks

open Jvm

abbrev Byte := BitVec 8
abbrev Short := BitVec 16
abbrev Word := BitVec 32

namespace EasyValue

/-- The short at `offset`, high byte first. -/
def short (data : Bytes Byte) (offset : Nat) : Short :=
  ((data.cell offset).setWidth 32 <<< 8 ||| (data.cell (offset + 1)).setWidth 32 : Word).setWidth 16

/-- The int at `offset`, high byte first. -/
def int (data : Bytes Byte) (offset : Nat) : Word :=
  (data.cell offset).setWidth 32 <<< 24 ||| (data.cell (offset + 1)).setWidth 32 <<< 16 |||
    (data.cell (offset + 2)).setWidth 32 <<< 8 ||| (data.cell (offset + 3)).setWidth 32

/-- `readShort`, with the two array accesses it makes. -/
def readShort (data : Bytes Byte) (offset : Int) : Except Throwable Short := do
  let hi ← data.get offset
  let lo ← data.get (offset + 1)
  return (hi.setWidth 32 <<< 8 ||| lo.setWidth 32 : Word).setWidth 16

def shortBytes (value : Short) : List Byte := [(value >>> 8).setWidth 8, value.setWidth 8]

def intBytes (value : Word) : List Byte :=
  [(value >>> 24).setWidth 8, (value >>> 16).setWidth 8, (value >>> 8).setWidth 8, value.setWidth 8]

def writeShort (data : Bytes Byte) (offset : Nat) (value : Short) : Bytes Byte :=
  data.write offset (shortBytes value)

-- ---------------------------------------------------------------------------
-- Reading after writing
-- ---------------------------------------------------------------------------

variable {data : Bytes Byte} {offset at' : Nat} {xs : List Byte}

theorem cell_write_outside (h : at' < offset ∨ offset + xs.length ≤ at') :
    (data.write offset xs).cell at' = data.cell at' := by
  rcases h with h | h
  · exact data.write_cell_of_lt xs h
  · exact data.write_cell_of_ge xs h

theorem short_write_outside (h : at' + 2 ≤ offset ∨ offset + xs.length ≤ at') :
    short (data.write offset xs) at' = short data at' := by
  unfold short
  rw [cell_write_outside (by omega), cell_write_outside (by omega)]

theorem int_write_outside (h : at' + 4 ≤ offset ∨ offset + xs.length ≤ at') :
    int (data.write offset xs) at' = int data at' := by
  unfold int
  rw [cell_write_outside (by omega), cell_write_outside (by omega), cell_write_outside (by omega),
    cell_write_outside (by omega)]

@[simp] theorem length_shortBytes (value : Short) : (shortBytes value).length = 2 := rfl

@[simp] theorem length_intBytes (value : Word) : (intBytes value).length = 4 := rfl

theorem short_write_shortBytes (value : Short) :
    short (data.write offset (shortBytes value)) offset = value := by
  have h0 : (data.write offset (shortBytes value)).cell (offset + 0) = _ :=
    data.write_cell_add (by simp)
  have h1 : (data.write offset (shortBytes value)).cell (offset + 1) = _ :=
    data.write_cell_add (by simp)
  rw [Nat.add_zero] at h0
  unfold short
  rw [h0, h1]
  ext i hi
  simp [shortBytes]
  grind

/-- The four bytes of an int, put together again, bit by bit. -/
theorem int_of_bytes (value : Word) :
    ((value >>> 24).setWidth 8).setWidth 32 <<< 24 ||| ((value >>> 16).setWidth 8).setWidth 32 <<< 16 |||
      ((value >>> 8).setWidth 8).setWidth 32 <<< 8 ||| (value.setWidth 8).setWidth 32 = value := by
  refine BitVec.eq_of_getLsbD_eq fun i hi => ?_
  simp only [BitVec.getLsbD_or, BitVec.getLsbD_shiftLeft, BitVec.getLsbD_setWidth,
    BitVec.getLsbD_ushiftRight]
  have hband : i < 8 ∨ 8 ≤ i ∧ i < 16 ∨ 16 ≤ i ∧ i < 24 ∨ 24 ≤ i ∧ i < 32 := by omega
  rcases hband with h | h | h | h
  · have h' : i < 16 ∧ i < 24 ∧ i < 32 := by omega
    simp [h, h']
  · have h' : ¬ i < 8 ∧ i < 24 ∧ i < 32 ∧ i - 8 < 32 ∧ i - 8 < 8 ∧ 8 + (i - 8) = i := by omega
    simp [h, h']
  · have h' : ¬ i < 8 ∧ i < 32 ∧ ¬ i - 8 < 8 ∧ i - 16 < 32 ∧ i - 16 < 8 ∧ 16 + (i - 16) = i := by
      omega
    simp [h, h']
  · have h' : ¬ i < 8 ∧ ¬ i < 16 ∧ ¬ i - 8 < 8 ∧ ¬ i - 16 < 8 ∧ i - 24 < 8 ∧ i - 24 < 32 ∧
        24 + (i - 24) = i := by omega
    simp [h, h']

theorem int_write_intBytes (value : Word) :
    int (data.write offset (intBytes value)) offset = value := by
  have h (k : Nat) (hk : k < 4) : (data.write offset (intBytes value)).cell (offset + k) = _ :=
    data.write_cell_add hk
  have h0 := h 0 (by decide)
  rw [Nat.add_zero] at h0
  unfold int
  rw [h0, h 1 (by decide), h 2 (by decide), h 3 (by decide)]
  exact int_of_bytes value

theorem short_eq_append (data : Bytes Byte) (offset : Nat) :
    short data offset = data.cell offset ++ data.cell (offset + 1) := by
  unfold short
  generalize data.cell offset = high
  generalize data.cell (offset + 1) = low
  ext i hi
  simp
  grind

theorem shortBytes_short (data : Bytes Byte) (offset : Nat) :
    shortBytes (short data offset) = [data.cell offset, data.cell (offset + 1)] := by
  rw [short_eq_append, shortBytes]
  generalize data.cell offset = high
  generalize data.cell (offset + 1) = low
  have hhigh : ((high ++ low) >>> 8).setWidth 8 = high := by
    ext i hi
    simp
    grind
  have hlow : (high ++ low).setWidth 8 = low := by
    ext i hi
    simp
    grind
  rw [hhigh, hlow]

theorem int_eq_append (data : Bytes Byte) (offset : Nat) :
    int data offset = short data offset ++ short data (offset + 2) := by
  rw [short_eq_append, short_eq_append, int]
  generalize data.cell offset = a
  generalize data.cell (offset + 1) = b
  generalize data.cell (offset + 2) = c
  generalize data.cell (offset + 2 + 1) = d
  ext i hi
  simp
  grind

theorem intBytes_append (high low : Short) :
    intBytes (high ++ low) = shortBytes high ++ shortBytes low := by
  simp only [intBytes, shortBytes, List.cons_append, List.nil_append, List.cons.injEq, and_true]
  refine ⟨?_, ?_, ?_, ?_⟩ <;>
  · ext i hi
    simp
    grind

theorem toInt_ofNat_short {n : Nat} (h : n < 2 ^ 15) : (BitVec.ofNat 16 n : Short).toInt = n := by
  have hnat : (BitVec.ofNat 16 n : Short).toNat = n := by
    rw [BitVec.toNat_ofNat]
    omega
  rw [BitVec.toInt_eq_toNat_of_lt (by omega), hnat]

theorem shortBytes_inj {x y : Short} : shortBytes x = shortBytes y ↔ x = y := by
  refine ⟨fun h => ?_, congrArg shortBytes⟩
  have hx : short ((⟨0, fun _ => 0⟩ : Bytes Byte).write 0 (shortBytes x)) 0 = x := short_write_shortBytes x
  rw [← hx, h, short_write_shortBytes]

theorem intBytes_inj {x y : Word} : intBytes x = intBytes y ↔ x = y := by
  refine ⟨fun h => ?_, congrArg intBytes⟩
  have hx : int ((⟨0, fun _ => 0⟩ : Bytes Byte).write 0 (intBytes x)) 0 = x := int_write_intBytes x
  rw [← hx, h, int_write_intBytes]

theorem slice_short (data : Bytes Byte) (offset : Nat) :
    data.slice offset 2 = shortBytes (short data offset) := (shortBytes_short data offset).symm

theorem slice_int (data : Bytes Byte) (offset : Nat) :
    data.slice offset 4 = intBytes (int data offset) := by
  rw [int_eq_append, intBytes_append, ← slice_short, ← slice_short]
  exact data.slice_add offset 2 2

theorem readShort_eq (h : offset + 1 < data.size) :
    readShort data offset = .ok (short data offset) := by
  have hnext : (offset : Int) + 1 = (offset + 1 : Nat) := rfl
  rw [readShort, hnext, Bytes.get, Bytes.get, if_pos (by omega), if_pos (by omega)]
  rfl

end EasyValue

namespace Jvm.ByteBuffer

/-- `buffer.short` -/
def getShort (b : ByteBuffer Byte) : Except Throwable (Short × ByteBuffer Byte) :=
  if 2 ≤ b.remaining then .ok (EasyValue.short b.array b.index, b.advance 2)
  else .error .bufferUnderflow

/-- `buffer.int` -/
def getInt (b : ByteBuffer Byte) : Except Throwable (Word × ByteBuffer Byte) :=
  if 4 ≤ b.remaining then .ok (EasyValue.int b.array b.index, b.advance 4)
  else .error .bufferUnderflow

end Jvm.ByteBuffer

end SmartSocks
