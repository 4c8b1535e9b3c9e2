import Mathlib.Data.List.Basic
import Mathlib.Data.List.TakeDrop
import SmartSocks.Jvm.Throwable

/-!
# Byte arrays and `java.nio.ByteBuffer`

The letter type is a parameter: the relay never looks at the bytes it moves.
A buffer carries the bounds of its four indices, so a relative `get` or `put`
that passes its own check is inside the array. The two windows of a buffer are
the bytes already `drained` (before the position) and the bytes `left` (from
the position to the limit); each operation is stated by what it does to them.
-/

namespace SmartSocks.Jvm

/-- `byte[]`: `size` cells. Cells from `size` on are never read. -/
structure Bytes (β : Type) where
  size : Nat
  cell : Nat → β

namespace Bytes

variable {β γ : Type}

def get (a : Bytes β) (i : Int) : Except Throwable β :=
  if 0 ≤ i ∧ i < a.size then .ok (a.cell i.toNat) else .error .arrayIndexOutOfBounds

/-- `len` cells from `start`. -/
def slice (a : Bytes β) (start len : Nat) : List β :=
  (List.range len).map fun k => a.cell (start + k)

/-- Overwrites the cells from `start` with `xs`. -/
def write (a : Bytes β) (start : Nat) (xs : List β) : Bytes β where
  size := a.size
  cell i := if start ≤ i then (xs[i - start]?).getD (a.cell i) else a.cell i

def ofList (zero : β) (xs : List β) : Bytes β where
  size := xs.length
  cell i := xs.getD i zero

variable (a : Bytes β)

@[simp] theorem write_size (start : Nat) (xs : List β) : (a.write start xs).size = a.size := rfl

theorem write_nil (start : Nat) : a.write start [] = a := by
  simp [write]

@[simp] theorem length_slice (start len : Nat) : (a.slice start len).length = len := by
  simp [slice]

@[simp] theorem slice_zero (start : Nat) : a.slice start 0 = [] := rfl

theorem getElem_slice {start len k : Nat} (h : k < (a.slice start len).length) :
    (a.slice start len)[k] = a.cell (start + k) := by
  simp [slice]

theorem slice_add (start m n : Nat) :
    a.slice start (m + n) = a.slice start m ++ a.slice (start + m) n := by
  simp [slice, List.range_add, Nat.add_assoc]

theorem take_slice (start : Nat) {k len : Nat} (h : k ≤ len) :
    (a.slice start len).take k = a.slice start k := by
  obtain ⟨r, rfl⟩ := Nat.exists_eq_add_of_le h
  rw [slice_add, List.take_left' (a.length_slice start k)]

theorem drop_slice (start : Nat) {k len : Nat} (h : k ≤ len) :
    (a.slice start len).drop k = a.slice (start + k) (len - k) := by
  obtain ⟨r, rfl⟩ := Nat.exists_eq_add_of_le h
  rw [slice_add, List.drop_left' (a.length_slice start k), Nat.add_sub_cancel_left]

theorem slice_ofList (zero : β) (xs : List β) : (ofList zero xs).slice 0 xs.length = xs := by
  refine List.ext_getElem (length_slice _ _ _) fun k hk hlt => ?_
  rw [getElem_slice, Nat.zero_add]
  simp [ofList, hlt]

theorem slice_congr {b : Bytes β} {start len : Nat}
    (h : ∀ i, start ≤ i → i < start + len → a.cell i = b.cell i) :
    a.slice start len = b.slice start len := by
  refine List.map_congr_left fun k hk => h _ (Nat.le_add_right _ _) ?_
  have := List.mem_range.mp hk
  omega

theorem write_cell_of_lt {start i : Nat} (xs : List β) (h : i < start) :
    (a.write start xs).cell i = a.cell i := by
  simp [write, Nat.not_le.mpr h]

theorem write_cell_of_ge {start i : Nat} (xs : List β) (h : start + xs.length ≤ i) :
    (a.write start xs).cell i = a.cell i := by
  have : xs[i - start]? = none := List.getElem?_eq_none (by omega)
  simp [write, this]

theorem write_cell_add {start k : Nat} {xs : List β} (h : k < xs.length) :
    (a.write start xs).cell (start + k) = xs[k] := by
  simp [write, h]

theorem slice_write_self (start : Nat) (xs : List β) :
    (a.write start xs).slice start xs.length = xs := by
  refine List.ext_getElem (by simp) fun k hk hk' => ?_
  rw [getElem_slice, a.write_cell_add hk']

/-- Writing what is there already. -/
theorem write_slice (start len : Nat) : a.write start (a.slice start len) = a := by
  have hcell (i : Nat) : (a.write start (a.slice start len)).cell i = a.cell i := by
    by_cases hlow : i < start
    · exact a.write_cell_of_lt _ hlow
    by_cases hhigh : start + (a.slice start len).length ≤ i
    · exact a.write_cell_of_ge _ hhigh
    obtain ⟨k, rfl⟩ := Nat.exists_eq_add_of_le (Nat.not_lt.mp hlow)
    rw [a.write_cell_add (by omega), getElem_slice]
  exact congrArg (mk a.size) (funext hcell)

theorem slice_write_below {from' len start : Nat} (xs : List β) (h : from' + len ≤ start) :
    (a.write start xs).slice from' len = a.slice from' len :=
  slice_congr _ fun i _ hi => a.write_cell_of_lt xs (by omega)

/-- Two writes in a row are one write of both. -/
theorem write_write (start : Nat) (xs ys : List β) :
    (a.write start xs).write (start + xs.length) ys = a.write start (xs ++ ys) := by
  simp only [write, mk.injEq, true_and]
  funext i
  grind

/-- A second write of the same length hides the first. -/
theorem write_overwrite (start : Nat) {xs ys : List β} (h : ys.length = xs.length) :
    (a.write start xs).write start ys = a.write start ys := by
  simp only [write, mk.injEq, true_and]
  funext i
  grind

end Bytes

@[ext]
structure ByteBuffer (β : Type) where
  array : Bytes β
  arrayOffset : Nat
  capacity : Nat
  position : Nat
  limit : Nat
  position_le : position ≤ limit
  limit_le : limit ≤ capacity
  capacity_le : arrayOffset + capacity ≤ array.size

namespace ByteBuffer

variable {β : Type}

def remaining (b : ByteBuffer β) : Nat := b.limit - b.position

def hasRemaining (b : ByteBuffer β) : Bool := b.position < b.limit

/-- The bytes from the position to the limit. -/
def left (b : ByteBuffer β) : List β := b.array.slice (b.arrayOffset + b.position) b.remaining

/-- The array index of the next byte. -/
def index (b : ByteBuffer β) : Nat := b.arrayOffset + b.position

/-- The array index of the limit. -/
def stop (b : ByteBuffer β) : Nat := b.arrayOffset + b.limit

/-- The bytes before the position. -/
def drained (b : ByteBuffer β) : List β := b.array.slice b.arrayOffset b.position

def allocate (zero : β) (capacity : Nat) : ByteBuffer β where
  array := ⟨capacity, fun _ => zero⟩
  arrayOffset := 0
  capacity := capacity
  position := 0
  limit := capacity
  position_le := Nat.zero_le _
  limit_le := Nat.le_refl _
  capacity_le := by simp

/-- `ByteBuffer.wrap(array)`. -/
def wrap (array : Bytes β) : ByteBuffer β where
  array := array
  arrayOffset := 0
  capacity := array.size
  position := 0
  limit := array.size
  position_le := Nat.zero_le _
  limit_le := Nat.le_refl _
  capacity_le := by simp

/-- `ByteBuffer.wrap(array, offset, length)`: the third argument is a length,
and the capacity is the whole array. -/
def wrapRange (array : Bytes β) (offset length : Nat) : Except Throwable (ByteBuffer β) :=
  if h : offset + length ≤ array.size then
    .ok { wrap array with
      position := offset
      limit := offset + length
      position_le := Nat.le_add_right _ _
      limit_le := h }
  else .error .indexOutOfBounds

def clear (b : ByteBuffer β) : ByteBuffer β where
  __ := b
  position := 0
  limit := b.capacity
  position_le := Nat.zero_le _
  limit_le := Nat.le_refl _

def flip (b : ByteBuffer β) : ByteBuffer β where
  __ := b
  position := 0
  limit := b.position
  position_le := Nat.zero_le _
  limit_le := Nat.le_trans b.position_le b.limit_le

/-- `limit(newLimit)`: the position is pulled back when it is beyond. -/
def setLimit (b : ByteBuffer β) (newLimit : Int) : Except Throwable (ByteBuffer β) :=
  if h : 0 ≤ newLimit ∧ newLimit ≤ b.capacity then
    .ok { b with
      position := min b.position newLimit.toNat
      limit := newLimit.toNat
      position_le := Nat.min_le_right _ _
      limit_le := by omega }
  else .error .illegalArgument

/-- Moves the position over `k` bytes that have been transferred. -/
def advance (b : ByteBuffer β) (k : Nat) : ByteBuffer β where
  __ := b
  position := min (b.position + k) b.limit
  position_le := Nat.min_le_right _ _

def get (b : ByteBuffer β) : Except Throwable (β × ByteBuffer β) :=
  if b.position < b.limit then
    .ok (b.array.cell (b.arrayOffset + b.position), b.advance 1)
  else .error .bufferUnderflow

/-- `get(dst)` with `dst.length = n`. -/
def getBytes (b : ByteBuffer β) (n : Nat) : Except Throwable (List β × ByteBuffer β) :=
  if n ≤ b.remaining then .ok (b.left.take n, b.advance n) else .error .bufferUnderflow

/-- The cells written by a `put` that fits. -/
def store (b : ByteBuffer β) (xs : List β) : ByteBuffer β where
  __ := b
  array := b.array.write (b.arrayOffset + b.position) xs
  position := min (b.position + xs.length) b.limit
  position_le := Nat.min_le_right _ _
  capacity_le := b.capacity_le

def put (b : ByteBuffer β) (xs : List β) : Except Throwable (ByteBuffer β) :=
  if xs.length ≤ b.remaining then .ok (b.store xs) else .error .bufferOverflow

variable (b : ByteBuffer β)

@[simp] theorem length_left : b.left.length = b.remaining := by simp [left]

@[simp] theorem length_drained : b.drained.length = b.position := by simp [drained]

theorem remaining_le_capacity : b.remaining ≤ b.capacity :=
  Nat.le_trans (Nat.sub_le _ _) b.limit_le

theorem hasRemaining_iff : b.hasRemaining = true ↔ 0 < b.remaining := by
  rw [hasRemaining, remaining, decide_eq_true_iff]
  exact Nat.sub_pos_iff_lt.symm

@[simp] theorem allocate_capacity (z : β) (n : Nat) : (allocate z n).capacity = n := rfl
@[simp] theorem allocate_position (z : β) (n : Nat) : (allocate z n).position = 0 := rfl
@[simp] theorem clear_capacity : b.clear.capacity = b.capacity := rfl
@[simp] theorem clear_position : b.clear.position = 0 := rfl
@[simp] theorem clear_limit : b.clear.limit = b.capacity := rfl
@[simp] theorem clear_remaining : b.clear.remaining = b.capacity := rfl
@[simp] theorem flip_capacity : b.flip.capacity = b.capacity := rfl
@[simp] theorem flip_position : b.flip.position = 0 := rfl
@[simp] theorem flip_limit : b.flip.limit = b.position := rfl
@[simp] theorem flip_remaining : b.flip.remaining = b.position := rfl
@[simp] theorem advance_capacity (k : Nat) : (b.advance k).capacity = b.capacity := rfl
@[simp] theorem advance_array (k : Nat) : (b.advance k).array = b.array := rfl
@[simp] theorem advance_stop (k : Nat) : (b.advance k).stop = b.stop := rfl
@[simp] theorem advance_limit (k : Nat) : (b.advance k).limit = b.limit := rfl
@[simp] theorem store_capacity (xs : List β) : (b.store xs).capacity = b.capacity := rfl
@[simp] theorem store_limit (xs : List β) : (b.store xs).limit = b.limit := rfl

theorem remaining_eq_limit (h : b.position = 0) : b.remaining = b.limit := by
  simp [remaining, h]

theorem advance_position {k : Nat} (h : k ≤ b.remaining) :
    (b.advance k).position = b.position + k := by
  have := b.position_le
  simp only [remaining] at h
  simp only [advance]
  omega

theorem advance_index {k : Nat} (h : b.index + k ≤ b.stop) : (b.advance k).index = b.index + k := by
  simp only [index, stop, advance] at h ⊢
  omega

theorem advance_remaining (k : Nat) : (b.advance k).remaining = b.remaining - k := by
  simp only [remaining, advance]
  omega

theorem advance_zero : b.advance 0 = b := by
  have := b.position_le
  cases b
  simp only [advance, mk.injEq, and_true, true_and]
  omega

theorem advance_advance (m n : Nat) : (b.advance m).advance n = b.advance (m + n) := by
  simp only [advance, mk.injEq, and_true, true_and]
  omega

theorem store_position {xs : List β} (h : xs.length ≤ b.remaining) :
    (b.store xs).position = b.position + xs.length := by
  have := b.position_le
  simp only [remaining] at h
  simp only [store]
  omega

theorem store_remaining {xs : List β} (h : xs.length ≤ b.remaining) :
    (b.store xs).remaining = b.remaining - xs.length := by
  rw [remaining, store_position _ h, store_limit, Nat.sub_add_eq, remaining]

@[simp] theorem flip_left : b.flip.left = b.drained := by simp [left, drained, flip, remaining]

@[simp] theorem flip_drained : b.flip.drained = [] := rfl

@[simp] theorem clear_drained : b.clear.drained = [] := rfl

theorem advance_left {k : Nat} (h : k ≤ b.remaining) : (b.advance k).left = b.left.drop k := by
  rw [left, advance_remaining, advance_position _ h, left, Bytes.drop_slice _ _ h, Nat.add_assoc]
  rfl

theorem store_drained {xs : List β} (h : xs.length ≤ b.remaining) :
    (b.store xs).drained = b.drained ++ xs := by
  rw [drained, store_position _ h, Bytes.slice_add, drained]
  congr 1
  · exact Bytes.slice_write_below _ _ (Nat.le_refl _)
  · exact Bytes.slice_write_self ..

theorem setLimit_eq_ok {n : Int} {c : ByteBuffer β} (h : b.setLimit n = .ok c) :
    0 ≤ n ∧ n ≤ b.capacity ∧ c.array = b.array ∧ c.arrayOffset = b.arrayOffset ∧ c.limit = n.toNat ∧
      (b.position = 0 → c.position = 0) := by
  unfold setLimit at h
  split at h
  next hn =>
    cases h
    refine ⟨hn.1, hn.2, rfl, rfl, rfl, fun hpos => ?_⟩
    show min b.position n.toNat = 0
    rw [hpos, Nat.zero_min]
  next => cases h

theorem get_ok (h : b.position < b.limit) :
    b.get = .ok (b.array.cell b.index, b.advance 1) := if_pos h

theorem get_underflow (h : ¬ b.position < b.limit) : b.get = .error .bufferUnderflow := if_neg h

theorem index_lt_stop : b.index < b.stop ↔ b.position < b.limit := Nat.add_lt_add_iff_left

theorem remaining_eq : b.remaining = b.stop - b.index := (Nat.add_sub_add_left _ _ _).symm

theorem index_le_stop : b.index ≤ b.stop := Nat.add_le_add_left b.position_le _

theorem remaining_of_get {x : β} {b' : ByteBuffer β} (h : b.get = .ok (x, b')) :
    b'.remaining + 1 = b.remaining := by
  by_cases hlt : b.position < b.limit
  · rw [get_ok b hlt] at h
    cases h
    rw [advance_remaining, remaining]
    omega
  · rw [get_underflow b hlt] at h
    cases h

theorem getBytes_ok {n : Nat} (h : n ≤ b.remaining) :
    b.getBytes n = .ok (b.left.take n, b.advance n) := if_pos h

theorem getBytes_underflow {n : Nat} (h : b.remaining < n) :
    b.getBytes n = .error .bufferUnderflow := if_neg (Nat.not_le.mpr h)

theorem put_ok {xs : List β} (h : xs.length ≤ b.remaining) : b.put xs = .ok (b.store xs) :=
  if_pos h

theorem put_overflow {xs : List β} (h : b.remaining < xs.length) :
    b.put xs = .error .bufferOverflow := if_neg (Nat.not_le.mpr h)

theorem store_store {xs ys : List β} (h : xs.length ≤ b.remaining) :
    (b.store xs).store ys = b.store (xs ++ ys) := by
  have hpos : (b.store xs).position = b.position + xs.length := b.store_position h
  refine ByteBuffer.ext ?_ rfl rfl ?_ rfl
  · have hstart : (b.store xs).arrayOffset + (b.store xs).position =
        b.arrayOffset + b.position + xs.length := by
      rw [hpos, Nat.add_assoc]
      rfl
    show (b.store xs).array.write ((b.store xs).arrayOffset + (b.store xs).position) ys = _
    rw [hstart]
    exact b.array.write_write _ xs ys
  · show min ((b.store xs).position + ys.length) b.limit = min (b.position + (xs ++ ys).length) b.limit
    rw [hpos, List.length_append, Nat.add_assoc]

theorem store_nil : b.store [] = b := by
  refine ByteBuffer.ext ?_ rfl rfl ?_ rfl
  · exact b.array.write_nil _
  · exact Nat.min_eq_left b.position_le

/-- Two puts in a row are one put of both. -/
theorem put_put (xs ys : List β) : (b.put xs >>= fun b => b.put ys) = b.put (xs ++ ys) := by
  rcases Nat.lt_or_ge b.remaining xs.length with hlong | hfit
  · have hlong' : b.remaining < (xs ++ ys).length := by
      rw [List.length_append]
      exact Nat.lt_of_lt_of_le hlong (Nat.le_add_right _ _)
    rw [b.put_overflow hlong, b.put_overflow hlong']
    rfl
  · have hroom : ys.length ≤ (b.store xs).remaining ↔ (xs ++ ys).length ≤ b.remaining := by
      rw [b.store_remaining hfit, List.length_append]
      omega
    rw [b.put_ok hfit, ok_bind, put, put, b.store_store hfit]
    simp only [hroom]

/-- `clear(); put(xs); flip()`, the way every handler fills a buffer. -/
def refill (b : ByteBuffer β) (xs : List β) : Except Throwable (ByteBuffer β) := do
  let b ← b.clear.put xs
  return b.flip

theorem refill_ok {xs : List β} (h : xs.length ≤ b.capacity) :
    b.refill xs = .ok (b.clear.store xs).flip := by
  simp [refill, put_ok b.clear h, pure, Except.pure]

theorem refill_overflow {xs : List β} (h : b.capacity < xs.length) :
    b.refill xs = .error .bufferOverflow := by
  simp [refill, put_overflow b.clear h]

theorem refilled_left {xs : List β} (h : xs.length ≤ b.capacity) :
    (b.clear.store xs).flip.left = xs := by
  rw [flip_left, store_drained b.clear h, clear_drained, List.nil_append]

end ByteBuffer

end SmartSocks.Jvm
