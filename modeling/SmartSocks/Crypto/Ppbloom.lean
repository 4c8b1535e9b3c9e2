import Mathlib.Data.List.Range
import Mathlib.Logic.Function.Basic
import SmartSocks.Library.Sketch
import SmartSocks.Utils.EasyValue

/-!
# The filter of the nonces

`bloom.c` of libbloom with `MurmurHash2.c`, and `ppbloom.c` over it: what the server
knows about the salts and IVs that it has seen. `bloom_init` computes the number of
bits and of hashes in floating point; here they come from outside. `calloc` gives
memory.
-/

namespace SmartSocks.Crypto.Server

open EasyValue

abbrev Word := BitVec 32

/-- Four bytes of memory. -/
def readWord (data : List Byte) : Word :=
  (data.getD 3 0 ++ data.getD 2 0 ++ data.getD 1 0 ++ data.getD 0 0 : BitVec 32)

/-- The bytes that are left, fewer than four of them. -/
def murmurTail (m h : Word) : List Byte → Word
  | [a] => (h ^^^ a.setWidth 32) * m
  | [a, b] => (h ^^^ (b.setWidth 32 <<< 8) ^^^ a.setWidth 32) * m
  | [a, b, c] => (h ^^^ (c.setWidth 32 <<< 16) ^^^ (b.setWidth 32 <<< 8) ^^^ a.setWidth 32) * m
  | _ => h

def murmurLoop (m h : Word) : List Byte → Word
  | a :: b :: c :: d :: data =>
    let k := readWord [a, b, c, d] * m
    let k := (k ^^^ (k >>> 24)) * m
    murmurLoop m (h * m ^^^ k) data
  | data => murmurTail m h data

def murmurhash2 (key : List Byte) (seed : Word) : Word :=
  let m : Word := 0x5bd1e995
  let h := murmurLoop m (seed ^^^ BitVec.ofNat 32 key.length) key
  let h := (h ^^^ (h >>> 13)) * m
  h ^^^ (h >>> 15)

/-- `struct bloom`; what `bloom_init` was given, and its `bpe`, is left out. -/
structure Bloom where
  bits : Nat
  hashes : Nat
  bf : List Byte
  deriving DecidableEq

/-- The bit `x` was set; with `set_bit` it is now. -/
def test_bit_set_bit (buf : List Byte) (x : Nat) (set_bit : Bool) : Bool × List Byte :=
  let byte := x >>> 3
  let c := buf.getD byte 0
  let mask := (1 : Byte) <<< (x % 8)
  if c &&& mask ≠ 0 then (true, buf)
  else (false, if set_bit then buf.set byte (c ||| mask) else buf)

/-- The loop over the hashes. -/
def bloomLoop (bloom : Bloom) (a b : Word) (add : Bool) : List Nat → Nat → List Byte → Nat × List Byte
  | [], hits, bf => (hits, bf)
  | i :: is, hits, bf =>
    let x := (a + BitVec.ofNat 32 i * b).toNat % bloom.bits
    let (hit, bf) := test_bit_set_bit bf x add
    bloomLoop bloom a b add is (if hit then hits + 1 else hits) bf

def bloom_check_add (bloom : Bloom) (buffer : List Byte) (add : Bool) : Bool × Bloom :=
  let a := murmurhash2 buffer 0x9747b28c
  let b := murmurhash2 buffer a
  let (hits, bf) := bloomLoop bloom a b add (List.range bloom.hashes) 0 bloom.bf
  (hits = bloom.hashes, { bloom with bf })

def bloom_init (bits hashes : Nat) : Bloom where
  bits := bits
  hashes := hashes
  bf := List.replicate (if bits % 8 ≠ 0 then bits / 8 + 1 else bits / 8) 0

def bloom_check (bloom : Bloom) (buffer : List Byte) : Bool := (bloom_check_add bloom buffer false).1

def bloom_add (bloom : Bloom) (buffer : List Byte) : Bloom := (bloom_check_add bloom buffer true).2

inductive Side
  | PING
  | PONG
  deriving DecidableEq, Repr

/-- The static variables of `ppbloom.c`; `bits` and `hashes` stand for `error`. -/
structure Ppbloom where
  ppbloom : Side → Bloom
  bloom_count : Side → Nat
  current : Side
  entries : Nat
  bits : Nat
  hashes : Nat
  /-- History: what was added, the last one first. -/
  added : List (List Byte)

def Side.other : Side → Side
  | .PING => .PONG
  | .PONG => .PING

def ppbloom_init (n bits hashes : Nat) : Ppbloom where
  ppbloom _ := bloom_init bits hashes
  bloom_count _ := 0
  current := .PING
  entries := n / 2
  bits := bits
  hashes := hashes
  added := []

def ppbloom_check (pp : Ppbloom) (buffer : List Byte) : Bool :=
  bloom_check (pp.ppbloom .PING) buffer || bloom_check (pp.ppbloom .PONG) buffer

def ppbloom_add (pp : Ppbloom) (buffer : List Byte) : Ppbloom :=
  let pp := { pp with
    ppbloom := Function.update pp.ppbloom pp.current (bloom_add (pp.ppbloom pp.current) buffer)
    bloom_count := Function.update pp.bloom_count pp.current (pp.bloom_count pp.current + 1)
    added := buffer :: pp.added }
  if pp.entries ≤ pp.bloom_count pp.current then
    let current := pp.current.other
    { pp with
      bloom_count := Function.update pp.bloom_count pp.current 0
      current := current
      ppbloom := Function.update pp.ppbloom current (bloom_init pp.bits pp.hashes) }
  else pp

-- ---------------------------------------------------------------------------
-- The bits
-- ---------------------------------------------------------------------------

/-- The bit `x` of the array. -/
def bitAt (buf : List Byte) (x : Nat) : Bool := (buf.getD (x >>> 3) 0).getLsbD (x % 8)

theorem getLsbD_mask {i k : Nat} (hi : i < 8) : ((1 : Byte) <<< k).getLsbD i = decide (i = k) := by
  rcases lt_trichotomy i k with hlt | rfl | hgt
  · simp [hlt, hlt.ne]
  · simp [hi]
  · have hne : i - k ≠ 0 := Nat.sub_ne_zero_of_lt hgt
    simp [hi, Nat.not_lt.mpr hgt.le, hgt.ne', hne]

theorem mask_ne_zero_iff (c : Byte) {k : Nat} (hk : k < 8) :
    c &&& (1 : Byte) <<< k ≠ 0 ↔ c.getLsbD k = true := by
  constructor
  · intro h
    by_contra hbit
    refine h (BitVec.eq_of_getLsbD_eq fun i hi => ?_)
    rcases eq_or_ne i k with rfl | hne
    · rw [BitVec.getLsbD_and, getLsbD_mask hi, Bool.eq_false_iff.mpr hbit, Bool.false_and]
      exact BitVec.getLsbD_zero.symm
    · rw [BitVec.getLsbD_and, getLsbD_mask hi, decide_eq_false hne, Bool.and_false]
      exact BitVec.getLsbD_zero.symm
  · intro hbit h
    have hk' := congrArg (BitVec.getLsbD · k) h
    rw [BitVec.getLsbD_and, getLsbD_mask hk, hbit, decide_eq_true rfl] at hk'
    simp at hk'

theorem test_bit (buf : List Byte) (x : Nat) (set_bit : Bool) :
    (test_bit_set_bit buf x set_bit).1 = bitAt buf x := by
  have hmask := mask_ne_zero_iff (buf.getD (x >>> 3) 0) (Nat.mod_lt x (by decide : 0 < 8))
  simp only [test_bit_set_bit]
  split
  next hset => exact (hmask.mp hset).symm
  next hclear => exact (Bool.eq_false_iff.mpr fun h => hclear (hmask.mpr h)).symm

theorem set_bit {buf : List Byte} {x : Nat} (hx : x < 8 * buf.length) (y : Nat) :
    bitAt (test_bit_set_bit buf x true).2 y = (decide (y = x) || bitAt buf y) := by
  have htest := test_bit buf x true
  have hbyte : x >>> 3 < buf.length := by
    rw [Nat.shiftRight_eq_div_pow]
    omega
  simp only [test_bit_set_bit] at htest ⊢
  split
  next hset =>
    rw [if_pos hset] at htest
    rcases eq_or_ne y x with rfl | hne
    · simp [← htest]
    · simp [hne]
  next hclear =>
    simp only [if_true, bitAt]
    rcases eq_or_ne (y >>> 3) (x >>> 3) with heq | hne
    · have hmask := getLsbD_mask (k := x % 8) (Nat.mod_lt y (by decide : 0 < 8))
      have hiff : y % 8 = x % 8 ↔ y = x := by
        rw [Nat.shiftRight_eq_div_pow, Nat.shiftRight_eq_div_pow] at heq
        omega
      rw [heq, List.getD_eq_getElem?_getD, List.getElem?_set_self hbyte, Option.getD_some, BitVec.getLsbD_or,
        hmask, decide_eq_decide.mpr hiff, Bool.or_comm]
    · have hxy : y ≠ x := by
        rintro rfl
        exact hne rfl
      simp [List.getD_eq_getElem?_getD, List.getElem?_set_ne hne.symm, hxy]

theorem length_set_bit (buf : List Byte) (x : Nat) (set_bit : Bool) :
    (test_bit_set_bit buf x set_bit).2.length = buf.length := by
  simp only [test_bit_set_bit]
  split
  · rfl
  · cases set_bit <;> simp

-- ---------------------------------------------------------------------------
-- The filter
-- ---------------------------------------------------------------------------

/-- The bit that belongs to the hash `i`. -/
def position (bits : Nat) (buffer : List Byte) (i : Nat) : Nat :=
  let a := murmurhash2 buffer 0x9747b28c
  let b := murmurhash2 buffer a
  (a + BitVec.ofNat 32 i * b).toNat % bits

section
variable (bloom : Bloom) (a b : Word) (is : List Nat)

theorem bloomLoop_check (hits : Nat) (bf : List Byte) :
    bloomLoop bloom a b false is hits bf =
      (hits + is.countP fun i => bitAt bf ((a + BitVec.ofNat 32 i * b).toNat % bloom.bits), bf) := by
  induction is generalizing hits with
  | nil => rfl
  | cons i is ih =>
    have hkeep : (test_bit_set_bit bf ((a + BitVec.ofNat 32 i * b).toNat % bloom.bits) false).2 = bf := by
      simp only [test_bit_set_bit]
      split <;> rfl
    simp only [bloomLoop, hkeep, test_bit, ih, List.countP_cons, Prod.mk.injEq, and_true]
    split <;> omega

theorem bloomLoop_add (hits : Nat) {bf : List Byte} (hbits : 0 < bloom.bits) (hlen : bloom.bits ≤ 8 * bf.length) :
    (bloomLoop bloom a b true is hits bf).2.length = bf.length ∧ ∀ y,
      bitAt (bloomLoop bloom a b true is hits bf).2 y =
        (decide (y ∈ is.map fun i => (a + BitVec.ofNat 32 i * b).toNat % bloom.bits) || bitAt bf y) := by
  induction is generalizing hits bf with
  | nil => simp [bloomLoop]
  | cons i is ih =>
    have hx := (Nat.mod_lt (a + BitVec.ofNat 32 i * b).toNat hbits).trans_le hlen
    generalize hpos : (a + BitVec.ofNat 32 i * b).toNat % bloom.bits = x at hx
    have hsize := length_set_bit bf x true
    have hlen' : bloom.bits ≤ 8 * (test_bit_set_bit bf x true).2.length := by rwa [hsize]
    simp only [bloomLoop, hpos]
    obtain ⟨hlength, hbit⟩ := ih (if (test_bit_set_bit bf x true).1 = true then hits + 1 else hits) hlen'
    refine ⟨hlength.trans hsize, fun y => ?_⟩
    rw [hbit y, set_bit hx, List.map_cons, hpos]
    simp only [List.mem_cons, Bool.decide_or, Bool.or_assoc, Bool.or_left_comm]

end

/-- A filter of this size, with room for its bits. -/
structure Bloom.Fits (bits hashes : Nat) (bloom : Bloom) : Prop where
  size : bloom.bits = bits
  count : bloom.hashes = hashes
  room : bits ≤ 8 * bloom.bf.length

section
variable {bits hashes : Nat} {bloom : Bloom}

theorem fits_init : (bloom_init bits hashes).Fits bits hashes := by
  refine ⟨rfl, rfl, ?_⟩
  simp only [bloom_init, List.length_replicate]
  split <;> omega

theorem bloom_check_iff (h : bloom.Fits bits hashes) (buffer : List Byte) :
    bloom_check bloom buffer = true ↔ ∀ i < hashes, bitAt bloom.bf (position bits buffer i) = true := by
  obtain ⟨rfl, rfl, -⟩ := h
  have hall := List.countP_eq_length
    (p := fun i => bitAt bloom.bf (position bloom.bits buffer i)) (l := List.range bloom.hashes)
  rw [List.length_range] at hall
  simp only [List.mem_range] at hall
  rw [← hall, bloom_check, bloom_check_add]
  simp only [bloomLoop_check, decide_eq_true_eq, Nat.zero_add, position]

theorem bloom_add_spec (h : bloom.Fits bits hashes) (hbits : 0 < bits) (buffer : List Byte) :
    (bloom_add bloom buffer).Fits bits hashes ∧ ∀ y, bitAt (bloom_add bloom buffer).bf y = true ↔
      (∃ i < hashes, position bits buffer i = y) ∨ bitAt bloom.bf y = true := by
  obtain ⟨rfl, rfl, hroom⟩ := h
  simp only [bloom_add, bloom_check_add, position]
  generalize murmurhash2 buffer 0x9747b28c = a
  generalize murmurhash2 buffer a = b
  obtain ⟨hlength, hbit⟩ := bloomLoop_add bloom a b (List.range bloom.hashes) 0 hbits hroom
  refine ⟨⟨rfl, rfl, hroom.trans_eq (congrArg (8 * ·) hlength.symm)⟩, fun y => ?_⟩
  refine (Bool.eq_iff_iff.mp (hbit y)).trans ?_
  simp only [Bool.or_eq_true, decide_eq_true_eq, List.mem_map, List.mem_range]

/-- The filters of one size are a sketch. -/
def bloomSketch (bits hashes : Nat) (hbits : 0 < bits) :
    Sketch { bloom : Bloom // bloom.Fits bits hashes } (List Byte) where
  empty := ⟨bloom_init bits hashes, fits_init⟩
  add bloom buffer := ⟨bloom_add bloom.val buffer, (bloom_add_spec bloom.property hbits buffer).1⟩
  mem bloom buffer := bloom_check bloom.val buffer
  mem_add bloom buffer := by
    obtain ⟨hfits, hbit⟩ := bloom_add_spec bloom.property hbits buffer
    exact (bloom_check_iff hfits buffer).mpr fun i hi => (hbit _).mpr (.inl ⟨i, hi, rfl⟩)
  mem_mono bloom buffer other hother := by
    obtain ⟨hfits, hbit⟩ := bloom_add_spec bloom.property hbits buffer
    have hold := (bloom_check_iff bloom.property other).mp hother
    exact (bloom_check_iff hfits other).mpr fun i hi => (hbit _).mpr (.inr (hold i hi))

end

-- ---------------------------------------------------------------------------
-- Ping and pong
-- ---------------------------------------------------------------------------

/-- The two filters as sketches in turn. -/
structure Represents (bits hashes : Nat) (pp : Ppbloom)
    (t : Sketch.Turns { bloom : Bloom // bloom.Fits bits hashes }) : Prop where
  bits : pp.bits = bits
  hashes : pp.hashes = hashes
  current : pp.ppbloom pp.current = t.current.val
  previous : pp.ppbloom pp.current.other = t.previous.val
  count : pp.bloom_count pp.current = t.count
  idle : pp.bloom_count pp.current.other = 0

section
variable {bits hashes : Nat} {pp : Ppbloom} {t : Sketch.Turns { bloom : Bloom // bloom.Fits bits hashes }}

theorem Side.other_ne (side : Side) : side.other ≠ side := by cases side <;> decide

@[simp] theorem Side.other_other (side : Side) : side.other.other = side := by cases side <;> rfl

theorem Represents.add (h : Represents bits hashes pp t) (hbits : 0 < bits) (buffer : List Byte) :
    Represents bits hashes (ppbloom_add pp buffer) (t.add (bloomSketch bits hashes hbits) pp.entries buffer) := by
  have hne := pp.current.other_ne
  simp only [ppbloom_add, Sketch.Turns.add, Function.update_self, h.count]
  split
  · exact {
      bits := h.bits
      hashes := h.hashes
      current := by simp [h.bits, h.hashes, bloomSketch]
      previous := by simp [hne.symm, h.current, bloomSketch]
      count := by simp [hne, h.idle]
      idle := by simp }
  · exact {
      bits := h.bits
      hashes := h.hashes
      current := by simp [h.current, bloomSketch]
      previous := by simp [hne, h.previous]
      count := by simp
      idle := by simp [hne, h.idle] }

theorem Represents.check (h : Represents bits hashes pp t) (hbits : 0 < bits) (buffer : List Byte) :
    ppbloom_check pp buffer = t.mem (bloomSketch bits hashes hbits) buffer := by
  have hcurrent := h.current
  have hprevious := h.previous
  simp only [Sketch.Turns.mem, bloomSketch, ppbloom_check]
  cases hside : pp.current with
  | PING => rw [← hcurrent, ← hprevious, hside, Side.other]
  | PONG => rw [← hcurrent, ← hprevious, hside, Side.other, Bool.or_comm]

end

/-- A filter since it was initialised. -/
inductive Filled (n bits hashes : Nat) : Ppbloom → Prop
  | init : Filled n bits hashes (ppbloom_init n bits hashes)
  | add {pp : Ppbloom} (h : Filled n bits hashes pp) (buffer : List Byte) :
      Filled n bits hashes (ppbloom_add pp buffer)

theorem ppbloom_add_entries (pp : Ppbloom) (buffer : List Byte) : (ppbloom_add pp buffer).entries = pp.entries := by
  simp only [ppbloom_add]
  split <;> rfl

theorem ppbloom_add_added (pp : Ppbloom) (buffer : List Byte) :
    (ppbloom_add pp buffer).added = buffer :: pp.added := by
  simp only [ppbloom_add]
  split <;> rfl

theorem Filled.represents {n bits hashes : Nat} {pp : Ppbloom} (h : Filled n bits hashes pp) (hbits : 0 < bits) :
    pp.entries = n / 2 ∧
      Represents bits hashes pp (.addAll (bloomSketch bits hashes hbits) (n / 2) pp.added) := by
  induction h with
  | init => exact ⟨rfl, ⟨rfl, rfl, rfl, rfl, rfl, rfl⟩⟩
  | add _ buffer ih =>
    obtain ⟨hentries, h⟩ := ih
    refine ⟨(ppbloom_add_entries _ buffer).trans hentries, ?_⟩
    have hadd := h.add hbits buffer
    rw [hentries] at hadd
    rw [ppbloom_add_added]
    exact hadd

theorem Filled.check {n bits hashes : Nat} {pp : Ppbloom} (h : Filled n bits hashes pp) (hbits : 0 < bits)
    {nonce : List Byte} (hnonce : nonce ∈ pp.added.take (n / 2)) : ppbloom_check pp nonce = true := by
  rw [(h.represents hbits).2.check hbits nonce]
  exact Sketch.Turns.mem_of_recent hnonce

/-- The last `n / 2` nonces are reported, however many have been added. -/
theorem ppbloom_remembers (n bits hashes : Nat) (hbits : 0 < bits) (pp : Ppbloom) (h : Filled n bits hashes pp)
    (nonce : List Byte) (hnonce : nonce ∈ pp.added.take (n / 2)) : ppbloom_check pp nonce = true :=
  h.check hbits hnonce

theorem second_remembered :
    ppbloom_check (ppbloom_add (ppbloom_add (ppbloom_add (ppbloom_init 4 64 3) [1]) [2]) [3]) [2] = true :=
  ppbloom_remembers 4 64 3 (by decide) _ (((Filled.init.add [1]).add [2]).add [3]) [2] (by decide)

end SmartSocks.Crypto.Server
