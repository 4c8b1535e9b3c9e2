import SmartSocks.Library.KeyStream
import SmartSocks.Library.LittleEndian
import SmartSocks.Utils.EasyValue

/-!
# libsodium

`sodium_increment`, and the reference implementations of ChaCha20 and Salsa20. Their
two loops over the blocks of a message count differently, one in words and one in
bytes, but each gives the key stream of one `KeyStream` from the block `ic` on
(`crypto_stream_chacha20_xor_ic_eq` and the like).
-/

namespace SmartSocks.Crypto.Server

open EasyValue

/-- The loop of `utils.c`. -/
def sodium_increment (n : List Byte) : List Byte := LittleEndian.carry 1 n

theorem length_sodium_increment (n : List Byte) : (sodium_increment n).length = n.length :=
  LittleEndian.length_carry 1 n

/-- Without a carry out of the last byte. -/
theorem toNat_sodium_increment {n : List Byte} (h : LittleEndian.toNat n + 1 < 256 ^ n.length) :
    LittleEndian.toNat (sodium_increment n) = LittleEndian.toNat n + 1 := by
  rw [sodium_increment, LittleEndian.toNat_carry, Nat.add_comm, Nat.mod_eq_of_lt h]

abbrev Word32 := BitVec 32

/-- `LOAD32_LE` -/
def LOAD32_LE (src : List Byte) : Word32 := LittleEndian.word (src.take 4)

/-- `STORE32_LE`, for all words of a state. -/
def STORE32_LE (words : List Word32) : List Byte := words.flatMap LittleEndian.bytes

theorem length_STORE32_LE (words : List Word32) : (STORE32_LE words).length = 4 * words.length := by
  induction words with
  | nil => rfl
  | cons w words ih =>
    rw [STORE32_LE, List.flatMap_cons, List.length_append, ← STORE32_LE, ih, List.length_cons]
    simp only [LittleEndian.bytes, List.length_cons, List.length_nil]
    omega

-- ---------------------------------------------------------------------------
-- ChaCha20
-- ---------------------------------------------------------------------------

def QUARTERROUND (a b c d : Nat) (x : List Word32) : List Word32 :=
  let x := x.set a (x.getD a 0 + x.getD b 0)
  let x := x.set d ((x.getD d 0 ^^^ x.getD a 0).rotateLeft 16)
  let x := x.set c (x.getD c 0 + x.getD d 0)
  let x := x.set b ((x.getD b 0 ^^^ x.getD c 0).rotateLeft 12)
  let x := x.set a (x.getD a 0 + x.getD b 0)
  let x := x.set d ((x.getD d 0 ^^^ x.getD a 0).rotateLeft 8)
  let x := x.set c (x.getD c 0 + x.getD d 0)
  x.set b ((x.getD b 0 ^^^ x.getD c 0).rotateLeft 7)

def chachaDoubleRound (x : List Word32) : List Word32 :=
  let x := QUARTERROUND 0 4 8 12 x
  let x := QUARTERROUND 1 5 9 13 x
  let x := QUARTERROUND 2 6 10 14 x
  let x := QUARTERROUND 3 7 11 15 x
  let x := QUARTERROUND 0 5 10 15 x
  let x := QUARTERROUND 1 6 11 12 x
  let x := QUARTERROUND 2 7 8 13 x
  QUARTERROUND 3 4 9 14 x

/-- The words that are XORed into a block of the message. -/
def chachaBlock (j : List Word32) : List Word32 :=
  List.zipWith (· + ·) (Nat.repeat chachaDoubleRound 10 j) j

/-- `m` is padded to 64 bytes, and as many bytes of the result are kept as it had. -/
def chachaXor (j : List Word32) (m : List Byte) : List Byte :=
  let tmp := m ++ List.replicate (64 - m.length) 0
  let x := (chachaBlock j).mapIdx fun i x => x ^^^ LOAD32_LE (tmp.drop (4 * i))
  (STORE32_LE x).take m.length

def chachaNext (j : List Word32) : List Word32 :=
  let j := j.set 12 (j.getD 12 0 + 1)
  if j.getD 12 0 = 0 then j.set 13 (j.getD 13 0 + 1) else j

/-- The loop of `chacha20_encrypt_bytes`; `fuel` is not less than the number of blocks. -/
def chachaLoop : Nat → List Word32 → List Byte → List Byte
  | 0, _, _ => []
  | fuel + 1, j, m =>
    if m.length ≤ 64 then chachaXor j m
    else chachaXor j (m.take 64) ++ chachaLoop fuel (chachaNext j) (m.drop 64)

def chacha20_encrypt_bytes (input : List Word32) (m : List Byte) : List Byte :=
  if m.length = 0 then [] else chachaLoop m.length input m

def chacha_keysetup (k : List Byte) : List Word32 :=
  [0x61707865, 0x3320646e, 0x79622d32, 0x6b206574] ++
    (List.range 8).map fun i => LOAD32_LE (k.drop (4 * i))

/-- The eight bytes of `ic`. -/
def chacha_ivsetup (iv : List Byte) (ic : BitVec 64) : List Word32 :=
  [ic.setWidth 32, (ic >>> 32).setWidth 32, LOAD32_LE iv, LOAD32_LE (iv.drop 4)]

def chacha_ietf_ivsetup (iv : List Byte) (ic : Word32) : List Word32 :=
  [ic, LOAD32_LE iv, LOAD32_LE (iv.drop 4), LOAD32_LE (iv.drop 8)]

/-- `stream_ref_xor_ic` of `chacha20_ref.c` -/
def crypto_stream_chacha20_xor_ic (m n : List Byte) (ic : BitVec 64) (k : List Byte) : List Byte :=
  chacha20_encrypt_bytes (chacha_keysetup k ++ chacha_ivsetup n ic) m

/-- `stream_ietf_ref_xor_ic` -/
def crypto_stream_chacha20_ietf_xor_ic (m n : List Byte) (ic : Word32) (k : List Byte) : List Byte :=
  chacha20_encrypt_bytes (chacha_keysetup k ++ chacha_ietf_ivsetup n ic) m

-- ---------------------------------------------------------------------------
-- Salsa20
-- ---------------------------------------------------------------------------

/-- `x_a ^= ROTL32(x_b + x_c, r)` -/
def salsaMix (x : List Word32) : Nat × Nat × Nat × Nat → List Word32
  | (a, b, c, r) => x.set a (x.getD a 0 ^^^ (x.getD b 0 + x.getD c 0).rotateLeft r)

def salsaDoubleRound (x : List Word32) : List Word32 :=
  [(4, 0, 12, 7), (8, 4, 0, 9), (12, 8, 4, 13), (0, 12, 8, 18),
    (9, 5, 1, 7), (13, 9, 5, 9), (1, 13, 9, 13), (5, 1, 13, 18),
    (14, 10, 6, 7), (2, 14, 10, 9), (6, 2, 14, 13), (10, 6, 2, 18),
    (3, 15, 11, 7), (7, 3, 15, 9), (11, 7, 3, 13), (15, 11, 7, 18),
    (1, 0, 3, 7), (2, 1, 0, 9), (3, 2, 1, 13), (0, 3, 2, 18),
    (6, 5, 4, 7), (7, 6, 5, 9), (4, 7, 6, 13), (5, 4, 7, 18),
    (11, 10, 9, 7), (8, 11, 10, 9), (9, 8, 11, 13), (10, 9, 8, 18),
    (12, 15, 14, 7), (13, 12, 15, 9), (14, 13, 12, 13), (15, 14, 13, 18)].foldl salsaMix x

/-- With the constants of `core_salsa_ref.c`. -/
def crypto_core_salsa20 (input k : List Byte) : List Byte :=
  let word (bytes : List Byte) (i : Nat) : Word32 := LOAD32_LE (bytes.drop i)
  let j := [0x61707865, word k 0, word k 4, word k 8, word k 12,
    0x3320646e, word input 0, word input 4, word input 8, word input 12,
    0x79622d32, word k 16, word k 20, word k 24, word k 28, 0x6b206574]
  STORE32_LE (List.zipWith (· + ·) (Nat.repeat salsaDoubleRound 10 j) j)

/-- The loop of `stream_ref_xor_ic` in `salsa20_ref.c`; `count` is what is behind the nonce in `in`. -/
def salsaLoop (n k : List Byte) : Nat → List Byte → List Byte → List Byte
  | 0, _, _ => []
  | fuel + 1, count, m =>
    let block := crypto_core_salsa20 (n.take 8 ++ count) k
    if 64 ≤ m.length then
      List.zipWith (· ^^^ ·) (m.take 64) block ++ salsaLoop n k fuel (LittleEndian.carry 1 count) (m.drop 64)
    else List.zipWith (· ^^^ ·) m block

def crypto_stream_salsa20_xor_ic (m n : List Byte) (ic : BitVec 64) (k : List Byte) : List Byte :=
  if m.length = 0 then []
  else salsaLoop n k (m.length + 1) (LittleEndian.ofNat 8 ic.toNat) m

-- ---------------------------------------------------------------------------
-- The key streams
-- ---------------------------------------------------------------------------

section
variable {j : List Word32}

theorem length_QUARTERROUND (a b c d : Nat) (x : List Word32) : (QUARTERROUND a b c d x).length = x.length := by
  simp only [QUARTERROUND, List.length_set]

theorem length_chachaDoubleRound (x : List Word32) : (chachaDoubleRound x).length = x.length := by
  simp only [chachaDoubleRound, length_QUARTERROUND]

theorem length_salsaDoubleRound (x : List Word32) : (salsaDoubleRound x).length = x.length := by
  simp only [salsaDoubleRound, List.foldl_cons, List.foldl_nil, salsaMix, List.length_set]

theorem length_repeat {f : List Word32 → List Word32} (hf : ∀ x, (f x).length = x.length) (count : Nat)
    (x : List Word32) : (Nat.repeat f count x).length = x.length := by
  induction count with
  | zero => rfl
  | succ count ih => rw [Nat.repeat, hf, ih]

theorem length_chachaBlock (hj : j.length = 16) : (chachaBlock j).length = 16 := by
  rw [chachaBlock, List.length_zipWith, length_repeat length_chachaDoubleRound, hj, Nat.min_self]

/-- A message that is XORed in words is XORed in bytes. -/
theorem STORE32_LE_xor {words : List Word32} {m : List Byte} (hm : m.length = 4 * words.length) :
    STORE32_LE (words.mapIdx fun i x => x ^^^ LOAD32_LE (m.drop (4 * i))) =
      List.zipWith (· ^^^ ·) m (STORE32_LE words) := by
  induction words generalizing m with
  | nil =>
    obtain rfl : m = [] := List.length_eq_zero_iff.mp hm
    rfl
  | cons w words ih =>
    obtain ⟨a, b, c, d, m, rfl⟩ : ∃ a b c d m', m = a :: b :: c :: d :: m' := by
      match m, hm with
      | a :: b :: c :: d :: m', _ => exact ⟨a, b, c, d, m', rfl⟩
    have hrest : m.length = 4 * words.length := by
      simp only [List.length_cons] at hm
      omega
    have hdrop (i : Nat) : (a :: b :: c :: d :: m).drop (4 * (i + 1)) = m.drop (4 * i) := rfl
    rw [List.mapIdx_cons, STORE32_LE, List.flatMap_cons, STORE32_LE, List.flatMap_cons]
    simp only [hdrop, Nat.mul_zero, List.drop_zero]
    rw [← STORE32_LE, ih hrest]
    exact congrArg (· ++ _) (LittleEndian.bytes_xor_word w a b c d)

theorem chachaXor_eq (hj : j.length = 16) {m : List Byte} (hm : m.length ≤ 64) :
    chachaXor j m = List.zipWith (· ^^^ ·) m (STORE32_LE (chachaBlock j)) := by
  have hblock : (STORE32_LE (chachaBlock j)).length = 64 := by rw [length_STORE32_LE, length_chachaBlock hj]
  have htmp : (m ++ List.replicate (64 - m.length) 0).length = 4 * (chachaBlock j).length := by
    rw [List.length_append, List.length_replicate, length_chachaBlock hj]
    omega
  have hmin := @List.zipWith_eq_zipWith_take_min _ _ _ (· ^^^ ·) m (STORE32_LE (chachaBlock j))
  rw [hblock, Nat.min_eq_left hm, List.take_length] at hmin
  simp only [chachaXor]
  rw [STORE32_LE_xor htmp, List.take_zipWith, List.take_left, hmin]

/-- A sequence of states that the loop goes through. -/
theorem chachaLoop_eq {states : Nat → List Word32} (K : KeyStream Byte) (hsize : K.size = 64)
    (hblock : ∀ c, K.block c = STORE32_LE (chachaBlock (states c))) (hlen : ∀ c, (states c).length = 16)
    (hnext : ∀ c, chachaNext (states c) = states (c + 1)) (fuel c : Nat) {m : List Byte} (hpos : 0 < m.length)
    (hfuel : m.length ≤ fuel) :
    chachaLoop fuel (states c) m = (K.cipher (· ^^^ ·)).output (64 * c) m := by
  induction fuel generalizing c m with
  | zero => omega
  | succ fuel ih =>
    rw [chachaLoop, ← hsize]
    split
    next hlast => rw [chachaXor_eq (hlen c) (hsize ▸ hlast), K.output_block hlast, hblock]
    next hmore =>
      have hwhole : (m.take K.size).length ≤ 64 := by
        rw [List.length_take, hsize]
        exact Nat.min_le_left ..
      rw [chachaXor_eq (hlen c) hwhole, K.output_blocks (Nat.le_of_not_le hmore), hblock, hnext, hsize,
        ih (c + 1) (by rw [List.length_drop]; omega) (by rw [List.length_drop]; omega)]

theorem chacha20_encrypt_bytes_eq {states : Nat → List Word32} (K : KeyStream Byte) (hsize : K.size = 64)
    (hblock : ∀ c, K.block c = STORE32_LE (chachaBlock (states c))) (hlen : ∀ c, (states c).length = 16)
    (hnext : ∀ c, chachaNext (states c) = states (c + 1)) (c : Nat) (m : List Byte) :
    chacha20_encrypt_bytes (states c) m = (K.cipher (· ^^^ ·)).output (64 * c) m := by
  rw [chacha20_encrypt_bytes]
  split
  next hempty =>
    obtain rfl : m = [] := List.length_eq_zero_iff.mp hempty
    rfl
  next hsome => exact chachaLoop_eq K hsize hblock hlen hnext _ c (Nat.pos_of_ne_zero hsome) le_rfl

end

section
variable (n k : List Byte)

theorem length_chacha_keysetup : (chacha_keysetup k).length = 12 := by
  simp [chacha_keysetup]

theorem chachaNext_append {setup : List Word32} (hsetup : setup.length = 12) (a b c d : Word32) :
    chachaNext (setup ++ [a, b, c, d]) = setup ++ [a + 1, if a + 1 = 0 then b + 1 else b, c, d] := by
  have hset (i : Nat) (v : Word32) (tail : List Word32) :
      (setup ++ tail).set (12 + i) v = setup ++ tail.set i v := by
    rw [← hsetup, List.set_append_right _ _ (Nat.le_add_right ..), Nat.add_sub_cancel_left]
  have hget (i : Nat) (tail : List Word32) : (setup ++ tail).getD (12 + i) 0 = tail.getD i 0 := by
    rw [← hsetup, List.getD_eq_getElem?_getD, List.getElem?_append_right (Nat.le_add_right ..),
      Nat.add_sub_cancel_left, List.getD_eq_getElem?_getD]
  simp only [chachaNext]
  rw [hset 0, hget 0]
  simp only [List.set_cons_zero, List.getD_cons_zero]
  rw [hget 0, hget 1, hset 1]
  split <;> simp_all

/-- The states of ChaCha20 with a counter of 64 bits. -/
def chachaState (c : Nat) : List Word32 := chacha_keysetup k ++ chacha_ivsetup n (BitVec.ofNat 64 c)

theorem chachaNext_state (c : Nat) : chachaNext (chachaState n k c) = chachaState n k (c + 1) := by
  have hlow (x : BitVec 64) : (x + 1).setWidth 32 = x.setWidth 32 + 1 := by
    rw [BitVec.setWidth_add _ _ (by decide)]
    rfl
  have hhigh (x : BitVec 64) : ((x + 1) >>> 32).setWidth 32 =
      if x.setWidth 32 + 1 = (0 : Word32) then (x >>> 32).setWidth 32 + 1 else (x >>> 32).setWidth 32 := by
    split <;> bv_omega
  have hsucc : BitVec.ofNat 64 (c + 1) = BitVec.ofNat 64 c + 1 := BitVec.ofNat_add c 1
  rw [chachaState, chachaState, chacha_ivsetup, chacha_ivsetup,
    chachaNext_append (length_chacha_keysetup k), hsucc, hlow, hhigh]

/-- Those of the IETF variant: a carry goes to the first word of the nonce. -/
def chachaIetfState (c : Nat) : List Word32 :=
  chacha_keysetup k ++
    [BitVec.ofNat 32 c, LOAD32_LE n + BitVec.ofNat 32 (c / 2 ^ 32), LOAD32_LE (n.drop 4), LOAD32_LE (n.drop 8)]

theorem chachaNext_ietfState (c : Nat) : chachaNext (chachaIetfState n k c) = chachaIetfState n k (c + 1) := by
  have hlow : BitVec.ofNat 32 (c + 1) = BitVec.ofNat 32 c + 1 := BitVec.ofNat_add c 1
  have hhigh : BitVec.ofNat 32 ((c + 1) / 2 ^ 32) =
      if BitVec.ofNat 32 c + 1 = 0 then BitVec.ofNat 32 (c / 2 ^ 32) + 1 else BitVec.ofNat 32 (c / 2 ^ 32) := by
    have hzero : BitVec.ofNat 32 (c + 1) = 0 ↔ (c + 1) % 2 ^ 32 = 0 := by
      rw [← BitVec.toNat_inj, BitVec.toNat_ofNat]
      rfl
    rw [hlow] at hzero
    split
    next hcarry =>
      have hdiv : (c + 1) / 2 ^ 32 = c / 2 ^ 32 + 1 := by
        have hlast := hzero.mp hcarry
        omega
      rw [hdiv]
      exact BitVec.ofNat_add _ 1
    next hsame =>
      have hdiv : (c + 1) / 2 ^ 32 = c / 2 ^ 32 := by
        have hlast := mt hzero.mpr hsame
        omega
      rw [hdiv]
  rw [chachaIetfState, chachaIetfState, chachaNext_append (length_chacha_keysetup k), hlow, hhigh]
  split <;> simp [BitVec.add_assoc]

theorem length_chachaState (c : Nat) : (chachaState n k c).length = 16 := by
  rw [chachaState, List.length_append, length_chacha_keysetup]
  rfl

theorem length_chachaIetfState (c : Nat) : (chachaIetfState n k c).length = 16 := by
  rw [chachaIetfState, List.length_append, length_chacha_keysetup]
  rfl

theorem length_chachaKey {states : Nat → List Word32} (hlen : ∀ c, (states c).length = 16) (c : Nat) :
    (STORE32_LE (chachaBlock (states c))).length = 64 := by
  rw [length_STORE32_LE, length_chachaBlock (hlen c)]

theorem length_crypto_core_salsa20 (input : List Byte) : (crypto_core_salsa20 input k).length = 64 := by
  simp [crypto_core_salsa20, length_STORE32_LE, length_repeat length_salsaDoubleRound]

theorem zero_lt_block : 0 < 64 := by decide

end

def chachaKeyStream (n k : List Byte) : KeyStream Byte where
  size := 64
  block c := STORE32_LE (chachaBlock (chachaState n k c))
  pos := zero_lt_block
  length_block := length_chachaKey (length_chachaState n k)

def chachaIetfKeyStream (n k : List Byte) : KeyStream Byte where
  size := 64
  block c := STORE32_LE (chachaBlock (chachaIetfState n k c))
  pos := zero_lt_block
  length_block := length_chachaKey (length_chachaIetfState n k)

def salsaKeyStream (n k : List Byte) : KeyStream Byte where
  size := 64
  block c := crypto_core_salsa20 (n.take 8 ++ LittleEndian.ofNat 8 c) k
  pos := zero_lt_block
  length_block c := length_crypto_core_salsa20 k (n.take 8 ++ LittleEndian.ofNat 8 c)

section
variable (m n k : List Byte)

theorem chachaKeyStream_block (c : Nat) :
    (chachaKeyStream n k).block c = STORE32_LE (chachaBlock (chachaState n k c)) := by
  simp only [chachaKeyStream]

theorem chachaIetfKeyStream_block (c : Nat) :
    (chachaIetfKeyStream n k).block c = STORE32_LE (chachaBlock (chachaIetfState n k c)) := by
  simp only [chachaIetfKeyStream]

theorem salsaKeyStream_block (c : Nat) :
    (salsaKeyStream n k).block c = crypto_core_salsa20 (n.take 8 ++ LittleEndian.ofNat 8 c) k := by
  simp only [salsaKeyStream]

theorem crypto_stream_chacha20_xor_ic_eq (ic : BitVec 64) :
    crypto_stream_chacha20_xor_ic m n ic k =
      ((chachaKeyStream n k).cipher (· ^^^ ·)).output (64 * ic.toNat) m := by
  have hstart : chacha_keysetup k ++ chacha_ivsetup n ic = chachaState n k ic.toNat := by
    rw [chachaState, BitVec.ofNat_toNat, BitVec.setWidth_eq]
  rw [crypto_stream_chacha20_xor_ic, hstart]
  refine chacha20_encrypt_bytes_eq (chachaKeyStream n k) rfl (chachaKeyStream_block n k)
    (length_chachaState n k) (chachaNext_state n k) ic.toNat m

theorem crypto_stream_chacha20_ietf_xor_ic_eq (ic : Word32) :
    crypto_stream_chacha20_ietf_xor_ic m n ic k =
      ((chachaIetfKeyStream n k).cipher (· ^^^ ·)).output (64 * ic.toNat) m := by
  have hstart : chacha_keysetup k ++ chacha_ietf_ivsetup n ic = chachaIetfState n k ic.toNat := by
    rw [chachaIetfState, BitVec.ofNat_toNat, BitVec.setWidth_eq, Nat.div_eq_of_lt ic.isLt, BitVec.add_zero,
      chacha_ietf_ivsetup]
  rw [crypto_stream_chacha20_ietf_xor_ic, hstart]
  refine chacha20_encrypt_bytes_eq (chachaIetfKeyStream n k) rfl (chachaIetfKeyStream_block n k)
    (length_chachaIetfState n k) (chachaNext_ietfState n k) ic.toNat m

theorem salsaLoop_eq (fuel c : Nat) {m : List Byte} (hfuel : m.length < fuel) :
    salsaLoop n k fuel (LittleEndian.ofNat 8 c) m =
      ((salsaKeyStream n k).cipher (· ^^^ ·)).output (64 * c) m := by
  have hsize : (salsaKeyStream n k).size = 64 := rfl
  induction fuel generalizing c m with
  | zero => omega
  | succ fuel ih =>
    rw [salsaLoop, LittleEndian.carry_ofNat, ← hsize]
    split
    next hmore =>
      rw [(salsaKeyStream n k).output_blocks hmore, salsaKeyStream_block, hsize, ih (c + 1) (by rw [List.length_drop]; omega)]
    next hlast => rw [(salsaKeyStream n k).output_block (Nat.le_of_not_le hlast), salsaKeyStream_block]

theorem crypto_stream_salsa20_xor_ic_eq (ic : BitVec 64) :
    crypto_stream_salsa20_xor_ic m n ic k =
      ((salsaKeyStream n k).cipher (· ^^^ ·)).output (64 * ic.toNat) m := by
  rw [crypto_stream_salsa20_xor_ic]
  split
  next hempty =>
    obtain rfl : m = [] := List.length_eq_zero_iff.mp hempty
    rfl
  next => exact salsaLoop_eq n k (m.length + 1) ic.toNat (Nat.lt_succ_self _)

end

end SmartSocks.Crypto.Server
