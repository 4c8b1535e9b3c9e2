import SmartSocks.Library.Transducer
import SmartSocks.Utils.EasyValue

/-!
# The modes of mbed TLS

What `mbedtls_cipher_update` calls for the ciphers of `stream.c`. CFB, CTR and ARC4
go through a message byte by byte and keep all they need in the context, so each is
a transducer, and one that decrypts inverts one that encrypts, whatever the block
cipher is (`mbedtls_cipher_update_inverts`).
-/

namespace SmartSocks.Crypto.Server

open EasyValue

inductive CipherMode
  | CFB
  | CTR
  | STREAM
  deriving DecidableEq, Repr

/-- `mbedtls_cipher_info_t` -/
structure CipherInfo where
  mode : CipherMode
  key_bitlen : Nat
  iv_size : Nat
  block_size : Nat
  deriving DecidableEq, Repr

/-- `mbedtls_arc4_context` -/
structure Arc4 where
  x : Nat := 0
  y : Nat := 0
  m : List Byte := []
  deriving DecidableEq, Repr

/-- `mbedtls_cipher_context_t`; `key` stands for what `setkey` makes of it. -/
structure Evp where
  cipher_info : CipherInfo
  key : List Byte := []
  iv : List Byte := []
  unprocessed_data : List Byte := []
  unprocessed_len : Nat := 0
  arc4 : Arc4 := {}
  deriving DecidableEq, Repr

/-- The second loop of `mbedtls_arc4_setup`. -/
def arc4Schedule (key : List Byte) : List Nat → Nat → Nat → List Byte → List Byte
  | [], _, _, m => m
  | i :: is, j, k, m =>
    let k := if key.length ≤ k then 0 else k
    let a := m.getD i 0
    let j := (j + a.toNat + (key.getD k 0).toNat) &&& 0xFF
    arc4Schedule key is j (k + 1) ((m.set i (m.getD j 0)).set j a)

def mbedtls_arc4_setup (key : List Byte) : Arc4 where
  m := arc4Schedule key (List.range 256) 0 0 ((List.range 256).map (BitVec.ofNat 8))

/-- One byte in `mbedtls_arc4_crypt`. -/
def arc4Crypt (ctx : Arc4) (input : Byte) : Arc4 × Byte :=
  let x := (ctx.x + 1) &&& 0xFF
  let a := ctx.m.getD x 0
  let y := (ctx.y + a.toNat) &&& 0xFF
  let b := ctx.m.getD y 0
  let m := (ctx.m.set x b).set y a
  ({ x, y, m }, input ^^^ m.getD (a + b).toNat 0)

/-- One byte in `mbedtls_aes_crypt_cfb128`; Camellia and Blowfish have the same loop for
their own blocks. -/
def cfbCrypt (ecb : List Byte → List Byte) (decrypt : Bool) (evp : Evp) (input : Byte) : Evp × Byte :=
  let n := evp.unprocessed_len
  let iv := if n = 0 then ecb evp.iv else evp.iv
  let output := iv.getD n 0 ^^^ input
  ({ evp with
      iv := iv.set n (if decrypt then input else output)
      unprocessed_len := (n + 1) % evp.cipher_info.block_size }, output)

/-- `++nonce_counter[i - 1]` until one is not zero, from the last byte on. -/
def counterLoop : List Byte → List Byte
  | [] => []
  | b :: bs => if b + 1 ≠ 0 then (b + 1) :: bs else (b + 1) :: counterLoop bs

/-- One byte in `mbedtls_aes_crypt_ctr`; `iv` is the counter and `unprocessed_data` its block. -/
def ctrCrypt (ecb : List Byte → List Byte) (evp : Evp) (input : Byte) : Evp × Byte :=
  let n := evp.unprocessed_len
  let evp :=
    if n = 0 then
      { evp with unprocessed_data := ecb evp.iv, iv := (counterLoop evp.iv.reverse).reverse }
    else evp
  ({ evp with unprocessed_len := (n + 1) &&& 0x0F }, input ^^^ evp.unprocessed_data.getD n 0)

/-- `ecb` encrypts a block under a key. -/
def mbedtls_cipher_update (ecb : List Byte → List Byte → List Byte) (decrypt : Bool) : Transducer Evp Byte Byte where
  step evp input :=
    match evp.cipher_info.mode with
    | .CFB => cfbCrypt (ecb evp.key) decrypt evp input
    | .CTR => ctrCrypt (ecb evp.key) evp input
    | .STREAM =>
      let (arc4, output) := arc4Crypt evp.arc4 input
      ({ evp with arc4 }, output)

theorem xor_xor (a b : Byte) : a ^^^ (a ^^^ b) = b := by
  rw [← BitVec.xor_assoc, BitVec.xor_self, BitVec.zero_xor]

theorem xor_xor_right (a b : Byte) : a ^^^ b ^^^ b = a := by
  rw [BitVec.xor_assoc, BitVec.xor_self, BitVec.xor_zero]

section
variable (ecb : List Byte → List Byte → List Byte)

theorem cfbCrypt_inverts (evp : Evp) (input : Byte) :
    cfbCrypt (ecb evp.key) true evp (cfbCrypt (ecb evp.key) false evp input).2 =
      ((cfbCrypt (ecb evp.key) false evp input).1, input) := by
  simp only [cfbCrypt, xor_xor, if_true, Bool.false_eq_true, if_false]

/-- The key does not depend on the message, so the same function goes both ways. -/
theorem ctrCrypt_inverts (evp : Evp) (input : Byte) :
    ctrCrypt (ecb evp.key) evp (ctrCrypt (ecb evp.key) evp input).2 =
      ((ctrCrypt (ecb evp.key) evp input).1, input) := by
  simp only [ctrCrypt, xor_xor_right]

theorem arc4Crypt_inverts (ctx : Arc4) (input : Byte) :
    arc4Crypt ctx (arc4Crypt ctx input).2 = ((arc4Crypt ctx input).1, input) := by
  simp only [arc4Crypt, xor_xor_right]

theorem mbedtls_cipher_update_inverts :
    (mbedtls_cipher_update ecb true).Inverts (mbedtls_cipher_update ecb false) := by
  intro evp input
  simp only [mbedtls_cipher_update]
  cases hmode : evp.cipher_info.mode with
  | CFB => simp only [cfbCrypt_inverts]
  | CTR => simp only [ctrCrypt_inverts]
  | STREAM => simp only [arc4Crypt_inverts]

end

end SmartSocks.Crypto.Server
