import SmartSocks.Crypto.Aead
import SmartSocks.Crypto.CipherModes
import SmartSocks.Crypto.CryptBase

/-!
# `stream_encrypt` and `stream_decrypt`

All methods of `stream.c`: those of mbed TLS, and the three of libsodium, which
start at whole blocks only, so that a chunk is padded to the start of its block.
In front of the stream stands the nonce. The block ciphers and MD5 are a parameter.

A sent stream is that of one cipher that turns byte after byte into one byte
(`StreamT.cipher`), whatever its method is and wherever its chunks end
(`stream_update_spec`).
-/

namespace SmartSocks.Crypto.Server

open EasyValue

inductive Method
  | TABLE
  | RC4
  | RC4_MD5
  | AES_128_CFB
  | AES_192_CFB
  | AES_256_CFB
  | AES_128_CTR
  | AES_192_CTR
  | AES_256_CTR
  | BF_CFB
  | CAMELLIA_128_CFB
  | CAMELLIA_192_CFB
  | CAMELLIA_256_CFB
  | CAST5_CFB
  | DES_CFB
  | IDEA_CFB
  | RC2_CFB
  | SEED_CFB
  | SALSA20
  | CHACHA20
  | CHACHA20IETF
  deriving DecidableEq, Repr

/-- `method >= SALSA20` -/
def Method.sodium : Method → Bool
  | .SALSA20 | .CHACHA20 | .CHACHA20IETF => true
  | _ => false

/-- `method >= RC4_MD5` -/
def Method.screened : Method → Bool
  | .TABLE | .RC4 => false
  | _ => true

def SODIUM_BLOCK_SIZE : Nat := 64

/-- What `mbedtls_cipher_info_from_string` finds under `supported_stream_ciphers_mbedtls`. -/
def stream_get_cipher_type : Method → Option CipherInfo
  | .TABLE => none
  | .RC4 | .RC4_MD5 => some ⟨.STREAM, 128, 0, 1⟩
  | .AES_128_CFB => some ⟨.CFB, 128, 16, 16⟩
  | .AES_192_CFB => some ⟨.CFB, 192, 16, 16⟩
  | .AES_256_CFB => some ⟨.CFB, 256, 16, 16⟩
  | .AES_128_CTR => some ⟨.CTR, 128, 16, 16⟩
  | .AES_192_CTR => some ⟨.CTR, 192, 16, 16⟩
  | .AES_256_CTR => some ⟨.CTR, 256, 16, 16⟩
  | .BF_CFB => some ⟨.CFB, 128, 8, 8⟩
  | .CAMELLIA_128_CFB => some ⟨.CFB, 128, 16, 16⟩
  | .CAMELLIA_192_CFB => some ⟨.CFB, 192, 16, 16⟩
  | .CAMELLIA_256_CFB => some ⟨.CFB, 256, 16, 16⟩
  | .CAST5_CFB | .DES_CFB | .IDEA_CFB | .RC2_CFB | .SEED_CFB => none
  | .SALSA20 | .CHACHA20 | .CHACHA20IETF => none

/-- `cipher_t`, with the functions that it calls: the block cipher of the method under a
key, and MD5. -/
structure StreamT where
  method : Method
  key : List Byte
  nonce_len : Nat
  ecb : List Byte → List Byte → List Byte
  crypto_md5 : List Byte → List Byte

/-- `cipher_ctx_t` -/
structure StreamCtx where
  init : Nat := 0
  counter : Nat := 0
  evp : Option Evp := none
  chunk : List Byte := []
  nonce : List Byte := []
  deriving DecidableEq, Repr

/-- `stream_key_init`, with the key already derived; `none` is `FATAL`. -/
def stream_key_init (method : Method) (key : List Byte) (ecb : List Byte → List Byte → List Byte)
    (crypto_md5 : List Byte → List Byte) : Option StreamT :=
  match method with
  | .SALSA20 | .CHACHA20 => some { method, key, nonce_len := 8, ecb, crypto_md5 }
  | .CHACHA20IETF => some { method, key, nonce_len := 12, ecb, crypto_md5 }
  | .RC4_MD5 => (stream_get_cipher_type method).map fun _ => { method, key, nonce_len := 16, ecb, crypto_md5 }
  | _ => (stream_get_cipher_type method).map fun info =>
      { method, key, nonce_len := info.iv_size, ecb, crypto_md5 }

def crypto_stream_xor_ic (m n : List Byte) (ic : BitVec 64) (k : List Byte) : Method → List Byte
  | .SALSA20 => crypto_stream_salsa20_xor_ic m n ic k
  | .CHACHA20 => crypto_stream_chacha20_xor_ic m n ic k
  | .CHACHA20IETF => crypto_stream_chacha20_ietf_xor_ic m n (ic.setWidth 32) k
  | _ => []

section
variable (cipher : StreamT)

def stream_ctx_init (random : List Byte) (enc : Bool) : StreamCtx where
  evp := (stream_get_cipher_type cipher.method).map fun cipher_info => { cipher_info }
  nonce := if enc then random.take cipher.nonce_len else []

/-- `cipher_ctx_set_nonce`; the key and the nonce are of the sizes that mbed TLS wants. -/
def cipher_ctx_set_nonce (ctx : StreamCtx) (nonce : List Byte) : StreamCtx :=
  if cipher.method.sodium then ctx
  else
    let (true_key, iv) :=
      if cipher.method = .RC4_MD5 then (cipher.crypto_md5 (cipher.key.take 16 ++ nonce.take 16), [])
      else (cipher.key, nonce.take cipher.nonce_len)
    { ctx with
      evp := ctx.evp.map fun evp =>
        { evp with key := true_key, iv := iv, unprocessed_len := 0, arc4 := mbedtls_arc4_setup true_key } }

/-- The part that encrypts or decrypts a chunk; `none` is an error of mbed TLS. -/
def stream_update (decrypt : Bool) (ctx : StreamCtx) (input : List Byte) : Option (List Byte × StreamCtx) :=
  if cipher.method.sodium then
    let padding := ctx.counter % SODIUM_BLOCK_SIZE
    let output := crypto_stream_xor_ic (List.replicate padding 0 ++ input) ctx.nonce
      (BitVec.ofNat 64 (ctx.counter / SODIUM_BLOCK_SIZE)) cipher.key cipher.method
    some ((output.drop padding).take input.length,
      { ctx with counter := (ctx.counter + input.length) % 2 ^ 64 })
  else
    -- `cipher_ctx_update`
    ctx.evp.map fun evp =>
      ((mbedtls_cipher_update cipher.ecb decrypt).output evp input,
        { ctx with evp := some ((mbedtls_cipher_update cipher.ecb decrypt).next evp input) })

def stream_encrypt (plaintext : List Byte) (ctx : StreamCtx) : Verdict × List Byte × StreamCtx :=
  let front := if ctx.init = 0 then ctx.nonce else []
  let ctx :=
    if ctx.init = 0 then { cipher_ctx_set_nonce cipher ctx ctx.nonce with counter := 0, init := 1 } else ctx
  match stream_update cipher false ctx plaintext with
  | none => (.error, plaintext, ctx)
  | some (ciphertext, ctx) => (.ok, front ++ ciphertext, ctx)

/-- The part of `stream_decrypt` behind the nonce. -/
def streamDecryptRest (pp : Ppbloom) (ciphertext : List Byte) (ctx : StreamCtx) :
    Verdict × List Byte × StreamCtx × Ppbloom :=
  if ciphertext.length ≤ 0 then (.needMore, ciphertext, ctx, pp)
  else
    match stream_update cipher true ctx ciphertext with
    | none => (.error, ciphertext, ctx, pp)
    | some (plaintext, ctx) =>
      if ctx.init = 1 ∧ cipher.method.screened then
        (.ok, plaintext, { ctx with init := 2 }, ppbloom_add pp (ctx.nonce.take cipher.nonce_len))
      else (.ok, plaintext, ctx, pp)

def stream_decrypt (pp : Ppbloom) (ciphertext : List Byte) (ctx : StreamCtx) :
    Verdict × List Byte × StreamCtx × Ppbloom :=
  if ctx.init = 0 then
    let left_len := min (cipher.nonce_len - ctx.chunk.length) ciphertext.length
    let chunk := ctx.chunk ++ ciphertext.take left_len
    let ciphertext := ciphertext.drop left_len
    if chunk.length < cipher.nonce_len then (.needMore, ciphertext, { ctx with chunk }, pp)
    else
      let nonce := chunk.take cipher.nonce_len
      let ctx := { cipher_ctx_set_nonce cipher { ctx with chunk, nonce } nonce with counter := 0, init := 1 }
      if cipher.method.screened ∧ ppbloom_check pp nonce then (.error, ciphertext, ctx, pp)
      else streamDecryptRest cipher pp ciphertext ctx
  else streamDecryptRest cipher pp ciphertext ctx

end

-- ---------------------------------------------------------------------------
-- One cipher for all methods
-- ---------------------------------------------------------------------------

/-- The key stream of a method of libsodium. -/
def StreamT.keyStream (cipher : StreamT) (nonce : List Byte) : KeyStream Byte :=
  match cipher.method with
  | .SALSA20 => salsaKeyStream nonce cipher.key
  | .CHACHA20 => chachaKeyStream nonce cipher.key
  | _ => chachaIetfKeyStream nonce cipher.key

/-- A method of mbed TLS, or the position in a key stream. -/
def StreamT.transducer (cipher : StreamT) (decrypt : Bool) : Transducer (Evp ⊕ List Byte × Nat) Byte Byte :=
  (mbedtls_cipher_update cipher.ecb decrypt).sum
    (.indexed fun nonce => (cipher.keyStream nonce).cipher (· ^^^ ·))

/-- As many bytes as a nonce of libsodium has a key stream for. -/
def StreamT.limit (cipher : StreamT) : Nat :=
  if cipher.method = .CHACHA20IETF then 2 ^ 38 else 2 ^ 64

/-- The state of the cipher that a context is in. -/
inductive StreamCtx.Runs (cipher : StreamT) (ctx : StreamCtx) : Evp ⊕ List Byte × Nat → Prop
  | evp (evp : Evp) (method : cipher.method.sodium = false) (h : ctx.evp = some evp) : Runs cipher ctx (.inl evp)
  | sodium (method : cipher.method.sodium = true) : Runs cipher ctx (.inr (ctx.nonce, ctx.counter))

section
variable {cipher : StreamT} {ctx : StreamCtx} {s : Evp ⊕ List Byte × Nat} {input : List Byte}

theorem StreamT.size_keyStream (cipher : StreamT) (nonce : List Byte) : (cipher.keyStream nonce).size = 64 := by
  simp only [StreamT.keyStream]
  split <;> rfl

theorem StreamT.inverts (cipher : StreamT) : (cipher.transducer true).Inverts (cipher.transducer false) :=
  (mbedtls_cipher_update_inverts cipher.ecb).sum (.indexed fun nonce => (cipher.keyStream nonce).inverts xor_xor_right)

/-- From the start of a block on, as long as the counter of the blocks does not wrap. -/
theorem crypto_stream_xor_ic_eq (hmethod : cipher.method.sodium = true) {p : Nat} (hp : p < cipher.limit)
    (m n : List Byte) :
    crypto_stream_xor_ic m n (BitVec.ofNat 64 (p / 64)) cipher.key cipher.method =
      ((cipher.keyStream n).cipher (· ^^^ ·)).output (64 * (p / 64)) m := by
  have hcounter (hp : p < 2 ^ 64) : (BitVec.ofNat 64 (p / 64)).toNat = p / 64 := by
    rw [BitVec.toNat_ofNat]
    omega
  rw [StreamT.limit] at hp
  simp only [StreamT.keyStream]
  cases hm : cipher.method with
  | SALSA20 =>
    rw [if_neg (by simp [hm])] at hp
    simp only [crypto_stream_xor_ic, crypto_stream_salsa20_xor_ic_eq, hcounter hp]
  | CHACHA20 =>
    rw [if_neg (by simp [hm])] at hp
    simp only [crypto_stream_xor_ic, crypto_stream_chacha20_xor_ic_eq, hcounter hp]
  | CHACHA20IETF =>
    rw [if_pos hm] at hp
    have hlow : ((BitVec.ofNat 64 (p / 64)).setWidth 32).toNat = p / 64 := by
      rw [BitVec.toNat_setWidth, BitVec.toNat_ofNat]
      omega
    simp only [crypto_stream_xor_ic, crypto_stream_chacha20_ietf_xor_ic_eq, hlow]
  | _ => simp [hm, Method.sodium] at hmethod

/-- A chunk goes through the cipher byte after byte, whatever has gone through it before. -/
theorem stream_update_spec (decrypt : Bool) (h : ctx.Runs cipher s)
    (hroom : cipher.method.sodium = true → ctx.counter + input.length < cipher.limit) :
    ∃ ctx', stream_update cipher decrypt ctx input = some ((cipher.transducer decrypt).output s input, ctx') ∧
      ctx'.Runs cipher ((cipher.transducer decrypt).next s input) ∧
      ctx' = { ctx with evp := ctx'.evp, counter := ctx'.counter } ∧
      (cipher.method.sodium = true → ctx'.counter = ctx.counter + input.length) := by
  simp only [stream_update]
  cases h with
  | evp evp hmethod hevp =>
    obtain ⟨houtput, hnext⟩ := Transducer.run_inl (mbedtls_cipher_update cipher.ecb decrypt)
      (.indexed fun nonce => (cipher.keyStream nonce).cipher (· ^^^ ·)) evp input
    simp only [StreamT.transducer, houtput, hnext, hmethod, hevp]
    exact ⟨_, rfl, .evp _ hmethod rfl, rfl, nofun⟩
  | sodium hmethod =>
    obtain ⟨houtput, hnext⟩ := Transducer.run_inr (mbedtls_cipher_update cipher.ecb decrypt)
      (.indexed fun nonce => (cipher.keyStream nonce).cipher (· ^^^ ·)) (ctx.nonce, ctx.counter) input
    obtain ⟨hblocks, hpos⟩ := Transducer.run_indexed
      (fun nonce => (cipher.keyStream nonce).cipher (· ^^^ ·)) ctx.nonce ctx.counter input
    have hroom := hroom hmethod
    have hstart : ctx.counter < cipher.limit := by omega
    have hlimit : cipher.limit ≤ 2 ^ 64 := by
      rw [StreamT.limit]
      split <;> decide
    have hdrop : (((cipher.keyStream ctx.nonce).cipher (· ^^^ ·)).output (64 * (ctx.counter / 64))
          (List.replicate (ctx.counter % 64) 0 ++ input)).drop (ctx.counter % 64) =
        ((cipher.keyStream ctx.nonce).cipher (· ^^^ ·)).output ctx.counter input := by
      have hpad : (List.replicate (ctx.counter % 64) (0 : Byte)).length =
          ctx.counter % (cipher.keyStream ctx.nonce).size := by
        rw [List.length_replicate, cipher.size_keyStream]
      rw [← (cipher.keyStream ctx.nonce).output_pad hpad, List.length_replicate, cipher.size_keyStream]
    have hcounter : (ctx.counter + input.length) % 2 ^ 64 = ctx.counter + input.length :=
      Nat.mod_eq_of_lt (by omega)
    simp only [StreamT.transducer, houtput, hnext, hblocks, hpos, hmethod, if_true, SODIUM_BLOCK_SIZE,
      crypto_stream_xor_ic_eq hmethod hstart, hdrop, KeyStream.next_cipher, hcounter]
    refine ⟨{ ctx with counter := ctx.counter + input.length }, ?_, .sodium hmethod, rfl, fun _ => rfl⟩
    rw [List.take_of_length_le (Nat.le_of_eq (Transducer.length_output ..))]

end

end SmartSocks.Crypto.Server
