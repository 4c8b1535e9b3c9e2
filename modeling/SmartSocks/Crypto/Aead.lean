import SmartSocks.Crypto.CryptoT
import SmartSocks.Crypto.Sodium
import SmartSocks.Library.Framing

/-!
# `aead_encrypt` and `aead_decrypt`

A chunk of at most `CHUNK_SIZE_MASK` bytes is sealed in two pieces: its length, then
its bytes. Each piece takes the next nonce. In front of the first chunk stands the
salt that the subkey is derived from. The ciphers of mbed TLS and libsodium are a
parameter.

The assertions of `aead.c` are left out: no buffer of `server.c` holds more than
`BUF_SIZE` bytes, and what is opened is shorter than what was sealed by a tag.
-/

namespace SmartSocks.Crypto.Server

open EasyValue

def CHUNK_SIZE_LEN : Nat := 2

def CHUNK_SIZE_MASK : Nat := 0x3FFF

/-- A cipher with its key. `none` is a return value other than `CRYPTO_OK`. -/
structure Aead where
  key_len : Nat
  nonce_len : Nat
  tag_len : Nat
  crypto_hkdf : List Byte → List Byte
  aead_cipher_encrypt : (m n k : List Byte) → Option (List Byte)
  aead_cipher_decrypt : (c n k : List Byte) → Option (List Byte)

/-- `cipher_ctx_t`; `init` counts what has been done with the salt. -/
structure AeadCtx where
  init : Nat := 0
  chunk : List Byte := []
  salt : List Byte := []
  skey : List Byte := []
  nonce : List Byte := []
  deriving DecidableEq, Repr

section
variable (A : Aead)

def aead_ctx_init (random : List Byte) (enc : Bool) : AeadCtx :=
  if enc then { salt := random.take A.key_len } else {}

def aead_cipher_ctx_set_key (ctx : AeadCtx) : AeadCtx :=
  { ctx with skey := A.crypto_hkdf ctx.salt, nonce := List.replicate A.nonce_len 0 }

/-- `htons` of the length, in memory. -/
def lenBuf (plen : Nat) : List Byte :=
  let t := plen &&& CHUNK_SIZE_MASK
  [BitVec.ofNat 8 (t / 256), BitVec.ofNat 8 t]

def aead_chunk_encrypt (ctx : AeadCtx) (p : List Byte) : Verdict × List Byte × AeadCtx :=
  let plen := p.length % 2 ^ 16
  match A.aead_cipher_encrypt (lenBuf plen) ctx.nonce ctx.skey with
  | none => (.error, [], ctx)
  | some c =>
    let ctx := { ctx with nonce := sodium_increment ctx.nonce }
    match A.aead_cipher_encrypt (p.take plen) ctx.nonce ctx.skey with
    | none => (.error, [], ctx)
    | some c' => (.ok, c ++ c', { ctx with nonce := sodium_increment ctx.nonce })

/-- On an error the buffer is as it was. -/
def aead_encrypt (plaintext : List Byte) (ctx : AeadCtx) : Verdict × List Byte × AeadCtx :=
  if plaintext.length = 0 then (.ok, plaintext, ctx)
  else
    let front := if ctx.init = 0 then ctx.salt else []
    let ctx := if ctx.init = 0 then { aead_cipher_ctx_set_key A ctx with init := 1 } else ctx
    match aead_chunk_encrypt A ctx plaintext with
    | (.ok, ciphertext, ctx) => (.ok, front ++ ciphertext, ctx)
    | (err, _, ctx) => (err, plaintext, ctx)

/-- `ntohs` of two bytes of memory. -/
def ntohs (len_buf : List Byte) : Nat := (len_buf.getD 0 0).toNat * 256 + (len_buf.getD 1 0).toNat

/-- What is taken off the front of `chunk` is in the context that is returned. -/
def aead_chunk_decrypt (ctx : AeadCtx) : Verdict × List Byte × AeadCtx :=
  let clen := ctx.chunk.length
  let tlen := A.tag_len
  if clen ≤ 2 * tlen + CHUNK_SIZE_LEN then (.needMore, [], ctx)
  else
    match A.aead_cipher_decrypt (ctx.chunk.take (CHUNK_SIZE_LEN + tlen)) ctx.nonce ctx.skey with
    | none => (.error, [], ctx)
    | some len_buf =>
      let mlen := ntohs len_buf &&& CHUNK_SIZE_MASK
      if mlen = 0 then (.error, [], ctx)
      else
        let chunk_len := 2 * tlen + CHUNK_SIZE_LEN + mlen
        if clen < chunk_len then (.needMore, [], ctx)
        else
          let ctx := { ctx with nonce := sodium_increment ctx.nonce }
          let c := (ctx.chunk.drop (CHUNK_SIZE_LEN + tlen)).take (mlen + tlen)
          match A.aead_cipher_decrypt c ctx.nonce ctx.skey with
          | none => (.error, [], ctx)
          | some p =>
            (.ok, p, { ctx with nonce := sodium_increment ctx.nonce, chunk := ctx.chunk.drop chunk_len })

/-- The loop of `aead_decrypt`. A chunk that is taken is not empty, so `fuel` runs out together
with `chunk`. -/
def aeadDecryptLoop : Nat → List Byte → AeadCtx → Verdict × List Byte × AeadCtx
  | 0, plaintext, ctx => (.ok, plaintext, ctx)
  | fuel + 1, plaintext, ctx =>
    if ctx.chunk.length = 0 then (.ok, plaintext, ctx)
    else
      match aead_chunk_decrypt A ctx with
      | (.error, _, ctx) => (.error, plaintext, ctx)
      | (.needMore, _, ctx) => (if plaintext.length = 0 then .needMore else .ok, plaintext, ctx)
      | (.ok, p, ctx) => aeadDecryptLoop fuel (plaintext ++ p) ctx

/-- The loop, and what follows it. -/
def aeadDecryptRest (pp : Ppbloom) (ciphertext : List Byte) (ctx : AeadCtx) :
    Verdict × List Byte × AeadCtx × Ppbloom :=
  match aeadDecryptLoop A ctx.chunk.length [] ctx with
  | (.ok, plaintext, ctx) =>
    if ctx.init = 1 then (.ok, plaintext, { ctx with init := 2 }, ppbloom_add pp ctx.salt)
    else (.ok, plaintext, ctx, pp)
  | (err, _, ctx) => (err, ciphertext, ctx, pp)

/-- Unless it answers `ok`, the buffer is as it was. -/
def aead_decrypt (pp : Ppbloom) (ciphertext : List Byte) (ctx : AeadCtx) :
    Verdict × List Byte × AeadCtx × Ppbloom :=
  let ctx := { ctx with chunk := ctx.chunk ++ ciphertext }
  if ctx.init = 0 then
    if ctx.chunk.length ≤ A.key_len then (.needMore, ciphertext, ctx, pp)
    else
      let ctx := aead_cipher_ctx_set_key A { ctx with salt := ctx.chunk.take A.key_len }
      if ppbloom_check pp ctx.salt then (.error, ciphertext, ctx, pp)
      else aeadDecryptRest A pp ciphertext { ctx with chunk := ctx.chunk.drop A.key_len, init := 1 }
  else aeadDecryptRest A pp ciphertext ctx

end

-- ---------------------------------------------------------------------------
-- One chunk
-- ---------------------------------------------------------------------------

/-- What the cipher is documented to do. -/
structure Aead.Lawful (A : Aead) : Prop where
  encrypt_length : ∀ {m n k c}, A.aead_cipher_encrypt m n k = some c → c.length = m.length + A.tag_len
  decrypt_length : ∀ {c n k m}, A.aead_cipher_decrypt c n k = some m → c.length = m.length + A.tag_len
  decrypt_encrypt : ∀ {m n k c}, A.aead_cipher_encrypt m n k = some c → A.aead_cipher_decrypt c n k = some m

/-- The reader of the chunks under a subkey; its state is the nonce. -/
def chunkRead (A : Aead) (skey nonce chunk : List Byte) : Framing.Read (List Byte) (List Byte) Byte :=
  match aead_chunk_decrypt A { skey, nonce, chunk } with
  | (.ok, p, ctx) => .frame p ctx.nonce ctx.chunk
  | (.needMore, _, _) => .needMore
  | (.error, _, _) => .error

/-- The two pieces of a chunk, and the nonce behind them. -/
def ChunkFrame (A : Aead) (skey nonce p nonce' bytes : List Byte) : Prop :=
  0 < p.length ∧ p.length ≤ CHUNK_SIZE_MASK ∧ ∃ c c',
    A.aead_cipher_encrypt (lenBuf p.length) nonce skey = some c ∧
    A.aead_cipher_encrypt p (sodium_increment nonce) skey = some c' ∧
    nonce' = sodium_increment (sodium_increment nonce) ∧ bytes = c ++ c'

section
variable {A : Aead} {skey nonce nonce' chunk p rest : List Byte}

/-- What a chunk that is taken is made of. -/
theorem chunkRead_frame_iff : chunkRead A skey nonce chunk = .frame p nonce' rest ↔
    ∃ len_buf, 2 * A.tag_len + CHUNK_SIZE_LEN < chunk.length ∧
      A.aead_cipher_decrypt (chunk.take (CHUNK_SIZE_LEN + A.tag_len)) nonce skey = some len_buf ∧
      ntohs len_buf &&& CHUNK_SIZE_MASK ≠ 0 ∧
      2 * A.tag_len + CHUNK_SIZE_LEN + (ntohs len_buf &&& CHUNK_SIZE_MASK) ≤ chunk.length ∧
      A.aead_cipher_decrypt
        ((chunk.drop (CHUNK_SIZE_LEN + A.tag_len)).take ((ntohs len_buf &&& CHUNK_SIZE_MASK) + A.tag_len))
        (sodium_increment nonce) skey = some p ∧
      nonce' = sodium_increment (sodium_increment nonce) ∧
      rest = chunk.drop (2 * A.tag_len + CHUNK_SIZE_LEN + (ntohs len_buf &&& CHUNK_SIZE_MASK)) := by
  simp only [chunkRead, aead_chunk_decrypt]
  by_cases hshort : chunk.length ≤ 2 * A.tag_len + CHUNK_SIZE_LEN
  · simp [hshort, Nat.not_lt.mpr hshort]
  rcases hlen : A.aead_cipher_decrypt (chunk.take (CHUNK_SIZE_LEN + A.tag_len)) nonce skey with _ | len_buf
  · simp [hshort]
  by_cases hzero : ntohs len_buf &&& CHUNK_SIZE_MASK = 0
  · simp [hshort, hzero]
  by_cases hmore : chunk.length < 2 * A.tag_len + CHUNK_SIZE_LEN + (ntohs len_buf &&& CHUNK_SIZE_MASK)
  · simp [hshort, hzero, hmore, Nat.not_le.mpr hmore]
  rcases hp : A.aead_cipher_decrypt
      ((chunk.drop (CHUNK_SIZE_LEN + A.tag_len)).take ((ntohs len_buf &&& CHUNK_SIZE_MASK) + A.tag_len))
      (sodium_increment nonce) skey with _ | p'
  · simp [hshort, hzero, hmore, hp]
  · simp only [hshort, hzero, hmore, hp, Nat.not_le.mp hshort]
    simp [hzero, Nat.not_lt.mp hmore, hp, eq_comm (a := nonce'), eq_comm (a := rest)]

/-- The rest of the context only goes along. -/
theorem aead_chunk_decrypt_eq (A : Aead) (ctx : AeadCtx) :
    match chunkRead A ctx.skey ctx.nonce ctx.chunk with
    | .needMore => aead_chunk_decrypt A ctx = (.needMore, [], ctx)
    | .error => ∃ ctx', aead_chunk_decrypt A ctx = (.error, [], ctx')
    | .frame p nonce rest => aead_chunk_decrypt A ctx = (.ok, p, { ctx with nonce := nonce, chunk := rest }) := by
  simp only [chunkRead, aead_chunk_decrypt]
  by_cases hshort : ctx.chunk.length ≤ 2 * A.tag_len + CHUNK_SIZE_LEN
  · simp [hshort]
  rcases hlen : A.aead_cipher_decrypt (ctx.chunk.take (CHUNK_SIZE_LEN + A.tag_len)) ctx.nonce ctx.skey with
    _ | len_buf
  · simp [hshort]
  by_cases hzero : ntohs len_buf &&& CHUNK_SIZE_MASK = 0
  · simp [hshort, hzero]
  by_cases hmore : ctx.chunk.length < 2 * A.tag_len + CHUNK_SIZE_LEN + (ntohs len_buf &&& CHUNK_SIZE_MASK)
  · simp [hshort, hzero, hmore]
  rcases hp : A.aead_cipher_decrypt
      ((ctx.chunk.drop (CHUNK_SIZE_LEN + A.tag_len)).take ((ntohs len_buf &&& CHUNK_SIZE_MASK) + A.tag_len))
      (sodium_increment ctx.nonce) ctx.skey with _ | p <;> simp [hshort, hzero, hmore, hp]

theorem ntohs_lenBuf {n : Nat} (hn : n ≤ CHUNK_SIZE_MASK) : ntohs (lenBuf n) &&& CHUNK_SIZE_MASK = n := by
  have hmask (k : Nat) : k &&& CHUNK_SIZE_MASK = k % 2 ^ 14 := Nat.and_two_pow_sub_one_eq_mod k 14
  have hlt : n < 2 ^ 14 := Nat.lt_of_le_of_lt hn (by decide)
  simp only [ntohs, lenBuf, hmask, List.getD_cons_zero, List.getD_cons_succ, BitVec.toNat_ofNat]
  omega

theorem chunkRead_stable (A : Aead) (skey : List Byte) : Framing.Stable (chunkRead A skey) := by
  intro nonce bytes p nonce' rest more h
  obtain ⟨len_buf, hlong, hlen, hzero, hwhole, hp, rfl, rfl⟩ := chunkRead_frame_iff.mp h
  have htake : (bytes ++ more).take (CHUNK_SIZE_LEN + A.tag_len) = bytes.take (CHUNK_SIZE_LEN + A.tag_len) :=
    List.take_append_of_le_length (by omega)
  have hdrop (n : Nat) (hn : n ≤ bytes.length) : (bytes ++ more).drop n = bytes.drop n ++ more :=
    List.drop_append_of_le_length hn
  refine chunkRead_frame_iff.mpr ⟨len_buf, ?_, by rwa [htake], hzero, ?_, ?_, rfl, (hdrop _ hwhole).symm⟩
  · rw [List.length_append]
    omega
  · rw [List.length_append]
    omega
  · rw [hdrop _ (by omega), List.take_append_of_le_length]
    · exact hp
    · rw [List.length_drop]
      omega

/-- A whole chunk is taken, and a part of one is left until there is more. -/
theorem chunkRead_reader (hA : A.Lawful) (skey : List Byte) :
    Framing.Reader (fun nonce p => ChunkFrame A skey nonce p) (chunkRead A skey) where
  whole := by
    rintro nonce p nonce' bytes rest ⟨hpos, hmax, c, c', hc, hc', rfl, rfl⟩
    have hclen := hA.encrypt_length hc
    have hclen' := hA.encrypt_length hc'
    have hlen : (lenBuf p.length).length = CHUNK_SIZE_LEN := rfl
    rw [hlen] at hclen
    have hmask := ntohs_lenBuf hmax
    refine chunkRead_frame_iff.mpr ⟨lenBuf p.length, ?_, ?_, ?_, ?_, ?_, rfl, ?_⟩
    · simp only [List.length_append]
      omega
    · rw [List.append_assoc, List.take_left' hclen]
      exact hA.decrypt_encrypt hc
    · rw [hmask]
      exact hpos.ne'
    · rw [hmask]
      simp only [List.length_append]
      omega
    · rw [hmask, List.append_assoc, List.drop_left' hclen, List.take_left' hclen']
      exact hA.decrypt_encrypt hc'
    · rw [hmask, List.drop_left']
      rw [List.length_append]
      omega
  part := by
    rintro nonce p nonce' bytes part ⟨hpos, hmax, c, c', hc, hc', rfl, rfl⟩ hpart hshort
    have hclen := hA.encrypt_length hc
    have hclen' := hA.encrypt_length hc'
    have hlen : (lenBuf p.length).length = CHUNK_SIZE_LEN := rfl
    rw [hlen] at hclen
    have hmask := ntohs_lenBuf hmax
    rw [List.length_append] at hshort
    simp only [chunkRead, aead_chunk_decrypt]
    by_cases hfew : part.length ≤ 2 * A.tag_len + CHUNK_SIZE_LEN
    · simp [hfew]
    · have htake : part.take (CHUNK_SIZE_LEN + A.tag_len) = c := by
        rw [List.prefix_iff_eq_take.mp hpart, List.take_take, Nat.min_eq_left (by omega),
          List.take_left' hclen]
      have hmore : part.length < 2 * A.tag_len + CHUNK_SIZE_LEN + p.length := by omega
      simp [hfew, htake, hA.decrypt_encrypt hc, hmask, hpos.ne', hmore]
  empty nonce := by simp [chunkRead, aead_chunk_decrypt]

end

-- ---------------------------------------------------------------------------
-- A cipher
-- ---------------------------------------------------------------------------

/-- The tag is the lowest byte of the nonce. -/
def tagged : Aead where
  key_len := 2
  nonce_len := 2
  tag_len := 1
  crypto_hkdf salt := salt
  aead_cipher_encrypt m n _ := some (m ++ [n.headD 0])
  aead_cipher_decrypt c n _ := if c.getLast? = some (n.headD 0) then some c.dropLast else none

theorem tagged_lawful : tagged.Lawful where
  encrypt_length := by
    rintro m n k c ⟨⟩
    exact List.length_append
  decrypt_length := by
    intro c n k m h
    simp only [tagged, Option.ite_none_right_eq_some, Option.some.injEq] at h
    obtain ⟨hlast, rfl⟩ := h
    have hne : c ≠ [] := by
      rintro rfl
      simp at hlast
    rw [List.length_dropLast, tagged, Nat.sub_add_cancel (List.length_pos_iff.mpr hne)]
  decrypt_encrypt := by
    rintro m n k c ⟨⟩
    simp [tagged]

end SmartSocks.Crypto.Server
