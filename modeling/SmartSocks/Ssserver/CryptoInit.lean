import SmartSocks.Crypto.Stream
import SmartSocks.Library.Base64
import SmartSocks.Library.Trace
import SmartSocks.Ssserver.CryptoDeriveKey

/-!
# `crypto_init`

What the server encrypts with. `FATAL` logs its message and returns, so whoever calls it
goes on with what it has: a `NULL`, a length of zero, or a random key.
-/

namespace SmartSocks.Ssserver

open Jvm Crypto

/-- The characters before the zero. -/
abbrev CString := List Byte

def chars (s : String) : CString := s.toList.map fun c => BitVec.ofNat 8 c.toNat

inductive Check
  | usage
  | fatal (msg : String)
  deriving DecidableEq, Repr

/-- The watchers of a server's own sockets. -/
inductive Watcher
  | accept
  | udprelay
  deriving DecidableEq, Repr

/-- What the start of a server leaves behind. -/
inductive Effect
  | failed (check : Check)
  | bound (fd : Nat)
  | listening (fd : Nat)
  | watch (watcher : Watcher) (fd : Option Nat)
  deriving DecidableEq, Repr

def Effect.Failed : Effect → Prop
  | .failed _ => True
  | _ => False

abbrev Startup := Trace Effect

/-- The `exit` is commented out. -/
def FATAL (msg : String) : Startup Unit := Trace.emit (.failed (.fatal msg))

def fatalIf (failed : Prop) [Decidable failed] (msg : String) : Startup Unit :=
  Trace.check failed (.failed (.fatal msg))

theorem meets_fatalIf {failed : Prop} [Decidable failed] (msg : String) :
    Trace.Meets Effect.Failed (fatalIf failed msg) (¬ failed) () [] :=
  Trace.Meets.check trivial

/-- What follows a failed check does not take it back. -/
theorem meets_fatal {α : Type} (msg : String) (next : Unit → Startup α) (a : α) (es : List Effect) :
    Trace.Meets Effect.Failed (FATAL msg >>= next) False a es :=
  Trace.Meets.never (e := .failed (.fatal msg)) trivial (Trace.effects_subset_bind (List.mem_singleton_self _)) a es

-- ---------------------------------------------------------------------------
-- Keys
-- ---------------------------------------------------------------------------

/-- What the libraries answer. -/
structure CryptoLibrary where
  sodium_init : Bool
  md5 : Option Md5
  md_setup : Bool
  rand_bytes : Nat → List Byte

def BASE64_SIZE (x : Nat) : Nat := (x + 2) / 3 * 4 + 1

/-- From the character 43 on. -/
def map2 : List Nat :=
  [0xff, 0xff, 0x3e, 0xff, 0xff, 0x34, 0x35, 0x36, 0x37, 0x38, 0x39, 0x3a, 0x3b, 0x3c, 0x3d, 0xff,
    0xff, 0xff, 0xff, 0xff, 0xff, 0xff, 0x00, 0x01, 0x02, 0x03, 0x04, 0x05, 0x06, 0x07, 0x08, 0x09,
    0x0a, 0x0b, 0x0c, 0x0d, 0x0e, 0x0f, 0x10, 0x11, 0x12, 0x13, 0x14, 0x15, 0x16, 0x17, 0x18, 0x19,
    0xff, 0xff, 0xff, 0xff, 0x3f, 0xff, 0x1a, 0x1b, 0x1c, 0x1d, 0x1e, 0x1f, 0x20, 0x21, 0x22, 0x23,
    0x24, 0x25, 0x26, 0x27, 0x28, 0x29, 0x2a, 0x2b, 0x2c, 0x2d, 0x2e, 0x2f, 0x30, 0x31, 0x32, 0x33]

/-- `map2[in[i] - 43]`, if the index is one of the table and the entry is a digit. -/
def digitAt (c : Byte) : Option Nat :=
  if c.toNat < 43 ∨ 43 + map2.length ≤ c.toNat then none
  else
    let digit := map2.getD (c.toNat - 43) 0xff
    if digit = 0xff then none else some digit

/-- `*dst++ = v >> (6 - 2 * (i & 3))`, if `i & 3` and there is room. -/
def store (out_size i v : Nat) (dst : List Byte) : List Byte :=
  if i % 4 ≠ 0 ∧ dst.length < out_size then dst ++ [BitVec.ofNat 8 (v / 2 ^ (6 - 2 * (i % 4)))] else dst

def decodeLoop (out_size : Nat) : CString → Nat → Nat → List Byte → Option (List Byte)
  | [], _, _, dst => some dst
  | c :: rest, i, v, dst =>
    if c = 0x3D then some dst
    else
      match digitAt c with
      | none => none
      | some digit =>
        let v := (v * 64 + digit) % 2 ^ 32
        decodeLoop out_size rest (i + 1) v (store out_size i v dst)

/-- `none` is -1. -/
def base64_decode (out_size : Nat) (input : CString) : Option (List Byte) := decodeLoop out_size input 0 0 []

namespace CryptoLibrary

variable (o : CryptoLibrary)

/-- The length that is returned, and what the buffer of the key holds. Neither -1 nor 0
is a length that will do. -/
def crypto_parse_key (base64 : CString) (key : List Byte) (key_len : Nat) : Startup (Nat × List Byte) :=
  let out := (base64_decode (BASE64_SIZE base64.length) base64).getD []
  if 0 < out.length ∧ key_len ≤ out.length then pure (key_len, out.take key_len ++ key.drop key_len)
  else do
    FATAL "Please use the key above or input a valid key"
    pure (key_len, o.rand_bytes key_len ++ key.drop key_len)

/-- `strlen` of no password crashes. A digest that is not there cannot be set up. -/
def crypto_derive_key (pass : Option CString) (key : List Byte) (key_len : Nat) : Startup (Nat × List Byte) :=
  match pass with
  | none => Trace.stop
  | some pass =>
    match o.md5 with
    | none => do
      FATAL "MD5 Digest not found in crypto library"
      pure (0, key)
    | some md =>
      if o.md_setup then pure (key_len, Ssserver.crypto_derive_key md pass key key_len) else pure (0, key)

/-- The key of a cipher that has been set to zero, and the check of its length. -/
def generateKey (pass key : Option CString) (key_len : Nat) (msg : String) : Startup (Nat × List Byte) := do
  let result ←
    match key with
    | some key => o.crypto_parse_key key (List.replicate MAX_KEY_LENGTH 0) key_len
    | none => o.crypto_derive_key pass (List.replicate MAX_KEY_LENGTH 0) key_len
  fatalIf (result.1 = 0) msg
  pure result

end CryptoLibrary

-- ---------------------------------------------------------------------------
-- Ciphers
-- ---------------------------------------------------------------------------

/-- In the order of their methods. -/
def supported_stream_ciphers : List (String × Server.Method) :=
  [("table", .TABLE), ("rc4", .RC4), ("rc4-md5", .RC4_MD5), ("aes-128-cfb", .AES_128_CFB),
    ("aes-192-cfb", .AES_192_CFB), ("aes-256-cfb", .AES_256_CFB), ("aes-128-ctr", .AES_128_CTR),
    ("aes-192-ctr", .AES_192_CTR), ("aes-256-ctr", .AES_256_CTR), ("bf-cfb", .BF_CFB),
    ("camellia-128-cfb", .CAMELLIA_128_CFB), ("camellia-192-cfb", .CAMELLIA_192_CFB),
    ("camellia-256-cfb", .CAMELLIA_256_CFB), ("cast5-cfb", .CAST5_CFB), ("des-cfb", .DES_CFB),
    ("idea-cfb", .IDEA_CFB), ("rc2-cfb", .RC2_CFB), ("seed-cfb", .SEED_CFB), ("salsa20", .SALSA20),
    ("chacha20", .CHACHA20), ("chacha20-ietf", .CHACHA20IETF)]

def supported_stream_ciphers_key_size : Server.Method → Nat
  | .TABLE => 0
  | .DES_CFB => 8
  | .RC4 | .RC4_MD5 | .AES_128_CFB | .AES_128_CTR | .BF_CFB | .CAMELLIA_128_CFB | .CAST5_CFB | .IDEA_CFB
  | .RC2_CFB | .SEED_CFB => 16
  | .AES_192_CFB | .AES_192_CTR | .CAMELLIA_192_CFB => 24
  | .AES_256_CFB | .AES_256_CTR | .CAMELLIA_256_CFB | .SALSA20 | .CHACHA20 | .CHACHA20IETF => 32

def supported_aead_ciphers : List String :=
  ["aes-128-gcm", "aes-192-gcm", "aes-256-gcm", "chacha20-ietf-poly1305", "xchacha20-ietf-poly1305"]

def CIPHER_UNSUPPORTED : String := "unsupported"

def supported_aead_ciphers_mbedtls : List String :=
  ["AES-128-GCM", "AES-192-GCM", "AES-256-GCM", CIPHER_UNSUPPORTED, CIPHER_UNSUPPORTED]

def supported_aead_ciphers_key_size : List Nat := [16, 24, 32, 32, 32]

/-- `mbedtls_cipher_definitions` with the `key_bitlen`, as far as the names above go. -/
def mbedtls_cipher_definitions : List (String × Nat) :=
  [("AES-128-GCM", 128), ("AES-192-GCM", 192), ("AES-256-GCM", 256)]

def mbedtls_cipher_info_from_string (cipher_name : String) : Option Nat :=
  mbedtls_cipher_definitions.lookup cipher_name

def CHACHA20POLY1305IETF : Nat := 3
def AEAD_CIPHER_NUM : Nat := 5

def aead_get_cipher_type (method : Nat) : Option Nat :=
  if AEAD_CIPHER_NUM ≤ method then none
  else if CHACHA20POLY1305IETF ≤ method then none
  else
    let mbedtlsname := supported_aead_ciphers_mbedtls.getD method CIPHER_UNSUPPORTED
    if mbedtlsname = CIPHER_UNSUPPORTED then none else mbedtls_cipher_info_from_string mbedtlsname

/-- `cipher->info->key_bitlen` -/
def streamInfo (method : Server.Method) : Option Nat :=
  if method = .SALSA20 ∨ method = .CHACHA20 ∨ method = .CHACHA20IETF then
    some (supported_stream_ciphers_key_size method * 8)
  else (Server.stream_get_cipher_type method).map (·.key_bitlen)

def aeadInfo (method : Nat) : Option Nat :=
  if CHACHA20POLY1305IETF ≤ method then some (supported_aead_ciphers_key_size.getD method 0 * 8)
  else aead_get_cipher_type method

inductive Method
  | stream (m : Server.Method)
  | aead (m : Nat)
  deriving DecidableEq, Repr

structure Cipher where
  method : Method
  key : List Byte
  key_len : Nat
  deriving DecidableEq, Repr

namespace CryptoLibrary

variable (o : CryptoLibrary)

/-- Without an `info`, `cipher_key_size` crashes. -/
def stream_key_init (method : Server.Method) (pass key : Option CString) : Startup (Option Cipher) :=
  if method = .TABLE then pure none
  else
    match streamInfo method with
    | none => do
      FATAL "Cannot initialize cipher"
      Trace.stop
    | some key_bitlen => do
      let result ← o.generateKey pass key (key_bitlen / 8) "Cannot generate key and NONCE"
      pure (some ⟨.stream method, result.2, result.1⟩)

def stream_init (m : Server.Method) (pass key : Option CString) : Startup (Option Cipher) :=
  if m = .TABLE then pure none else o.stream_key_init m pass key

def aead_key_init (method : Nat) (pass key : Option CString) : Startup (Option Cipher) :=
  if AEAD_CIPHER_NUM ≤ method then pure none
  else do
    fatalIf (aeadInfo method = none) "Cannot initialize cipher"
    let result ← o.generateKey pass key (supported_aead_ciphers_key_size.getD method 0)
      "Cannot generate key and nonce"
    pure (some ⟨.aead method, result.2, result.1⟩)

end CryptoLibrary

/-- The stream ciphers are searched first. -/
def methodOf (method : CString) : Option Method :=
  match supported_stream_ciphers.find? (chars ·.1 = method) with
  | some (_, m) => some (.stream m)
  | none => (supported_aead_ciphers.findIdx? (chars · = method)).map .aead

/-- `none` is `NULL`. -/
def CryptoLibrary.crypto_init (o : CryptoLibrary) (password key : Option CString) (method : CString) :
    Startup (Option Cipher) := do
  fatalIf (o.sodium_init = false) "Failed to initialize sodium"
  match methodOf method with
  | some (.stream m) => o.stream_init m password key
  | some (.aead m) => o.aead_key_init m password key
  | none => pure none

-- ---------------------------------------------------------------------------
-- The key that is given
-- ---------------------------------------------------------------------------

/-- The digits of the URL-safe alphabet. -/
def alphabet (digit : Fin 64) : Byte :=
  (chars "ABCDEFGHIJKLMNOPQRSTUVWXYZabcdefghijklmnopqrstuvwxyz0123456789-_").getD digit.val 0

def digitOf (c : Byte) : Option (Fin 64) := (List.finRange 64).find? (alphabet · = c)

/-- The digits of a key; what comes after `=` is not looked at. -/
def digitsOf (key : CString) : Option (List (Fin 64)) := (key.takeWhile (· ≠ 0x3D)).mapM digitOf

theorem digitAt_eq (c : Byte) : digitAt c = (digitOf c).map Fin.val := by
  have hall : ∀ n < 256, digitAt (BitVec.ofNat 8 n) = (digitOf (BitVec.ofNat 8 n)).map Fin.val := by
    decide +kernel
  simpa using hall c.toNat c.isLt

/-- The loop, once the characters are digits. -/
def storeAll (out_size : Nat) : List (Fin 64) → Nat → Nat → List Byte → List Byte
  | [], _, _, dst => dst
  | digit :: digits, i, v, dst =>
    let v := (v * 64 + digit.val) % 2 ^ 32
    storeAll out_size digits (i + 1) v (store out_size i v dst)

theorem decodeLoop_eq (out_size : Nat) (key : CString) (i v : Nat) (dst : List Byte) :
    decodeLoop out_size key i v dst = (digitsOf key).map fun digits => storeAll out_size digits i v dst := by
  induction key generalizing i v dst with
  | nil => rfl
  | cons c key ih =>
    unfold decodeLoop
    by_cases hpad : c = 0x3D
    · simp [hpad, digitsOf, storeAll]
    · rw [if_neg hpad, digitAt_eq]
      have htake : (c :: key).takeWhile (· ≠ 0x3D) = c :: key.takeWhile (· ≠ 0x3D) :=
        List.takeWhile_cons_of_pos (by simpa using hpad)
      rw [digitsOf, htake, List.mapM_cons]
      cases digitOf c with
      | none => rfl
      | some digit =>
        simp only [Option.map_some, ih]
        rw [digitsOf]
        cases (key.takeWhile (· ≠ 0x3D)).mapM digitOf <;> rfl

section
variable {out_size i v : Nat} {dst : List Byte}

theorem store_first (hi : i % 4 = 0) : store out_size i v dst = dst := by
  simp [store, hi]

/-- Only the last digits of `v` come into the byte. -/
theorem store_next {n : Nat} (hi : i % 4 ≠ 0) (hroom : dst.length < out_size)
    (hv : v / 2 ^ (6 - 2 * (i % 4)) % 256 = n % 256) : store out_size i v dst = dst ++ [Base64.byte n] := by
  have hbyte : BitVec.ofNat 8 (v / 2 ^ (6 - 2 * (i % 4))) = Base64.byte n := BitVec.eq_of_toNat_eq hv
  rw [store, if_pos ⟨hi, hroom⟩, hbyte]

theorem storeAll_two (a b : Fin 64) (digits : List (Fin 64)) (hi : i % 4 = 0) (hroom : dst.length < out_size) :
    ∃ v', v' % 64 = b.val ∧ storeAll out_size (a :: b :: digits) i v dst =
      storeAll out_size digits (i + 2) v' (dst ++ [Base64.byte (a.val * 4 + b.val / 16)]) := by
  have ha := a.isLt
  have hb := b.isLt
  refine ⟨((v * 64 + a.val) % 2 ^ 32 * 64 + b.val) % 2 ^ 32, by omega, ?_⟩
  have hone : (i + 1) % 4 = 1 := by omega
  simp only [storeAll]
  rw [store_first hi, store_next (n := a.val * 4 + b.val / 16) (by omega) hroom]
  rw [hone]
  omega

theorem storeAll_third (b c : Fin 64) (digits : List (Fin 64)) (hi : i % 4 = 2) (hv : v % 64 = b.val)
    (hroom : dst.length < out_size) : ∃ v', v' % 64 = c.val ∧ storeAll out_size (c :: digits) i v dst =
      storeAll out_size digits (i + 1) v' (dst ++ [Base64.byte (b.val * 16 + c.val / 4)]) := by
  have hc := c.isLt
  refine ⟨(v * 64 + c.val) % 2 ^ 32, by omega, ?_⟩
  simp only [storeAll]
  rw [store_next (n := b.val * 16 + c.val / 4) (by omega) hroom]
  rw [hi]
  omega

theorem storeAll_fourth (c d : Fin 64) (digits : List (Fin 64)) (hi : i % 4 = 3) (hv : v % 64 = c.val)
    (hroom : dst.length < out_size) : ∃ v', storeAll out_size (d :: digits) i v dst =
      storeAll out_size digits (i + 1) v' (dst ++ [Base64.byte (c.val * 64 + d.val)]) := by
  have hd := d.isLt
  refine ⟨(v * 64 + d.val) % 2 ^ 32, ?_⟩
  simp only [storeAll]
  rw [store_next (n := c.val * 64 + d.val) (by omega) hroom]
  rw [hi]
  omega

theorem storeAll_eq (digits : List (Fin 64)) (hi : i % 4 = 0)
    (hroom : dst.length + digits.length * 3 / 4 ≤ out_size) :
    storeAll out_size digits i v dst = dst ++ Base64.decode digits := by
  induction digits using Base64.decode.induct generalizing i v dst with
  | case1 a b c d digits ih =>
    rw [Base64.decode]
    generalize hfirst : Base64.byte (a.val * 4 + b.val / 16) = first
    generalize hsecond : Base64.byte (b.val * 16 + c.val / 4) = second
    simp only [List.length_cons] at hroom
    have hroom₁ : (dst ++ [first]).length < out_size := by simp; omega
    have hroom₂ : (dst ++ [first] ++ [second]).length < out_size := by simp; omega
    obtain ⟨v₂, hv₂, htwo⟩ := storeAll_two (v := v) a b (c :: d :: digits) hi (by omega : dst.length < out_size)
    obtain ⟨v₃, hv₃, hthird⟩ := storeAll_third b c (d :: digits) (by omega : (i + 2) % 4 = 2) hv₂ hroom₁
    obtain ⟨v₄, hfourth⟩ := storeAll_fourth c d digits (by omega : (i + 2 + 1) % 4 = 3) hv₃ hroom₂
    rw [htwo, hfirst, hthird, hsecond, hfourth, ih (by omega) (by simp; omega)]
    simp
  | case2 a b c =>
    rw [Base64.decode]
    generalize hfirst : Base64.byte (a.val * 4 + b.val / 16) = first
    simp only [List.length_cons, List.length_nil] at hroom
    have hroom₁ : (dst ++ [first]).length < out_size := by simp; omega
    obtain ⟨v₂, hv₂, htwo⟩ := storeAll_two (v := v) a b [c] hi (by omega : dst.length < out_size)
    obtain ⟨v₃, -, hthird⟩ := storeAll_third b c [] (by omega : (i + 2) % 4 = 2) hv₂ hroom₁
    rw [htwo, hfirst, hthird]
    simp [storeAll]
  | case3 a b =>
    simp only [List.length_cons, List.length_nil] at hroom
    obtain ⟨v₂, -, htwo⟩ := storeAll_two (v := v) a b [] hi (by omega : dst.length < out_size)
    rw [htwo]
    rfl
  | case4 a => simp [storeAll, store_first hi, Base64.decode]
  | case5 => simp [storeAll, Base64.decode]

end

theorem length_mapM_option {α β : Type} {f : α → Option β} {as : List α} {bs : List β} (h : as.mapM f = some bs) :
    bs.length = as.length := by
  induction as generalizing bs with
  | nil =>
    cases h
    rfl
  | cons a as ih =>
    rw [List.mapM_cons] at h
    obtain ⟨b, -, h⟩ := Option.bind_eq_some_iff.mp h
    obtain ⟨bs', hbs, h⟩ := Option.bind_eq_some_iff.mp h
    cases h
    rw [List.length_cons, List.length_cons, ih hbs]

/-- There is always room for the bytes. -/
theorem base64_decode_eq (key : CString) :
    base64_decode (BASE64_SIZE key.length) key = (digitsOf key).map Base64.decode := by
  rw [base64_decode, decodeLoop_eq]
  cases hdigits : digitsOf key with
  | none => rfl
  | some digits =>
    have hlength : digits.length ≤ key.length :=
      (length_mapM_option hdigits).trans_le (List.takeWhile_sublist _).length_le
    rw [Option.map_some, Option.map_some, storeAll_eq digits rfl (by rw [List.length_nil, BASE64_SIZE]; omega)]
    rfl

-- ---------------------------------------------------------------------------
-- Ciphers with a key
-- ---------------------------------------------------------------------------

/-- The bytes that the key of a cipher is to have. -/
inductive KeyFrom (md5 : Option Md5) (pass key : Option CString) (n : Nat) : List Byte → Prop
  | decoded {base64 : CString} {digits : List (Fin 64)} (hkey : key = some base64)
      (hdigits : digitsOf base64 = some digits) (hlength : n ≤ (Base64.decode digits).length) :
      KeyFrom md5 pass key n ((Base64.decode digits).take n)
  | derived {password : CString} {md : Md5} (hkey : key = none) (hpass : pass = some password)
      (hmd : md5 = some md) : KeyFrom md5 pass key n (IteratedHash.key (ShadowSocksKey.hashOf md) password n)

/-- The size of the key, of a cipher that the library has. -/
def keySize : Method → Option Nat
  | .stream m => if m = .TABLE then none else (streamInfo m).map (· / 8)
  | .aead m =>
    if AEAD_CIPHER_NUM ≤ m then none
    else (aeadInfo m).map fun _ => supported_aead_ciphers_key_size.getD m 0

/-- The cipher has the key that is given, in the size of its method. -/
structure Cipher.Keyed (md5 : Option Md5) (pass key : Option CString) (cipher : Cipher) : Prop where
  size : keySize cipher.method = some cipher.key_len
  key : KeyFrom md5 pass key cipher.key_len (cipher.key.take cipher.key_len)

namespace CryptoLibrary

variable (o : CryptoLibrary) (pass key : Option CString)

/-- There is a key of `n` bytes: `key` has enough digits, or the password is hashed. -/
def KeyReady (n : Nat) : Prop :=
  match key with
  | some key => ∃ digits ∈ digitsOf key, n ≤ digits.length * 3 / 4
  | none => pass ≠ none ∧ o.md5 ≠ none ∧ o.md_setup = true

def keyBytes (n : Nat) : List Byte :=
  match key, pass, o.md5 with
  | some key, _, _ =>
    ((digitsOf key).elim [] Base64.decode).take n ++ (List.replicate MAX_KEY_LENGTH 0).drop n
  | none, some pass, some md => Ssserver.crypto_derive_key md pass (List.replicate MAX_KEY_LENGTH 0) n
  | none, _, _ => List.replicate MAX_KEY_LENGTH 0

variable {o pass key} {n : Nat}

theorem keySize_bounds {method : Method} (h : keySize method = some n) : 0 < n ∧ n ≤ MAX_KEY_LENGTH := by
  have haead : ∀ m < AEAD_CIPHER_NUM, ∀ n ∈ keySize (.aead m), 0 < n ∧ n ≤ MAX_KEY_LENGTH := by
    decide +kernel
  cases method with
  | stream m => cases m <;> cases h <;> decide
  | aead m =>
    by_cases hm : m < AEAD_CIPHER_NUM
    · exact haead m hm n h
    · simp [keySize, Nat.not_lt.mp hm] at h

theorem meets_parseKey (hn : 0 < n) (base64 : CString) :
    Trace.Meets Effect.Failed (o.crypto_parse_key base64 (List.replicate MAX_KEY_LENGTH 0) n)
      (o.KeyReady pass (some base64) n) (n, o.keyBytes pass (some base64) n) [] := by
  rw [crypto_parse_key, base64_decode_eq]
  cases hdigits : digitsOf base64 with
  | none =>
    refine (meets_fatal ..).congr (iff_of_false id ?_)
    rintro ⟨digits, hmem, -⟩
    exact absurd (hdigits.symm.trans hmem) nofun
  | some digits =>
    rw [Option.map_some, Option.getD_some]
    have hready : o.KeyReady pass (some base64) n ↔ n ≤ (Base64.decode digits).length := by
      simp [KeyReady, hdigits, Base64.length_decode]
    split
    next hlength =>
      have hbytes : o.keyBytes pass (some base64) n =
          (Base64.decode digits).take n ++ (List.replicate MAX_KEY_LENGTH 0).drop n := by
        simp [keyBytes, hdigits]
      rw [hbytes]
      exact (Trace.Meets.pure _).congr (iff_of_true trivial (hready.mpr hlength.2))
    next hlength =>
      refine (meets_fatal ..).congr (iff_of_false id fun hok => hlength ?_)
      have hle := hready.mp hok
      exact ⟨hn.trans_le hle, hle⟩

theorem meets_generateKey (hn : 0 < n) (hgiven : pass ≠ none ∨ key ≠ none) (msg : String) :
    Trace.Meets Effect.Failed (o.generateKey pass key n msg) (o.KeyReady pass key n)
      (n, o.keyBytes pass key n) [] := by
  unfold generateKey
  cases key with
  | some base64 =>
    have hlength : Trace.Meets Effect.Failed (fatalIf (n = 0) msg) True () [] :=
      (meets_fatalIf msg).congr (by simp [Nat.ne_of_gt hn])
    have hlast := hlength.map fun _ => (n, o.keyBytes pass (some base64) n)
    exact ((meets_parseKey hn base64).bind fun _ => hlast).congr (and_iff_left trivial)
  | none =>
    obtain ⟨password, rfl⟩ := Option.ne_none_iff_exists'.mp (hgiven.resolve_right (not_not_intro rfl))
    simp only [crypto_derive_key, KeyReady, keyBytes]
    cases o.md5 with
    | none =>
      refine (Trace.Meets.never (e := .failed (.fatal "MD5 Digest not found in crypto library")) trivial ?_ ..).congr ?_
      · exact Trace.effects_subset_bind (Trace.effects_subset_bind (List.mem_singleton_self _))
      · simp
    | some md =>
      cases o.md_setup with
      | false =>
        simp only [Bool.false_eq_true, if_false, Trace.pure_bind]
        refine (Trace.Meets.never (e := .failed (.fatal msg)) trivial ?_ ..).congr (by simp)
        exact Trace.effects_subset_bind (List.mem_singleton_self _)
      | true =>
        simp only [if_true, Trace.pure_bind]
        have hlength : Trace.Meets Effect.Failed (fatalIf (n = 0) msg) True () [] :=
          (meets_fatalIf msg).congr (by simp [Nat.ne_of_gt hn])
        exact (hlength.map fun _ => (n, _)).congr (by simp)

theorem lt_of_methodOf {name : CString} {m : Nat} (h : methodOf name = some (.aead m)) : m < AEAD_CIPHER_NUM := by
  unfold methodOf at h
  split at h
  · cases h
  · obtain ⟨m', hfind, hm⟩ := Option.map_eq_some_iff.mp h
    cases hm
    exact (List.findIdx?_eq_some_iff_findIdx_eq.mp hfind).1

/-- The cipher, if there is one and there is a key for it. -/
def readyCipher (o : CryptoLibrary) (pass key : Option CString) (name : CString) : Option Cipher :=
  (methodOf name).bind fun method => (keySize method).map fun n => ⟨method, o.keyBytes pass key n, n⟩

theorem meets_stream_key_init {m : Server.Method} (hm : m ≠ .TABLE)
    (hgiven : pass ≠ none ∨ key ≠ none) :
    Trace.Meets Effect.Failed (o.stream_key_init m pass key)
      (∃ n ∈ keySize (.stream m), o.KeyReady pass key n)
      ((keySize (.stream m)).map fun n => ⟨.stream m, o.keyBytes pass key n, n⟩) [] := by
  have hsize : keySize (.stream m) = (streamInfo m).map (· / 8) := if_neg hm
  rw [stream_key_init, if_neg hm, hsize]
  cases hinfo : streamInfo m with
  | none => exact (meets_fatal ..).congr (by simp)
  | some key_bitlen =>
    have hbytes : keySize (.stream m) = some (key_bitlen / 8) := by
      rw [hsize, hinfo, Option.map_some]
    have hpos := (keySize_bounds hbytes).1
    have hready : (∃ n ∈ (some key_bitlen).map (· / 8), o.KeyReady pass key n) ↔
        o.KeyReady pass key (key_bitlen / 8) := by simp
    have hkey := (meets_generateKey (o := o) hpos hgiven "Cannot generate key and NONCE").map
      fun result => some (Cipher.mk (.stream m) result.2 result.1)
    exact hkey.congr hready.symm

theorem meets_aead_key_init {m : Nat} (hm : m < AEAD_CIPHER_NUM) (hgiven : pass ≠ none ∨ key ≠ none) :
    Trace.Meets Effect.Failed (o.aead_key_init m pass key)
      (∃ n ∈ keySize (.aead m), o.KeyReady pass key n)
      ((keySize (.aead m)).map fun n => ⟨.aead m, o.keyBytes pass key n, n⟩) [] := by
  have hlegal : ¬ AEAD_CIPHER_NUM ≤ m := Nat.not_le.mpr hm
  have hsize : keySize (.aead m) = (aeadInfo m).map fun _ => supported_aead_ciphers_key_size.getD m 0 :=
    if_neg hlegal
  rw [aead_key_init, if_neg hlegal, hsize]
  cases hinfo : aeadInfo m with
  | none => exact (meets_fatal ..).congr (by simp)
  | some key_bitlen =>
    have hbytes : keySize (.aead m) = some (supported_aead_ciphers_key_size.getD m 0) := by
      rw [hsize, hinfo, Option.map_some]
    have hpos := (keySize_bounds hbytes).1
    have hready : (∃ n ∈ (some key_bitlen).map fun _ => supported_aead_ciphers_key_size.getD m 0,
        o.KeyReady pass key n) ↔ o.KeyReady pass key (supported_aead_ciphers_key_size.getD m 0) := by simp
    have hcheck : Trace.Meets Effect.Failed (fatalIf (some key_bitlen = none) "Cannot initialize cipher") True () [] :=
      (meets_fatalIf _).congr (by simp)
    have hkey := (meets_generateKey (o := o) hpos hgiven "Cannot generate key and nonce").map
      fun result => some (Cipher.mk (.aead m) result.2 result.1)
    exact (hcheck.bind fun _ => hkey).congr ((and_iff_right trivial).trans hready.symm)

theorem meets_crypto_init (name : CString) (hgiven : pass ≠ none ∨ key ≠ none) :
    Trace.Meets Effect.Failed (o.crypto_init pass key name)
      (o.sodium_init = true ∧ ∀ method ∈ methodOf name, method ≠ .stream .TABLE →
        ∃ n ∈ keySize method, o.KeyReady pass key n)
      (o.readyCipher pass key name) [] := by
  rw [crypto_init, readyCipher]
  have hsodium : Trace.Meets Effect.Failed (fatalIf (o.sodium_init = false) "Failed to initialize sodium")
      (o.sodium_init = true) () [] := (meets_fatalIf _).congr (by simp)
  refine hsodium.bind fun _ => ?_
  cases hname : methodOf name with
  | none => exact (Trace.Meets.pure none).congr (by simp)
  | some method =>
    rw [Option.bind_some]
    cases method with
    | aead m => exact (meets_aead_key_init (lt_of_methodOf hname) hgiven).congr (by simp)
    | stream m =>
      change Trace.Meets _ (o.stream_init m pass key) _ _ _
      unfold stream_init
      split
      next htable =>
        subst htable
        exact (Trace.Meets.pure none).congr (by simp)
      next htable => exact (meets_stream_key_init htable hgiven).congr (by simp [htable])

/-- A cipher is made, and it has its key. -/
theorem exists_readyCipher {name : CString} {method : Method} (hname : methodOf name = some method)
    (hsize : keySize method = some n) (hready : o.KeyReady pass key n) :
    ∃ cipher, o.readyCipher pass key name = some cipher ∧ cipher.Keyed o.md5 pass key := by
  refine ⟨⟨method, o.keyBytes pass key n, n⟩, by simp [readyCipher, hname, hsize], hsize, ?_⟩
  change KeyFrom o.md5 pass key n ((o.keyBytes pass key n).take n)
  have hn := keySize_bounds hsize
  cases key with
  | some base64 =>
    obtain ⟨digits, hdigits, hlength⟩ := hready
    have htake : (o.keyBytes pass (some base64) n).take n = (Base64.decode digits).take n := by
      rw [← Base64.length_decode] at hlength
      simp [keyBytes, Option.mem_def.mp hdigits, hlength]
    rw [htake]
    exact .decoded rfl hdigits (Base64.length_decode digits ▸ hlength)
  | none =>
    obtain ⟨hpass, hmd, -⟩ := hready
    obtain ⟨password, rfl⟩ := Option.ne_none_iff_exists'.mp hpass
    obtain ⟨md, hmd⟩ := Option.ne_none_iff_exists'.mp hmd
    have htake : (o.keyBytes (some password) none n).take n =
        IteratedHash.key (ShadowSocksKey.hashOf md) password n := by
      simp only [keyBytes, hmd]
      exact take_crypto_derive_key md password hn.2
    rw [htake]
    exact .derived rfl rfl hmd

end CryptoLibrary

end SmartSocks.Ssserver
