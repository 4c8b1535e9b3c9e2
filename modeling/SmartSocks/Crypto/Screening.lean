import SmartSocks.Crypto.AeadStream
import SmartSocks.Crypto.StreamEnds

/-!
# Nonces are used once

Both families of ciphers ask the filter once the nonce of a stream has come, and add
it with the first output (`Screens`). What is between the two is left to other
streams, so a nonce may come twice as long as neither stream has had an output.
-/

namespace SmartSocks.Crypto.Server

open EasyValue

variable {κ : Type}

/-- The first `whole` bytes of a stream are enough to ask for its nonce. -/
structure Screens {C : CryptoT κ Ppbloom} (E : Ends C) where
  whole : Nat
  pos : 0 < whole
  rand_le : C.rand_len ≤ whole
  encrypts : ∀ {pp ctx p verdict out ctx' pp'}, C.encrypt pp ctx p = (verdict, out, ctx', pp') → pp' = pp
  decrypts : ∀ {pp ctx c verdict out ctx' pp'}, C.decrypt pp ctx c = (verdict, out, ctx', pp') →
    pp' = pp ∨ ∃ nonce, pp' = ppbloom_add pp nonce
  asked : ∀ {bytes plain ctx pp c verdict out ctx' pp'}, E.gets bytes plain ctx →
    C.decrypt pp ctx c = (verdict, out, ctx', pp') → verdict ≠ .error → bytes.length < whole →
    whole ≤ (bytes ++ c).length → ppbloom_check pp ((bytes ++ c).take C.rand_len) = false
  long : ∀ {bytes plain ctx}, E.gets bytes plain ctx → plain ≠ [] → whole ≤ bytes.length
  adds : ∀ {bytes ctx pp c out ctx' pp'}, E.gets bytes [] ctx → C.decrypt pp ctx c = (.ok, out, ctx', pp') →
    pp' = ppbloom_add pp ((bytes ++ c).take C.rand_len)

namespace Screens

variable {C : CryptoT κ Ppbloom} {E : Ends C} {pp pp' : Ppbloom}

/-- The filter only gets more nonces. -/
theorem grows (S : Screens E) (h : C.Evolves pp pp') : ∃ new, pp'.added = new ++ pp.added := by
  induction h with
  | refl => exact ⟨[], rfl⟩
  | encrypt _ hstep ih =>
    rw [S.encrypts hstep]
    exact ih
  | decrypt _ hstep ih =>
    obtain ⟨new, hnew⟩ := ih
    rcases S.decrypts hstep with rfl | ⟨nonce, rfl⟩
    · exact ⟨new, hnew⟩
    · exact ⟨nonce :: new, by simp [ppbloom_add_added, hnew]⟩

theorem filled (S : Screens E) {n bits hashes : Nat} (h : C.Evolves pp pp') (hfilled : Filled n bits hashes pp) :
    Filled n bits hashes pp' := by
  induction h with
  | refl => exact hfilled
  | encrypt _ hstep ih =>
    rw [S.encrypts hstep]
    exact ih
  | decrypt _ hstep ih =>
    rcases S.decrypts hstep with rfl | ⟨nonce, rfl⟩
    · exact ih
    · exact ih.add nonce

/-- The nonce of a stream stays what it is. -/
theorem take_append (S : Screens E) {bytes : List Byte} (h : S.whole ≤ bytes.length) (c : List Byte) :
    (bytes ++ c).take C.rand_len = bytes.take C.rand_len :=
  List.take_append_of_le_length (S.rand_le.trans h)

end Screens

-- ---------------------------------------------------------------------------
-- AEAD ciphers
-- ---------------------------------------------------------------------------

section
variable {A : Aead} {hA : A.Lawful} {pp : Ppbloom} {bytes plain c : List Byte} {ctx : AeadCtx}

theorem aeadDecryptRest_filter (A : Aead) (pp : Ppbloom) (ciphertext : List Byte) (ctx : AeadCtx) :
    (aeadDecryptRest A pp ciphertext ctx).2.2.2 = pp ∨
      ∃ nonce, (aeadDecryptRest A pp ciphertext ctx).2.2.2 = ppbloom_add pp nonce := by
  simp only [aeadDecryptRest]
  rcases aeadDecryptLoop A ctx.chunk.length [] ctx with ⟨_ | _ | _, plaintext, ctx'⟩
  · simp only
    split
    · exact .inr ⟨_, rfl⟩
    · exact .inl rfl
  · exact .inl rfl
  · exact .inl rfl

theorem aead_decrypt_filter (A : Aead) (pp : Ppbloom) (ciphertext : List Byte) (ctx : AeadCtx) :
    (aead_decrypt A pp ciphertext ctx).2.2.2 = pp ∨
      ∃ nonce, (aead_decrypt A pp ciphertext ctx).2.2.2 = ppbloom_add pp nonce := by
  simp only [aead_decrypt]
  split
  · split
    · exact .inl rfl
    · split
      · exact .inl rfl
      · exact aeadDecryptRest_filter ..
  · exact aeadDecryptRest_filter ..

/-- A stream whose salt has just come goes on only if it is new. -/
theorem aead_decrypt_asked (h : Received A bytes plain ctx) (hok : (aead_decrypt A pp c ctx).1 ≠ .error)
    (hshort : bytes.length ≤ A.key_len) (hlong : A.key_len < (bytes ++ c).length) :
    ppbloom_check pp ((bytes ++ c).take A.key_len) = false := by
  cases h with
  | salt init chunk _ _ =>
    rw [Bool.eq_false_iff]
    intro hrepeated
    refine hok ?_
    simp only [aead_decrypt, init, chunk, if_true, if_neg (Nat.not_le.mpr hlong)]
    split
    · rfl
    next hfresh => exact absurd hrepeated hfresh
  | chunks opened _ => exact absurd opened.long (Nat.not_lt.mpr hshort)

/-- The salt has come as soon as there is a byte behind it. -/
def aeadScreens (A : Aead) (hA : A.Lawful) : Screens (aeadEnds A hA) where
  whole := A.key_len + 1
  pos := Nat.succ_pos _
  rand_le := Nat.le_succ _
  encrypts hstep := (encrypt_aeadCrypto hstep).2
  decrypts := by
    intro pp ctx c verdict out ctx' pp' hstep
    have hfilter := aead_decrypt_filter A pp c ctx
    rwa [show aead_decrypt A pp c ctx = (verdict, out, ctx', pp') from hstep] at hfilter
  asked := by
    intro bytes plain ctx pp c verdict out ctx' pp' h hstep hok hshort hlong
    refine aead_decrypt_asked h ?_ (Nat.le_of_lt_succ hshort) hlong
    rwa [show aead_decrypt A pp c ctx = (verdict, out, ctx', pp') from hstep]
  long := by
    intro bytes plain ctx h hsome
    cases (show Received A bytes plain ctx from h) with
    | salt _ _ _ hnone => exact absurd hnone hsome
    | chunks opened _ => exact opened.long
  adds := by
    intro bytes ctx pp c out ctx' pp' h hstep
    obtain ⟨plain, hplain⟩ : ∃ plain : List Byte, plain = [] := ⟨[], rfl⟩
    rw [← hplain] at h
    cases decrypts_aeadCrypto h hstep with
    | ok _ _ _ _ _ => rw [if_pos hplain]; rfl

end

-- ---------------------------------------------------------------------------
-- Stream ciphers
-- ---------------------------------------------------------------------------

section
variable {cipher : StreamT} {pp : Ppbloom} {bytes plain c : List Byte} {ctx : StreamCtx}

theorem streamDecryptRest_filter (cipher : StreamT) (pp : Ppbloom) (ciphertext : List Byte) (ctx : StreamCtx) :
    (streamDecryptRest cipher pp ciphertext ctx).2.2.2 = pp ∨
      ∃ nonce, (streamDecryptRest cipher pp ciphertext ctx).2.2.2 = ppbloom_add pp nonce := by
  simp only [streamDecryptRest]
  split
  · exact .inl rfl
  · rcases stream_update cipher true ctx ciphertext with _ | ⟨plaintext, ctx'⟩
    · exact .inl rfl
    · simp only
      split
      · exact .inr ⟨_, rfl⟩
      · exact .inl rfl

theorem stream_decrypt_filter (cipher : StreamT) (pp : Ppbloom) (ciphertext : List Byte) (ctx : StreamCtx) :
    (stream_decrypt cipher pp ciphertext ctx).2.2.2 = pp ∨
      ∃ nonce, (stream_decrypt cipher pp ciphertext ctx).2.2.2 = ppbloom_add pp nonce := by
  simp only [stream_decrypt]
  split
  · split
    · exact .inl rfl
    · split
      · exact .inl rfl
      · exact streamDecryptRest_filter ..
  · exact streamDecryptRest_filter ..

/-- A stream whose nonce has just come goes on only if it is new. -/
theorem stream_decrypt_asked (hscreened : cipher.method.screened = true) (h : StreamReceived cipher bytes plain ctx)
    (hok : (stream_decrypt cipher pp c ctx).1 ≠ .error) (hshort : bytes.length < cipher.nonce_len)
    (hlong : cipher.nonce_len ≤ (bytes ++ c).length) :
    ppbloom_check pp ((bytes ++ c).take cipher.nonce_len) = false := by
  cases h with
  | nonce init chunk _ _ _ =>
    rw [Bool.eq_false_iff]
    intro hrepeated
    refine hok ?_
    rw [List.length_append] at hlong
    have htake : bytes ++ c.take (min (cipher.nonce_len - bytes.length) c.length) =
        (bytes ++ c).take cipher.nonce_len := by
      rw [Nat.min_eq_left (by omega), List.take_append, List.take_of_length_le (Nat.le_of_lt hshort)]
    have hlength : ((bytes ++ c).take cipher.nonce_len).length = cipher.nonce_len := by
      rw [List.length_take, List.length_append, Nat.min_eq_left hlong]
    simp only [stream_decrypt, init, chunk, if_true, htake, hlength, Nat.lt_irrefl, if_false, List.take_take,
      Nat.min_self, hscreened, hrepeated, and_self]
  | stream h => exact absurd h.long (Nat.not_le.mpr hshort)

theorem nonce_len_of_init {method : Method} {key : List Byte} {ecb : List Byte → List Byte → List Byte}
    {crypto_md5 : List Byte → List Byte} (h : stream_key_init method key ecb crypto_md5 = some cipher)
    (hscreened : cipher.method.screened = true) : 0 < cipher.nonce_len := by
  cases method <;> cases h
  case RC4 => cases hscreened
  all_goals exact Nat.succ_pos _

def streamScreens (cipher : StreamT) (hc : cipher.Ready) (hscreened : cipher.method.screened = true)
    (hpos : 0 < cipher.nonce_len) : Screens (streamEnds cipher hc) where
  whole := cipher.nonce_len
  pos := hpos
  rand_le := Nat.le_refl _
  encrypts hstep := (encrypt_streamCrypto hstep).2
  decrypts := by
    intro pp ctx c verdict out ctx' pp' hstep
    have hfilter := stream_decrypt_filter cipher pp c ctx
    rwa [show stream_decrypt cipher pp c ctx = (verdict, out, ctx', pp') from hstep] at hfilter
  asked := by
    intro bytes plain ctx pp c verdict out ctx' pp' h hstep hok hshort hlong
    refine stream_decrypt_asked hscreened h ?_ hshort hlong
    rwa [show stream_decrypt cipher pp c ctx = (verdict, out, ctx', pp') from hstep]
  long := by
    intro bytes plain ctx h hsome
    cases (show StreamReceived cipher bytes plain ctx from h) with
    | nonce _ _ _ _ hnone => exact absurd hnone hsome
    | stream h => exact h.long
  adds := by
    intro bytes ctx pp c out ctx' pp' h hstep
    obtain ⟨plain, hplain⟩ : ∃ plain : List Byte, plain = [] := ⟨[], rfl⟩
    rw [← hplain] at h
    cases decrypts_streamCrypto hc h hstep with
    | ok _ _ _ _ => rw [if_pos ⟨hplain, hscreened⟩]; rfl

end
end SmartSocks.Crypto.Server
