import Mathlib.Data.List.Nodup
import SmartSocks.Crypto.Aead

/-!
# A stream of sealed chunks

`aead_decrypt` keeps what is not a whole chunk yet, so it does not matter where TCP
cuts the stream.
-/

namespace SmartSocks.Crypto.Server

open EasyValue

variable {A : Aead} {skey nonce nonce' chunk rest p : List Byte} {ps : List (List Byte)}

theorem length_of_frame (h : chunkRead A skey nonce chunk = .frame p nonce' rest) : rest.length < chunk.length := by
  obtain ⟨len_buf, hlong, -, -, -, -, -, rfl⟩ := chunkRead_frame_iff.mp h
  rw [List.length_drop]
  simp only [CHUNK_SIZE_LEN] at hlong ⊢
  omega

/-- What is opened is never empty. -/
theorem ne_nil_of_frame (hA : A.Lawful) (h : chunkRead A skey nonce chunk = .frame p nonce' rest) : p ≠ [] := by
  obtain ⟨len_buf, hlong, -, hzero, hwhole, hp, -, -⟩ := chunkRead_frame_iff.mp h
  have hlen := hA.decrypt_length hp
  rw [List.length_take, List.length_drop] at hlen
  rintro rfl
  simp only [CHUNK_SIZE_LEN, List.length_nil] at hlen hwhole
  omega

theorem aeadDecryptLoop_nil (A : Aead) (fuel : Nat) (plaintext : List Byte) {ctx : AeadCtx} (h : ctx.chunk = []) :
    aeadDecryptLoop A fuel plaintext ctx = (.ok, plaintext, ctx) := by
  cases fuel <;> simp [aeadDecryptLoop, h]

/-- The loop takes chunks as long as there are any. -/
theorem aeadDecryptLoop_spec (A : Aead) (fuel : Nat) (plaintext : List Byte) (ctx : AeadCtx)
    (hfuel : ctx.chunk.length ≤ fuel) : ∃ ps nonce rest,
      Framing.Reads (chunkRead A ctx.skey) ctx.nonce ctx.chunk ps nonce rest ∧
      (chunkRead A ctx.skey nonce rest = .needMore ∧
        aeadDecryptLoop A fuel plaintext ctx =
          (if rest ≠ [] ∧ plaintext ++ ps.flatten = [] then .needMore else .ok, plaintext ++ ps.flatten,
            { ctx with nonce := nonce, chunk := rest }) ∨
        chunkRead A ctx.skey nonce rest = .error ∧ (aeadDecryptLoop A fuel plaintext ctx).1 = .error) := by
  induction fuel generalizing plaintext ctx with
  | zero =>
    have hempty : ctx.chunk = [] := List.length_eq_zero_iff.mp (Nat.le_zero.mp hfuel)
    refine ⟨[], ctx.nonce, [], hempty ▸ .nil .., .inl ⟨by simp [chunkRead, aead_chunk_decrypt], ?_⟩⟩
    simp [aeadDecryptLoop_nil A 0 plaintext hempty, ← hempty]
  | succ fuel ih =>
    by_cases hempty : ctx.chunk = []
    · refine ⟨[], ctx.nonce, [], hempty ▸ .nil .., .inl ⟨by simp [chunkRead, aead_chunk_decrypt], ?_⟩⟩
      simp [aeadDecryptLoop_nil A (fuel + 1) plaintext hempty, ← hempty]
    have hdecrypt := aead_chunk_decrypt_eq A ctx
    have hlen : ctx.chunk.length ≠ 0 := List.length_eq_zero_iff.not.mpr hempty
    cases hread : chunkRead A ctx.skey ctx.nonce ctx.chunk with
    | needMore =>
      simp only [hread] at hdecrypt
      refine ⟨[], ctx.nonce, ctx.chunk, .nil .., .inl ⟨hread, ?_⟩⟩
      simp [aeadDecryptLoop, hdecrypt, hlen, hempty, List.length_eq_zero_iff]
    | error =>
      simp only [hread] at hdecrypt
      obtain ⟨ctx', hdecrypt⟩ := hdecrypt
      refine ⟨[], ctx.nonce, ctx.chunk, .nil .., .inr ⟨hread, ?_⟩⟩
      simp [aeadDecryptLoop, hdecrypt, hlen]
    | frame p nonce rest =>
      simp only [hread] at hdecrypt
      have hshort := length_of_frame hread
      obtain ⟨ps, nonce', rest', hreads, hend⟩ :=
        ih (plaintext ++ p) { ctx with nonce := nonce, chunk := rest } (by simp only; omega)
      refine ⟨p :: ps, nonce', rest', .cons hread hreads, ?_⟩
      have hloop : aeadDecryptLoop A (fuel + 1) plaintext ctx =
          aeadDecryptLoop A fuel (plaintext ++ p) { ctx with nonce := nonce, chunk := rest } := by
        simp [aeadDecryptLoop, hdecrypt, hlen]
      rw [hloop, List.flatten_cons, ← List.append_assoc]
      exact hend

/-- Nothing is taken without an output. -/
theorem eq_of_reads (hA : A.Lawful) (h : Framing.Reads (chunkRead A skey) nonce chunk ps nonce' rest)
    (hps : ps.flatten = []) : rest = chunk := by
  cases h with
  | nil => rfl
  | cons hread _ =>
    rw [List.flatten_cons, List.append_eq_nil_iff] at hps
    exact absurd hps.1 (ne_nil_of_frame hA hread)

-- ---------------------------------------------------------------------------
-- The context of a stream
-- ---------------------------------------------------------------------------

/-- The nonces of a subkey start here. -/
def Aead.zeros (A : Aead) : List Byte := List.replicate A.nonce_len 0

section
variable (A : Aead) (ctx : AeadCtx)

/-- The nonce that the next piece is sealed with. -/
def AeadCtx.next : List Byte := if ctx.init = 0 then A.zeros else ctx.nonce

def AeadCtx.subkey : List Byte := if ctx.init = 0 then A.crypto_hkdf ctx.salt else ctx.skey

/-- What stands in front of the next chunk. -/
def AeadCtx.front : List Byte := if ctx.init = 0 then ctx.salt else []

end

/-- The chunks behind the salt give this plaintext, and then there is no whole one. -/
structure Opened (A : Aead) (bytes plain : List Byte) (ctx : AeadCtx) : Prop where
  init : ctx.init = if plain = [] then 1 else 2
  long : A.key_len < bytes.length
  salt : ctx.salt = bytes.take A.key_len
  skey : ctx.skey = A.crypto_hkdf (bytes.take A.key_len)
  reads : ∃ ps, plain = ps.flatten ∧
    Framing.Reads (chunkRead A ctx.skey) A.zeros (bytes.drop A.key_len) ps ctx.nonce ctx.chunk

/-- What a context that decrypts has made of all bytes so far. -/
inductive Received (A : Aead) (bytes plain : List Byte) (ctx : AeadCtx) : Prop
  | salt (init : ctx.init = 0) (chunk : ctx.chunk = bytes) (short : bytes.length ≤ A.key_len) (none : plain = [])
  | chunks (opened : Opened A bytes plain ctx) (waits : chunkRead A ctx.skey ctx.nonce ctx.chunk = .needMore)

/-- The chunks fail to open. -/
def Forged (A : Aead) (bytes : List Byte) : Prop :=
  A.key_len < bytes.length ∧ ∃ ps nonce rest,
    Framing.Reads (chunkRead A (A.crypto_hkdf (bytes.take A.key_len))) A.zeros (bytes.drop A.key_len) ps nonce rest ∧
    chunkRead A (A.crypto_hkdf (bytes.take A.key_len)) nonce rest = .error

/-- What a call makes of the bytes so far, and of the filter. -/
inductive Decrypts (A : Aead) (pp : Ppbloom) (bytes plain ciphertext : List Byte) :
    Verdict × List Byte × AeadCtx × Ppbloom → Prop
  | needMore (ctx : AeadCtx) (h : Received A bytes plain ctx) :
      Decrypts A pp bytes plain ciphertext (.needMore, ciphertext, ctx, pp)
  | ok (out : List Byte) (ctx : AeadCtx) (h : Received A bytes (plain ++ out) ctx) (long : A.key_len < bytes.length)
      (first : plain = [] → out ≠ []) :
      Decrypts A pp bytes plain ciphertext
        (.ok, out, ctx, if plain = [] then ppbloom_add pp (bytes.take A.key_len) else pp)
  | repeated (ctx : AeadCtx) (none : plain = []) (long : A.key_len < bytes.length)
      (h : ppbloom_check pp (bytes.take A.key_len) = true) :
      Decrypts A pp bytes plain ciphertext (.error, ciphertext, ctx, pp)
  | forged (ctx : AeadCtx) (h : Forged A bytes) : Decrypts A pp bytes plain ciphertext (.error, ciphertext, ctx, pp)

variable {bytes plain ciphertext : List Byte} {ctx : AeadCtx}

theorem aeadDecryptRest_spec (hA : A.Lawful) (h : Opened A bytes plain ctx) (pp : Ppbloom)
    (ciphertext : List Byte) : Decrypts A pp bytes plain ciphertext (aeadDecryptRest A pp ciphertext ctx) := by
  obtain ⟨ps, hplain, hreads⟩ := h.reads
  obtain ⟨qs, nonce, rest, htaken, hend⟩ := aeadDecryptLoop_spec A ctx.chunk.length [] ctx le_rfl
  rcases hend with ⟨hwaits, hloop⟩ | ⟨herror, hloop⟩
  · rw [List.nil_append] at hloop
    have hall := hreads.append htaken
    by_cases hmore : rest ≠ [] ∧ qs.flatten = []
    · rw [if_pos hmore] at hloop
      rw [aeadDecryptRest, hloop]
      refine .needMore _ (.chunks ⟨h.init, h.long, h.salt, h.skey, ps ++ qs, ?_, hall⟩ hwaits)
      rw [List.flatten_append, hmore.2, List.append_nil, hplain]
    · rw [if_neg hmore] at hloop
      have hnew : plain = [] → qs.flatten ≠ [] := by
        intro hnone hqs
        have hrest : rest = bytes.drop A.key_len := by
          refine eq_of_reads hA hall ?_
          rw [List.flatten_append, hqs, ← hplain, hnone, List.append_nil]
        refine hmore ⟨?_, hqs⟩
        rw [hrest, Ne, List.drop_eq_nil_iff]
        exact Nat.not_le.mpr h.long
      have hout : plain ++ qs.flatten = (ps ++ qs).flatten := by rw [List.flatten_append, hplain]
      have hinit := h.init
      simp only [aeadDecryptRest, hloop]
      by_cases hnone : plain = []
      · rw [if_pos hnone] at hinit
        have hopened : Opened A bytes (plain ++ qs.flatten) { ctx with nonce := nonce, chunk := rest, init := 2 } := by
          refine ⟨?_, h.long, h.salt, h.skey, ps ++ qs, hout, hall⟩
          rw [if_neg (by simp [hnew hnone])]
        have hadd : ppbloom_add pp ctx.salt =
            if plain = [] then ppbloom_add pp (bytes.take A.key_len) else pp := by rw [if_pos hnone, h.salt]
        rw [if_pos hinit, hadd]
        exact .ok qs.flatten _ (.chunks hopened hwaits) h.long hnew
      · rw [if_neg hnone] at hinit
        have hopened : Opened A bytes (plain ++ qs.flatten) { ctx with nonce := nonce, chunk := rest } := by
          refine ⟨?_, h.long, h.salt, h.skey, ps ++ qs, hout, hall⟩
          rw [if_neg (by simp [hnone]), hinit]
        have hkeep : (.ok, qs.flatten, { ctx with nonce := nonce, chunk := rest }, pp) =
            ((.ok, qs.flatten, { ctx with nonce := nonce, chunk := rest },
              if plain = [] then ppbloom_add pp (bytes.take A.key_len) else pp) :
              Verdict × List Byte × AeadCtx × Ppbloom) := by rw [if_neg hnone]
        rw [if_neg (by simp [hinit]), hkeep]
        exact .ok qs.flatten _ (.chunks hopened hwaits) h.long hnew
  · have hforged : Forged A bytes := by
      refine ⟨h.long, ps ++ qs, nonce, rest, ?_, ?_⟩
      · rw [← h.skey]
        exact hreads.append htaken
      · rw [← h.skey]
        exact herror
    rcases hresult : aeadDecryptLoop A ctx.chunk.length [] ctx with ⟨err, plaintext, ctx'⟩
    rw [hresult] at hloop
    obtain rfl : err = .error := hloop
    rw [aeadDecryptRest, hresult]
    exact .forged ctx' hforged

theorem aead_decrypt_spec (hA : A.Lawful) (h : Received A bytes plain ctx) (pp : Ppbloom)
    (ciphertext : List Byte) :
    Decrypts A pp (bytes ++ ciphertext) plain ciphertext (aead_decrypt A pp ciphertext ctx) := by
  cases h with
  | salt init chunk short none =>
    simp only [aead_decrypt, init, chunk, if_pos]
    split
    next hshort => exact .needMore _ (.salt rfl rfl hshort none)
    next hlong =>
      split
      next hrepeated => exact .repeated _ none (Nat.not_le.mp hlong) hrepeated
      next =>
        have hopened : Opened A (bytes ++ ciphertext) plain
            { aead_cipher_ctx_set_key A
                { ctx with chunk := bytes ++ ciphertext, salt := (bytes ++ ciphertext).take A.key_len } with
              chunk := (bytes ++ ciphertext).drop A.key_len, init := 1 } := by
          refine ⟨by rw [if_pos none], Nat.not_le.mp hlong, rfl, rfl, [], by rw [none]; rfl, .nil ..⟩
        exact aeadDecryptRest_spec hA hopened pp ciphertext
  | chunks opened waits =>
    obtain ⟨ps, hplain, hreads⟩ := opened.reads
    have hinit : ctx.init ≠ 0 := by
      rw [opened.init]
      split <;> decide
    have htake : (bytes ++ ciphertext).take A.key_len = bytes.take A.key_len :=
      List.take_append_of_le_length (Nat.le_of_lt opened.long)
    have hdrop : (bytes ++ ciphertext).drop A.key_len = bytes.drop A.key_len ++ ciphertext :=
      List.drop_append_of_le_length (Nat.le_of_lt opened.long)
    have hopened : Opened A (bytes ++ ciphertext) plain { ctx with chunk := ctx.chunk ++ ciphertext } := by
      refine ⟨opened.init, ?_, opened.salt.trans htake.symm, opened.skey.trans (by rw [htake]), ps, hplain, ?_⟩
      · rw [List.length_append]
        exact Nat.lt_add_right _ opened.long
      · rw [hdrop]
        exact hreads.more (chunkRead_stable A ctx.skey) ciphertext
    rw [aead_decrypt]
    simp only [hinit, if_false]
    exact aeadDecryptRest_spec hA hopened pp ciphertext

theorem received_init (A : Aead) (random : List Byte) : Received A [] [] (aead_ctx_init A random false) :=
  .salt rfl rfl (Nat.zero_le _) rfl

-- ---------------------------------------------------------------------------
-- The sealed stream
-- ---------------------------------------------------------------------------

/-- What a context that encrypts has made of all chunks so far. -/
inductive Sealed (A : Aead) (salt : List Byte) (ms : List (List Byte)) (stream : List Byte) (ctx : AeadCtx) : Prop
  | none (init : ctx.init = 0) (front : ctx.salt = salt) (none : ms = []) (empty : stream = [])
  | chunks (init : ctx.init = 1) (skey : ctx.skey = A.crypto_hkdf salt) (some : ms ≠ []) (body : List Byte)
      (split : stream = salt ++ body)
      (written : Framing.Written (fun nonce p => ChunkFrame A ctx.skey nonce p) A.zeros ms ctx.nonce body)

theorem aead_chunk_encrypt_frame {ctx ctx' : AeadCtx} {p out : List Byte} (hpos : 0 < p.length)
    (hmax : p.length ≤ CHUNK_SIZE_MASK) (h : aead_chunk_encrypt A ctx p = (.ok, out, ctx')) :
    ChunkFrame A ctx.skey ctx.nonce p ctx'.nonce out ∧ ctx' = { ctx with nonce := ctx'.nonce } := by
  have hlen : p.length % 2 ^ 16 = p.length := Nat.mod_eq_of_lt (Nat.lt_of_le_of_lt hmax (by decide))
  simp only [aead_chunk_encrypt, hlen, List.take_length] at h
  rcases hc : A.aead_cipher_encrypt (lenBuf p.length) ctx.nonce ctx.skey with _ | c
  · simp [hc] at h
  rcases hc' : A.aead_cipher_encrypt p (sodium_increment ctx.nonce) ctx.skey with _ | c'
  · simp [hc, hc'] at h
  · simp only [hc, hc', Prod.mk.injEq, true_and] at h
    obtain ⟨rfl, rfl⟩ := h
    exact ⟨⟨hpos, hmax, c, c', hc, hc', rfl, rfl⟩, rfl⟩

/-- What a chunk that is sealed is made of. -/
theorem aead_encrypt_frame {ctx ctx' : AeadCtx} {p out : List Byte} (hpos : 0 < p.length)
    (hmax : p.length ≤ CHUNK_SIZE_MASK) (hok : aead_encrypt A p ctx = (.ok, out, ctx')) :
    ∃ bytes, ChunkFrame A (ctx.subkey A) (ctx.next A) p ctx'.nonce bytes ∧ out = ctx.front ++ bytes ∧
      ctx'.skey = ctx.subkey A ∧ ctx'.init = if ctx.init = 0 then 1 else ctx.init := by
  simp only [aead_encrypt, if_neg hpos.ne'] at hok
  obtain ⟨ctx₀, hctx₀⟩ : ∃ ctx₀,
      (if ctx.init = 0 then { aead_cipher_ctx_set_key A ctx with init := 1 } else ctx) = ctx₀ := ⟨_, rfl⟩
  have hfields : ctx₀.skey = ctx.subkey A ∧ ctx₀.nonce = ctx.next A ∧
      ctx₀.init = if ctx.init = 0 then 1 else ctx.init := by
    rw [← hctx₀, AeadCtx.subkey, AeadCtx.next]
    split <;> exact ⟨rfl, rfl, rfl⟩
  obtain ⟨hskey, hnonce, hinit⟩ := hfields
  rw [hctx₀] at hok
  rcases hchunk : aead_chunk_encrypt A ctx₀ p with ⟨err, bytes, ctx₁⟩
  rw [hchunk] at hok
  cases err with
  | ok =>
    simp only [Prod.mk.injEq, true_and] at hok
    obtain ⟨rfl, rfl⟩ := hok
    obtain ⟨hframe, hctx⟩ := aead_chunk_encrypt_frame hpos hmax hchunk
    rw [hskey, hnonce] at hframe
    refine ⟨bytes, hframe, rfl, ?_, ?_⟩
    · rw [hctx]
      exact hskey
    · rw [hctx]
      exact hinit
  | needMore => simp at hok
  | error => simp at hok

theorem aead_encrypt_spec {salt stream p out : List Byte} {ms : List (List Byte)} {ctx ctx' : AeadCtx}
    (h : Sealed A salt ms stream ctx) (hpos : 0 < p.length) (hmax : p.length ≤ CHUNK_SIZE_MASK)
    (hok : aead_encrypt A p ctx = (.ok, out, ctx')) : Sealed A salt (ms ++ [p]) (stream ++ out) ctx' := by
  obtain ⟨bytes, hframe, rfl, hskey', hinit'⟩ := aead_encrypt_frame hpos hmax hok
  have hlast := Framing.Written.cons hframe (.nil _)
  rw [List.append_nil, ← hskey'] at hlast
  cases h with
  | none init hsalt hms hstream =>
    subst hms hstream
    rw [AeadCtx.next, if_pos init] at hlast
    rw [if_pos init] at hinit'
    rw [AeadCtx.subkey, if_pos init, hsalt] at hskey'
    refine .chunks hinit' hskey' (by simp) bytes ?_ hlast
    rw [AeadCtx.front, if_pos init, hsalt]
    rfl
  | chunks init hskey hms body hstream hwritten =>
    subst hstream
    have hnot : ctx.init ≠ 0 := by simp [init]
    rw [AeadCtx.next, if_neg hnot] at hlast
    rw [if_neg hnot] at hinit'
    rw [AeadCtx.subkey, if_neg hnot] at hskey'
    refine .chunks (hinit'.trans init) (hskey'.trans hskey) (by simp) (body ++ bytes) ?_ ?_
    · rw [AeadCtx.front, if_neg hnot]
      exact List.append_assoc ..
    · rw [← hskey'] at hwritten
      exact hwritten.append hlast

/-- What the receiver has is the first part of what was sealed, and all of it once all is there. -/
theorem Sealed.received (hA : A.Lawful) {salt stream : List Byte} {ms : List (List Byte)} {ctx ctx' : AeadCtx}
    (hsalt : salt.length = A.key_len) (h : Sealed A salt ms stream ctx) (hbytes : bytes <+: stream)
    (hr : Received A bytes plain ctx') : plain <+: ms.flatten ∧ (bytes = stream → plain = ms.flatten) := by
  cases hr with
  | salt init chunk short none =>
    subst none
    refine ⟨List.nil_prefix, fun hall => ?_⟩
    cases h with
    | none _ _ hms _ => rw [hms]; rfl
    | chunks _ _ hms body hstream hwritten =>
      exfalso
      have hbody : body = [] := by
        have hlen := short
        rw [hall, hstream, List.length_append, hsalt] at hlen
        exact List.length_eq_zero_iff.mp (by omega)
      generalize A.zeros = zeros at hwritten
      cases hwritten with
      | nil => exact hms rfl
      | cons hframe _ =>
        obtain ⟨hpos, -, c, c', -, hc', -, rfl⟩ := hframe
        have hlen := hA.encrypt_length hc'
        simp only [List.append_eq_nil_iff] at hbody
        rw [hbody.1.2, List.length_nil] at hlen
        omega
  | chunks opened waits =>
    cases h with
    | none _ _ _ hstream =>
      exfalso
      rw [hstream, List.prefix_nil] at hbytes
      have hlong := opened.long
      simp [hbytes] at hlong
    | chunks _ hskey hms body hstream hwritten =>
      obtain ⟨ps, rfl, hreads⟩ := opened.reads
      rw [hstream] at hbytes
      have hlong : salt.length ≤ bytes.length := hsalt.trans_le (Nat.le_of_lt opened.long)
      obtain ⟨rest, rfl⟩ := List.prefix_of_prefix_length_le (List.prefix_append salt body) hbytes hlong
      have hrest : rest <+: body := (List.prefix_append_right_inj salt).mp hbytes
      have hkey : ctx'.skey = ctx.skey := by rw [opened.skey, hskey, List.take_left' hsalt]
      rw [List.drop_left' hsalt, hkey] at hreads
      rw [hkey] at waits
      have hreader := chunkRead_reader hA ctx.skey
      obtain ⟨as', taken, stream', rfl, -, -, -, -⟩ := hwritten.reads hreader hreads hrest
      refine ⟨by simp, fun hall => ?_⟩
      rw [hstream] at hall
      cases List.append_cancel_left hall
      obtain ⟨hps, -, -⟩ := hwritten.reads_all hreader hreads waits
      rw [← hps]

theorem Sealed.take_salt {salt stream : List Byte} {ms : List (List Byte)} {ctx : AeadCtx}
    (hsalt : salt.length = A.key_len) (h : Sealed A salt ms stream ctx) (hbytes : bytes <+: stream)
    (hlong : A.key_len ≤ bytes.length) : bytes.take A.key_len = salt := by
  cases h with
  | none _ _ _ hstream =>
    obtain rfl : bytes = [] := List.prefix_nil.mp (hstream ▸ hbytes)
    have hempty : salt = [] := List.length_eq_zero_iff.mp (hsalt.trans (Nat.le_zero.mp hlong))
    rw [hempty, List.take_nil]
  | chunks _ _ _ body hstream _ =>
    rw [hstream] at hbytes
    obtain ⟨rest, rfl⟩ := List.prefix_of_prefix_length_le (List.prefix_append salt body) hbytes
      (hsalt.trans_le hlong)
    exact List.take_left' hsalt

/-- What was sealed is never taken for a forgery. -/
theorem Sealed.not_forged (hA : A.Lawful) {salt stream : List Byte} {ms : List (List Byte)} {ctx : AeadCtx}
    (hsalt : salt.length = A.key_len) (h : Sealed A salt ms stream ctx) (hbytes : bytes <+: stream) :
    ¬ Forged A bytes := by
  rintro ⟨hlong, ps, nonce, rest, hreads, herror⟩
  cases h with
  | none _ _ _ hstream =>
    rw [hstream, List.prefix_nil] at hbytes
    simp [hbytes] at hlong
  | chunks _ hskey hms body hstream hwritten =>
    rw [hstream] at hbytes
    obtain ⟨rest', rfl⟩ := List.prefix_of_prefix_length_le (List.prefix_append salt body) hbytes
      (hsalt.trans_le (Nat.le_of_lt hlong))
    have hrest : rest' <+: body := (List.prefix_append_right_inj salt).mp hbytes
    rw [List.take_left' hsalt, List.drop_left' hsalt, ← hskey] at hreads
    rw [List.take_left' hsalt, ← hskey] at herror
    exact hwritten.reads_ne_error (chunkRead_reader hA ctx.skey) hreads hrest herror

-- ---------------------------------------------------------------------------
-- Whole streams
-- ---------------------------------------------------------------------------

theorem Received.unique {plain' : List Byte} {ctx' : AeadCtx} (h : Received A bytes plain ctx)
    (h' : Received A bytes plain' ctx') : plain = plain' := by
  cases h with
  | salt _ _ hshort hnone =>
    cases h' with
    | salt _ _ _ hnone' => rw [hnone, hnone']
    | chunks opened' _ => exact absurd opened'.long (Nat.not_lt.mpr hshort)
  | chunks opened hwaits =>
    cases h' with
    | salt _ _ hshort _ => exact absurd opened.long (Nat.not_lt.mpr hshort)
    | chunks opened' hwaits' =>
      obtain ⟨ps, rfl, hreads⟩ := opened.reads
      obtain ⟨ps', rfl, hreads'⟩ := opened'.reads
      rw [opened'.skey, ← opened.skey] at hreads' hwaits'
      rw [hreads.unique hwaits hreads' hwaits']

theorem aead_chunk_encrypt_ne (hA : A.Lawful) {ctx : AeadCtx} {p : List Byte}
    (hok : (aead_chunk_encrypt A ctx p).1 = .ok) : (aead_chunk_encrypt A ctx p).2.1 ≠ [] := by
  simp only [aead_chunk_encrypt] at hok ⊢
  split at hok
  · cases hok
  next c hc =>
    split at hok
    · cases hok
    next c' hc' =>
      have hclen := hA.encrypt_length hc
      have hsome : c ≠ [] := by
        rintro rfl
        simp only [lenBuf, List.length_nil, List.length_cons] at hclen
        omega
      simp [hsome]

theorem aead_encrypt_ne (hA : A.Lawful) (ctx : AeadCtx) (p : List Byte) (hp : p ≠ [])
    (hok : (aead_encrypt A p ctx).1 = .ok) : (aead_encrypt A p ctx).2.1 ≠ [] := by
  have hlen : p.length ≠ 0 := List.length_eq_zero_iff.not.mpr hp
  simp only [aead_encrypt, if_neg hlen] at hok ⊢
  generalize (if ctx.init = 0 then { aead_cipher_ctx_set_key A ctx with init := 1 } else ctx) = started at hok ⊢
  have hchunk : _ → (aead_chunk_encrypt A started p).2.1 ≠ [] := aead_chunk_encrypt_ne hA
  rcases hresult : aead_chunk_encrypt A started p with ⟨err, c, ctx'⟩
  rw [hresult] at hok hchunk
  cases err with
  | ok => simp [hchunk rfl]
  | needMore => cases hok
  | error => cases hok

theorem aeadDecryptRest_ne (hA : A.Lawful) (pp : Ppbloom) (ciphertext : List Byte) (ctx : AeadCtx)
    (hchunk : ctx.chunk ≠ []) (hok : (aeadDecryptRest A pp ciphertext ctx).1 = .ok) :
    (aeadDecryptRest A pp ciphertext ctx).2.1 ≠ [] := by
  obtain ⟨ps, nonce, rest, htaken, hend⟩ := aeadDecryptLoop_spec A ctx.chunk.length [] ctx le_rfl
  rcases hend with ⟨-, hloop⟩ | ⟨-, herror⟩
  · rw [List.nil_append] at hloop
    by_cases hmore : rest ≠ [] ∧ ps.flatten = []
    · rw [if_pos hmore] at hloop
      simp [aeadDecryptRest, hloop] at hok
    · rw [if_neg hmore] at hloop
      have hout : ps.flatten ≠ [] := fun hnone =>
        hmore ⟨(eq_of_reads hA htaken hnone).symm ▸ hchunk, hnone⟩
      simp only [aeadDecryptRest, hloop]
      split <;> exact hout
  · rcases hresult : aeadDecryptLoop A ctx.chunk.length [] ctx with ⟨err, plaintext, ctx'⟩
    rw [hresult] at herror
    obtain rfl : err = .error := herror
    simp [aeadDecryptRest, hresult] at hok

theorem aead_decrypt_ne (hA : A.Lawful) (pp : Ppbloom) (ctx : AeadCtx) (c : List Byte) (hc : c ≠ [])
    (hok : (aead_decrypt A pp c ctx).1 = .ok) : (aead_decrypt A pp c ctx).2.1 ≠ [] := by
  simp only [aead_decrypt] at hok ⊢
  split at hok
  next hinit =>
    rw [if_pos hinit]
    split at hok
    · cases hok
    next hlong =>
      rw [if_neg hlong]
      split at hok
      · cases hok
      next hfresh =>
        rw [if_neg hfresh]
        refine aeadDecryptRest_ne hA pp c _ ?_ hok
        rw [Ne, List.drop_eq_nil_iff]
        exact hlong
  next hinit =>
    rw [if_neg hinit]
    exact aeadDecryptRest_ne hA pp c _ (by simp [hc]) hok

/-- `crypto_t` with the functions of `aead.c`. -/
def aeadCrypto (A : Aead) (hA : A.Lawful) : CryptoT AeadCtx Ppbloom where
  rand_len := A.key_len
  e_init random := aead_ctx_init A random true
  d_init := aead_ctx_init A [] false
  encrypt pp ctx plaintext :=
    let (err, out, ctx) := aead_encrypt A plaintext ctx
    (err, out, ctx, pp)
  decrypt pp ctx ciphertext := aead_decrypt A pp ciphertext ctx
  encrypt_ne _ ctx p := aead_encrypt_ne hA ctx p
  decrypt_ne pp ctx c := aead_decrypt_ne hA pp ctx c

theorem encrypt_aeadCrypto {hA : A.Lawful} {pp pp' : Ppbloom} {ctx ctx' : AeadCtx} {p out : List Byte}
    {verdict : Verdict} (h : (aeadCrypto A hA).encrypt pp ctx p = (verdict, out, ctx', pp')) :
    aead_encrypt A p ctx = (verdict, out, ctx') ∧ pp' = pp := by
  rcases hresult : aead_encrypt A p ctx with ⟨err, out', ctx''⟩
  simp only [aeadCrypto, hresult, Prod.mk.injEq] at h
  obtain ⟨rfl, rfl, rfl, rfl⟩ := h
  exact ⟨rfl, rfl⟩

/-- A call on the bytes so far. -/
theorem decrypts_aeadCrypto {hA : A.Lawful} {pp : Ppbloom} {ctx : AeadCtx} {c : List Byte}
    {result : Verdict × List Byte × AeadCtx × Ppbloom} (h : Received A bytes plain ctx)
    (hresult : (aeadCrypto A hA).decrypt pp ctx c = result) : Decrypts A pp (bytes ++ c) plain c result :=
  hresult ▸ aead_decrypt_spec hA h pp c

/-- The two ends of a stream of sealed chunks. -/
def aeadEnds (A : Aead) (hA : A.Lawful) : Ends (aeadCrypto A hA) where
  fits p := 0 < p.length ∧ p.length ≤ CHUNK_SIZE_MASK
  room _ := True
  sends := Sealed A
  gets := Received A
  sends_init := by
    intro random hrandom
    exact .none rfl (List.take_of_length_le hrandom.le) rfl rfl
  sends_ok := by
    intro random ms stream ctx pp p out ctx' pp' h hfits hstep
    exact aead_encrypt_spec h hfits.1 hfits.2 (encrypt_aeadCrypto hstep).1
  gets_init := received_init A []
  gets_ok := by
    intro bytes plain ctx pp c out ctx' pp' h hstep
    cases decrypts_aeadCrypto h hstep with
    | ok _ _ h' => exact h'
  gets_needMore := by
    intro bytes plain ctx pp c out ctx' pp' h hstep
    cases decrypts_aeadCrypto h hstep with
    | needMore _ h' => exact ⟨h', rfl⟩
  received := by
    intro random ms stream ctx bytes plain ctx' hrandom _ hs h hbytes
    exact hs.received hA hrandom hbytes h
  front := by
    intro random ms stream ctx bytes hrandom _ hs hbytes hlong
    exact hs.take_salt hrandom hbytes hlong
  genuine := by
    intro random ms stream ctx bytes plain ctx' pp c out ctx'' pp' hrandom _ hs h hbytes hstep
    cases decrypts_aeadCrypto h hstep with
    | repeated _ hnone hlong hcheck =>
      refine ⟨hnone, fun hunseen => ?_⟩
      cases hcheck.symm.trans (hunseen (Nat.le_of_lt hlong))
    | forged _ hforged => exact absurd hforged (hs.not_forged hA hrandom hbytes)
  first := by
    intro bytes ctx pp c out ctx' pp' h hstep
    obtain ⟨plain, hplain⟩ : ∃ plain : List Byte, plain = [] := ⟨[], rfl⟩
    rw [← hplain] at h
    cases decrypts_aeadCrypto h hstep with
    | ok _ _ _ _ hfirst => exact hfirst hplain

/-- However the sealed stream is cut, and however much of it has come, nothing is taken for a forgery,
and what is delivered is what was sealed so far, if the salt is new. -/
theorem aead_stream_intact (A : Aead) (hA : A.Lawful) (random : List Byte) (hrandom : random.length = A.key_len)
    (pp pp' : Ppbloom) (hfresh : ppbloom_check pp random = false) (ps : List (List Byte))
    (hps : ∀ p ∈ ps, 0 < p.length ∧ p.length ≤ CHUNK_SIZE_MASK)
    (hok : ∀ r ∈ (aeadCrypto A hA).encryptAll pp' (aead_ctx_init A random true) ps, r.1 = .ok)
    (cs : List (List Byte))
    (hcs : cs.flatten <+: delivered ((aeadCrypto A hA).encryptAll pp' (aead_ctx_init A random true) ps)) :
    (∀ r ∈ (aeadCrypto A hA).decryptAll pp (aead_ctx_init A [] false) cs, r.1 ≠ .error) ∧
      delivered ((aeadCrypto A hA).decryptAll pp (aead_ctx_init A [] false) cs) <+: ps.flatten ∧
      (cs.flatten = delivered ((aeadCrypto A hA).encryptAll pp' (aead_ctx_init A random true) ps) →
        delivered ((aeadCrypto A hA).decryptAll pp (aead_ctx_init A [] false) cs) = ps.flatten) :=
  (aeadEnds A hA).intact hrandom hfresh hps trivial hok hcs

theorem tagged_intact :
    delivered ((aeadCrypto tagged tagged_lawful).decryptAll (ppbloom_init 4 64 3) (aead_ctx_init tagged [] false)
      [[7], [8, 0], [3, 0, 1, 2], [3, 1, 0]]) <+: [[1, 2, 3], [4]].flatten :=
  (aead_stream_intact tagged tagged_lawful [7, 8] rfl (ppbloom_init 4 64 3) (ppbloom_init 4 64 3) (by decide)
    [[1, 2, 3], [4]] (by decide) (by decide) [[7], [8, 0], [3, 0, 1, 2], [3, 1, 0]] (by decide)).2.1

-- ---------------------------------------------------------------------------
-- Any stream
-- ---------------------------------------------------------------------------

/-- Whoever has sent a stream, and whatever is in it: as long as there is no error, where it is cut makes
no difference to what is delivered. -/
theorem aead_delivered_eq (A : Aead) (hA : A.Lawful) (pp pp' : Ppbloom) (cs cs' : List (List Byte))
    (hsame : cs.flatten = cs'.flatten)
    (hok : ∀ r ∈ (aeadCrypto A hA).decryptAll pp (aead_ctx_init A [] false) cs, r.1 ≠ .error)
    (hok' : ∀ r ∈ (aeadCrypto A hA).decryptAll pp' (aead_ctx_init A [] false) cs', r.1 ≠ .error) :
    delivered ((aeadCrypto A hA).decryptAll pp (aead_ctx_init A [] false) cs) =
      delivered ((aeadCrypto A hA).decryptAll pp' (aead_ctx_init A [] false) cs') := by
  obtain ⟨ctx, h⟩ := (aeadEnds A hA).gets_decryptAll (received_init A []) hok
  obtain ⟨ctx', h'⟩ := (aeadEnds A hA).gets_decryptAll (received_init A []) hok'
  rw [← hsame] at h'
  exact Received.unique h h'

theorem tagged_delivered_eq :
    delivered ((aeadCrypto tagged tagged_lawful).decryptAll (ppbloom_init 4 64 3) (aead_ctx_init tagged [] false)
        [[7], [8, 0], [3, 0, 1, 2], [3, 1, 0]]) =
      delivered ((aeadCrypto tagged tagged_lawful).decryptAll (ppbloom_init 4 64 3) (aead_ctx_init tagged [] false)
        [[7, 8, 0, 3, 0, 1, 2, 3, 1, 0]]) :=
  aead_delivered_eq tagged tagged_lawful (ppbloom_init 4 64 3) (ppbloom_init 4 64 3) _ _ (by decide) (by decide)
    (by decide)

theorem opened_of_reads {s t : List Byte} (h : Framing.Reads (chunkRead A skey) s bytes ps t rest) (i : Nat)
    (hi : i < ps.length) : ∃ c, c <:+: bytes ∧
      A.aead_cipher_decrypt c (sodium_increment^[2 * i + 1] s) skey = some ps[i] := by
  induction h generalizing i with
  | nil => simp at hi
  | @cons s t u a as bytes rest rest' hread hreads ih =>
    obtain ⟨len_buf, -, -, -, -, hp, rfl, rfl⟩ := chunkRead_frame_iff.mp hread
    cases i with
    | zero =>
      refine ⟨_, ?_, hp⟩
      exact (List.take_prefix ..).isInfix.trans (List.drop_suffix ..).isInfix
    | succ i =>
      obtain ⟨c, hc, hopen⟩ := ih i (Nat.lt_of_succ_lt_succ hi)
      refine ⟨c, hc.trans (List.drop_suffix ..).isInfix, ?_⟩
      rw [List.getElem_cons_succ, ← hopen]
      rfl

/-- What is delivered of any stream are pieces of it that open under the nonces 1, 3, 5 and so on, in this
order: none of them can be left out, repeated or moved. -/
theorem aead_delivered_opened (A : Aead) (hA : A.Lawful) (pp : Ppbloom) (cs : List (List Byte))
    (hok : ∀ r ∈ (aeadCrypto A hA).decryptAll pp (aead_ctx_init A [] false) cs, r.1 ≠ .error) :
    ∃ ps : List (List Byte), delivered ((aeadCrypto A hA).decryptAll pp (aead_ctx_init A [] false) cs) = ps.flatten ∧
      ∀ i (hi : i < ps.length), ∃ c, c <:+: cs.flatten ∧
        A.aead_cipher_decrypt c (sodium_increment^[2 * i + 1] A.zeros)
          (A.crypto_hkdf (cs.flatten.take A.key_len)) = some ps[i] := by
  obtain ⟨ctx, h⟩ := (aeadEnds A hA).gets_decryptAll (received_init A []) hok
  rw [List.nil_append, List.nil_append] at h
  cases (show Received A _ _ ctx from h) with
  | salt _ _ _ hnone => exact ⟨[], hnone, nofun⟩
  | chunks opened _ =>
    obtain ⟨ps, hplain, hreads⟩ := opened.reads
    refine ⟨ps, hplain, fun i hi => ?_⟩
    obtain ⟨c, hc, hopen⟩ := opened_of_reads hreads i hi
    exact ⟨c, hc.trans (List.drop_suffix ..).isInfix, by rw [← opened.skey]; exact hopen⟩

theorem tagged_opened :
    ∃ ps : List (List Byte),
      delivered ((aeadCrypto tagged tagged_lawful).decryptAll (ppbloom_init 4 64 3) (aead_ctx_init tagged [] false)
        [[7], [8, 0], [3, 0, 1, 2], [3, 1, 0]]) = ps.flatten ∧
      ∀ i (hi : i < ps.length), ∃ c, c <:+: [[7], [8, 0], [3, 0, 1, 2], [3, 1, 0]].flatten ∧
        tagged.aead_cipher_decrypt c (sodium_increment^[2 * i + 1] tagged.zeros) (tagged.crypto_hkdf [7, 8]) =
          some ps[i] :=
  aead_delivered_opened tagged tagged_lawful (ppbloom_init 4 64 3) [[7], [8, 0], [3, 0, 1, 2], [3, 1, 0]]
    (by decide)

-- ---------------------------------------------------------------------------
-- The nonces
-- ---------------------------------------------------------------------------

/-- The nonces that a stream is sealed with, in the order of the calls. -/
def aeadNonces (A : Aead) : AeadCtx → List (List Byte) → List (List Byte)
  | _, [] => []
  | ctx, p :: ps =>
    let used := if p.length = 0 then [] else [ctx.next A, sodium_increment (ctx.next A)]
    used ++ aeadNonces A (aead_encrypt A p ctx).2.2 ps

/-- They are the nonces of the calls of `aead_cipher_encrypt`, and all those calls are under one subkey. -/
theorem aeadNonces_calls {hA : A.Lawful} {pp : Ppbloom} {ps : List (List Byte)} {ctx : AeadCtx}
    (hps : ∀ p ∈ ps, 0 < p.length ∧ p.length ≤ CHUNK_SIZE_MASK)
    (hok : ∀ r ∈ (aeadCrypto A hA).encryptAll pp ctx ps, r.1 = .ok) :
    ∃ calls : List (List Byte × List Byte),
      calls.map Prod.fst = ps.flatMap (fun p => [lenBuf p.length, p]) ∧
      List.Forall₂ (fun nonce call => A.aead_cipher_encrypt call.1 nonce (ctx.subkey A) = some call.2)
        (aeadNonces A ctx ps) calls ∧
      delivered ((aeadCrypto A hA).encryptAll pp ctx ps) =
        (if ps = [] then [] else ctx.front) ++ (calls.map Prod.snd).flatten := by
  induction ps generalizing ctx with
  | nil => exact ⟨[], rfl, .nil, rfl⟩
  | cons p ps ih =>
    obtain ⟨⟨hpos, hmax⟩, hps⟩ := List.forall_mem_cons.mp hps
    rcases hresult : aead_encrypt A p ctx with ⟨err, out, ctx₁⟩
    have hall : (aeadCrypto A hA).encryptAll pp ctx (p :: ps) =
        (err, out) :: (aeadCrypto A hA).encryptAll pp ctx₁ ps := by
      simp only [CryptoT.encryptAll, aeadCrypto, hresult]
    rw [hall, List.forall_mem_cons] at hok
    obtain ⟨rfl, hok⟩ := hok
    obtain ⟨bytes, hframe, rfl, hskey, hinit⟩ := aead_encrypt_frame hpos hmax hresult
    obtain ⟨-, -, c, c', hc, hc', hnonce, rfl⟩ := hframe
    -- the salt stands before the first chunk only, and the subkey stays
    have hstarted : ctx₁.init ≠ 0 := by
      rw [hinit]
      split
      · decide
      · assumption
    have hsubkey : ctx₁.subkey A = ctx.subkey A := (if_neg hstarted).trans hskey
    have hfront : ctx₁.front = [] := if_neg hstarted
    obtain ⟨calls, hpieces, hcalls, hsealed⟩ := ih hps hok
    rw [hsubkey] at hcalls
    refine ⟨(lenBuf p.length, c) :: (p, c') :: calls, ?_, ?_, ?_⟩
    · rw [List.map_cons, List.map_cons, hpieces, List.flatMap_cons]
      rfl
    · rw [aeadNonces, if_neg hpos.ne', hresult]
      exact .cons hc (.cons hc' hcalls)
    · rw [hall, delivered_ok, hsealed, hfront, ite_self, List.nil_append, if_neg (List.cons_ne_nil p ps)]
      simp only [List.map_cons, List.flatten_cons, List.append_assoc]

theorem toNat_written {s t stream : List Byte} {as : List (List Byte)}
    (h : Framing.Written (fun nonce p => ChunkFrame A skey nonce p) s as t stream)
    (hroom : LittleEndian.toNat s + 2 * as.length < 256 ^ s.length) :
    t.length = s.length ∧ LittleEndian.toNat t = LittleEndian.toNat s + 2 * as.length := by
  induction h with
  | nil => exact ⟨rfl, rfl⟩
  | @cons s t u a as bytes stream hframe hs ih =>
    obtain ⟨-, -, _, _, -, -, rfl, -⟩ := hframe
    rw [List.length_cons] at hroom ⊢
    have hlen := length_sodium_increment s
    have hfirst := toNat_sodium_increment (n := s) (by omega)
    have hsecond := toNat_sodium_increment (n := sodium_increment s) (by rw [hfirst, hlen]; omega)
    have hlen' := (length_sodium_increment (sodium_increment s)).trans hlen
    obtain ⟨hlength, hvalue⟩ := ih (by rw [hsecond, hfirst, hlen']; omega)
    exact ⟨hlength.trans hlen', by omega⟩

theorem toNat_zeros (A : Aead) : LittleEndian.toNat A.zeros = 0 := LittleEndian.toNat_replicate _

theorem Sealed.next {salt stream : List Byte} {ms : List (List Byte)} {ctx : AeadCtx}
    (h : Sealed A salt ms stream ctx) (hroom : 2 * ms.length < 256 ^ A.nonce_len) :
    (ctx.next A).length = A.nonce_len ∧ LittleEndian.toNat (ctx.next A) = 2 * ms.length := by
  have hzeros : A.zeros.length = A.nonce_len := List.length_replicate
  cases h with
  | none init _ hms _ =>
    rw [AeadCtx.next, if_pos init, hms]
    exact ⟨hzeros, toNat_zeros A⟩
  | chunks init _ _ body _ hwritten =>
    obtain ⟨hlength, hvalue⟩ := toNat_written hwritten (by rw [toNat_zeros, hzeros]; omega)
    rw [AeadCtx.next, if_neg (by simp [init])]
    exact ⟨hlength.trans hzeros, by rw [hvalue, toNat_zeros, Nat.zero_add]⟩

theorem map_aeadNonces {hA : A.Lawful} {pp : Ppbloom} {salt stream : List Byte} {ms ps : List (List Byte)} {ctx : AeadCtx}
    (h : Sealed A salt ms stream ctx) (hps : ∀ p ∈ ps, 0 < p.length ∧ p.length ≤ CHUNK_SIZE_MASK)
    (hok : ∀ r ∈ (aeadCrypto A hA).encryptAll pp ctx ps, r.1 = .ok) (hroom : 2 * (ms.length + ps.length) ≤ 256 ^ A.nonce_len) :
    (aeadNonces A ctx ps).map LittleEndian.toNat = List.range' (2 * ms.length) (2 * ps.length) := by
  induction ps generalizing ms stream ctx with
  | nil => rfl
  | cons p ps ih =>
    obtain ⟨⟨hpos, hmax⟩, hps⟩ := List.forall_mem_cons.mp hps
    rcases hresult : aead_encrypt A p ctx with ⟨err, out, ctx₁⟩
    simp only [CryptoT.encryptAll, aeadCrypto, hresult, List.forall_mem_cons] at hok
    obtain ⟨rfl, hok⟩ := hok
    rw [List.length_cons] at hroom
    obtain ⟨hlength, hvalue⟩ := h.next (by omega)
    have hfirst := toNat_sodium_increment (n := ctx.next A) (by rw [hvalue, hlength]; omega)
    have hms : (ms ++ [p]).length = ms.length + 1 := List.length_append
    have hrest := ih (aead_encrypt_spec h hpos hmax hresult) hps hok (by omega)
    have hlen : 2 * (p :: ps).length = 2 * ps.length + 1 + 1 := by
      rw [List.length_cons]
      omega
    simp only [aeadNonces, hresult, if_neg hpos.ne', List.map_append, List.map_cons, List.map_nil, hrest, hfirst,
      hvalue, hms, hlen, List.range'_succ]
    rfl

/-- Under one subkey no nonce is used twice, for as long as there are new ones. -/
theorem aead_nonces_nodup (A : Aead) (hA : A.Lawful) (pp : Ppbloom) (random : List Byte) (ps : List (List Byte))
    (hps : ∀ p ∈ ps, 0 < p.length ∧ p.length ≤ CHUNK_SIZE_MASK)
    (hok : ∀ r ∈ (aeadCrypto A hA).encryptAll pp (aead_ctx_init A random true) ps, r.1 = .ok)
    (hroom : 2 * ps.length ≤ 256 ^ A.nonce_len) :
    (aeadNonces A (aead_ctx_init A random true) ps).Nodup := by
  have hinit : Sealed A (random.take A.key_len) [] [] (aead_ctx_init A random true) := .none rfl rfl rfl rfl
  have hmap := map_aeadNonces hinit hps hok (by simpa using hroom)
  refine List.Nodup.of_map LittleEndian.toNat ?_
  rw [hmap]
  exact List.nodup_range'

theorem tagged_nodup : (aeadNonces tagged (aead_ctx_init tagged [7, 8] true) [[1, 2, 3], [4]]).Nodup :=
  aead_nonces_nodup tagged tagged_lawful (ppbloom_init 4 64 3) [7, 8] [[1, 2, 3], [4]] (by decide) (by decide) (by decide)

end SmartSocks.Crypto.Server
