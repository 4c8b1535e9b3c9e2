import SmartSocks.Crypto.Aead
import SmartSocks.Crypto.StreamEnds

/-!
# `encrypt_all` and `decrypt_all`

A datagram is encrypted at once, under a nonce of its own that stands in front of it.
The filter of the nonces is the one that the connections have. A datagram that was
encrypted is accepted if its nonce is new and it is not empty
(`aead_datagram_received`, `stream_datagram_received`), and none is accepted again as
long as the filter remembers its nonce (`DatagramT.Screens.once`).

`stream_decrypt_all` asks the filter under every method, where `stream_decrypt` leaves
out `rc4`, which has no nonce: the empty nonce is new once (`rc4_one_datagram`).
-/

namespace SmartSocks.Crypto.Server

open EasyValue

/-- `crypto_t`, as far as the UDP relay calls it. -/
structure DatagramT where
  nonce_len : Nat
  encrypt_all : (random plaintext : List Byte) → Verdict × List Byte
  decrypt_all : Ppbloom → List Byte → Verdict × List Byte × Ppbloom

/-- What the filter is asked for, or what a connection adds to it. -/
inductive Arrival
  | datagram (ciphertext : List Byte)
  | connection (nonce : List Byte)
  deriving DecidableEq, Repr

namespace DatagramT

variable (D : DatagramT)

def arrive (pp : Ppbloom) : Arrival → Ppbloom
  | .datagram ciphertext => (D.decrypt_all pp ciphertext).2.2
  | .connection nonce => ppbloom_add pp nonce

def arrivals (pp : Ppbloom) (es : List Arrival) : Ppbloom := es.foldl D.arrive pp

/-- One call for each datagram. -/
def receive : Ppbloom → List (List Byte) → List (Verdict × List Byte)
  | _, [] => []
  | pp, c :: cs =>
    let (verdict, out, pp) := D.decrypt_all pp c
    (verdict, out) :: receive pp cs

/-- What is accepted has a new nonce, which is added. What is refused changes nothing. -/
structure Screens : Prop where
  ok : ∀ {pp c out pp'}, D.decrypt_all pp c = (.ok, out, pp') →
    ppbloom_check pp (c.take D.nonce_len) = false ∧ pp' = ppbloom_add pp (c.take D.nonce_len)
  refused : ∀ {pp c}, (D.decrypt_all pp c).1 ≠ .ok → D.decrypt_all pp c = (.error, c, pp)

/-- The order of the checks in both families. -/
def screened (least nonce_len : Nat) (opens : List Byte → List Byte → Option (List Byte)) (pp : Ppbloom)
    (c : List Byte) : Verdict × List Byte × Ppbloom :=
  if c.length ≤ least then (.error, c, pp)
  else if ppbloom_check pp (c.take nonce_len) then (.error, c, pp)
  else
    match opens (c.take nonce_len) (c.drop nonce_len) with
    | none => (.error, c, pp)
    | some out => (.ok, out, ppbloom_add pp (c.take nonce_len))

namespace Screens

variable {D} {n bits hashes : Nat} {pp pp' : Ppbloom} {c out : List Byte}

theorem of_eq (least : Nat) (opens : List Byte → List Byte → Option (List Byte))
    (h : ∀ pp c, D.decrypt_all pp c = screened least D.nonce_len opens pp c) : D.Screens where
  ok := by
    intro pp c out pp' hok
    rw [h, screened] at hok
    split at hok
    · cases hok
    · split at hok
      · cases hok
      next hnew =>
        split at hok
        · cases hok
        · cases hok
          exact ⟨Bool.eq_false_iff.mpr hnew, rfl⟩
  refused := by
    intro pp c hrefused
    rw [h, screened] at hrefused ⊢
    split
    · rfl
    next hlong =>
      rw [if_neg hlong] at hrefused
      split
      · rfl
      next hnew =>
        rw [if_neg hnew] at hrefused
        split
        · rfl
        next hsome =>
          rw [hsome] at hrefused
          exact absurd rfl hrefused

/-- Either of the two. -/
theorem decrypt_all (S : D.Screens) (pp : Ppbloom) (c : List Byte) :
    (∃ out, D.decrypt_all pp c = (.ok, out, ppbloom_add pp (c.take D.nonce_len)) ∧
        ppbloom_check pp (c.take D.nonce_len) = false) ∨
      D.decrypt_all pp c = (.error, c, pp) := by
  by_cases hok : (D.decrypt_all pp c).1 = .ok
  · rcases hresult : D.decrypt_all pp c with ⟨verdict, out, pp'⟩
    rw [hresult] at hok
    subst hok
    obtain ⟨hnew, rfl⟩ := S.ok hresult
    exact .inl ⟨out, rfl, hnew⟩
  · exact .inr (S.refused hok)

/-- A nonce that the filter reports is refused. -/
theorem repeated (S : D.Screens) (h : ppbloom_check pp (c.take D.nonce_len) = true) :
    D.decrypt_all pp c = (.error, c, pp) := by
  rcases S.decrypt_all pp c with ⟨out, _, hnew⟩ | hrefused
  · rw [h] at hnew
    cases hnew
  · exact hrefused

theorem arrive (S : D.Screens) (h : Filled n bits hashes pp) (e : Arrival) :
    Filled n bits hashes (D.arrive pp e) ∧ ∃ new, (D.arrive pp e).added = new ++ pp.added := by
  cases e with
  | datagram c =>
    rcases S.decrypt_all pp c with ⟨out, hresult, -⟩ | hresult
    · simp only [DatagramT.arrive, hresult]
      exact ⟨h.add _, [c.take D.nonce_len], ppbloom_add_added ..⟩
    · simp only [DatagramT.arrive, hresult]
      exact ⟨h, [], rfl⟩
  | connection nonce => exact ⟨h.add nonce, [nonce], ppbloom_add_added ..⟩

theorem arrivals (S : D.Screens) (h : Filled n bits hashes pp) (es : List Arrival) :
    Filled n bits hashes (D.arrivals pp es) ∧ ∃ new, (D.arrivals pp es).added = new ++ pp.added := by
  induction es generalizing pp with
  | nil => exact ⟨h, [], rfl⟩
  | cons e es ih =>
    obtain ⟨hfilled, first, hfirst⟩ := S.arrive h e
    obtain ⟨hfilled', rest, hrest⟩ := ih hfilled
    refine ⟨hfilled', rest ++ first, ?_⟩
    rw [List.append_assoc, ← hfirst]
    exact hrest

/-- After a datagram was accepted, one with the same nonce is refused, whatever came in between, unless half
as many nonces as the filter is made for were added since. -/
theorem once (S : D.Screens) (hbits : 0 < bits) (h : Filled n bits hashes pp)
    (hok : D.decrypt_all pp c = (.ok, out, pp')) (es : List Arrival) {c' : List Byte}
    (hnonce : c'.take D.nonce_len = c.take D.nonce_len)
    (hfew : (D.arrivals pp' es).added.length < pp'.added.length + n / 2) :
    D.decrypt_all (D.arrivals pp' es) c' = (.error, c', D.arrivals pp' es) := by
  obtain ⟨-, rfl⟩ := S.ok hok
  obtain ⟨hfilled, new, hnew⟩ := S.arrivals (h.add (c.take D.nonce_len)) es
  rw [hnew, List.length_append] at hfew
  have hrecent : c.take D.nonce_len ∈ (new ++ c.take D.nonce_len :: pp.added).take (n / 2) := by
    rw [List.take_append, List.mem_append]
    obtain ⟨left, hleft⟩ := Nat.exists_eq_succ_of_ne_zero (show n / 2 - new.length ≠ 0 by omega)
    right
    rw [hleft, List.take_succ_cons]
    exact List.mem_cons_self
  rw [ppbloom_add_added] at hnew
  rw [← hnew] at hrecent
  refine S.repeated ?_
  rw [hnonce]
  exact hfilled.check hbits hrecent

/-- Without a nonce, nothing is accepted any more once the filter has the empty one. -/
theorem receive_none (S : D.Screens) (hnone : D.nonce_len = 0) (h : ppbloom_check pp [] = true) (cs : List (List Byte)) :
    D.receive pp cs = cs.map fun c => (.error, c) := by
  induction cs with
  | nil => rfl
  | cons c cs ih =>
    have hc : ppbloom_check pp (c.take D.nonce_len) = true := by rwa [hnone, List.take_zero]
    simp only [receive, S.repeated hc, ih, List.map_cons]

theorem receive_one (S : D.Screens) (hnone : D.nonce_len = 0) (hbits : 0 < bits) (hn : 2 ≤ n)
    (h : Filled n bits hashes pp) (cs : List (List Byte)) :
    ((D.receive pp cs).countP fun r => r.1 = .ok) ≤ 1 := by
  induction cs with
  | nil => exact Nat.zero_le _
  | cons c cs ih =>
    rcases S.decrypt_all pp c with ⟨out, hresult, -⟩ | hresult
    · -- from here on the empty nonce is in the filter
      rw [hnone, List.take_zero] at hresult
      obtain ⟨half, hhalf⟩ := Nat.exists_eq_succ_of_ne_zero (show n / 2 ≠ 0 by omega)
      have hadded : ([] : List Byte) ∈ (ppbloom_add pp []).added.take (n / 2) := by
        rw [ppbloom_add_added, hhalf]
        exact List.mem_cons_self
      have hcheck : ppbloom_check (ppbloom_add pp []) [] = true := (h.add []).check hbits hadded
      have hrest := S.receive_none hnone hcheck cs
      simp only [receive, hresult, hrest, List.countP_cons, List.countP_map]
      simp [Function.comp_def]
    · simpa [receive, hresult] using ih

end Screens
end DatagramT

-- ---------------------------------------------------------------------------
-- AEAD ciphers
-- ---------------------------------------------------------------------------

section
variable (A : Aead)

def aead_encrypt_all (random plaintext : List Byte) : Verdict × List Byte :=
  let cipher_ctx := aead_cipher_ctx_set_key A (aead_ctx_init A random true)
  match A.aead_cipher_encrypt plaintext cipher_ctx.nonce cipher_ctx.skey with
  | none => (.error, plaintext)
  | some ciphertext => (.ok, cipher_ctx.salt ++ ciphertext)

def aead_decrypt_all (pp : Ppbloom) (ciphertext : List Byte) : Verdict × List Byte × Ppbloom :=
  if ciphertext.length ≤ A.key_len + A.tag_len then (.error, ciphertext, pp)
  else
    let salt := ciphertext.take A.key_len
    if ppbloom_check pp salt then (.error, ciphertext, pp)
    else
      let cipher_ctx := aead_cipher_ctx_set_key A { aead_ctx_init A [] false with salt }
      match A.aead_cipher_decrypt (ciphertext.drop A.key_len) cipher_ctx.nonce cipher_ctx.skey with
      | none => (.error, ciphertext, pp)
      | some plaintext => (.ok, plaintext, ppbloom_add pp salt)

def aeadDatagrams : DatagramT where
  nonce_len := A.key_len
  encrypt_all := aead_encrypt_all A
  decrypt_all := aead_decrypt_all A

theorem aeadDatagrams_screens : (aeadDatagrams A).Screens :=
  .of_eq (A.key_len + A.tag_len)
    (fun salt c => A.aead_cipher_decrypt c (List.replicate A.nonce_len 0) (A.crypto_hkdf salt)) fun _ _ => rfl

end

/-- In front of the ciphertext stands the salt. -/
theorem aead_encrypt_all_ok {A : Aead} {random plaintext ciphertext : List Byte} (hrandom : random.length = A.key_len)
    (h : aead_encrypt_all A random plaintext = (.ok, ciphertext)) :
    ∃ c, A.aead_cipher_encrypt plaintext (List.replicate A.nonce_len 0) (A.crypto_hkdf random) = some c ∧
      ciphertext = random ++ c := by
  have hsalt : random.take A.key_len = random := List.take_of_length_le (Nat.le_of_eq hrandom)
  simp only [aead_encrypt_all, aead_cipher_ctx_set_key, aead_ctx_init, if_true, hsalt] at h
  split at h
  · cases h
  next c hc =>
    cases h
    exact ⟨c, hc, rfl⟩

theorem take_aead_encrypt_all {A : Aead} {random plaintext ciphertext : List Byte}
    (hrandom : random.length = A.key_len) (h : aead_encrypt_all A random plaintext = (.ok, ciphertext)) :
    ciphertext.take A.key_len = random := by
  obtain ⟨c, -, rfl⟩ := aead_encrypt_all_ok hrandom h
  exact List.take_left' hrandom

/-- What was encrypted is accepted unless it is empty or its salt has been seen, and then it is what it was. -/
theorem aead_datagram_received (A : Aead) (hA : A.Lawful) (random : List Byte) (hrandom : random.length = A.key_len)
    (plaintext ciphertext : List Byte) (hencrypt : aead_encrypt_all A random plaintext = (.ok, ciphertext))
    (pp : Ppbloom) :
    aead_decrypt_all A pp ciphertext =
      if plaintext ≠ [] ∧ ppbloom_check pp random = false then (.ok, plaintext, ppbloom_add pp random)
      else (.error, ciphertext, pp) := by
  obtain ⟨c, hc, rfl⟩ := aead_encrypt_all_ok hrandom hencrypt
  have hlength : (random ++ c).length = A.key_len + A.tag_len + plaintext.length := by
    rw [List.length_append, hA.encrypt_length hc, hrandom]
    omega
  have htake : (random ++ c).take A.key_len = random := List.take_left' hrandom
  have hdrop : (random ++ c).drop A.key_len = c := List.drop_left' hrandom
  have hlong : ¬(random ++ c).length ≤ A.key_len + A.tag_len ↔ plaintext ≠ [] := by
    rw [hlength, ← List.length_pos_iff]
    omega
  simp only [aead_decrypt_all, aead_cipher_ctx_set_key, htake, hdrop, hA.decrypt_encrypt hc]
  by_cases hempty : plaintext = []
  · rw [if_pos (not_not.mp fun h => hlong.mp h hempty), if_neg fun h => h.1 hempty]
  · rw [if_neg (hlong.mpr hempty)]
    cases ppbloom_check pp random <;> simp [hempty]

theorem tagged_datagram_received :
    aead_decrypt_all tagged (ppbloom_init 4 64 3) [7, 8, 1, 2, 3, 0] =
      (.ok, [1, 2, 3], ppbloom_add (ppbloom_init 4 64 3) [7, 8]) :=
  aead_datagram_received tagged tagged_lawful [7, 8] rfl [1, 2, 3] [7, 8, 1, 2, 3, 0] rfl (ppbloom_init 4 64 3)

/-- After a datagram was accepted, no datagram with its salt is, whatever has come in between, unless half as many
salts as the filter is made for were added since. -/
theorem aead_datagram_once (A : Aead) (n bits hashes : Nat) (hbits : 0 < bits) (es es' : List Arrival)
    (ciphertext ciphertext' plaintext : List Byte) (pp pp' pp'' : Ppbloom)
    (hpp : (aeadDatagrams A).arrivals (ppbloom_init n bits hashes) es = pp)
    (hok : aead_decrypt_all A pp ciphertext = (.ok, plaintext, pp'))
    (hpp'' : (aeadDatagrams A).arrivals pp' es' = pp'')
    (hsalt : ciphertext'.take A.key_len = ciphertext.take A.key_len)
    (hfew : pp''.added.length < pp'.added.length + n / 2) :
    aead_decrypt_all A pp'' ciphertext' = (.error, ciphertext', pp'') := by
  have S := aeadDatagrams_screens A
  subst hpp hpp''
  exact S.once hbits (S.arrivals .init es).1 hok es' hsalt hfew

theorem tagged_datagram_once :
    ∃ pp pp', aead_decrypt_all tagged (ppbloom_init 4 64 3) [7, 8, 1, 2, 3, 0] = (.ok, [1, 2, 3], pp) ∧
      (aeadDatagrams tagged).arrivals pp [.connection [1, 1], .datagram [7, 8]] = pp' ∧
      aead_decrypt_all tagged pp' [7, 8, 4, 5, 0] = (.error, [7, 8, 4, 5, 0], pp') := by
  obtain ⟨pp, pp', hok, hpp', hadded, hadded'⟩ :
      ∃ pp pp', aead_decrypt_all tagged (ppbloom_init 4 64 3) [7, 8, 1, 2, 3, 0] = (.ok, [1, 2, 3], pp) ∧
        (aeadDatagrams tagged).arrivals pp [.connection [1, 1], .datagram [7, 8]] = pp' ∧
        pp.added = [[7, 8]] ∧ pp'.added = [[1, 1], [7, 8]] :=
    ⟨_, _, rfl, rfl, rfl, rfl⟩
  exact ⟨pp, pp', hok, hpp', aead_datagram_once tagged 4 64 3 (by decide) [] [.connection [1, 1], .datagram [7, 8]]
    [7, 8, 1, 2, 3, 0] [7, 8, 4, 5, 0] [1, 2, 3] (ppbloom_init 4 64 3) pp pp' rfl hok hpp' rfl
    (by simp [hadded, hadded'])⟩

-- ---------------------------------------------------------------------------
-- Stream ciphers
-- ---------------------------------------------------------------------------

section
variable (cipher : StreamT)

/-- The part that encrypts or decrypts all of a datagram. -/
def streamUpdateAll (decrypt : Bool) (ctx : StreamCtx) (input : List Byte) : Option (List Byte) :=
  if cipher.method.sodium then some (crypto_stream_xor_ic input ctx.nonce 0 cipher.key cipher.method)
  else ctx.evp.map fun evp => (mbedtls_cipher_update cipher.ecb decrypt).output evp input

def stream_encrypt_all (random plaintext : List Byte) : Verdict × List Byte :=
  let cipher_ctx := stream_ctx_init cipher random true
  let cipher_ctx := cipher_ctx_set_nonce cipher cipher_ctx cipher_ctx.nonce
  match streamUpdateAll cipher false cipher_ctx plaintext with
  | none => (.error, plaintext)
  | some ciphertext => (.ok, cipher_ctx.nonce ++ ciphertext)

def stream_decrypt_all (pp : Ppbloom) (ciphertext : List Byte) : Verdict × List Byte × Ppbloom :=
  if ciphertext.length ≤ cipher.nonce_len then (.error, ciphertext, pp)
  else
    let nonce := ciphertext.take cipher.nonce_len
    -- under every method
    if ppbloom_check pp nonce then (.error, ciphertext, pp)
    else
      let cipher_ctx := cipher_ctx_set_nonce cipher { stream_ctx_init cipher [] false with nonce } nonce
      match streamUpdateAll cipher true cipher_ctx (ciphertext.drop cipher.nonce_len) with
      | none => (.error, ciphertext, pp)
      | some plaintext => (.ok, plaintext, ppbloom_add pp nonce)

def streamDatagrams : DatagramT where
  nonce_len := cipher.nonce_len
  encrypt_all := stream_encrypt_all cipher
  decrypt_all := stream_decrypt_all cipher

theorem streamDatagrams_screens : (streamDatagrams cipher).Screens :=
  .of_eq cipher.nonce_len
    (fun nonce => streamUpdateAll cipher true
      (cipher_ctx_set_nonce cipher { stream_ctx_init cipher [] false with nonce } nonce)) fun _ _ => rfl

end

section
variable {cipher : StreamT} {ctx : StreamCtx}

/-- From the first byte of the key stream on. -/
theorem streamUpdateAll_eq (decrypt : Bool) {s : Evp ⊕ List Byte × Nat} (h : ctx.Runs cipher s)
    (hcounter : ctx.counter = 0) (input : List Byte) :
    streamUpdateAll cipher decrypt ctx input = some ((cipher.transducer decrypt).output s input) := by
  simp only [streamUpdateAll, StreamT.transducer]
  cases h with
  | evp evp hmethod hevp => simp [Transducer.run_inl, hmethod, hevp]
  | sodium hmethod =>
    have hlimit : 0 < cipher.limit := by
      rw [StreamT.limit]
      split <;> decide
    have hblocks := crypto_stream_xor_ic_eq hmethod hlimit input ctx.nonce
    obtain ⟨houtput, -⟩ := Transducer.run_inr (mbedtls_cipher_update cipher.ecb decrypt)
      (.indexed fun nonce => (cipher.keyStream nonce).cipher (· ^^^ ·)) (ctx.nonce, ctx.counter) input
    obtain ⟨hindexed, -⟩ := Transducer.run_indexed
      (fun nonce => (cipher.keyStream nonce).cipher (· ^^^ ·)) ctx.nonce ctx.counter input
    rw [if_pos hmethod, houtput, hindexed, hcounter]
    exact congrArg some hblocks

/-- Either end of a datagram starts at the same state. -/
theorem streamUpdateAll_start (hc : cipher.Ready) (decrypt : Bool) {nonce : List Byte} (hnonce : ctx.nonce = nonce)
    (hevp : ctx.evp = (stream_ctx_init cipher [] false).evp) (hcounter : ctx.counter = 0) (input : List Byte) :
    streamUpdateAll cipher decrypt (cipher_ctx_set_nonce cipher ctx nonce) input =
      some ((cipher.transducer decrypt).output (cipher.start nonce) input) := by
  obtain ⟨hruns, -, -⟩ := runs_start hc hnonce hevp rfl
  have hcounter' : (cipher_ctx_set_nonce cipher ctx nonce).counter = 0 := by
    rw [cipher_ctx_set_nonce_eq]
    exact hcounter
  have hruns' : (cipher_ctx_set_nonce cipher ctx nonce).Runs cipher (cipher.start nonce) := by
    have hctx : { cipher_ctx_set_nonce cipher ctx nonce with counter := 0, init := ctx.init } =
        cipher_ctx_set_nonce cipher ctx nonce := by
      rw [← hcounter, cipher_ctx_set_nonce_eq]
    rw [← hctx]
    exact hruns.with_init ctx.init
  exact streamUpdateAll_eq decrypt hruns' hcounter' input

end

/-- Under every method that the library has: what was encrypted is accepted unless it is empty or its nonce has
been seen, and then it is what it was. -/
theorem stream_datagram_received (method : Method) (key : List Byte) (ecb : List Byte → List Byte → List Byte)
    (crypto_md5 : List Byte → List Byte) (cipher : StreamT)
    (hcipher : stream_key_init method key ecb crypto_md5 = some cipher) (random : List Byte)
    (hrandom : random.length = cipher.nonce_len) (plaintext : List Byte) (pp : Ppbloom) :
    ∃ ciphertext, stream_encrypt_all cipher random plaintext = (.ok, ciphertext) ∧
      stream_decrypt_all cipher pp ciphertext =
        if plaintext ≠ [] ∧ ppbloom_check pp random = false then (.ok, plaintext, ppbloom_add pp random)
        else (.error, ciphertext, pp) := by
  have hc := ready_of_init hcipher
  have hnonce : random.take cipher.nonce_len = random := List.take_of_length_le (Nat.le_of_eq hrandom)
  generalize hsealed : (cipher.transducer false).output (cipher.start random) plaintext = sealed
  have hopened : (cipher.transducer true).output (cipher.start random) sealed = plaintext := by
    rw [← hsealed]
    exact cipher.inverts.output (cipher.start random) plaintext
  have hlength : sealed.length = plaintext.length := by rw [← hsealed, Transducer.length_output]
  refine ⟨random ++ sealed, ?_, ?_⟩
  · have hinit : (stream_ctx_init cipher random true).nonce = random := hnonce
    have hctx : (cipher_ctx_set_nonce cipher (stream_ctx_init cipher random true) random).nonce = random := by
      rw [cipher_ctx_set_nonce_eq]
      exact hinit
    simp only [stream_encrypt_all, hinit, streamUpdateAll_start hc false hinit rfl rfl, hsealed, hctx]
  · have hlong : ¬(random ++ sealed).length ≤ cipher.nonce_len ↔ plaintext ≠ [] := by
      rw [List.length_append, hrandom, hlength, ← List.length_pos_iff]
      omega
    have hctx : ({ stream_ctx_init cipher [] false with nonce := random } : StreamCtx).nonce = random := rfl
    have hupdate := streamUpdateAll_start hc true hctx rfl rfl sealed
    rw [hopened] at hupdate
    simp only [stream_decrypt_all, List.take_left' hrandom, List.drop_left' hrandom, hupdate]
    by_cases hempty : plaintext = []
    · rw [if_pos (not_not.mp fun h => hlong.mp h hempty), if_neg fun h => h.1 hempty]
    · rw [if_neg (hlong.mpr hempty)]
      cases ppbloom_check pp random <;> simp [hempty]

theorem salsa_datagram_received :
    ∃ ciphertext, stream_encrypt_all salsaCipher [0, 1, 2, 3, 4, 5, 6, 7] [1, 2, 3] = (.ok, ciphertext) ∧
      stream_decrypt_all salsaCipher (ppbloom_init 4 64 3) ciphertext =
        (.ok, [1, 2, 3], ppbloom_add (ppbloom_init 4 64 3) [0, 1, 2, 3, 4, 5, 6, 7]) :=
  stream_datagram_received .SALSA20 (List.replicate 32 1) (fun _ block => block) (fun bytes => bytes) salsaCipher rfl
    [0, 1, 2, 3, 4, 5, 6, 7] rfl [1, 2, 3] (ppbloom_init 4 64 3)

/-- After a datagram was accepted, no datagram with its nonce is, whatever has come in between, unless half as many
nonces as the filter is made for were added since. -/
theorem stream_datagram_once (cipher : StreamT) (n bits hashes : Nat) (hbits : 0 < bits) (es es' : List Arrival)
    (ciphertext ciphertext' plaintext : List Byte) (pp pp' pp'' : Ppbloom)
    (hpp : (streamDatagrams cipher).arrivals (ppbloom_init n bits hashes) es = pp)
    (hok : stream_decrypt_all cipher pp ciphertext = (.ok, plaintext, pp'))
    (hpp'' : (streamDatagrams cipher).arrivals pp' es' = pp'')
    (hnonce : ciphertext'.take cipher.nonce_len = ciphertext.take cipher.nonce_len)
    (hfew : pp''.added.length < pp'.added.length + n / 2) :
    stream_decrypt_all cipher pp'' ciphertext' = (.error, ciphertext', pp'') := by
  have S := streamDatagrams_screens cipher
  subst hpp hpp''
  exact S.once hbits (S.arrivals .init es).1 hok es' hnonce hfew

theorem salsa_datagram_once :
    ∃ plaintext pp pp',
      stream_decrypt_all salsaCipher (ppbloom_init 4 64 3) [0, 1, 2, 3, 4, 5, 6, 7, 9] = (.ok, plaintext, pp) ∧
        (streamDatagrams salsaCipher).arrivals pp [.connection [1, 1]] = pp' ∧
        stream_decrypt_all salsaCipher pp' [0, 1, 2, 3, 4, 5, 6, 7, 8, 8] =
          (.error, [0, 1, 2, 3, 4, 5, 6, 7, 8, 8], pp') := by
  obtain ⟨plaintext, pp, pp', hok, hpp', hadded, hadded'⟩ :
      ∃ plaintext pp pp',
        stream_decrypt_all salsaCipher (ppbloom_init 4 64 3) [0, 1, 2, 3, 4, 5, 6, 7, 9] = (.ok, plaintext, pp) ∧
          (streamDatagrams salsaCipher).arrivals pp [.connection [1, 1]] = pp' ∧
          pp.added = [[0, 1, 2, 3, 4, 5, 6, 7]] ∧ pp'.added = [[1, 1], [0, 1, 2, 3, 4, 5, 6, 7]] :=
    ⟨_, _, _, rfl, rfl, rfl, rfl⟩
  exact ⟨plaintext, pp, pp', hok, hpp', stream_datagram_once salsaCipher 4 64 3 (by decide) [] [.connection [1, 1]]
    [0, 1, 2, 3, 4, 5, 6, 7, 9] [0, 1, 2, 3, 4, 5, 6, 7, 8, 8] plaintext (ppbloom_init 4 64 3) pp pp' rfl hok hpp' rfl
    (by simp [hadded, hadded'])⟩

/-- Under `rc4`, of all datagrams that ever come at most one is accepted. -/
theorem rc4_one_datagram (key : List Byte) (ecb : List Byte → List Byte → List Byte)
    (crypto_md5 : List Byte → List Byte) (cipher : StreamT)
    (hcipher : stream_key_init .RC4 key ecb crypto_md5 = some cipher) (n bits hashes : Nat) (hbits : 0 < bits)
    (hn : 2 ≤ n) (cs : List (List Byte)) :
    (((streamDatagrams cipher).receive (ppbloom_init n bits hashes) cs).countP fun r => r.1 = .ok) ≤ 1 := by
  have hnone : cipher.nonce_len = 0 := by
    cases hcipher
    rfl
  exact (streamDatagrams_screens cipher).receive_one hnone hbits hn .init cs

def rc4Cipher : StreamT where
  method := .RC4
  key := [1, 2, 3]
  nonce_len := 0
  ecb _ block := block
  crypto_md5 bytes := bytes

theorem rc4_second_lost :
    (((streamDatagrams rc4Cipher).receive (ppbloom_init 4 64 3) [[1, 2], [3]]).countP fun r => r.1 = .ok) ≤ 1 :=
  rc4_one_datagram [1, 2, 3] (fun _ block => block) (fun bytes => bytes) rc4Cipher rfl 4 64 3 (by decide) (by decide)
    [[1, 2], [3]]

end SmartSocks.Crypto.Server
