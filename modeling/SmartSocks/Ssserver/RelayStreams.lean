import SmartSocks.Crypto.AeadStream
import SmartSocks.Crypto.StreamEnds
import SmartSocks.Ssserver.RelayEnds

/-!
# From a client to its remote and back

The relay and the ciphers together: what a client has sealed reaches its remote as it
was, without the header, and what the remote answers can be opened by the client as
it was (`Sound.request`, `Sound.response`). The ciphers only come in as their two
`Ends`, so both families are instances.
-/

namespace SmartSocks.Ssserver.TcpRelay

open Crypto.Server EasyValue

variable {κ : Type} {C : CryptoT κ Ppbloom} {calls : HostCalls} {st : Relay κ Ppbloom}

/-- What each connection has received and decrypted, as the end of a stream. -/
def Observer.ends (E : Ends C) : Observer C where
  filter _ := True
  knows _ _ ctx chunks outs := E.gets chunks.flatten outs.flatten ctx
  init _ := E.gets_init
  ok _ h hstep := by
    simpa using E.gets_ok h hstep
  needMore _ h hstep := by
    simpa using (E.gets_needMore h hstep).1
  keeps _ _ := trivial
  stays _ _ h := h

/-- What comes from a remote is sealed chunk by chunk. -/
theorem Encrypted.sends (E : Ends C) (hfits : ∀ bytes, (Recv.bytes bytes).fits = true → E.fits bytes)
    {random : List Byte} (hrandom : random.length = C.rand_len) {ctx : κ} {chunks outs : List (List Byte)}
    (h : Encrypted C random ctx chunks outs) : E.sends random chunks outs.flatten ctx := by
  induction h with
  | nil => exact E.sends_init hrandom
  | ok _ hchunk hstep ih =>
    have hsent := E.sends_ok ih (hfits _ hchunk) hstep
    simpa using hsent

namespace Relay

variable {s : Nat} {server : ServerT κ}

/-- The remote gets the payload of what the client has sealed, as far as it has come. -/
theorem Sound.request {E : Ends C} (h : Sound (.ends E) calls st) (hs : st.server s = some server) {r : Nat}
    {remote : RemoteT} (hlink : server.remote = some r) (hremote : st.remote r = some remote) {random : List Byte}
    (hrandom : random.length = C.rand_len) {pp : Ppbloom} {ps : List (List Byte)} (hps : ∀ p ∈ ps, E.fits p)
    (hroom : E.room ps.flatten) (hok : ∀ result ∈ C.encryptAll pp (C.e_init random) ps, result.1 = .ok)
    (hcame : server.fromClient.flatten <+: delivered (C.encryptAll pp (C.e_init random) ps)) :
    ∃ payload, payloadOf calls ps.flatten = some payload ∧ remote.toRemote <+: payload ∧
      (st.active (.serverRecv s) = true →
        server.fromClient.flatten = delivered (C.encryptAll pp (C.e_init random) ps) → remote.toRemote = payload) := by
  obtain ⟨payload, hpayload, hsent, hidle⟩ := h.payload hs hlink hremote
  obtain ⟨ctx, hsealed⟩ := E.encryptAll (E.sends_init hrandom) hps hok
  obtain ⟨hpart, hall⟩ := E.received hrandom (by simpa using hroom) hsealed (h.conn s server hs).decrypted
    (by simpa using hcame)
  simp only [List.nil_append] at hpart hall
  obtain ⟨more, hmore⟩ := hpart
  refine ⟨payload ++ more, ?_, hsent.trans (List.prefix_append ..), fun hactive hfull => ?_⟩
  · rw [← hmore]
    exact payloadOf_append hpayload more
  · have hnone : more = [] := by simpa [hall hfull] using hmore
    rw [hidle hactive, hnone, List.append_nil]

/-- The client opens what it has got of what the remote has sent, if the nonce at the head of it is new. -/
theorem Sound.response (E : Ends C) (hfits : ∀ bytes, (Recv.bytes bytes).fits = true → E.fits bytes)
    {T : Observer C} (h : Sound T calls st) (hs : st.server s = some server)
    (hroom : E.room server.fromRemote.flatten) {pp : Ppbloom} (hnew : C.Unseen pp server.toClient)
    {cs : List (List Byte)} (hcs : cs.flatten <+: server.toClient) :
    (∀ result ∈ C.decryptAll pp C.d_init cs, result.1 ≠ .error) ∧
      delivered (C.decryptAll pp C.d_init cs) <+: server.fromRemote.flatten ∧
      ∀ r, server.remote = some r → st.active (.remoteRecv r) = true → cs.flatten = server.toClient →
        delivered (C.decryptAll pp C.d_init cs) = server.fromRemote.flatten := by
  obtain ⟨random, hrandom, hencrypted⟩ := (h.conn s server hs).encrypted
  obtain ⟨hsent, hidle⟩ := h.downstream hs
  obtain ⟨herror, hpart, hall⟩ := E.decryptAll hrandom hroom (hencrypted.sends E hfits hrandom)
    E.gets_init (fun _ => hnew.shorten hcs) (hcs.trans hsent)
  refine ⟨herror, by simpa using hpart, fun r hlink hactive hfull => ?_⟩
  simpa using hall (by simpa [hfull] using hidle r hlink hactive)

theorem run_ends (E : Ends C) {crypto : Ppbloom} {es : List Event}
    (hr : Machine.run (step C calls) (some (initial crypto)) es = some (some st)) :
    Sound (.ends E) calls st := by
  obtain ⟨_, ⟨⟩, h⟩ := (sound_initial (T := .ends E) trivial).run hr
  exact h

-- ---------------------------------------------------------------------------
-- AEAD ciphers
-- ---------------------------------------------------------------------------

theorem fits_aeadEnds {A : Aead} {hA : A.Lawful} {bytes : List Byte} (h : (Recv.bytes bytes).fits = true) :
    (aeadEnds A hA).fits bytes := by
  simp only [Recv.fits, Bool.and_eq_true, decide_eq_true_eq] at h
  exact ⟨h.1, h.2.trans (by decide)⟩

/-- Whatever else the relay does: as far as a connection has received what a client has sealed, its remote
has got the payload of it, and all of it when all has come and the client is read again. -/
theorem aead_relay_request (A : Aead) (hA : A.Lawful) (calls : HostCalls) (crypto : Ppbloom)
    (es : List Event) (st : Relay AeadCtx Ppbloom)
    (hr : Machine.run (step (aeadCrypto A hA) calls) (some (initial crypto)) es = some (some st))
    (s r : Nat) (server : ServerT AeadCtx) (remote : RemoteT) (hs : st.server s = some server)
    (hlink : server.remote = some r) (hremote : st.remote r = some remote)
    (random : List Byte) (hrandom : random.length = A.key_len) (pp : Ppbloom) (ps : List (List Byte))
    (hps : ∀ p ∈ ps, 0 < p.length ∧ p.length ≤ CHUNK_SIZE_MASK)
    (hok : ∀ result ∈ (aeadCrypto A hA).encryptAll pp (aead_ctx_init A random true) ps, result.1 = .ok)
    (hcame : server.fromClient.flatten <+:
      delivered ((aeadCrypto A hA).encryptAll pp (aead_ctx_init A random true) ps)) :
    ∃ payload, payloadOf calls ps.flatten = some payload ∧ remote.toRemote <+: payload ∧
      (st.active (.serverRecv s) = true →
        server.fromClient.flatten = delivered ((aeadCrypto A hA).encryptAll pp (aead_ctx_init A random true) ps) →
        remote.toRemote = payload) :=
  (run_ends (aeadEnds A hA) hr).request hs hlink hremote hrandom hps trivial hok hcame

/-- The salt, the header and the first byte of the payload come in two pieces, and the length of the next
chunk in a third one. -/
def taggedEvents : List Event :=
  [.accept 1 [5, 6],
    .serverRecv 1 (.bytes [7, 8, 0, 8, 0, 1]) .again .null 0,
    .serverRecv 1 (.bytes [127, 0, 0, 1, 0, 80, 71, 1, 0, 2, 2]) .again (.remote 5 0) 0,
    .remoteSend 5 true (.upTo 9), .serverRecv 1 (.bytes [69]) .again .null 0,
    .remoteRecv 5 (.bytes [79, 75]) (.upTo 9)]

theorem tagged_relay_request :
    ∃ st server remote,
      Machine.run (step (aeadCrypto tagged tagged_lawful) sampleCalls) (some (initial (ppbloom_init 4 64 3)))
          taggedEvents = some (some st) ∧
        st.server 1 = some server ∧ st.remote 5 = some remote ∧
        ∃ payload, payloadOf sampleCalls [[1, 127, 0, 0, 1, 0, 80, 71], [69, 84]].flatten = some payload ∧
          remote.toRemote <+: payload := by
  obtain ⟨st, server, remote, hr, hs, hlink, hremote, hcame⟩ : ∃ st server remote,
      Machine.run (step (aeadCrypto tagged tagged_lawful) sampleCalls) (some (initial (ppbloom_init 4 64 3)))
          taggedEvents = some (some st) ∧
        st.server 1 = some server ∧ server.remote = some 5 ∧ st.remote 5 = some remote ∧
        server.fromClient = [[7, 8, 0, 8, 0, 1], [127, 0, 0, 1, 0, 80, 71, 1, 0, 2, 2], [69]] :=
    ⟨_, _, _, rfl, rfl, rfl, rfl, rfl⟩
  obtain ⟨payload, hpayload, hsent, -⟩ := aead_relay_request tagged tagged_lawful sampleCalls
    (ppbloom_init 4 64 3) taggedEvents st hr 1 5 server remote hs hlink hremote [7, 8] rfl (ppbloom_init 4 64 3)
    [[1, 127, 0, 0, 1, 0, 80, 71], [69, 84]] (by decide) (by decide) (by rw [hcame]; decide)
  exact ⟨st, server, remote, hr, hs, hremote, payload, hpayload, hsent⟩

/-- However the client cuts what it has got, it opens what the remote has sent, as far as it has come, if the
salt that it starts with is new. -/
theorem aead_relay_response (A : Aead) (hA : A.Lawful) (calls : HostCalls) (crypto : Ppbloom)
    (es : List Event) (st : Relay AeadCtx Ppbloom)
    (hr : Machine.run (step (aeadCrypto A hA) calls) (some (initial crypto)) es = some (some st))
    (s : Nat) (server : ServerT AeadCtx) (hs : st.server s = some server) (pp : Ppbloom)
    (hnew : A.key_len ≤ server.toClient.length → ppbloom_check pp (server.toClient.take A.key_len) = false)
    (cs : List (List Byte)) (hcs : cs.flatten <+: server.toClient) :
    (∀ result ∈ (aeadCrypto A hA).decryptAll pp (aead_ctx_init A [] false) cs, result.1 ≠ .error) ∧
      delivered ((aeadCrypto A hA).decryptAll pp (aead_ctx_init A [] false) cs) <+: server.fromRemote.flatten ∧
      ∀ r, server.remote = some r → st.active (.remoteRecv r) = true → cs.flatten = server.toClient →
        delivered ((aeadCrypto A hA).decryptAll pp (aead_ctx_init A [] false) cs) = server.fromRemote.flatten :=
  (run_ends (aeadEnds A hA) hr).response (aeadEnds A hA) (fun _ => fits_aeadEnds) hs trivial hnew hcs

/-- The salt and the two bytes of the remote, which the client cuts behind the first byte. -/
theorem tagged_relay_response :
    ∃ st server,
      Machine.run (step (aeadCrypto tagged tagged_lawful) sampleCalls) (some (initial (ppbloom_init 4 64 3)))
          taggedEvents = some (some st) ∧
        st.server 1 = some server ∧
        delivered ((aeadCrypto tagged tagged_lawful).decryptAll (ppbloom_init 4 64 3) (aead_ctx_init tagged [] false)
          [server.toClient.take 1, server.toClient.drop 1]) = [79, 75] := by
  obtain ⟨st, server, hr, hs, hlink, hactive, hgot, hcame⟩ : ∃ st server,
      Machine.run (step (aeadCrypto tagged tagged_lawful) sampleCalls) (some (initial (ppbloom_init 4 64 3)))
          taggedEvents = some (some st) ∧ st.server 1 = some server ∧ server.remote = some 5 ∧
        st.active (.remoteRecv 5) = true ∧ server.fromRemote = [[79, 75]] ∧
        server.toClient.take 2 = [5, 6] := ⟨_, _, rfl, rfl, rfl, rfl, rfl, rfl⟩
  have hcut : [server.toClient.take 1, server.toClient.drop 1].flatten = server.toClient := by
    rw [List.flatten_cons, List.flatten_singleton, List.take_append_drop]
  have hpart : [server.toClient.take 1, server.toClient.drop 1].flatten <+: server.toClient :=
    ⟨[], by rw [List.append_nil, hcut]⟩
  obtain ⟨-, -, hall⟩ := aead_relay_response tagged tagged_lawful sampleCalls (ppbloom_init 4 64 3)
    taggedEvents st hr 1 server hs (ppbloom_init 4 64 3)
    (fun _ => by rw [show tagged.key_len = 2 from rfl, hcame]; decide)
    [server.toClient.take 1, server.toClient.drop 1] hpart
  exact ⟨st, server, hr, hs, by rw [hall 5 hlink hactive hcut, hgot]; rfl⟩

-- ---------------------------------------------------------------------------
-- Stream ciphers
-- ---------------------------------------------------------------------------

/-- As under an AEAD cipher, as long as there is key stream. -/
theorem stream_relay_request (method : Crypto.Server.Method) (key : List Byte)
    (ecb : List Byte → List Byte → List Byte)
    (crypto_md5 : List Byte → List Byte) (cipher : StreamT)
    (hcipher : stream_key_init method key ecb crypto_md5 = some cipher) (calls : HostCalls)
    (crypto : Ppbloom) (es : List Event) (st : Relay StreamCtx Ppbloom)
    (hr : Machine.run (step (streamCrypto cipher) calls) (some (initial crypto)) es = some (some st))
    (s r : Nat) (server : ServerT StreamCtx) (remote : RemoteT) (hs : st.server s = some server)
    (hlink : server.remote = some r) (hremote : st.remote r = some remote)
    (random : List Byte) (hrandom : random.length = cipher.nonce_len) (pp : Ppbloom) (ps : List (List Byte))
    (hroom : cipher.method.sodium = true → ps.flatten.length < cipher.limit)
    (hok : ∀ result ∈ (streamCrypto cipher).encryptAll pp (stream_ctx_init cipher random true) ps, result.1 = .ok)
    (hcame : server.fromClient.flatten <+:
      delivered ((streamCrypto cipher).encryptAll pp (stream_ctx_init cipher random true) ps)) :
    ∃ payload, payloadOf calls ps.flatten = some payload ∧ remote.toRemote <+: payload ∧
      (st.active (.serverRecv s) = true →
        server.fromClient.flatten = delivered ((streamCrypto cipher).encryptAll pp (stream_ctx_init cipher random true) ps) →
        remote.toRemote = payload) :=
  (run_ends (streamEnds cipher (ready_of_init hcipher)) hr).request hs hlink hremote hrandom (fun _ _ => trivial) hroom
    hok hcame

/-- The nonce comes in two pieces, the second one with the header and the first byte of the payload. -/
def salsaEvents : List Event :=
  [.accept 1 [7, 6, 5, 4, 3, 2, 1, 0],
    .serverRecv 1 (.bytes [0, 1, 2, 3, 4, 5, 6]) .again .null 0,
    .serverRecv 1 (.bytes [7, 137, 255, 153, 84, 1, 226, 146, 179]) .again (.remote 5 0) 0,
    .remoteSend 5 true (.upTo 9), .remoteRecv 5 (.bytes [79, 75]) (.upTo 10)]

set_option maxRecDepth 4000 in
theorem salsa_relay_request :
    ∃ st server remote,
      Machine.run (step (streamCrypto salsaCipher) sampleCalls) (some (initial (ppbloom_init 4 64 3)))
          salsaEvents = some (some st) ∧
        st.server 1 = some server ∧ st.remote 5 = some remote ∧
        ∃ payload, payloadOf sampleCalls [[1, 127, 0, 0, 1, 0, 80, 71], [69, 84]].flatten = some payload ∧
          remote.toRemote <+: payload := by
  obtain ⟨st, server, remote, hr, hs, hlink, hremote, hcame⟩ : ∃ st server remote,
      Machine.run (step (streamCrypto salsaCipher) sampleCalls) (some (initial (ppbloom_init 4 64 3)))
          salsaEvents = some (some st) ∧
        st.server 1 = some server ∧ server.remote = some 5 ∧ st.remote 5 = some remote ∧
        server.fromClient = [[0, 1, 2, 3, 4, 5, 6], [7, 137, 255, 153, 84, 1, 226, 146, 179]] :=
    ⟨_, _, _, rfl, rfl, rfl, rfl, rfl⟩
  obtain ⟨payload, hpayload, hsent, -⟩ := stream_relay_request .SALSA20 (List.replicate 32 1) (fun _ block => block)
    (fun bytes => bytes) salsaCipher rfl sampleCalls (ppbloom_init 4 64 3) salsaEvents st hr 1 5 server remote
    hs hlink hremote [0, 1, 2, 3, 4, 5, 6, 7] rfl (ppbloom_init 4 64 3) [[1, 127, 0, 0, 1, 0, 80, 71], [69, 84]]
    (by decide) (by decide +kernel) (by rw [hcame]; decide +kernel)
  exact ⟨st, server, remote, hr, hs, hremote, payload, hpayload, hsent⟩

theorem stream_relay_response (method : Crypto.Server.Method) (key : List Byte)
    (ecb : List Byte → List Byte → List Byte)
    (crypto_md5 : List Byte → List Byte) (cipher : StreamT)
    (hcipher : stream_key_init method key ecb crypto_md5 = some cipher) (calls : HostCalls)
    (crypto : Ppbloom) (es : List Event) (st : Relay StreamCtx Ppbloom)
    (hr : Machine.run (step (streamCrypto cipher) calls) (some (initial crypto)) es = some (some st))
    (s : Nat) (server : ServerT StreamCtx) (hs : st.server s = some server)
    (hroom : cipher.method.sodium = true → server.fromRemote.flatten.length < cipher.limit) (pp : Ppbloom)
    (hnew : cipher.nonce_len ≤ server.toClient.length →
      ppbloom_check pp (server.toClient.take cipher.nonce_len) = false)
    (cs : List (List Byte)) (hcs : cs.flatten <+: server.toClient) :
    (∀ result ∈ (streamCrypto cipher).decryptAll pp (stream_ctx_init cipher [] false) cs, result.1 ≠ .error) ∧
      delivered ((streamCrypto cipher).decryptAll pp (stream_ctx_init cipher [] false) cs) <+:
        server.fromRemote.flatten ∧
      ∀ r, server.remote = some r → st.active (.remoteRecv r) = true → cs.flatten = server.toClient →
        delivered ((streamCrypto cipher).decryptAll pp (stream_ctx_init cipher [] false) cs) =
          server.fromRemote.flatten :=
  (run_ends (streamEnds cipher (ready_of_init hcipher)) hr).response (streamEnds cipher (ready_of_init hcipher))
    (fun _ _ => trivial) hs hroom hnew hcs

set_option maxRecDepth 4000 in
theorem salsa_relay_response :
    ∃ st server,
      Machine.run (step (streamCrypto salsaCipher) sampleCalls) (some (initial (ppbloom_init 4 64 3)))
          salsaEvents = some (some st) ∧
        st.server 1 = some server ∧
        delivered ((streamCrypto salsaCipher).decryptAll (ppbloom_init 4 64 3) (stream_ctx_init salsaCipher [] false)
          [server.toClient.take 3, server.toClient.drop 3]) = [79, 75] := by
  obtain ⟨st, server, hr, hs, hlink, hactive, hgot, hcame⟩ : ∃ st server,
      Machine.run (step (streamCrypto salsaCipher) sampleCalls) (some (initial (ppbloom_init 4 64 3)))
          salsaEvents = some (some st) ∧ st.server 1 = some server ∧ server.remote = some 5 ∧
        st.active (.remoteRecv 5) = true ∧ server.fromRemote = [[79, 75]] ∧
        server.toClient.take 8 = [7, 6, 5, 4, 3, 2, 1, 0] := ⟨_, _, rfl, rfl, rfl, rfl, rfl, rfl⟩
  have hcut : [server.toClient.take 3, server.toClient.drop 3].flatten = server.toClient := by
    rw [List.flatten_cons, List.flatten_singleton, List.take_append_drop]
  have hpart : [server.toClient.take 3, server.toClient.drop 3].flatten <+: server.toClient :=
    ⟨[], by rw [List.append_nil, hcut]⟩
  obtain ⟨-, -, hall⟩ := stream_relay_response .SALSA20 (List.replicate 32 1) (fun _ block => block)
    (fun bytes => bytes) salsaCipher rfl sampleCalls (ppbloom_init 4 64 3) salsaEvents st hr 1 server hs
    (by rw [hgot]; decide) (ppbloom_init 4 64 3)
    (fun _ => by rw [show salsaCipher.nonce_len = 8 from rfl, hcame]; decide)
    [server.toClient.take 3, server.toClient.drop 3] hpart
  exact ⟨st, server, hr, hs, by rw [hall 5 hlink hactive hcut, hgot]; rfl⟩

end Relay
end SmartSocks.Ssserver.TcpRelay
