import SmartSocks.Crypto.Screening
import SmartSocks.Ssserver.RelayStreams

/-!
# Replayed connections

Whoever has seen a connection can send its bytes again on a new one. The server closes
it as soon as its nonce has come, unless so many other connections came in between that
the filter has forgotten the nonce (`Sound.replayed`). Nothing of it is decrypted, no
name is resolved for it, and no remote sees it.
-/

namespace SmartSocks.Ssserver.TcpRelay

open Crypto.Server EasyValue

variable {κ : Type} {C : CryptoT κ Ppbloom} {E : Ends C} {calls : HostCalls} {st : Relay κ Ppbloom}
  {old : List (List Byte)} {nonce : List Byte} {pp pp' : Ppbloom}

/-- The nonce was added after `old`. -/
def Since (old : List (List Byte)) (nonce : List Byte) (pp : Ppbloom) : Prop :=
  ∃ new, pp.added = new ++ old ∧ nonce ∈ new

theorem Since.evolves (S : Screens E) (h : Since old nonce pp) (hstep : C.Evolves pp pp') : Since old nonce pp' := by
  obtain ⟨new, hadded, hmem⟩ := h
  obtain ⟨more, hmore⟩ := S.grows hstep
  exact ⟨more ++ new, by simp [hmore, hadded], List.mem_append_right more hmem⟩

/-- It is reported until `n / 2` others came. -/
theorem Since.check {n bits hashes : Nat} (h : Since old nonce pp) (hfilled : Filled n bits hashes pp) (hbits : 0 < bits)
    (hfew : pp.added.length ≤ old.length + n / 2) : ppbloom_check pp nonce = true := by
  obtain ⟨new, hadded, hmem⟩ := h
  refine hfilled.check hbits ?_
  rw [hadded, List.length_append] at hfew
  rw [hadded, List.take_append, List.mem_append]
  exact .inl (by rwa [List.take_of_length_le (by omega)])

/-- The nonce of a fresh connection has been added once something was decrypted. -/
def Observer.adding (S : Screens E) (fresh : Nat → Prop) (n bits hashes : Nat) (old : List (List Byte)) :
    Observer C where
  filter pp := Filled n bits hashes pp ∧ ∃ new, pp.added = new ++ old
  knows s pp ctx chunks outs := E.gets chunks.flatten outs.flatten ctx ∧
    (fresh s → outs.flatten ≠ [] → Since old (chunks.flatten.take C.rand_len) pp)
  init _ := ⟨E.gets_init, fun _ hsome => absurd rfl hsome⟩
  ok := by
    intro s pp pp' ctx ctx' bytes out chunks outs hfilter h hstep
    obtain ⟨hgets, hadded⟩ := h
    refine ⟨by simpa using E.gets_ok hgets hstep, fun hfresh _ => ?_⟩
    simp only [List.flatten_append, List.flatten_singleton]
    by_cases hnone : outs.flatten = []
    · rw [hnone] at hgets
      obtain ⟨-, new, hnew⟩ := hfilter
      rw [S.adds hgets hstep]
      exact ⟨_ :: new, by simp [ppbloom_add_added, hnew], List.mem_cons_self⟩
    · rw [S.take_append (S.long hgets hnone)]
      exact (hadded hfresh hnone).evolves S (.decrypt (.refl pp) hstep)
  needMore := by
    intro s pp pp' ctx ctx' bytes out chunks outs hfilter h hstep
    obtain ⟨hgets, hadded⟩ := h
    obtain ⟨hgets', rfl⟩ := E.gets_needMore hgets hstep
    refine ⟨by simpa using hgets', fun hfresh hsome => ?_⟩
    simp only [List.flatten_append, List.flatten_singleton]
    rw [S.take_append (S.long hgets hsome)]
    exact hadded hfresh hsome
  keeps := by
    rintro pp pp' hstep ⟨hfilled, new, hnew⟩
    obtain ⟨more, hmore⟩ := S.grows hstep
    exact ⟨S.filled hstep hfilled, more ++ new, by simp [hmore, hnew]⟩
  stays hstep _ h := ⟨h.1, fun hfresh hsome => (h.2 hfresh hsome).evolves S hstep⟩

/-- A fresh connection with a nonce that is not too old. -/
theorem turns_down (S : Screens E) {n bits hashes : Nat} (hbits : 0 < bits) (hfilled : Filled n bits hashes pp)
    (hsince : Since old nonce pp) {bytes plain c out : List Byte} {ctx ctx' : κ} {verdict : Verdict}
    (hgets : E.gets bytes plain ctx) (hstep : C.decrypt pp ctx c = (verdict, out, ctx', pp')) (hok : verdict ≠ .error)
    (h : S.whole ≤ bytes.length → bytes.take C.rand_len = nonce → old.length + n / 2 < pp.added.length)
    (hlong : S.whole ≤ (bytes ++ c).length) (hnonce : (bytes ++ c).take C.rand_len = nonce) :
    old.length + n / 2 < pp'.added.length := by
  obtain ⟨new, hnew⟩ := S.grows (.decrypt (.refl pp) hstep)
  have hgrows : pp.added.length ≤ pp'.added.length := by simp [hnew]
  refine Nat.lt_of_lt_of_le ?_ hgrows
  by_cases hcame : S.whole ≤ bytes.length
  · rw [S.take_append hcame] at hnonce
    exact h hcame hnonce
  · by_contra hfew
    have hchecked := hsince.check hfilled hbits (Nat.not_lt.mp hfew)
    rw [← hnonce, S.asked hgets hstep hok (Nat.not_le.mp hcame) hlong] at hchecked
    cases hchecked

/-- A fresh connection with this nonce does not get over it before `n / 2` others came. -/
def Observer.turningDown (S : Screens E) (fresh : Nat → Prop) (n bits hashes : Nat) (hbits : 0 < bits)
    (old : List (List Byte)) (nonce : List Byte) : Observer C where
  filter pp := Filled n bits hashes pp ∧ Since old nonce pp
  knows s pp ctx chunks outs := E.gets chunks.flatten outs.flatten ctx ∧
    (fresh s → S.whole ≤ chunks.flatten.length → chunks.flatten.take C.rand_len = nonce →
      old.length + n / 2 < pp.added.length)
  init _ := ⟨E.gets_init, fun _ hlong => absurd hlong (Nat.not_le.mpr S.pos)⟩
  ok := by
    intro s pp pp' ctx ctx' bytes out chunks outs hfilter h hstep
    refine ⟨by simpa using E.gets_ok h.1 hstep, fun hfresh hlong hnonce => ?_⟩
    simp only [List.flatten_append, List.flatten_singleton] at hlong hnonce
    exact turns_down S hbits hfilter.1 hfilter.2 h.1 hstep nofun (h.2 hfresh) hlong hnonce
  needMore := by
    intro s pp pp' ctx ctx' bytes out chunks outs hfilter h hstep
    refine ⟨by simpa using (E.gets_needMore h.1 hstep).1, fun hfresh hlong hnonce => ?_⟩
    simp only [List.flatten_append, List.flatten_singleton] at hlong hnonce
    exact turns_down S hbits hfilter.1 hfilter.2 h.1 hstep nofun (h.2 hfresh) hlong hnonce
  keeps hstep h := ⟨S.filled hstep h.1, h.2.evolves S hstep⟩
  stays := by
    intro s pp pp' ctx chunks outs hstep _ h
    refine ⟨h.1, fun hfresh hlong hnonce => Nat.lt_of_lt_of_le (h.2 hfresh hlong hnonce) ?_⟩
    obtain ⟨new, hnew⟩ := S.grows hstep
    simp [hnew]

namespace Relay

variable {s : Nat} {server : ServerT κ}

/-- A sound relay, seen by another observer. -/
theorem Sound.observe {T T' : Observer C} (h : Sound T calls st) (hfilter : T'.filter st.crypto)
    (hknows : ∀ s server, st.server s = some server →
      T'.knows s st.crypto server.d_ctx server.fromClient server.plain) : Sound T' calls st :=
  { h with
    filter := hfilter
    conn := fun s server hs => { h.conn s server hs with decrypted := hknows s server hs } }

/-- A connection that goes on has an output that is not empty. -/
theorem Sound.handshaking {T : Observer C} (h : Sound T calls st) (hs : st.server s = some server)
    (hnone : server.plain.flatten = []) : st.Handshaking s server := by
  have hempty : payloadOf calls [] = none := rfl
  have hup {sent waiting : List Byte} (hup : Upstream calls server.plain sent waiting) : False := by
    obtain ⟨first, rest, payload, hplain, hpayload, -⟩ := hup
    obtain rfl : first = [] := by simp_all
    cases hempty.symm.trans hpayload
  cases (h.conn s server hs).phase with
  | handshaking hphase => exact hphase
  | resolving q hphase => exact (hup hphase.up).elim
  | connecting r remote hphase => exact (hup hphase.up).elim
  | streaming r remote hphase => exact (hup hphase.up).elim

/-- `first` came after `st₀`, and something of it was decrypted in `st₁`. What comes after that with
the same nonce does not get over it. -/
theorem Sound.replayed (S : Screens E) {n bits hashes : Nat} (hbits : 0 < bits) {st₀ st₁ st₂ : Relay κ Ppbloom}
    (h : Sound (.ends E) calls st₀) (hfilled : Filled n bits hashes st₀.crypto) {es₁ es₂ : List Event}
    (hr₁ : Machine.run (Relay.step C calls) (some st₀) es₁ = some (some st₁))
    (hr₂ : Machine.run (Relay.step C calls) (some st₁) es₂ = some (some st₂)) {i j : Nat}
    {first second : ServerT κ} (hi₀ : st₀.server i = none) (hi₁ : st₁.server i = some first)
    (hplain : first.plain.flatten ≠ []) (hj₁ : st₁.server j = none) (hj₂ : st₂.server j = some second)
    (hnonce : second.fromClient.flatten.take C.rand_len = first.fromClient.flatten.take C.rand_len)
    (hfew : st₂.crypto.added.length ≤ st₀.crypto.added.length + n / 2) :
    second.fromClient.flatten.length < S.whole ∧ st₂.Handshaking j second := by
  -- the nonce of the first connection is in the filter
  have hadding : Sound (.adding S (fun s => st₀.server s = none) n bits hashes st₀.crypto.added)
      calls st₀ := by
    refine h.observe ⟨hfilled, [], rfl⟩ fun s server hs => ⟨(h.conn s server hs).decrypted, fun hfresh => ?_⟩
    simp [hs] at hfresh
  obtain ⟨_, ⟨⟩, h₁⟩ := hadding.run hr₁
  have hsince := (h₁.conn i first hi₁).decrypted.2 hi₀ hplain
  -- so it is reported for the second one
  have hturning : Sound (.turningDown S (fun s => st₁.server s = none) n bits hashes hbits st₀.crypto.added
      (first.fromClient.flatten.take C.rand_len)) calls st₁ := by
    refine h₁.observe ⟨h₁.filter.1, hsince⟩ fun s server hs =>
      ⟨(h₁.conn s server hs).decrypted.1, fun hfresh => ?_⟩
    simp [hs] at hfresh
  obtain ⟨_, ⟨⟩, h₂⟩ := hturning.run hr₂
  obtain ⟨hgets, hturned⟩ := (h₂.conn j second hj₂).decrypted
  have hshort : second.fromClient.flatten.length < S.whole := by
    by_contra hlong
    exact Nat.not_lt.mpr hfew (hturned hj₁ (Nat.not_lt.mp hlong) hnonce)
  refine ⟨hshort, h₂.handshaking hj₂ ?_⟩
  by_contra hsome
  exact Nat.not_lt.mpr (S.long hgets hsome) hshort

theorem run_filled (S : Screens E) {n bits hashes : Nat} {es : List Event}
    (hr : Machine.run (step C calls) (some (initial (ppbloom_init n bits hashes))) es = some (some st)) :
    Sound (.ends E) calls st ∧ Filled n bits hashes st.crypto := by
  have hinit : Sound (.adding S (fun _ => True) n bits hashes []) calls
      (initial (ppbloom_init n bits hashes)) := sound_initial ⟨.init, [], rfl⟩
  obtain ⟨_, ⟨⟩, h⟩ := hinit.run hr
  exact ⟨h.observe trivial fun s server hs => (h.conn s server hs).decrypted.1, h.filter.1⟩

/-- A connection `j` that repeats the salt of an earlier one `i` is closed by its next byte, unless more than
half as many salts as the filter is made for came since `i` did. -/
theorem aead_replay_turned_down (A : Aead) (hA : A.Lawful) (calls : HostCalls) (n bits hashes : Nat)
    (hbits : 0 < bits) (es₀ es₁ es₂ : List Event) (st₀ st₁ st₂ : Relay AeadCtx Ppbloom)
    (hr₀ : Machine.run (step (aeadCrypto A hA) calls) (some (initial (ppbloom_init n bits hashes))) es₀ =
      some (some st₀))
    (hr₁ : Machine.run (step (aeadCrypto A hA) calls) (some st₀) es₁ = some (some st₁))
    (hr₂ : Machine.run (step (aeadCrypto A hA) calls) (some st₁) es₂ = some (some st₂))
    (i j : Nat) (first second : ServerT AeadCtx) (hi₀ : st₀.server i = none) (hi₁ : st₁.server i = some first)
    (hplain : first.plain.flatten ≠ []) (hj₁ : st₁.server j = none) (hj₂ : st₂.server j = some second)
    (hsalt : second.fromClient.flatten.take A.key_len = first.fromClient.flatten.take A.key_len)
    (hfew : st₂.crypto.added.length ≤ st₀.crypto.added.length + n / 2) :
    second.fromClient.flatten.length ≤ A.key_len ∧ second.plain = [] ∧ second.query = none ∧ second.remote = none ∧
      second.toClient = [] := by
  obtain ⟨h, hfilled⟩ := run_filled (aeadScreens A hA) hr₀
  obtain ⟨hshort, hphase⟩ := h.replayed (aeadScreens A hA) hbits hfilled hr₁ hr₂ hi₀ hi₁ hplain hj₁ hj₂ hsalt hfew
  exact ⟨Nat.le_of_lt_succ hshort, hphase.plain, hphase.query, hphase.remote, hphase.toClient⟩

/-- The salt of the first connection again. -/
def replayEvents : List Event := [.accept 2 [9, 9], .serverRecv 2 (.bytes [7, 8]) .again .null 0]

theorem tagged_replay_turned_down :
    ∃ st₁ st₂ second,
      Machine.run (step (aeadCrypto tagged tagged_lawful) sampleCalls) (some (initial (ppbloom_init 4 64 3)))
          taggedEvents = some (some st₁) ∧
        Machine.run (step (aeadCrypto tagged tagged_lawful) sampleCalls) (some st₁) replayEvents = some (some st₂) ∧
        st₂.server 2 = some second ∧ second.fromClient.flatten.length ≤ 2 ∧ second.plain = [] ∧
        second.query = none ∧ second.remote = none ∧ second.toClient = [] := by
  obtain ⟨st₁, st₂, first, second, hr₁, hr₂, hi₁, hplain, hfirst, hj₁, hj₂, hsecond, hadded⟩ :
      ∃ st₁ st₂ first second,
        Machine.run (step (aeadCrypto tagged tagged_lawful) sampleCalls) (some (initial (ppbloom_init 4 64 3)))
            taggedEvents = some (some st₁) ∧
          Machine.run (step (aeadCrypto tagged tagged_lawful) sampleCalls) (some st₁) replayEvents =
            some (some st₂) ∧
          st₁.server 1 = some first ∧ first.plain = [[1, 127, 0, 0, 1, 0, 80, 71]] ∧
          first.fromClient = [[7, 8, 0, 8, 0, 1], [127, 0, 0, 1, 0, 80, 71, 1, 0, 2, 2], [69]] ∧
          st₁.server 2 = none ∧ st₂.server 2 = some second ∧ second.fromClient = [[7, 8]] ∧
          st₂.crypto.added = [[7, 8]] :=
    ⟨_, _, _, _, rfl, rfl, rfl, rfl, rfl, rfl, rfl, rfl, rfl⟩
  have hturned := aead_replay_turned_down tagged tagged_lawful sampleCalls 4 64 3 (by decide) [] taggedEvents
    replayEvents (initial (ppbloom_init 4 64 3)) st₁ st₂ rfl hr₁ hr₂ 1 2 first second rfl hi₁ (by simp [hplain]) hj₁
    hj₂ (by rw [hfirst, hsecond]; rfl) (by simp [hadded])
  exact ⟨st₁, st₂, second, hr₁, hr₂, hj₂, hturned⟩

/-- Under a method with a filter, no connection that is there has the nonce of an earlier one, unless more than
half as many nonces as the filter is made for came since. -/
theorem stream_replay_turned_down (method : Crypto.Server.Method) (key : List Byte)
    (ecb : List Byte → List Byte → List Byte)
    (crypto_md5 : List Byte → List Byte) (cipher : StreamT)
    (hcipher : stream_key_init method key ecb crypto_md5 = some cipher) (hscreened : cipher.method.screened = true)
    (calls : HostCalls) (n bits hashes : Nat) (hbits : 0 < bits) (es₀ es₁ es₂ : List Event)
    (st₀ st₁ st₂ : Relay StreamCtx Ppbloom)
    (hr₀ : Machine.run (step (streamCrypto cipher) calls) (some (initial (ppbloom_init n bits hashes))) es₀ =
      some (some st₀))
    (hr₁ : Machine.run (step (streamCrypto cipher) calls) (some st₀) es₁ = some (some st₁))
    (hr₂ : Machine.run (step (streamCrypto cipher) calls) (some st₁) es₂ = some (some st₂))
    (i j : Nat) (first second : ServerT StreamCtx) (hi₀ : st₀.server i = none) (hi₁ : st₁.server i = some first)
    (hplain : first.plain.flatten ≠ []) (hj₁ : st₁.server j = none) (hj₂ : st₂.server j = some second)
    (hfew : st₂.crypto.added.length ≤ st₀.crypto.added.length + n / 2) :
    second.fromClient.flatten.take cipher.nonce_len ≠ first.fromClient.flatten.take cipher.nonce_len := by
  intro hnonce
  have hpos := nonce_len_of_init hcipher hscreened
  obtain ⟨h, hfilled⟩ := run_filled (streamScreens cipher (ready_of_init hcipher) hscreened hpos) hr₀
  have hshort : second.fromClient.flatten.length < cipher.nonce_len :=
    (h.replayed (streamScreens cipher (ready_of_init hcipher) hscreened hpos) hbits hfilled
      hr₁ hr₂ hi₀ hi₁ hplain hj₁ hj₂ hnonce hfew).1
  -- the nonce of the first connection is whole
  obtain ⟨_, ⟨⟩, h₁⟩ := h.run hr₁
  have hlong : cipher.nonce_len ≤ first.fromClient.flatten.length :=
    (streamScreens cipher (ready_of_init hcipher) hscreened hpos).long (h₁.conn i first hi₁).decrypted hplain
  have hlength := congrArg List.length hnonce
  rw [List.length_take, List.length_take, Nat.min_eq_left hlong, Nat.min_eq_right (Nat.le_of_lt hshort)] at hlength
  exact Nat.ne_of_lt hshort hlength

/-- The nonce of the first connection again, but for its last byte. -/
def salsaReplayEvents : List Event :=
  [.accept 2 [8, 8, 8, 8, 8, 8, 8, 8], .serverRecv 2 (.bytes [0, 1, 2, 3, 4, 5, 6]) .again .null 0]

set_option maxRecDepth 4000 in
theorem salsa_replay_turned_down :
    ∃ st₁ st₂ first second,
      Machine.run (step (streamCrypto salsaCipher) sampleCalls) (some (initial (ppbloom_init 4 64 3)))
          salsaEvents = some (some st₁) ∧
        Machine.run (step (streamCrypto salsaCipher) sampleCalls) (some st₁) salsaReplayEvents = some (some st₂) ∧
        st₁.server 1 = some first ∧ st₂.server 2 = some second ∧
        second.fromClient.flatten.take 8 ≠ first.fromClient.flatten.take 8 := by
  obtain ⟨st₁, st₂, first, second, hr₁, hr₂, hi₁, hplain, hj₁, hj₂, hadded⟩ :
      ∃ st₁ st₂ first second,
        Machine.run (step (streamCrypto salsaCipher) sampleCalls) (some (initial (ppbloom_init 4 64 3)))
            salsaEvents = some (some st₁) ∧
          Machine.run (step (streamCrypto salsaCipher) sampleCalls) (some st₁) salsaReplayEvents =
            some (some st₂) ∧
          st₁.server 1 = some first ∧ first.plain = [[1, 127, 0, 0, 1, 0, 80, 71]] ∧ st₁.server 2 = none ∧
          st₂.server 2 = some second ∧ st₂.crypto.added = [[0, 1, 2, 3, 4, 5, 6, 7]] :=
    ⟨_, _, _, _, rfl, rfl, rfl, rfl, rfl, rfl, rfl⟩
  exact ⟨st₁, st₂, first, second, hr₁, hr₂, hi₁, hj₂,
    stream_replay_turned_down .SALSA20 (List.replicate 32 1) (fun _ block => block) (fun bytes => bytes) salsaCipher
      rfl rfl sampleCalls 4 64 3 (by decide) [] salsaEvents salsaReplayEvents (initial (ppbloom_init 4 64 3)) st₁
      st₂ rfl hr₁ hr₂ 1 2 first second rfl hi₁ (by simp [hplain]) hj₁ hj₂ (by simp [hadded])⟩

end Relay
end SmartSocks.Ssserver.TcpRelay
