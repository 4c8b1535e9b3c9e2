import SmartSocks.Ssserver.UdpRuns

/-!
# What the UDP relay carries

Whatever the relay sends to a remote is the payload of a datagram of the client, behind a
header that names the remote or a host to be resolved (`udp_run_forwarded`). Whatever it
sends to a client opens, and has the address of the remote in front of what came from
there (`udp_run_answered`).
-/

namespace SmartSocks.Ssserver.UdpRelay

open Crypto.Server (DatagramT Ppbloom Aead aeadDatagrams aead_decrypt_all aead_encrypt_all aead_datagram_received
  take_aead_encrypt_all ppbloom_add ppbloom_check ppbloom_init tagged tagged_lawful)

section
variable (inet_pton : List Byte → Option (List Byte))

/-- The payload of something that was decrypted for the client, and the header in front of it. -/
def Carried (received : List (Sockaddr × List Byte)) (client : Sockaddr) (data : List Byte)
    (header : UdpHeader) : Prop :=
  ∃ buf, (client, buf) ∈ received ∧ parse_udprelay_header inet_pton buf = some header ∧
    data = buf.drop header.offset

variable (D : DatagramT)

structure Genuine (st : Relay) : Prop where
  forwarded : ∀ d ∈ st.forwarded, ∃ header, Carried inet_pton st.received d.client d.data header ∧
    (header.dst_addr.ss_family ≠ .AF_UNSPEC → d.remote = header.dst_addr)
  asked : ∀ q query_ctx, st.query q = some query_ctx → ∃ header,
    Carried inet_pton st.received query_ctx.src_addr query_ctx.buf header ∧ header.dst_addr.ss_family = .AF_UNSPEC
  answered : ∀ d ∈ st.answered, ∃ random bytes, random.length = D.nonce_len ∧ (d.remote, bytes) ∈ st.arrived ∧
    D.encrypt_all random (construct_udprelay_header d.remote ++ bytes) = (.ok, d.data)

end

/-- At most this datagram has been sent to a remote. -/
structure Passes (st st' : Relay) (client remote : Sockaddr) (data : List Byte) : Prop where
  query : st'.query = st.query
  received : st'.received = st.received
  arrived : st'.arrived = st.arrived
  answered : st'.answered = st.answered
  forwarded : ∀ d ∈ st'.forwarded, d ∈ st.forwarded ∨ d.client = client ∧ d.remote = remote ∧ d.data = data

section
variable {D : DatagramT} {inet_pton : List Byte → Option (List Byte)} {st st' : Relay} {r : Nat}
  {client remote : Sockaddr} {data : List Byte}

theorem closeAndFreeRemote_eq (h : st.closeAndFreeRemote r = some st') : st' = { st with remote := st'.remote } := by
  obtain ⟨ctx, -, rfl⟩ := Option.map_eq_some_iff.mp h
  rfl

theorem cacheInsert_eq {key : Key} (h : st.cacheInsert key r = some st') :
    st' = { st with remote := st'.remote, conn_cache := st'.conn_cache } := by
  simp only [Relay.cacheInsert] at h
  split at h
  · cases h
    rfl
  · rw [closeAndFreeRemote_eq h]

theorem cacheRemove_eq {key : Key} (h : st.cacheRemove key = some st') :
    st' = { st with remote := st'.remote, conn_cache := st'.conn_cache } := by
  simp only [Relay.cacheRemove] at h
  split at h
  · cases h
    rfl
  · rw [closeAndFreeRemote_eq h]

theorem sendto_passes (st : Relay) (r : Nat) (client remote : Sockaddr) (data : List Byte) (sent : Bool) :
    Passes st (st.sendto r client remote data sent) client remote data := by
  cases sent with
  | false => exact ⟨rfl, rfl, rfl, rfl, fun d hd => .inl hd⟩
  | true =>
    refine ⟨rfl, rfl, rfl, rfl, fun d hd => ?_⟩
    rcases List.mem_cons.mp hd with rfl | hd
    · exact .inr ⟨rfl, rfl, rfl⟩
    · exact .inl hd

theorem openRemote_passes {ctx : RemoteCtx} {socket sent : Bool}
    (h : st.openRemote ctx remote data socket sent = some st') : Passes st st' ctx.src_addr remote data := by
  have hpasses := sendto_passes (st.newRemote ctx) st.allocated ctx.src_addr remote data sent
  cases socket with
  | false =>
    cases h
    exact ⟨rfl, rfl, rfl, rfl, fun d hd => .inl hd⟩
  | true =>
    cases sent with
    | true =>
      obtain ⟨st'', hinsert, hused⟩ := Option.bind_eq_some_iff.mp h
      obtain ⟨-, -, rfl⟩ := Option.map_eq_some_iff.mp hused
      rw [cacheInsert_eq hinsert]
      exact ⟨hpasses.query, hpasses.received, hpasses.arrived, hpasses.answered, hpasses.forwarded⟩
    | false =>
      rw [closeAndFreeRemote_eq h]
      exact ⟨hpasses.query, hpasses.received, hpasses.arrived, hpasses.answered, hpasses.forwarded⟩

namespace Genuine

theorem passes (h : Genuine inet_pton D st) (hp : Passes st st' client remote data) {header : UdpHeader}
    (hc : Carried inet_pton st.received client data header)
    (hdst : header.dst_addr.ss_family ≠ .AF_UNSPEC → remote = header.dst_addr) : Genuine inet_pton D st' where
  forwarded d hd := by
    rw [hp.received]
    rcases hp.forwarded d hd with hd | ⟨rfl, rfl, rfl⟩
    · exact h.forwarded d hd
    · exact ⟨header, hc, hdst⟩
  asked q query_ctx hq := by
    rw [hp.query] at hq
    rw [hp.received]
    exact h.asked q query_ctx hq
  answered d hd := by
    rw [hp.answered] at hd
    rw [hp.arrived]
    exact h.answered d hd

theorem resolvStart (h : Genuine inet_pton D st) (q : Nat) {query_ctx : QueryCtx} {header : UdpHeader}
    (hc : Carried inet_pton st.received query_ctx.src_addr query_ctx.buf header)
    (hname : header.dst_addr.ss_family = .AF_UNSPEC) : Genuine inet_pton D (st.resolvStart q query_ctx) where
  forwarded := h.forwarded
  asked q' query' hq' := by
    simp only [Relay.resolvStart] at hq'
    rcases eq_or_ne q' q with rfl | hne
    · rw [Function.update_self] at hq'
      cases hq'
      exact ⟨header, hc, hname⟩
    · rw [Function.update_of_ne hne] at hq'
      exact h.asked q' query' hq'
  answered := h.answered

theorem resolvFree (h : Genuine inet_pton D st) (q : Nat) :
    Genuine inet_pton D { st with query := Function.update st.query q none } where
  forwarded := h.forwarded
  asked q' query' hq' := by
    simp only at hq'
    rcases eq_or_ne q' q with rfl | hne
    · rw [Function.update_self] at hq'
      cases hq'
    · rw [Function.update_of_ne hne] at hq'
      exact h.asked q' query' hq'
  answered := h.answered

theorem caching (h : Genuine inet_pton D st) (crypto : Ppbloom) (conn_cache : List (Key × Nat)) :
    Genuine inet_pton D { st with crypto := crypto, conn_cache := conn_cache } :=
  ⟨h.forwarded, h.asked, h.answered⟩

theorem receiving (h : Genuine inet_pton D st) (client : Sockaddr) (buf : List Byte) :
    Genuine inet_pton D { st with received := (client, buf) :: st.received } where
  forwarded d hd := by
    obtain ⟨header, ⟨buf, hmem, hparse, hdata⟩, hdst⟩ := h.forwarded d hd
    exact ⟨header, ⟨buf, List.mem_cons_of_mem _ hmem, hparse, hdata⟩, hdst⟩
  asked q query_ctx hq := by
    obtain ⟨header, ⟨buf, hmem, hparse, hdata⟩, hname⟩ := h.asked q query_ctx hq
    exact ⟨header, ⟨buf, List.mem_cons_of_mem _ hmem, hparse, hdata⟩, hname⟩
  answered := h.answered

theorem arriving (h : Genuine inet_pton D st) (remote : Sockaddr) (bytes : List Byte) :
    Genuine inet_pton D { st with arrived := (remote, bytes) :: st.arrived } where
  forwarded := h.forwarded
  asked := h.asked
  answered d hd := by
    obtain ⟨random, bytes, hrandom, hmem, hencrypt⟩ := h.answered d hd
    exact ⟨random, bytes, hrandom, List.mem_cons_of_mem _ hmem, hencrypt⟩

theorem serverRecvFound (h : Genuine inet_pton D st) {q : Nat} {header : UdpHeader} {socket sent : Bool}
    {found : Option Nat} (hc : Carried inet_pton st.received client data header)
    (hst : st.serverRecvFound q client header data socket sent found = some st') : Genuine inet_pton D st' := by
  cases found with
  | some r =>
    simp only [Relay.serverRecvFound] at hst
    split at hst
    next hname =>
      cases hst
      exact h.resolvStart q hc hname
    · cases hst
      exact h.passes (sendto_passes ..) hc fun _ => rfl
  | none =>
    simp only [Relay.serverRecvFound] at hst
    split at hst
    next hname =>
      cases hst
      exact h.resolvStart q hc hname
    · exact h.passes (openRemote_passes hst) hc fun _ => rfl

theorem serverRecvCb (h : Genuine inet_pton D st) {q : Nat} {bytes : List Byte} {socket sent : Bool}
    (hst : st.serverRecvCb D inet_pton q client bytes socket sent = some st') : Genuine inet_pton D st' := by
  simp only [Relay.serverRecvCb] at hst
  split at hst
  next buf crypto _ =>
    split at hst
    · cases hst
      exact (h.receiving client buf).caching crypto st.conn_cache
    next header hparse =>
      have hcarried : Carried inet_pton ((client, buf) :: st.received) client (buf.drop header.offset) header :=
        ⟨buf, List.mem_cons_self, hparse, rfl⟩
      have hlookup := (h.receiving client buf).caching crypto
        (Lru.touch (header.dst_addr.ss_family, client) st.conn_cache).2
      split at hst
      · exact hlookup.serverRecvFound hcarried hst
      · obtain ⟨ctx, -, hst⟩ := Option.bind_eq_some_iff.mp hst
        exact hlookup.serverRecvFound hcarried hst
  · cases hst
    exact h.caching _ st.conn_cache

theorem resolvCb (h : Genuine inet_pton D st) {q : Nat} {addr : Option Sockaddr} {socket sent : Bool}
    (hst : st.resolvCb q addr socket sent = some st') : Genuine inet_pton D st' := by
  obtain ⟨query_ctx, hq, hst⟩ := Option.bind_eq_some_iff.mp hst
  obtain ⟨header, hcarried, hname⟩ := h.asked q query_ctx hq
  have hfree := h.resolvFree q
  cases addr with
  | none =>
    cases hst
    exact hfree
  | some addr =>
    simp only at hst
    cases hremote : query_ctx.remote_ctx with
    | some r =>
      simp only [hremote] at hst
      obtain ⟨ctx, -, hst⟩ := Option.bind_eq_some_iff.mp hst
      cases hst
      exact hfree.passes (sendto_passes ..) hcarried fun hother => absurd hname hother
    | none =>
      simp only [hremote] at hst
      have hlookup := hfree.caching st.crypto (Lru.touch (.AF_UNSPEC, query_ctx.src_addr) st.conn_cache).2
      split at hst
      · obtain ⟨ctx, -, hst⟩ := Option.bind_eq_some_iff.mp hst
        cases hst
        exact hlookup.passes (sendto_passes ..) hcarried fun hother => absurd hname hother
      · exact hlookup.passes (openRemote_passes hst) hcarried fun hother => absurd hname hother

theorem handle (h : Genuine inet_pton D st) {e : Relay.Event} (henabled : e.enabled D st = true)
    (hst : st.handle D inet_pton e = some st') : Genuine inet_pton D st' := by
  cases e with
  | serverRecv q src_addr bytes socket sent => exact h.serverRecvCb hst
  | resolved q addr socket sent => exact h.resolvCb hst
  | remoteRecv r src_addr bytes random sent =>
    obtain ⟨ctx, -, hst⟩ := Option.bind_eq_some_iff.mp hst
    have hrandom : random.length = D.nonce_len := of_decide_eq_true (Bool.and_eq_true_iff.mp henabled).2
    have harrived := h.arriving src_addr bytes
    split at hst
    next buf hencrypt =>
      split at hst
      · cases hst
        refine ⟨h.forwarded, h.asked, List.forall_mem_cons.mpr ⟨?_, harrived.answered⟩⟩
        exact ⟨random, bytes, hrandom, List.mem_cons_self, hencrypt⟩
      · cases hst
        exact harrived
    · cases hst
      exact harrived
  | remoteTimeout r =>
    obtain ⟨ctx, -, hst⟩ := Option.bind_eq_some_iff.mp hst
    rw [cacheRemove_eq hst]
    exact ⟨h.forwarded, h.asked, h.answered⟩

theorem run {crypto : Ppbloom} {es : List Relay.Event}
    (hr : Machine.run (Relay.step D inet_pton) (some (.initial crypto)) es = some (some st)) :
    Genuine inet_pton D st := by
  have hinit : Genuine inet_pton D (.initial crypto) := {
    forwarded := fun d hd => absurd hd List.not_mem_nil
    asked := fun q query_ctx hq => by cases hq
    answered := fun d hd => absurd hd List.not_mem_nil }
  have hkeep : ∀ s e t, (∀ u, s = some u → Genuine inet_pton D u) → Relay.step D inet_pton s e = some t →
      ∀ u, t = some u → Genuine inet_pton D u := by
    intro s e t hs hstep u ht
    cases s with
    | none => cases hstep
    | some s =>
      simp only [Relay.step, Option.bind_some, Option.ite_none_right_eq_some, Option.some.injEq] at hstep
      obtain ⟨henabled, hhandle⟩ := hstep
      exact (hs s rfl).handle henabled (hhandle.trans ht)
  exact Machine.run_keeps hkeep (fun u hu => by cases hu; exact hinit) hr st rfl

end Genuine
end

-- ---------------------------------------------------------------------------
-- Results
-- ---------------------------------------------------------------------------

/-- In every reachable state, what was sent to a remote is the payload of a datagram of this client that was decrypted,
and the remote is the one that its header names, unless it names a host. -/
theorem udp_run_forwarded (D : DatagramT) (inet_pton : List Byte → Option (List Byte)) (crypto : Ppbloom)
    (es : List Relay.Event) (st : Relay)
    (hr : Machine.run (Relay.step D inet_pton) (some (.initial crypto)) es = some (some st)) (d : Datagram)
    (hd : d ∈ st.forwarded) :
    ∃ buf header, (d.client, buf) ∈ st.received ∧ parse_udprelay_header inet_pton buf = some header ∧
      d.data = buf.drop header.offset ∧ (header.dst_addr.ss_family ≠ .AF_UNSPEC → d.remote = header.dst_addr) := by
  obtain ⟨header, ⟨buf, hmem, hparse, hdata⟩, hdst⟩ := (Genuine.run hr).forwarded d hd
  exact ⟨buf, header, hmem, hparse, hdata, hdst⟩

theorem answered_forwarded :
    ∃ st d, Machine.run (Relay.step (aeadDatagrams tagged) fun _ => none) (some (.initial (ppbloom_init 4 64 3)))
        answeredEvents = some (some st) ∧ st.forwarded = [d] ∧
      ∃ buf header, (d.client, buf) ∈ st.received ∧ parse_udprelay_header (fun _ => none) buf = some header ∧
        d.data = buf.drop header.offset ∧ (header.dst_addr.ss_family ≠ .AF_UNSPEC → d.remote = header.dst_addr) := by
  obtain ⟨st, d, hr, hforwarded⟩ :
      ∃ st d, Machine.run (Relay.step (aeadDatagrams tagged) fun _ => none)
        (some (.initial (ppbloom_init 4 64 3))) answeredEvents = some (some st) ∧ st.forwarded = [d] :=
    ⟨_, _, rfl, rfl⟩
  exact ⟨st, d, hr, hforwarded, udp_run_forwarded (aeadDatagrams tagged) (fun _ => none) (ppbloom_init 4 64 3)
    answeredEvents st hr d (by simp [hforwarded])⟩

/-- In every reachable state, a datagram to a name that is an IPv6 address has been sent to the unspecified address:
`inet_pton` was asked for an IPv4 address, and does not take one with a colon. -/
theorem udp_run_ipv6_name (D : DatagramT) (inet_pton : List Byte → Option (List Byte))
    (hpton : ∀ s, 0x3A ∈ s → inet_pton s = none) (crypto : Ppbloom) (es : List Relay.Event) (st : Relay)
    (hr : Machine.run (Relay.step D inet_pton) (some (.initial crypto)) es = some (some st)) (d : Datagram)
    (hd : d ∈ st.forwarded) :
    ∃ buf header, (d.client, buf) ∈ st.received ∧ parse_udprelay_header inet_pton buf = some header ∧
      d.data = buf.drop header.offset ∧
      (corkIpInit header.host = some 6 → d.remote = ⟨.AF_INET6, List.replicate 16 0, header.port⟩) := by
  obtain ⟨header, ⟨buf, hmem, hparse, hdata⟩, hdst⟩ := (Genuine.run hr).forwarded d hd
  refine ⟨buf, header, hmem, hparse, hdata, fun hhost => ?_⟩
  have haddr := ipv6_name_unspecified inet_pton hpton buf header hparse hhost
  have hfamily : header.dst_addr.ss_family ≠ .AF_UNSPEC := by
    rw [haddr]
    exact Family.noConfusion
  exact (hdst hfamily).trans haddr

/-- A datagram to `::1`, as a name. -/
def loopbackEvents : List Relay.Event :=
  [.serverRecv 0 ⟨.AF_INET, [10, 0, 0, 2], [4, 1]⟩ [7, 8, 3, 3, 0x3A, 0x3A, 0x31, 0, 53, 1, 0] true true]

theorem loopback_unspecified :
    ∃ st d, Machine.run (Relay.step (aeadDatagrams tagged) (sampleCalls.inet_pton .AF_INET))
        (some (.initial (ppbloom_init 4 64 3))) loopbackEvents = some (some st) ∧ st.forwarded = [d] ∧
      d.remote = ⟨.AF_INET6, List.replicate 16 0, [0, 53]⟩ := by
  obtain ⟨st, d, hr, hforwarded, hreceived⟩ :
      ∃ st d, Machine.run (Relay.step (aeadDatagrams tagged) (sampleCalls.inet_pton .AF_INET))
        (some (.initial (ppbloom_init 4 64 3))) loopbackEvents = some (some st) ∧ st.forwarded = [d] ∧
        st.received = [(⟨.AF_INET, [10, 0, 0, 2], [4, 1]⟩, [3, 3, 0x3A, 0x3A, 0x31, 0, 53, 1])] :=
    ⟨_, _, rfl, rfl, rfl⟩
  have hpton : ∀ s, 0x3A ∈ s → sampleCalls.inet_pton .AF_INET s = none := by
    intro s hs
    refine if_neg fun ⟨_, heq⟩ => ?_
    rw [heq] at hs
    exact absurd hs (by decide)
  obtain ⟨buf, header, hmem, hparse, -, hremote⟩ := udp_run_ipv6_name (aeadDatagrams tagged)
    (sampleCalls.inet_pton .AF_INET) hpton (ppbloom_init 4 64 3) loopbackEvents st hr d (by simp [hforwarded])
  rw [hreceived, List.mem_singleton] at hmem
  obtain rfl := (Prod.mk.inj hmem).2
  cases hparse
  exact ⟨st, d, hr, hforwarded, hremote rfl⟩

/-- In every reachable state, what was sent to a client opens there, unless its salt has been seen: it is what came from
the remote, behind a header from which the address of the remote is read back. -/
theorem udp_run_answered (A : Aead) (hA : A.Lawful) (inet_pton : List Byte → Option (List Byte)) (crypto : Ppbloom)
    (es : List Relay.Event) (st : Relay)
    (hr : Machine.run (Relay.step (aeadDatagrams A) inet_pton) (some (.initial crypto)) es = some (some st))
    (d : Datagram) (hd : d ∈ st.answered) (hremote : d.remote.Inet) (pp : Ppbloom)
    (hfresh : ppbloom_check pp (d.data.take A.key_len) = false) :
    ∃ buf header, aead_decrypt_all A pp d.data = (.ok, buf, ppbloom_add pp (d.data.take A.key_len)) ∧
      parse_udprelay_header inet_pton buf = some header ∧ header.dst_addr = d.remote ∧
      (d.remote, buf.drop header.offset) ∈ st.arrived := by
  obtain ⟨random, bytes, hrandom, harrived, hencrypt⟩ := (Genuine.run hr).answered d hd
  have hsalt : d.data.take A.key_len = random := take_aead_encrypt_all hrandom hencrypt
  have hparse := parse_construct inet_pton hremote bytes
  have hsome : construct_udprelay_header d.remote ++ bytes ≠ [] := by
    intro hnone
    rw [hnone] at hparse
    cases hparse
  rw [hsalt] at hfresh ⊢
  refine ⟨_, _, ?_, hparse, rfl, ?_⟩
  · rw [aead_datagram_received A hA random hrandom _ _ hencrypt pp, if_pos ⟨hsome, hfresh⟩]
  · rw [List.drop_left' rfl]
    exact harrived

theorem answered_opens :
    ∃ st d buf header, Machine.run (Relay.step (aeadDatagrams tagged) fun _ => none)
        (some (.initial (ppbloom_init 4 64 3))) answeredEvents = some (some st) ∧ st.answered = [d] ∧
      aead_decrypt_all tagged (ppbloom_init 4 64 3) d.data =
        (.ok, buf, ppbloom_add (ppbloom_init 4 64 3) (d.data.take 2)) ∧
      parse_udprelay_header (fun _ => none) buf = some header ∧ header.dst_addr = d.remote ∧
      (d.remote, buf.drop header.offset) ∈ st.arrived := by
  obtain ⟨st, d, hr, hanswered, hremote, hsalt⟩ :
      ∃ st d, Machine.run (Relay.step (aeadDatagrams tagged) fun _ => none)
        (some (.initial (ppbloom_init 4 64 3))) answeredEvents = some (some st) ∧ st.answered = [d] ∧
        d.remote = ⟨.AF_INET, [192, 0, 2, 1], [0, 80]⟩ ∧ d.data.take 2 = [5, 5] :=
    ⟨_, _, rfl, rfl, rfl, rfl⟩
  obtain ⟨buf, header, hopens⟩ := udp_run_answered tagged tagged_lawful (fun _ => none) (ppbloom_init 4 64 3)
    answeredEvents st hr d (by simp [hanswered]) (by simp [hremote, Sockaddr.Inet]) (ppbloom_init 4 64 3)
    (by rw [show tagged.key_len = 2 from rfl, hsalt]; decide)
  exact ⟨st, d, buf, header, hr, hanswered, hopens⟩

end SmartSocks.Ssserver.UdpRelay
