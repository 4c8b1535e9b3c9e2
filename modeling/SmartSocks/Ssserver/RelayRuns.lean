import SmartSocks.Ssserver.RelayCallbacks

/-!
# Runs of the relay

libev and c-ares may call the callbacks in any order, with any results of the
system calls. No run faults: nothing that was freed is used, and nothing that was
allocated is lost (`relay_run_linked`). Each direction of a connection is read
or written, never both (`relay_run_flows`), so nothing is overwritten in a buffer,
and what has left it is what the crypto made of what came in
(`relay_run_upstream`, `relay_run_downstream`). A connection can be closed in any
state, by its timer or when the server stops (`timeout_closes`,
`freeConnections_frees`).
-/

namespace SmartSocks.Ssserver.TcpRelay.Relay

open Jvm
open Crypto.Server (CryptoT)

variable {κ γ : Type} {C : CryptoT κ γ} {T : Observer C} {calls : HostCalls} {st : Relay κ γ}

/-- The connection that an event is about. -/
def Event.owner (st : Relay κ γ) : Event → Option Nat
  | .accept s _ | .serverRecv s .. | .serverSend s _ | .serverTimeout s => some s
  | .remoteRecv r .. | .remoteSend r .. => (st.remote r).bind RemoteT.server
  | .answered q .. => (st.query q).join

theorem Sound.step (h : Sound T calls st) {e : Event} (he : e.enabled C st = true) {s : Nat}
    (hown : ∀ i, e.owner st = some i → i = s) :
    Safe T calls st s (st.handle C calls e) := by
  cases e with
  | accept i random =>
    cases hown i rfl
    simp only [Event.enabled, Bool.and_eq_true, Option.isNone_iff_eq_none, decide_eq_true_eq] at he
    exact (h.accept he.1 random he.2).safe
  | serverRecv i recv send connect q =>
    cases hown i rfl
    simp only [Event.enabled, Bool.and_eq_true] at he
    obtain ⟨⟨⟨hactive, hfits⟩, hconnect⟩, hq⟩ := he
    exact h.serverRecvCb hactive recv hfits send connect hconnect q (Option.isNone_iff_eq_none.mp hq)
  | serverSend i send =>
    cases hown i rfl
    exact h.serverSendCb he send
  | serverTimeout i =>
    cases hown i rfl
    exact h.serverTimeoutCb he
  | remoteRecv r recv send =>
    simp only [Event.enabled, Bool.and_eq_true] at he
    exact h.remoteRecvCb he.1 hown recv he.2 send
  | remoteSend r peer send => exact h.remoteSendCb he hown peer send
  | answered q found connect =>
    simp only [Event.enabled, Bool.and_eq_true, List.contains_iff_mem] at he
    exact h.answered he.1 hown found connect he.2

theorem step_cases {e : Event} {u : Option (Relay κ γ)} (hstep : step C calls (some st) e = some u) :
    e.enabled C st = true ∧ u = st.handle C calls e := by
  simp only [step, Option.bind_some] at hstep
  split at hstep
  next he =>
    cases hstep
    exact ⟨he, rfl⟩
  next => cases hstep

/-- No fault so far. -/
def Alive {C : CryptoT κ γ} (T : Observer C) (calls : HostCalls) (u : Option (Relay κ γ)) : Prop :=
  ∃ st, u = some st ∧ Sound T calls st

theorem Sound.run {es : List Event} {u : Option (Relay κ γ)} (h : Sound T calls st)
    (hr : Machine.run (Relay.step C calls) (some st) es = some u) : Alive T calls u := by
  have hstart : Alive T calls (some st) := ⟨st, rfl, h⟩
  refine Machine.run_keeps (fun u e u' hu hstep => ?_) hstart hr
  obtain ⟨st, rfl, h⟩ := hu
  obtain ⟨he, rfl⟩ := step_cases hstep
  obtain ⟨s, hown⟩ : ∃ s, ∀ i, e.owner st = some i → i = s :=
    ⟨(e.owner st).getD 0, fun i hi => by simp [hi]⟩
  obtain ⟨st', hst', hmoves⟩ := h.step he hown
  exact ⟨st', hst', hmoves.sound⟩

theorem run_sound {crypto : γ} {es : List Event} {u : Option (Relay κ γ)}
    (hr : Machine.run (step C calls) (some (initial crypto)) es = some u) :
    Alive (.decrypted C) calls u := (sound_initial trivial).run hr

-- ---------------------------------------------------------------------------
-- The heap
-- ---------------------------------------------------------------------------

/-- A pointer leads to what is there and points back, and what is there is reached. -/
structure WellLinked (st : Relay κ γ) : Prop where
  remote : ∀ s server r, st.server s = some server → server.remote = some r →
    ∃ remote, st.remote r = some remote ∧ remote.server = some s
  server : ∀ r remote, st.remote r = some remote →
    ∃ s server, remote.server = some s ∧ st.server s = some server ∧ server.remote = some r
  query : ∀ s server q, st.server s = some server → server.query = some q → st.query q = some (some s)
  asks : ∀ q s, st.query q = some (some s) → ∃ server, st.server s = some server ∧ server.query = some q
  watched : ∀ w, st.active w = true → st.Watches w
  resolving : st.resolving.Nodup ∧ ∀ q, q ∈ st.resolving ↔ (st.query q).isSome
  connections : st.connections.Nodup ∧ ∀ s, s ∈ st.connections ↔ (st.server s).isSome

theorem Sound.wellLinked (h : Sound T calls st) : st.WellLinked where
  remote s server _ hs hr := ((h.conn s server hs).phase.linked hs).remote _ hr
  server := h.owned
  query s server _ hs hq := (h.conn s server hs).phase.asked hq
  asks := h.asked
  watched := h.watched
  resolving := h.resolving
  connections := h.connections

/-- Bytes as they are. -/
def plain : CryptoT Unit Unit where
  rand_len := 0
  e_init _ := ()
  d_init := ()
  encrypt _ _ bytes := (.ok, bytes, (), ())
  decrypt _ _ bytes := (.ok, bytes, (), ())
  encrypt_ne _ _ _ h _ := h
  decrypt_ne _ _ _ h _ := h

/-- A client that gets what it asks for, slowly, one that waits for its remote, and one that gives up. -/
def served : List Event :=
  [.accept 1 [], .accept 2 [], .accept 3 [],
    .serverRecv 1 (.bytes [1, 127, 0, 0, 1, 0, 80, 71, 69, 84]) .again (.remote 5 1) 0,
    .serverRecv 2 (.bytes [1, 127, 0, 0, 2, 0, 80, 72]) .again (.remote 6 0) 0,
    .serverTimeout 3, .remoteSend 5 true (.upTo 1), .remoteSend 5 true (.upTo 9),
    .remoteRecv 5 (.bytes [79, 75]) (.upTo 1), .serverRecv 1 (.bytes [33]) .again .null 0]

/-- No order of the callbacks leads to a use of freed memory, to a leak or to the line that
should not be reached. -/
theorem relay_run_linked (C : CryptoT κ γ) (calls : HostCalls) (crypto : γ) (es : List Event)
    (u : Option (Relay κ γ))
    (hr : Machine.run (step C calls) (some (initial crypto)) es = some u) :
    ∃ st, u = some st ∧ st.WellLinked := by
  obtain ⟨st, hst, h⟩ := run_sound hr
  exact ⟨st, hst, h.wellLinked⟩

theorem served_linked : ∃ u, Machine.run (step plain sampleCalls) (some (initial ())) served = some u ∧
    ∃ st, u = some st ∧ st.WellLinked :=
  ⟨_, rfl, relay_run_linked plain sampleCalls () served _ rfl⟩

/-- Whatever happens to one connection, all others keep what they have: their `server_t`, their
remote, their query and what is watched. -/
theorem relay_step_isolated (C : CryptoT κ γ) (calls : HostCalls) (crypto : γ) (es : List Event)
    (st st' : Relay κ γ) (e : Event)
    (hr : Machine.run (step C calls) (some (initial crypto)) es = some (some st))
    (hstep : step C calls (some st) e = some (some st')) (i : Nat) (hi : e.owner st ≠ some i) :
    st.Unchanged st' i := by
  obtain ⟨_, ⟨⟩, h⟩ := run_sound hr
  obtain ⟨he, hu⟩ := step_cases hstep
  obtain ⟨s, hown, hne⟩ : ∃ s, (∀ j, e.owner st = some j → j = s) ∧ i ≠ s := by
    cases howner : e.owner st with
    | none => exact ⟨i + 1, nofun, i.lt_succ_self.ne⟩
    | some s =>
      refine ⟨s, fun j hj => (Option.some.inj hj).symm, ?_⟩
      rintro rfl
      exact hi howner
  obtain ⟨st'', hst'', hmoves⟩ := h.step he hown
  cases hst''.symm.trans hu.symm
  exact hmoves.others i hne

/-- The first connection is closed while the second one waits. -/
theorem served_isolated :
    ∃ (st st' : Relay Unit Unit) (server : ServerT Unit),
      Machine.run (step plain sampleCalls) (some (initial ())) served = some (some st) ∧
      st.server 2 = some server ∧ server.remote = some 6 ∧ st.active (.remoteSend 6) = true ∧
      step plain sampleCalls (some st) (.serverTimeout 1) = some (some st') ∧ st.Unchanged st' 2 :=
  ⟨_, _, _, rfl, rfl, rfl, rfl, rfl,
    relay_step_isolated plain sampleCalls () served _ _ (.serverTimeout 1) rfl rfl 2 (by decide)⟩

-- ---------------------------------------------------------------------------
-- Flow control
-- ---------------------------------------------------------------------------

/-- What a connection waits for. -/
inductive Waits (st : Relay κ γ) (s : Nat) (server : ServerT κ) : Prop
  | header (stage : server.stage = .init) (remote : server.remote = none) (query : server.query = none)
      (recv : st.active (.serverRecv s) = true) (send : st.active (.serverSend s) = false)
  | address (q : Nat) (stage : server.stage = .resolve) (remote : server.remote = none)
      (query : server.query = some q) (resolving : q ∈ st.resolving)
      (recv : st.active (.serverRecv s) = false) (send : st.active (.serverSend s) = false)
  | remote (r : Nat) (stage : server.stage ≠ .stream) (remote : server.remote = some r)
      (recv : st.active (.serverRecv s) = false) (send : st.active (.serverSend s) = false)
      (remoteRecv : st.active (.remoteRecv r) = false) (remoteSend : st.active (.remoteSend r) = true)
  | stream (r : Nat) (remote : RemoteT) (stage : server.stage = .stream) (link : server.remote = some r)
      (lookup : st.remote r = some remote)
      (recv : st.active (.serverRecv s) = !st.active (.remoteSend r))
      (remoteRecv : st.active (.remoteRecv r) = !st.active (.serverSend s))
      (waiting : st.active (.remoteSend r) = true → 0 < remote.buf.len)
      (backlog : st.active (.serverSend s) = true → 0 < server.buf.len)

/-- No connection is stuck: its timer runs, and either it waits for the header, its address
or its remote, or each direction is read just when it is not written. -/
theorem relay_run_flows (C : CryptoT κ γ) (calls : HostCalls) (crypto : γ) (es : List Event)
    (st : Relay κ γ)
    (hr : Machine.run (step C calls) (some (initial crypto)) es = some (some st))
    (s : Nat) (server : ServerT κ) (hs : st.server s = some server) :
    st.active (.serverTimer s) = true ∧ Waits st s server := by
  obtain ⟨_, ⟨⟩, h⟩ := run_sound hr
  have hconn := h.conn s server hs
  refine ⟨hconn.timer, ?_⟩
  cases hconn.phase with
  | handshaking h => exact .header h.stage h.remote h.query h.recv h.send
  | resolving q hphase =>
    refine .address q hphase.stage hphase.remote hphase.query ?_ hphase.recv hphase.send
    simp [h.resolving.2 q, hphase.owner]
  | connecting r remote h => exact .remote r h.stage h.link h.recv h.send h.remoteRecv h.remoteSend
  | streaming r remote h =>
    exact .stream r remote h.stage h.link h.lookup h.recv h.remoteRecv h.waiting h.backlog

theorem served_flows :
    ∃ st server, Machine.run (step plain sampleCalls) (some (initial ())) served = some (some st) ∧
      st.server 1 = some server ∧ st.active (.serverTimer 1) = true ∧ Waits st 1 server :=
  ⟨_, _, rfl, rfl, relay_run_flows plain sampleCalls () served _ rfl 1 _ rfl⟩

-- ---------------------------------------------------------------------------
-- The streams
-- ---------------------------------------------------------------------------

/-- What a remote has got. -/
theorem Sound.upstream (h : Sound T calls st) {s r : Nat} {server : ServerT κ} {remote : RemoteT}
    (hs : st.server s = some server) (hlink : server.remote = some r) (hremote : st.remote r = some remote) :
    ∃ first rest payload, server.plain = first :: rest ∧ payloadOf calls first = some payload ∧
      remote.toRemote <+: payload ++ rest.flatten ∧
      (st.active (.serverRecv s) = true → remote.toRemote = payload ++ rest.flatten) := by
  cases (h.conn s server hs).phase with
  | handshaking hphase => simp [hphase.remote] at hlink
  | resolving q hphase => simp [hphase.remote] at hlink
  | connecting r' remote' hphase =>
    cases hphase.link.symm.trans hlink
    cases hphase.lookup.symm.trans hremote
    obtain ⟨first, rest, payload, hplain, hpayload, heq⟩ := hphase.up
    exact ⟨first, rest, payload, hplain, hpayload, ⟨_, heq.symm⟩, by simp [hphase.recv]⟩
  | streaming r' remote' hphase =>
    cases hphase.link.symm.trans hlink
    cases hphase.lookup.symm.trans hremote
    obtain ⟨first, rest, payload, hplain, hpayload, heq⟩ := hphase.up
    refine ⟨first, rest, payload, hplain, hpayload, ⟨_, heq.symm⟩, fun hactive => ?_⟩
    have hidle : st.active (.remoteSend r) = false := by simpa [hactive] using hphase.recv
    simpa [hidle] using heq.symm

/-- What a client has got. -/
theorem Sound.downstream (h : Sound T calls st) {s : Nat} {server : ServerT κ}
    (hs : st.server s = some server) :
    server.toClient <+: server.sealed.flatten ∧
      ∀ r, server.remote = some r → st.active (.remoteRecv r) = true →
        server.toClient = server.sealed.flatten := by
  cases (h.conn s server hs).phase with
  | handshaking hphase => simp [hphase.sealed, hphase.toClient]
  | resolving q hphase => simp [hphase.sealed, hphase.toClient]
  | connecting r' remote hphase => simp [hphase.sealed, hphase.toClient]
  | streaming r' remote hphase =>
    refine ⟨⟨_, hphase.down.symm⟩, fun r hlink hactive => ?_⟩
    cases hphase.link.symm.trans hlink
    have hidle : st.active (.serverSend s) = false := by simpa [hactive] using hphase.remoteRecv
    simpa [hidle] using hphase.down.symm

/-- A remote gets what is behind the header, in order and without a gap; while the client
is read, it has got all of it. -/
theorem relay_run_upstream (C : CryptoT κ γ) (calls : HostCalls) (crypto : γ) (es : List Event)
    (st : Relay κ γ)
    (hr : Machine.run (step C calls) (some (initial crypto)) es = some (some st))
    (s r : Nat) (server : ServerT κ) (remote : RemoteT) (hs : st.server s = some server)
    (hlink : server.remote = some r) (hremote : st.remote r = some remote) :
    Decrypted C server.d_ctx server.fromClient server.plain ∧
      ∃ first rest payload, server.plain = first :: rest ∧ payloadOf calls first = some payload ∧
        remote.toRemote <+: payload ++ rest.flatten ∧
        (st.active (.serverRecv s) = true → remote.toRemote = payload ++ rest.flatten) := by
  obtain ⟨_, ⟨⟩, h⟩ := run_sound hr
  exact ⟨(h.conn s server hs).decrypted, h.upstream hs hlink hremote⟩

theorem served_upstream :
    ∃ st server remote, Machine.run (step plain sampleCalls) (some (initial ())) served = some (some st) ∧
      st.server 1 = some server ∧ st.remote 5 = some remote ∧
      Decrypted plain server.d_ctx server.fromClient server.plain ∧
      ∃ first rest payload, server.plain = first :: rest ∧ payloadOf sampleCalls first = some payload ∧
        remote.toRemote <+: payload ++ rest.flatten ∧
        (st.active (.serverRecv 1) = true → remote.toRemote = payload ++ rest.flatten) :=
  ⟨_, _, _, rfl, rfl, rfl, relay_run_upstream plain sampleCalls () served _ rfl 1 5 _ _ rfl rfl rfl⟩

/-- The client gets what `encrypt` makes of what comes from the remote, in order and without
a gap; while the remote is read, it has got all of it. -/
theorem relay_run_downstream (C : CryptoT κ γ) (calls : HostCalls) (crypto : γ)
    (es : List Event) (st : Relay κ γ)
    (hr : Machine.run (step C calls) (some (initial crypto)) es = some (some st))
    (s : Nat) (server : ServerT κ) (hs : st.server s = some server) :
    (∃ random, random.length = C.rand_len ∧ Encrypted C random server.e_ctx server.fromRemote server.sealed) ∧
      server.toClient <+: server.sealed.flatten ∧
      ∀ r, server.remote = some r → st.active (.remoteRecv r) = true →
        server.toClient = server.sealed.flatten := by
  obtain ⟨_, ⟨⟩, h⟩ := run_sound hr
  exact ⟨(h.conn s server hs).encrypted, h.downstream hs⟩

theorem served_downstream :
    ∃ st server, Machine.run (step plain sampleCalls) (some (initial ())) served = some (some st) ∧
      st.server 1 = some server ∧
      (∃ random, random.length = plain.rand_len ∧
        Encrypted plain random server.e_ctx server.fromRemote server.sealed) ∧
      server.toClient <+: server.sealed.flatten ∧
      ∀ r, server.remote = some r → st.active (.remoteRecv r) = true →
        server.toClient = server.sealed.flatten :=
  ⟨_, _, rfl, rfl, relay_run_downstream plain sampleCalls () served _ rfl 1 _ rfl⟩

-- ---------------------------------------------------------------------------
-- Closing
-- ---------------------------------------------------------------------------

/-- The timer closes a connection in every state: its `server_t`, its remote and their
watchers are gone, its query has no owner, and all others are as before. -/
theorem timeout_closes (C : CryptoT κ γ) (calls : HostCalls) (crypto : γ) (es : List Event)
    (st : Relay κ γ)
    (hr : Machine.run (step C calls) (some (initial crypto)) es = some (some st))
    (s : Nat) (server : ServerT κ) (hs : st.server s = some server) :
    step C calls (some st) (.serverTimeout s) = some (some (st.closed s server)) := by
  obtain ⟨_, ⟨⟩, h⟩ := run_sound hr
  have hconn := h.conn s server hs
  have henabled : (Event.serverTimeout s).enabled C st = true := hconn.timer
  have hclose := (hconn.phase.linked hs).closeBoth
  simp [step, henabled, handle, Relay.serverTimeoutCb, hs, hclose]

theorem served_closes :
    ∃ st server, Machine.run (step plain sampleCalls) (some (initial ())) served = some (some st) ∧
      st.server 1 = some server ∧
      step plain sampleCalls (some st) (.serverTimeout 1) = some (some (st.closed 1 server)) :=
  ⟨_, _, rfl, rfl, timeout_closes plain sampleCalls () served _ rfl 1 _ rfl⟩

/-- The other order of the two calls. -/
theorem Linked.freeConnection {s : Nat} {server : ServerT κ} (h : st.Linked s server) :
    ((st.closeAndFreeServer s).bind fun st => st.closeAndFreeRemote server.remote) =
      some (st.closed s server) := by
  rcases hremote : server.remote with _ | r
  · rw [h.closeAndFreeServer hremote]
    rfl
  · obtain ⟨remote, hr, -⟩ := h.remote r hremote
    -- `free_server` leaves the remote without a server
    let left : Relay κ γ :=
      { st.closed s server with
        remote := Function.update st.remote r (some { remote with server := none })
        active := (((st.stop (.serverSend s)).stop (.serverRecv s)).stop (.serverTimer s)).active }
    have hfirst : st.closeAndFreeServer s = some left := by
      rcases hquery : server.query with _ | q
      · simp only [Relay.closeAndFreeServer, freeServer, h.lookup, hremote, hquery, hr, Option.bind_eq_bind,
          Option.bind_some, Option.map_some, stop_server, stop_remote, Option.some.injEq]
        ext1
        · rfl
        · rfl
        · funext i
          simp [left, hquery]
        all_goals rfl
      · obtain ⟨owner, howner⟩ := h.query q hquery
        simp only [Relay.closeAndFreeServer, freeServer, h.lookup, hremote, hquery, hr, howner,
          Option.bind_eq_bind, Option.bind_some, Option.map_some, stop_server, stop_remote, setServer_server,
          setServer_remote, Function.update_self, Option.some.injEq]
        ext1
        · funext i
          rcases eq_or_ne i s with rfl | hi
          · simp [left]
          · simp [left, hi]
        · rfl
        · funext i
          simp [left, hquery, Function.update_apply]
        all_goals rfl
    rw [hfirst, Option.bind_some, closeAndFreeRemote, freeRemote]
    simp only [stop_remote, left, Function.update_self, Option.bind_eq_bind, Option.bind_some, Option.some.injEq]
    ext1
    · rfl
    · funext i
      rcases eq_or_ne i r with rfl | hi
      · simp [hremote]
      · simp [hremote, hi]
    · rfl
    · funext w
      cases w <;> simp [Watcher.belongs, hremote, Function.update_apply]
    all_goals rfl

theorem Sound.closed {s : Nat} {server : ServerT κ} (h : Sound T calls st)
    (hs : st.server s = some server) : Sound T calls (st.closed s server) := by
  obtain ⟨st', hst', hmoves⟩ := h.closes hs
  cases ((h.conn s server hs).phase.linked hs).closeBoth.symm.trans hst'
  exact hmoves.sound

theorem Sound.freeConnections (h : Sound T calls st) :
    ∃ st', st.freeConnections = some st' ∧ Sound T calls st' ∧ st'.connections = [] := by
  generalize hlist : st.connections = connections
  induction connections generalizing st with
  | nil =>
    refine ⟨st, ?_, h, hlist⟩
    rw [Relay.freeConnections, hlist, List.foldlM_nil]
    rfl
  | cons s connections ih =>
    have hlive : (st.server s).isSome := (h.connections.2 s).mp (by simp [hlist])
    obtain ⟨server, hs⟩ := Option.isSome_iff_exists.mp hlive
    have hrest : (st.closed s server).connections = connections := by simp [hlist]
    obtain ⟨st', hfree, h', hempty⟩ := ih (h.closed hs) hrest
    refine ⟨st', ?_, h', hempty⟩
    rw [Relay.freeConnections, hrest] at hfree
    rw [Relay.freeConnections, hlist, List.foldlM_cons, hs, Option.bind_some,
      ((h.conn s server hs).phase.linked hs).freeConnection]
    exact hfree

/-- When the server stops, in whatever state, every `server_t` and every `remote_t` is freed once,
and nothing is watched any more. -/
theorem freeConnections_frees (C : CryptoT κ γ) (calls : HostCalls) (crypto : γ)
    (es : List Event) (st : Relay κ γ)
    (hr : Machine.run (step C calls) (some (initial crypto)) es = some (some st)) :
    ∃ st', st.freeConnections = some st' ∧ (∀ s, st'.server s = none) ∧ (∀ r, st'.remote r = none) ∧
      (∀ w, st'.active w = false) ∧ ∀ q s, st'.query q ≠ some (some s) := by
  obtain ⟨_, ⟨⟩, h⟩ := run_sound hr
  obtain ⟨st', hfree, h', hempty⟩ := h.freeConnections
  have hserver (s : Nat) : st'.server s = none := by
    rw [← Option.not_isSome_iff_eq_none, ← h'.connections.2 s, hempty]
    exact List.not_mem_nil
  have hremote (r : Nat) : st'.remote r = none := by
    rw [Option.eq_none_iff_forall_not_mem]
    intro remote hr
    obtain ⟨s, server, -, hs, -⟩ := h'.owned r remote hr
    simp [hserver] at hs
  refine ⟨st', hfree, hserver, hremote, fun w => ?_, fun q s hq => ?_⟩
  · refine Bool.eq_false_iff.mpr fun hactive => ?_
    have hwatched := h'.watched w hactive
    cases w <;> simp [Watches, hserver, hremote] at hwatched
  · obtain ⟨server, hs, -⟩ := h'.asked q s hq
    simp [hserver] at hs

theorem served_frees :
    ∃ st st' : Relay Unit Unit, Machine.run (step plain sampleCalls) (some (initial ())) served = some (some st) ∧
      st.freeConnections = some st' ∧ (∀ s, st'.server s = none) ∧ (∀ r, st'.remote r = none) ∧
      (∀ w, st'.active w = false) ∧ ∀ q s, st'.query q ≠ some (some s) := by
  obtain ⟨st', h⟩ := freeConnections_frees plain sampleCalls () served _ rfl
  exact ⟨_, st', rfl, h⟩

end SmartSocks.Ssserver.TcpRelay.Relay
