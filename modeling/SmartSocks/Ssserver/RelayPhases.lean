import SmartSocks.Library.Machine
import SmartSocks.Ssserver.TcpRelay

/-!
# The phases of a relayed connection

A connection waits for its header, for the address of its remote, for the remote
itself, and then streams (`Phase`). What is known of its bytes goes along as an
`Observer`: any fact of what was received and decrypted that every call of `decrypt`
keeps. A step of one connection leaves the relay sound and all others as they
are (`Moves`).
-/

namespace SmartSocks.Ssserver

/-- The payload of a request that the server goes on with. -/
def Request.payload : Request → Option (List Byte)
  | .connectAddress _ _ payload | .connect _ _ _ _ payload | .resolve _ _ payload => some payload
  | .malformed _ | .blocked _ | .invalidHostName _ => none

namespace TcpRelay

open Jvm
open Crypto.Server (CryptoT)

variable {κ γ : Type}

/-- The watchers of a connection with this remote. -/
def Watcher.belongs (s : Nat) (r : Option Nat) : Watcher → Bool
  | .serverRecv i | .serverSend i | .serverTimer i => i = s
  | .remoteRecv i | .remoteSend i => some i = r

namespace Relay

/-- What the two closing calls leave. -/
@[simps] def closed (st : Relay κ γ) (s : Nat) (server : ServerT κ) : Relay κ γ where
  server := Function.update st.server s none
  remote i := if some i = server.remote then none else st.remote i
  query i := if some i = server.query then some none else st.query i
  active w := if w.belongs s server.remote then false else st.active w
  connections := st.connections.erase s
  resolving := st.resolving
  crypto := st.crypto

/-- What the pointers of a connection lead to. -/
structure Linked (st : Relay κ γ) (s : Nat) (server : ServerT κ) : Prop where
  lookup : st.server s = some server
  remote : ∀ r, server.remote = some r → ∃ remote, st.remote r = some remote ∧ remote.server = some s
  query : ∀ q, server.query = some q → ∃ owner, st.query q = some owner

variable {st : Relay κ γ} {s : Nat} {server : ServerT κ}

/-- A connection without a remote. -/
theorem Linked.closeAndFreeServer (h : st.Linked s server) (hremote : server.remote = none) :
    st.closeAndFreeServer s = some (st.closed s server) := by
  rcases hquery : server.query with _ | q
  · simp only [Relay.closeAndFreeServer, freeServer, h.lookup, hremote, hquery, Option.bind_eq_bind,
      Option.bind_some, stop_server, Option.some.injEq]
    ext1
    · rfl
    · funext i
      simp [hremote]
    · funext i
      simp [hquery]
    · funext w
      cases w <;> simp [Watcher.belongs, hremote, Function.update_apply]
    all_goals rfl
  · obtain ⟨owner, howner⟩ := h.query q hquery
    simp only [Relay.closeAndFreeServer, freeServer, h.lookup, hremote, hquery, Option.bind_eq_bind,
      Option.bind_some, Option.map_some, howner, stop_server, setServer_server, Function.update_self,
      Option.some.injEq]
    ext1
    · funext i
      rcases eq_or_ne i s with rfl | hi
      · simp
      · simp [hi]
    · funext i
      simp [hremote]
    · funext i
      simp [hquery, Function.update_apply]
    · funext w
      cases w <;> simp [Watcher.belongs, hremote, Function.update_apply]
    all_goals rfl

theorem Linked.closeBoth (h : st.Linked s server) :
    st.closeBoth server.remote s = some (st.closed s server) := by
  rcases hremote : server.remote with _ | r
  · simpa [Relay.closeBoth, closeAndFreeRemote] using h.closeAndFreeServer hremote
  · obtain ⟨remote, hr, hback⟩ := h.remote r hremote
    let rest : Relay κ γ :=
      { st with
        server := Function.update st.server s (some { server with remote := none })
        remote := Function.update st.remote r none
        active := ((st.stop (.remoteSend r)).stop (.remoteRecv r)).active }
    have hfirst : st.closeAndFreeRemote (some r) = some rest := by
      simp only [closeAndFreeRemote, freeRemote, stop_remote, stop_server, hr, hback, h.lookup,
        Option.bind_eq_bind, Option.bind_some, Option.map_some]
      rfl
    have hlinked : rest.Linked s { server with remote := none } :=
      ⟨by simp [rest], fun _ h => by simp at h, h.query⟩
    rw [Relay.closeBoth, hfirst, Option.bind_some, hlinked.closeAndFreeServer rfl, Option.some.injEq]
    ext1
    · funext i
      rcases eq_or_ne i s with rfl | hi
      · simp
      · simp [hi, rest]
    · funext i
      simp [rest, hremote, Function.update_apply]
    · rfl
    · funext w
      cases w <;> simp [rest, Watcher.belongs, hremote, Function.update_apply]
    all_goals rfl

-- ---------------------------------------------------------------------------
-- Frames
-- ---------------------------------------------------------------------------

/-- Only the connection `s`, with this remote and this query, has changed. -/
structure Touches (C : CryptoT κ γ) (st st' : Relay κ γ) (s : Nat) (r q : Option Nat) : Prop where
  server : ∀ i, i ≠ s → st'.server i = st.server i
  remote : ∀ i, some i ≠ r → st'.remote i = st.remote i
  query : ∀ i, some i ≠ q → st'.query i = st.query i
  active : ∀ w, w.belongs s r = false → st'.active w = st.active w
  crypto : C.Evolves st.crypto st'.crypto

section
variable {C : CryptoT κ γ} {st' st'' : Relay κ γ} {r q : Option Nat} {w : Watcher}

theorem Touches.trans (h : st.Touches C st' s r q) (h' : st'.Touches C st'' s r q) : st.Touches C st'' s r q where
  server i hi := (h'.server i hi).trans (h.server i hi)
  remote i hi := (h'.remote i hi).trans (h.remote i hi)
  query i hi := (h'.query i hi).trans (h.query i hi)
  active w hw := (h'.active w hw).trans (h.active w hw)
  crypto := h.crypto.trans h'.crypto

theorem touches_crypto {crypto : γ} (h : C.Evolves st.crypto crypto) : st.Touches C { st with crypto } s r q :=
  ⟨fun _ _ => rfl, fun _ _ => rfl, fun _ _ => rfl, fun _ _ => rfl, h⟩

theorem touches_setServer (server : ServerT κ) : st.Touches C (st.setServer s server) s r q :=
  ⟨fun i hi => by simp [hi], fun _ _ => rfl, fun _ _ => rfl, fun _ _ => rfl, .refl _⟩

theorem touches_setRemote (i : Nat) (remote : RemoteT) : st.Touches C (st.setRemote i remote) s (some i) q :=
  ⟨fun _ _ => rfl, fun j hj => by simp [ne_of_apply_ne some hj], fun _ _ => rfl, fun _ _ => rfl, .refl _⟩

theorem touches_start (hw : w.belongs s r = true) : st.Touches C (st.start w) s r q :=
  ⟨fun _ _ => rfl, fun _ _ => rfl, fun _ _ => rfl, fun v hv =>
    Function.update_of_ne (by rintro rfl; simp [hw] at hv) _ _, .refl _⟩

theorem touches_stop (hw : w.belongs s r = true) : st.Touches C (st.stop w) s r q :=
  ⟨fun _ _ => rfl, fun _ _ => rfl, fun _ _ => rfl, fun v hv =>
    Function.update_of_ne (by rintro rfl; simp [hw] at hv) _ _, .refl _⟩

theorem touches_closed : st.Touches C (st.closed s server) s server.remote server.query :=
  ⟨fun i hi => by simp [hi], fun i hi => by simp [hi], fun i hi => by simp [hi], fun w hw => by simp [hw],
    .refl _⟩

end

end Relay

-- ---------------------------------------------------------------------------
-- The phases
-- ---------------------------------------------------------------------------

/-- The payload behind the header, if the server goes on with it. -/
def payloadOf (calls : HostCalls) (out : List Byte) : Option (List Byte) :=
  (serverRecvInit calls { data := Bytes.ofList 0 out, len := out.length }).payload

/-- What was decrypted behind the header has been sent, or waits. -/
def Upstream (calls : HostCalls) (plain : List (List Byte)) (sent waiting : List Byte) : Prop :=
  ∃ first rest payload, plain = first :: rest ∧ payloadOf calls first = some payload ∧
    payload ++ rest.flatten = sent ++ waiting

/-- What `decrypt` makes of the chunks that a connection receives, without an error. -/
inductive Decrypted (C : CryptoT κ γ) : κ → List (List Byte) → List (List Byte) → Prop
  | nil : Decrypted C C.d_init [] []
  | ok {g g' ctx ctx' bytes out chunks outs} (h : Decrypted C ctx chunks outs)
      (hstep : C.decrypt g ctx bytes = (.ok, out, ctx', g')) :
      Decrypted C ctx' (chunks ++ [bytes]) (outs ++ [out])
  | needMore {g g' ctx ctx' bytes out chunks outs} (h : Decrypted C ctx chunks outs)
      (hstep : C.decrypt g ctx bytes = (.needMore, out, ctx', g')) :
      Decrypted C ctx' (chunks ++ [bytes]) outs

/-- What one wants to know of each connection, from what was received and decrypted, and of the filter. -/
structure Observer (C : CryptoT κ γ) where
  filter : γ → Prop
  knows : Nat → γ → κ → List (List Byte) → List (List Byte) → Prop
  init : ∀ {s g}, filter g → knows s g C.d_init [] []
  ok : ∀ {s g g' ctx ctx' bytes out chunks outs}, filter g → knows s g ctx chunks outs →
    C.decrypt g ctx bytes = (.ok, out, ctx', g') → knows s g' ctx' (chunks ++ [bytes]) (outs ++ [out])
  needMore : ∀ {s g g' ctx ctx' bytes out chunks outs}, filter g → knows s g ctx chunks outs →
    C.decrypt g ctx bytes = (.needMore, out, ctx', g') → knows s g' ctx' (chunks ++ [bytes]) outs
  keeps : ∀ {g g'}, C.Evolves g g' → filter g → filter g'
  stays : ∀ {s g g' ctx chunks outs}, C.Evolves g g' → filter g → knows s g ctx chunks outs →
    knows s g' ctx chunks outs

/-- Each connection has been decrypted from its first byte on. -/
def Observer.decrypted (C : CryptoT κ γ) : Observer C where
  filter _ := True
  knows _ _ ctx chunks outs := Decrypted C ctx chunks outs
  init _ := .nil
  ok _ h hstep := h.ok hstep
  needMore _ h hstep := h.needMore hstep
  keeps _ _ := trivial
  stays _ _ h := h

/-- What `encrypt` makes of the chunks of the remote. -/
inductive Encrypted (C : CryptoT κ γ) (random : List Byte) : κ → List (List Byte) → List (List Byte) → Prop
  | nil : Encrypted C random (C.e_init random) [] []
  | ok {g g' ctx ctx' bytes out chunks outs} (h : Encrypted C random ctx chunks outs)
      (hfits : (Recv.bytes bytes).fits = true) (hstep : C.encrypt g ctx bytes = (.ok, out, ctx', g')) :
      Encrypted C random ctx' (chunks ++ [bytes]) (outs ++ [out])

namespace Relay

/-- The header has not come yet. -/
structure Handshaking (st : Relay κ γ) (s : Nat) (server : ServerT κ) : Prop where
  stage : server.stage = .init
  remote : server.remote = none
  query : server.query = none
  recv : st.active (.serverRecv s) = true
  send : st.active (.serverSend s) = false
  idx : server.buf.idx = 0
  plain : server.plain = []
  sealed : server.sealed = []
  toClient : server.toClient = []

/-- The name is being resolved. -/
structure Resolving (calls : HostCalls) (st : Relay κ γ) (s : Nat) (server : ServerT κ)
    (q : Nat) : Prop where
  stage : server.stage = .resolve
  remote : server.remote = none
  query : server.query = some q
  owner : st.query q = some (some s)
  recv : st.active (.serverRecv s) = false
  send : st.active (.serverSend s) = false
  idx : server.buf.idx = 0
  up : Upstream calls server.plain [] server.buf.pending
  sealed : server.sealed = []
  toClient : server.toClient = []

/-- The two ends point to each other. -/
structure Paired (st : Relay κ γ) (s : Nat) (server : ServerT κ) (r : Nat) (remote : RemoteT) : Prop where
  link : server.remote = some r
  lookup : st.remote r = some remote
  back : remote.server = some s
  query : server.query = none

/-- The remote has not taken the first payload yet. -/
structure Connecting (calls : HostCalls) (st : Relay κ γ) (s : Nat) (server : ServerT κ)
    (r : Nat) (remote : RemoteT) : Prop extends st.Paired s server r remote where
  stage : server.stage ≠ .stream
  recv : st.active (.serverRecv s) = false
  send : st.active (.serverSend s) = false
  remoteRecv : st.active (.remoteRecv r) = false
  remoteSend : st.active (.remoteSend r) = true
  up : Upstream calls server.plain remote.toRemote remote.buf.pending
  waiting : remote.connected = true → 0 < remote.buf.len
  sealed : server.sealed = []
  toClient : server.toClient = []

/-- Each direction is either read or, when something waits, written. -/
structure Streaming (calls : HostCalls) (st : Relay κ γ) (s : Nat) (server : ServerT κ)
    (r : Nat) (remote : RemoteT) : Prop extends st.Paired s server r remote where
  stage : server.stage = .stream
  connected : remote.connected = true
  recv : st.active (.serverRecv s) = !st.active (.remoteSend r)
  remoteRecv : st.active (.remoteRecv r) = !st.active (.serverSend s)
  up : Upstream calls server.plain remote.toRemote
    (if st.active (.remoteSend r) then remote.buf.pending else [])
  waiting : st.active (.remoteSend r) = true → 0 < remote.buf.len
  down : server.sealed.flatten = server.toClient ++ if st.active (.serverSend s) then server.buf.pending else []
  backlog : st.active (.serverSend s) = true → 0 < server.buf.len

inductive Phase (calls : HostCalls) (st : Relay κ γ) (s : Nat) (server : ServerT κ) : Prop
  | handshaking (h : st.Handshaking s server)
  | resolving (q : Nat) (h : Resolving calls st s server q)
  | connecting (r : Nat) (remote : RemoteT) (h : Connecting calls st s server r remote)
  | streaming (r : Nat) (remote : RemoteT) (h : Streaming calls st s server r remote)

structure Conn {C : CryptoT κ γ} (T : Observer C) (calls : HostCalls) (st : Relay κ γ) (s : Nat)
    (server : ServerT κ) : Prop where
  timer : st.active (.serverTimer s) = true
  decrypted : T.knows s st.crypto server.d_ctx server.fromClient server.plain
  encrypted : ∃ random, random.length = C.rand_len ∧ Encrypted C random server.e_ctx server.fromRemote server.sealed
  phase : Phase calls st s server

/-- What a watcher is part of has not been freed. -/
def Watches (st : Relay κ γ) : Watcher → Prop
  | .serverRecv s | .serverSend s | .serverTimer s => (st.server s).isSome
  | .remoteRecv r | .remoteSend r => (st.remote r).isSome

structure Sound {C : CryptoT κ γ} (T : Observer C) (calls : HostCalls) (st : Relay κ γ) : Prop where
  filter : T.filter st.crypto
  conn : ∀ s server, st.server s = some server → Conn T calls st s server
  owned : ∀ r remote, st.remote r = some remote →
    ∃ s server, remote.server = some s ∧ st.server s = some server ∧ server.remote = some r
  asked : ∀ q s, st.query q = some (some s) → ∃ server, st.server s = some server ∧ server.query = some q
  watched : ∀ w, st.active w = true → st.Watches w
  resolving : st.resolving.Nodup ∧ ∀ q, q ∈ st.resolving ↔ (st.query q).isSome
  connections : st.connections.Nodup ∧ ∀ s, s ∈ st.connections ↔ (st.server s).isSome

variable {C : CryptoT κ γ} {T : Observer C} {calls : HostCalls} {st st' : Relay κ γ} {s : Nat}
  {server : ServerT κ} {r q : Option Nat}

theorem Phase.linked (h : Phase calls st s server) (hs : st.server s = some server) :
    st.Linked s server := by
  cases h with
  | handshaking h => exact ⟨hs, by simp [h.remote], by simp [h.query]⟩
  | resolving q h => exact ⟨hs, by simp [h.remote], by simp [h.query, h.owner]⟩
  | connecting r remote h => exact ⟨hs, by simp [h.link, h.lookup, h.back], by simp [h.query]⟩
  | streaming r remote h => exact ⟨hs, by simp [h.link, h.lookup, h.back], by simp [h.query]⟩

theorem Phase.asked {j : Nat} (h : Phase calls st s server) (hj : server.query = some j) :
    st.query j = some (some s) := by
  cases h with
  | resolving k h =>
    cases h.query.symm.trans hj
    exact h.owner
  | handshaking h => simp [h.query] at hj
  | connecting k remote h => simp [h.query] at hj
  | streaming k remote h => simp [h.query] at hj

/-- A connection that is not touched. -/
theorem Conn.frame {i : Nat} (h : Conn T calls st i server) (hfilter : T.filter st.crypto)
    (ht : st.Touches C st' s r q) (hi : i ≠ s) (hr : ∀ j, server.remote = some j → some j ≠ r) (hq : ∀ j, server.query = some j → some j ≠ q) :
    Conn T calls st' i server := by
  have hserver (w : Watcher) (hw : w = .serverRecv i ∨ w = .serverSend i ∨ w = .serverTimer i) :
      st'.active w = st.active w := by
    refine ht.active w ?_
    rcases hw with rfl | rfl | rfl <;> simp [Watcher.belongs, hi]
  have hremote (j : Nat) (hj : server.remote = some j) :
      st'.remote j = st.remote j ∧ st'.active (.remoteRecv j) = st.active (.remoteRecv j) ∧
        st'.active (.remoteSend j) = st.active (.remoteSend j) :=
    ⟨ht.remote j (hr j hj), ht.active _ (by simp [Watcher.belongs, hr j hj]),
      ht.active _ (by simp [Watcher.belongs, hr j hj])⟩
  have hrecv := hserver (.serverRecv i) (.inl rfl)
  have hsend := hserver (.serverSend i) (.inr (.inl rfl))
  refine ⟨(hserver _ (.inr (.inr rfl))).trans h.timer, T.stays ht.crypto hfilter h.decrypted, h.encrypted, ?_⟩
  cases h.phase with
  | handshaking h => exact .handshaking { h with recv := hrecv.trans h.recv, send := hsend.trans h.send }
  | resolving j h =>
    exact .resolving j { h with
      owner := (ht.query j (hq j h.query)).trans h.owner
      recv := hrecv.trans h.recv
      send := hsend.trans h.send }
  | connecting j remote h =>
    obtain ⟨hlookup, hrr, hrs⟩ := hremote j h.link
    exact .connecting j remote { h with
      lookup := hlookup.trans h.lookup
      recv := hrecv.trans h.recv
      send := hsend.trans h.send
      remoteRecv := hrr.trans h.remoteRecv
      remoteSend := hrs.trans h.remoteSend }
  | streaming j remote h =>
    obtain ⟨hlookup, hrr, hrs⟩ := hremote j h.link
    exact .streaming j remote { h with
      lookup := hlookup.trans h.lookup
      recv := by rw [hrecv, hrs, h.recv]
      remoteRecv := by rw [hrr, hsend, h.remoteRecv]
      up := by rw [hrs]; exact h.up
      waiting := by rw [hrs]; exact h.waiting
      down := by rw [hsend]; exact h.down
      backlog := by rw [hsend]; exact h.backlog }

/-- What a step may touch: the connection's own remote and query, or new ones. -/
structure Footprint (st : Relay κ γ) (s : Nat) (r q : Option Nat) : Prop where
  remote : ∀ j remote, r = some j → st.remote j = some remote → remote.server = some s
  query : ∀ j i, q = some j → st.query j = some (some i) → i = s
  covers : ∀ server, st.server s = some server →
    (∀ j, server.remote = some j → r = some j) ∧ ∀ j, server.query = some j → q = some j

/-- The connection `i` is as before: what it points to, and what is watched. -/
structure Unchanged (st st' : Relay κ γ) (i : Nat) : Prop where
  server : st'.server i = st.server i
  remote : ∀ server r, st.server i = some server → server.remote = some r → st'.remote r = st.remote r
  query : ∀ server q, st.server i = some server → server.query = some q → st'.query q = st.query q
  active : ∀ server w, st.server i = some server → Watcher.belongs i server.remote w = true →
    st'.active w = st.active w

theorem Unchanged.trans {st'' : Relay κ γ} {i : Nat} (h : st.Unchanged st' i) (h' : st'.Unchanged st'' i) :
    st.Unchanged st'' i where
  server := h'.server.trans h.server
  remote server r hs hr := (h'.remote server r (h.server.trans hs) hr).trans (h.remote server r hs hr)
  query server q hs hq := (h'.query server q (h.server.trans hs) hq).trans (h.query server q hs hq)
  active server w hs hw := (h'.active server w (h.server.trans hs) hw).trans (h.active server w hs hw)

theorem Sound.remote_ne (h : Sound T calls st) (hf : st.Footprint s r q) {i j : Nat} (hne : i ≠ s)
    (hi : st.server i = some server) (hj : server.remote = some j) : some j ≠ r := by
  rintro rfl
  obtain ⟨remote, hremote, hback⟩ := ((h.conn i server hi).phase.linked hi).remote j hj
  exact hne (Option.some.inj (hback.symm.trans (hf.remote j remote rfl hremote)))

theorem Sound.query_ne (h : Sound T calls st) (hf : st.Footprint s r q) {i j : Nat} (hne : i ≠ s)
    (hi : st.server i = some server) (hj : server.query = some j) : some j ≠ q := by
  rintro rfl
  exact hne (hf.query j i rfl ((h.conn i server hi).phase.asked hj))

theorem Sound.unchanged (h : Sound T calls st) (ht : st.Touches C st' s r q) (hf : st.Footprint s r q)
    {i : Nat} (hne : i ≠ s) : st.Unchanged st' i where
  server := ht.server i hne
  remote server j hi hj := ht.remote j (h.remote_ne hf hne hi hj)
  query server j hi hj := ht.query j (h.query_ne hf hne hi hj)
  active server w hi hw := by
    refine ht.active w ?_
    cases w with
    | serverRecv k | serverSend k | serverTimer k =>
      obtain rfl : k = i := by simpa [Watcher.belongs] using hw
      simpa [Watcher.belongs] using hne
    | remoteRecv k | remoteSend k =>
      have hk : server.remote = some k := by simpa [Watcher.belongs, eq_comm] using hw
      simpa [Watcher.belongs] using h.remote_ne hf hne hi hk

theorem Sound.conn_other (h : Sound T calls st) (ht : st.Touches C st' s r q) (hf : st.Footprint s r q)
    {i : Nat} (hne : i ≠ s) (hi : st'.server i = some server) : Conn T calls st' i server := by
  rw [ht.server i hne] at hi
  exact (h.conn i server hi).frame h.filter ht hne (fun j hj => h.remote_ne hf hne hi hj) fun j hj =>
    h.query_ne hf hne hi hj

/-- A step of the connection `s`: the relay is still sound, and all others are unchanged. -/
structure Moves {C : CryptoT κ γ} (T : Observer C) (calls : HostCalls) (st : Relay κ γ) (s : Nat)
    (st' : Relay κ γ) : Prop where
  sound : Sound T calls st'
  others : ∀ i, i ≠ s → st.Unchanged st' i

theorem Sound.moves (h : Sound T calls st) (ht : st.Touches C st' s r q) (hf : st.Footprint s r q)
    (h' : Sound T calls st') : Moves T calls st s st' :=
  ⟨h', fun _ hne => h.unchanged ht hf hne⟩

theorem Sound.watched_other (h : Sound T calls st) (ht : st.Touches C st' s r q) {w : Watcher}
    (hb : w.belongs s r = false) (hw : st'.active w = true) : st'.Watches w := by
  have hwatched := h.watched w ((ht.active w hb).symm.trans hw)
  cases w with
  | serverRecv i | serverSend i | serverTimer i =>
    have hi : i ≠ s := by simpa [Watcher.belongs] using hb
    simpa [Watches, ht.server i hi] using hwatched
  | remoteRecv j | remoteSend j =>
    have hj : some j ≠ r := by simpa [Watcher.belongs] using hb
    simpa [Watches, ht.remote j hj] using hwatched

/-- The step leaves the connection in a phase. -/
theorem Sound.touches (h : Sound T calls st) (ht : st.Touches C st' s r q) (hf : st.Footprint s r q)
    (hs : st'.server s = some server) (hconn : Conn T calls st' s server)
    (hr : ∀ j, r = some j → server.remote = some j)
    (hq : ∀ j, q = some j → server.query = some j ∨ st'.query j = none)
    (hresolving : st'.resolving.Nodup ∧ ∀ q, q ∈ st'.resolving ↔ (st'.query q).isSome)
    (hconnections : st'.connections.Nodup ∧ ∀ s, s ∈ st'.connections ↔ (st'.server s).isSome) :
    Sound T calls st' where
  filter := T.keeps ht.crypto h.filter
  conn i server' hi := by
    rcases eq_or_ne i s with rfl | hne
    · cases hs.symm.trans hi
      exact hconn
    · exact h.conn_other ht hf hne hi
  owned j remote hj := by
    rcases eq_or_ne (some j) r with heq | hne
    · obtain ⟨remote', hremote, hback⟩ := (hconn.phase.linked hs).remote j (hr j heq.symm)
      cases hremote.symm.trans hj
      exact ⟨s, server, hback, hs, hr j heq.symm⟩
    · rw [ht.remote j hne] at hj
      obtain ⟨i, server', hback, hi, hlink⟩ := h.owned j remote hj
      have his : i ≠ s := by
        rintro rfl
        exact hne ((hf.covers server' hi).1 j hlink).symm
      exact ⟨i, server', hback, (ht.server i his).trans hi, hlink⟩
  asked j i hj := by
    rcases eq_or_ne (some j) q with heq | hne
    · rcases hq j heq.symm with hquery | hnone
      · cases (hconn.phase.asked hquery).symm.trans hj
        exact ⟨server, hs, hquery⟩
      · simp [hnone] at hj
    · rw [ht.query j hne] at hj
      obtain ⟨server', hi, hquery⟩ := h.asked j i hj
      have his : i ≠ s := by
        rintro rfl
        exact hne ((hf.covers server' hi).2 j hquery).symm
      exact ⟨server', (ht.server i his).trans hi, hquery⟩
  watched w hw := by
    cases hb : w.belongs s r with
    | false => exact h.watched_other ht hb hw
    | true =>
      cases w with
      | serverRecv i | serverSend i | serverTimer i =>
        obtain rfl : i = s := by simpa [Watcher.belongs] using hb
        simp [Watches, hs]
      | remoteRecv j | remoteSend j =>
        have hj : some j = r := by simpa [Watcher.belongs] using hb
        obtain ⟨remote, hremote, -⟩ := (hconn.phase.linked hs).remote j (hr j hj.symm)
        simp [Watches, hremote]
  resolving := hresolving
  connections := hconnections

/-- The step ends the connection. -/
theorem Sound.ended (h : Sound T calls st) (ht : st.Touches C st' s r q) (hf : st.Footprint s r q)
    (hs : st'.server s = none) (hr : ∀ j, r = some j → st'.remote j = none)
    (hq : ∀ j i, q = some j → st'.query j ≠ some (some i))
    (hw : ∀ w : Watcher, w.belongs s r = true → st'.active w = false)
    (hresolving : st'.resolving.Nodup ∧ ∀ q, q ∈ st'.resolving ↔ (st'.query q).isSome)
    (hconnections : st'.connections.Nodup ∧ ∀ s, s ∈ st'.connections ↔ (st'.server s).isSome) :
    Sound T calls st' where
  filter := T.keeps ht.crypto h.filter
  conn i server' hi := by
    have hne : i ≠ s := by
      rintro rfl
      simp [hs] at hi
    exact h.conn_other ht hf hne hi
  owned j remote hj := by
    have hne : some j ≠ r := by
      intro heq
      simp [hr j heq.symm] at hj
    rw [ht.remote j hne] at hj
    obtain ⟨i, server', hback, hi, hlink⟩ := h.owned j remote hj
    have his : i ≠ s := by
      rintro rfl
      exact hne ((hf.covers server' hi).1 j hlink).symm
    exact ⟨i, server', hback, (ht.server i his).trans hi, hlink⟩
  asked j i hj := by
    have hne : some j ≠ q := fun heq => hq j i heq.symm hj
    rw [ht.query j hne] at hj
    obtain ⟨server', hi, hquery⟩ := h.asked j i hj
    have his : i ≠ s := by
      rintro rfl
      exact hne ((hf.covers server' hi).2 j hquery).symm
    exact ⟨server', (ht.server i his).trans hi, hquery⟩
  watched w hactive := by
    cases hb : w.belongs s r with
    | true => simp [hw w hb] at hactive
    | false => exact h.watched_other ht hb hactive
  resolving := hresolving
  connections := hconnections

-- ---------------------------------------------------------------------------
-- One connection at a time
-- ---------------------------------------------------------------------------

theorem Sound.footprint (h : Sound T calls st) (hs : st.server s = some server) :
    st.Footprint s server.remote server.query where
  remote j remote hj hremote := by
    obtain ⟨remote', hremote', hback⟩ := ((h.conn s server hs).phase.linked hs).remote j hj
    cases hremote.symm.trans hremote'
    exact hback
  query j i hj hquery := by
    cases ((h.conn s server hs).phase.asked hj).symm.trans hquery
    rfl
  covers server' hs' := by
    cases hs.symm.trans hs'
    exact ⟨fun _ hj => hj, fun _ hj => hj⟩

/-- A step within a connection that keeps its remote and its query. -/
theorem Sound.settle (h : Sound T calls st) (hs : st.server s = some server) (hr : server.remote = r)
    (hq : server.query = q) {server' : ServerT κ} (hr' : server'.remote = r) (hq' : server'.query = q)
    (ht : st.Touches C st' s r q) (hs' : st'.server s = some server') (hquery : st'.query = st.query)
    (hresolving : st'.resolving = st.resolving) (hconnections : st'.connections = st.connections)
    (hconn : Conn T calls st' s server') : Moves T calls st s st' := by
  subst hr hq
  refine h.moves ht (h.footprint hs) (h.touches ht (h.footprint hs) hs' hconn (fun j hj => hr'.trans hj)
    (fun j hj => .inl (hq'.trans hj)) ?_ ?_)
  · rw [hresolving, hquery]
    exact h.resolving
  · rw [hconnections]
    refine ⟨h.connections.1, fun i => (h.connections.2 i).trans ?_⟩
    rcases eq_or_ne i s with rfl | hi
    · simp [hs, hs']
    · rw [ht.server i hi]

/-- A callback for the connection `s` does not follow a dangling pointer, and is a step of it. -/
def Safe {C : CryptoT κ γ} (T : Observer C) (calls : HostCalls) (st : Relay κ γ) (s : Nat)
    (result : Option (Relay κ γ)) : Prop :=
  ∃ st', result = some st' ∧ Moves T calls st s st'

theorem Moves.safe (h : Moves T calls st s st') : Safe T calls st s (some st') := ⟨st', rfl, h⟩

theorem Sound.stays (h : Sound T calls st) : Safe T calls st s (some st) :=
  ⟨st, rfl, h, fun _ _ => ⟨rfl, fun _ _ _ _ => rfl, fun _ _ _ _ => rfl, fun _ _ _ _ => rfl⟩⟩

/-- A second step of the same connection. -/
theorem Moves.then {result : Option (Relay κ γ)} (h : Moves T calls st s st')
    (h' : Safe T calls st' s result) : Safe T calls st s result := by
  obtain ⟨st'', hst'', h''⟩ := h'
  exact ⟨st'', hst'', h''.sound, fun i hi => (h.others i hi).trans (h''.others i hi)⟩

/-- A connection can be closed at any time, also after a step within it. -/
theorem Sound.closeBoth (h : Sound T calls st) (hs : st.server s = some server)
    (hr₀ : server.remote = r) (hq₀ : server.query = q) {server' : ServerT κ} (hr : server'.remote = r)
    (hq : server'.query = q) (ht : st.Touches C st' s r q) (hl : st'.Linked s server') (hquery : st'.query = st.query)
    (hresolving : st'.resolving = st.resolving) (hconnections : st'.connections = st.connections) :
    Safe T calls st s (st'.closeBoth r s) := by
  subst hr₀ hq₀
  have hclose : st'.Touches C (st'.closed s server') s server.remote server.query := by
    rw [← hr, ← hq]
    exact touches_closed
  refine ⟨st'.closed s server', hr ▸ hl.closeBoth, h.moves (ht.trans hclose) (h.footprint hs)
    (h.ended (ht.trans hclose) (h.footprint hs) ?_ ?_ ?_ ?_ ?_ ?_)⟩
  · simp
  · intro j hj
    simp [hr, hj]
  · intro j i hj
    simp [hq, hj]
  · intro w hw
    simp [hr, hw]
  · rw [closed_resolving, hresolving]
    refine ⟨h.resolving.1, fun j => (h.resolving.2 j).trans ?_⟩
    rcases eq_or_ne (some j) server.query with heq | hne
    · obtain ⟨owner, howner⟩ := ((h.conn s server hs).phase.linked hs).query j heq.symm
      simp [hq, heq, howner]
    · simp [hq, hne, hquery]
  · rw [closed_connections, hconnections]
    refine ⟨h.connections.1.erase s, fun i => ?_⟩
    rw [h.connections.1.mem_erase_iff, h.connections.2 i]
    rcases eq_or_ne i s with rfl | hi
    · simp
    · simp [hi, ht.server i hi]

end Relay
end TcpRelay
end SmartSocks.Ssserver
