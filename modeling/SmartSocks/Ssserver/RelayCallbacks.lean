import SmartSocks.Ssserver.RelayPhases

/-!
# The callbacks keep the phases
-/

namespace SmartSocks.Ssserver.TcpRelay

open Jvm
open Crypto.Server (CryptoT)

namespace IoBuffer

variable (buf : IoBuffer)

@[simp] theorem whole_fill (bytes : List Byte) : (buf.fill bytes).whole = bytes := List.take_length

@[simp] theorem len_fill (bytes : List Byte) : (buf.fill bytes).len = bytes.length := rfl

/-- `idx` is set back. -/
theorem pending_restart : { buf with idx := 0 : IoBuffer }.pending = buf.whole := rfl

theorem pending_moved : { data := buf.pending, idx := 0, len := buf.len : IoBuffer }.pending = buf.pending := by
  rw [pending, List.drop_zero, pending, List.take_take, Nat.min_self]

/-- A part of the buffer is sent, from its start. -/
theorem whole_split (n : Nat) :
    buf.whole.take n ++ { buf with len := buf.len - n, idx := n : IoBuffer }.pending = buf.whole := by
  have hrest : { buf with len := buf.len - n, idx := n : IoBuffer }.pending = buf.whole.drop n :=
    List.drop_take.symm
  rw [hrest, List.take_append_drop]

/-- A part of what waits is sent. -/
theorem pending_split (n : Nat) :
    buf.pending.take n ++ { buf with len := buf.len - n, idx := buf.idx + n : IoBuffer }.pending =
      buf.pending := by
  have hrest : { buf with len := buf.len - n, idx := buf.idx + n : IoBuffer }.pending = buf.pending.drop n := by
    rw [pending, pending, List.drop_take, List.drop_drop]
  rw [hrest, List.take_append_drop]

end IoBuffer

namespace Upstream

variable {calls : HostCalls} {plain : List (List Byte)} {sent waiting more part : List Byte}

/-- The first buffer. -/
theorem first {out : List Byte} (h : payloadOf calls out = some (sent ++ waiting)) :
    Upstream calls [out] sent waiting := ⟨out, [], sent ++ waiting, rfl, h, by simp⟩

/-- More is decrypted while nothing waits. -/
theorem decrypts (h : Upstream calls plain sent []) (out : List Byte) :
    Upstream calls (plain ++ [out]) sent out := by
  obtain ⟨first, rest, payload, rfl, hpayload, heq⟩ := h
  refine ⟨first, rest ++ [out], payload, rfl, hpayload, ?_⟩
  rw [List.flatten_append, ← List.append_assoc, heq]
  simp

/-- A part is sent. -/
theorem sends (h : Upstream calls plain sent waiting) (hsplit : part ++ more = waiting) :
    Upstream calls plain (sent ++ part) more := by
  obtain ⟨first, rest, payload, hplain, hpayload, heq⟩ := h
  exact ⟨first, rest, payload, hplain, hpayload, by rw [heq, ← hsplit, List.append_assoc]⟩

end Upstream

namespace Relay

variable {κ γ : Type} {C : CryptoT κ γ} {T : Observer C} {calls : HostCalls} {st : Relay κ γ}
  {s : Nat} {server : ServerT κ}

theorem sound_initial {crypto : γ} (h : T.filter crypto) : Sound T calls (initial crypto : Relay κ γ) where
  filter := h
  conn _ _ h := by simp [initial] at h
  owned _ _ h := by simp [initial] at h
  asked _ _ h := by simp [initial] at h
  watched _ h := by simp [initial] at h
  resolving := by simp [initial]
  connections := by simp [initial]

-- ---------------------------------------------------------------------------
-- `accept_cb`
-- ---------------------------------------------------------------------------

theorem Sound.accept (h : Sound T calls st) (hs : st.server s = none) (random : List Byte)
    (hrandom : random.length = C.rand_len) :
    Moves T calls st s (st.acceptCb C s random) := by
  have ht : st.Touches C (st.acceptCb C s random) s none none :=
    ⟨fun i hi => by simp [acceptCb, hi], fun _ _ => rfl, fun _ _ => rfl, fun w hw => by
      cases w <;> simp_all [acceptCb, Watcher.belongs], .refl _⟩
  have hfoot : st.Footprint s none none := by
    refine ⟨fun j remote hj => ?_, fun j i hj => ?_, fun server h => ?_⟩
    · cases hj
    · cases hj
    · simp [hs] at h
  have hidle (w : Watcher) (hw : ¬ st.Watches w) : st.active w = false :=
    Bool.eq_false_iff.mpr fun hactive => hw (h.watched w hactive)
  have hs' : (st.acceptCb C s random).server s = some { e_ctx := C.e_init random, d_ctx := C.d_init } := by
    simp [acceptCb]
  refine h.moves ht hfoot (h.touches ht hfoot hs' ?_ (fun j hj => by cases hj) (fun j hj => by cases hj)
    h.resolving ?_)
  · refine ⟨by simp [acceptCb], T.init h.filter, ⟨random, hrandom, .nil⟩,
      .handshaking ⟨rfl, rfl, rfl, ?_, ?_, rfl, rfl, rfl, rfl⟩⟩
    · simp [acceptCb]
    · simpa [acceptCb] using hidle (.serverSend s) (by simp [Watches, hs])
  · have hnew : s ∉ st.connections := by simp [h.connections.2 s, hs]
    refine ⟨List.nodup_cons.mpr ⟨hnew, h.connections.1⟩, fun i => ?_⟩
    rcases eq_or_ne i s with rfl | hi
    · simp [acceptCb]
    · simp [acceptCb, hi, h.connections.2 i]

theorem start_of_active {w : Watcher} (h : st.active w = true) : st.start w = st := by
  rw [start, Function.update_eq_self_iff.mpr h.symm]

-- ---------------------------------------------------------------------------
-- `server_recv_cb` in `STAGE_STREAM`
-- ---------------------------------------------------------------------------

/-- `server_recv_cb` leaves the way back alone. -/
structure SameBack (server server' : ServerT κ) : Prop where
  stage : server'.stage = server.stage
  remote : server'.remote = server.remote
  query : server'.query = server.query
  e_ctx : server'.e_ctx = server.e_ctx
  fromRemote : server'.fromRemote = server.fromRemote
  sealed : server'.sealed = server.sealed
  toClient : server'.toClient = server.toClient

section
variable {server' : ServerT κ} {r : Nat} {remote remote' : RemoteT}

/-- The client is still read. -/
theorem Sound.carries (h : Sound T calls st) (hs : st.server s = some server)
    (hphase : Streaming calls st s server r remote) (hidle : st.active (.remoteSend r) = false)
    {crypto : γ} (hevolves : C.Evolves st.crypto crypto) (hback : SameBack server server') (hbuf : server'.buf = server.buf)
    (hdecrypted : T.knows s crypto server'.d_ctx server'.fromClient server'.plain)
    (hr : remote'.server = remote.server ∧ remote'.connected = remote.connected)
    (hup : Upstream calls server'.plain remote'.toRemote []) :
    Moves T calls st s (({ st with crypto }.setServer s server').setRemote r remote') := by
  have hconn := h.conn s server hs
  refine h.settle hs hphase.link hphase.query (hback.remote.trans hphase.link) (hback.query.trans hphase.query)
    (((touches_crypto hevolves).trans (touches_setServer _)).trans (touches_setRemote r _)) (Function.update_self ..)
    rfl rfl rfl ⟨hconn.timer, hdecrypted, ?_, .streaming r remote' ?_⟩
  · rw [hback.e_ctx, hback.fromRemote, hback.sealed]
    exact hconn.encrypted
  · exact {
      link := hback.remote.trans hphase.link
      lookup := Function.update_self ..
      back := hr.1.trans hphase.back
      query := hback.query.trans hphase.query
      stage := hback.stage.trans hphase.stage
      connected := hr.2.trans hphase.connected
      recv := hphase.recv
      remoteRecv := hphase.remoteRecv
      up := by simpa [hidle] using hup
      waiting := by simp [hidle]
      down := by
        rw [hback.sealed, hback.toClient, hbuf]
        exact hphase.down
      backlog := by
        rw [hbuf]
        exact hphase.backlog }

/-- The remote is written to before the client is read again. -/
theorem Sound.pauses (h : Sound T calls st) (hs : st.server s = some server)
    (hphase : Streaming calls st s server r remote) {crypto : γ} (hevolves : C.Evolves st.crypto crypto) (hback : SameBack server server')
    (hbuf : server'.buf = server.buf)
    (hdecrypted : T.knows s crypto server'.d_ctx server'.fromClient server'.plain)
    (hr : remote'.server = remote.server ∧ remote'.connected = remote.connected)
    (hup : Upstream calls server'.plain remote'.toRemote remote'.buf.pending)
    (hlen : 0 < remote'.buf.len) :
    Moves T calls st s (((({ st with crypto }.setServer s server').setRemote r remote').stop
      (.serverRecv s)).start (.remoteSend r)) := by
  have hconn := h.conn s server hs
  refine h.settle hs hphase.link hphase.query (hback.remote.trans hphase.link) (hback.query.trans hphase.query)
    (((((touches_crypto hevolves).trans (touches_setServer _)).trans (touches_setRemote r _)).trans
      (touches_stop (by simp [Watcher.belongs]))).trans (touches_start (by simp [Watcher.belongs])))
    (Function.update_self ..) rfl rfl rfl ⟨?_, hdecrypted, ?_, .streaming r remote' ?_⟩
  · simpa using hconn.timer
  · rw [hback.e_ctx, hback.fromRemote, hback.sealed]
    exact hconn.encrypted
  · exact {
      link := hback.remote.trans hphase.link
      lookup := Function.update_self ..
      back := hr.1.trans hphase.back
      query := hback.query.trans hphase.query
      stage := hback.stage.trans hphase.stage
      connected := hr.2.trans hphase.connected
      recv := by simp
      remoteRecv := by simpa using hphase.remoteRecv
      up := by simpa using hup
      waiting := fun _ => hlen
      down := by
        rw [hback.sealed, hback.toClient, hbuf]
        simpa using hphase.down
      backlog := by
        rw [hbuf]
        simpa using hphase.backlog }

/-- What is decrypted is sent to the remote, or waits for it. -/
theorem Sound.forward (h : Sound T calls st) (hs : st.server s = some server)
    (hphase : Streaming calls st s server r remote) (hidle : st.active (.remoteSend r) = false)
    {crypto : γ} (hevolves : C.Evolves st.crypto crypto) (send : Send) (hback : SameBack server server') (hbuf : server'.buf = server.buf)
    {out : List Byte} (hout : out ≠ [])
    (hdecrypted : T.knows s crypto server'.d_ctx server'.fromClient server'.plain)
    (hplain : server'.plain = server.plain ++ [out]) :
    Safe T calls st s (({ st with crypto }.setServer s server').forward s r
      { remote with buf := remote.buf.fill out } send) := by
  have hup := hphase.up
  rw [hidle, if_neg Bool.false_ne_true] at hup
  have hup := hup.decrypts out
  rw [← hplain] at hup
  have hlen : 0 < out.length := List.length_pos_iff.mpr hout
  cases send with
  | again =>
    refine (h.pauses hs hphase hevolves hback hbuf hdecrypted ?_ ?_ ?_).safe
    · exact ⟨rfl, rfl⟩
    · rw [← remote.buf.whole_fill out] at hup
      exact hup
    · exact hlen
  | failed =>
    refine h.closeBoth hs hphase.link hphase.query (hback.remote.trans hphase.link)
      (hback.query.trans hphase.query) ((touches_crypto hevolves).trans (touches_setServer _))
      ⟨Function.update_self .., ?_, ?_⟩ rfl rfl rfl
    · simp [hback.remote, hphase.link, hphase.lookup, hphase.back]
    · simp [hback.query, hphase.query]
  | upTo count =>
    have hsends := hup.sends (((remote.buf.fill out).whole_split (min count out.length)).trans
      (remote.buf.whole_fill out))
    simp only [Relay.forward]
    split
    next hpart =>
      refine (h.pauses hs hphase hevolves hback hbuf hdecrypted ?_ hsends ?_).safe
      · exact ⟨rfl, rfl⟩
      · exact Nat.sub_pos_of_lt hpart
    next hfull =>
      rw [IoBuffer.len_fill] at hfull
      refine (h.carries hs hphase hidle hevolves hback hbuf hdecrypted ?_ ?_).safe
      · exact ⟨rfl, rfl⟩
      have hall : min count out.length = out.length := by omega
      rw [IoBuffer.len_fill, hall, IoBuffer.whole_fill, List.take_length]
      exact hup.sends (List.append_nil out)

end

-- ---------------------------------------------------------------------------
-- `server_recv_cb` in `STAGE_INIT`
-- ---------------------------------------------------------------------------

section
variable {st' : Relay κ γ} {server' : ServerT κ} {r : Nat} {remote' : RemoteT}

/-- What fast open has not sent waits in the remote's buffer. -/
theorem attach_eq (st : Relay κ γ) (s : Nat) (server : ServerT κ) (hidx : server.buf.idx = 0) (r sent : Nat) :
    ∃ buf remote,
      st.attach s server r sent =
        ((st.setRemote r remote).setServer s { server with remote := some r, buf }).start (.remoteSend r) ∧
      remote.server = some s ∧ remote.connected = false ∧
      remote.toRemote ++ remote.buf.pending = server.buf.pending := by
  have hwhole : server.buf.whole = server.buf.pending := by
    rw [IoBuffer.whole, IoBuffer.pending, hidx, List.drop_zero]
  have hsplit := server.buf.pending_split (min sent server.buf.len)
  simp only [attach]
  split
  · refine ⟨_, _, rfl, rfl, rfl, ?_⟩
    rw [hwhole]
    exact (congrArg _ (IoBuffer.pending_moved _)).trans hsplit
  next hnone =>
    refine ⟨_, _, rfl, rfl, rfl, ?_⟩
    have hall : server.buf.len ≤ min sent server.buf.len := by
      simpa [Nat.sub_pos_iff_lt] using hnone
    rw [hwhole, List.take_of_length_le]
    · exact List.append_nil _
    · exact (List.length_take_le ..).trans hall

/-- A connection gets its remote. -/
theorem Sound.connects (h : Sound T calls st) (hs : st.server s = some server)
    (hremote : server.remote = none) {q : Option Nat} (hq : server.query = q) (hr : st.remote r = none)
    (ht : st.Touches C st' s (some r) q) (hs' : st'.server s = some server') (_ : st'.remote r = some remote')
    (hconnecting : Connecting calls st' s server' r remote')
    (htimer : st'.active (.serverTimer s) = st.active (.serverTimer s))
    (hdecrypted : T.knows s st'.crypto server'.d_ctx server'.fromClient server'.plain)
    (hencrypted : ∃ random, random.length = C.rand_len ∧ Encrypted C random server'.e_ctx server'.fromRemote server'.sealed)
    (hquery : ∀ j, q = some j → st'.query j = none)
    (hresolving : st'.resolving.Nodup ∧ ∀ q, q ∈ st'.resolving ↔ (st'.query q).isSome)
    (hconnections : st'.connections = st.connections) : Moves T calls st s st' := by
  have hconn := h.conn s server hs
  have hfoot : st.Footprint s (some r) q := by
    refine ⟨fun j remote hj hremote => ?_, fun j i hj hi => ?_, fun server₀ hs₀ => ?_⟩
    · cases hj
      simp [hr] at hremote
    · cases (hconn.phase.asked (hq.trans hj)).symm.trans hi
      rfl
    · cases hs.symm.trans hs₀
      exact ⟨fun j hj => by simp [hremote] at hj, fun j hj => hq.symm.trans hj⟩
  refine h.moves ht hfoot (h.touches ht hfoot hs'
    ⟨htimer.trans hconn.timer, hdecrypted, hencrypted, .connecting r remote' hconnecting⟩
    (fun j hj => hj ▸ hconnecting.link) (fun j hj => .inr (hquery j hj)) hresolving ?_)
  rw [hconnections]
  refine ⟨h.connections.1, fun i => (h.connections.2 i).trans ?_⟩
  rcases eq_or_ne i s with rfl | hi
  · simp [hs, hs']
  · rw [ht.server i hi]

/-- The first buffer: the connection is closed, gets its remote, or waits for its address. -/
theorem Sound.handshake (h : Sound T calls st) (hs : st.server s = some server)
    (hphase : st.Handshaking s server) {crypto : γ} (hevolves : C.Evolves st.crypto crypto) {ctx : κ} {chunks : List (List Byte)} {out : List Byte}
    (hdecrypted : T.knows s crypto ctx chunks (server.plain ++ [out])) (connect : Connect)
    (hconnect : connect.fresh st.remote = true) (q : Nat) (hq : st.query q = none) :
    Safe T calls st s ({ st with crypto }.handshake calls s
      { server with
        d_ctx := ctx, fromClient := chunks, plain := server.plain ++ [out], buf := server.buf.fill out }
      connect q) := by
  have hconn := h.conn s server hs
  have hclosed : Safe T calls st s ({ st with crypto }.closeAndFreeServer s) := by
    refine h.closeBoth hs hphase.remote hphase.query hphase.remote hphase.query (touches_crypto hevolves)
      ⟨hs, ?_, ?_⟩ rfl rfl rfl
    · simp [hphase.remote]
    · simp [hphase.query]
  have hidle (w : Watcher) (hw : ¬ st.Watches w) : st.active w = false :=
    Bool.eq_false_iff.mpr fun hactive => hw (h.watched w hactive)
  let behind (payload : List Byte) : ServerT κ :=
    { server with
      d_ctx := ctx, fromClient := chunks, plain := server.plain ++ [out],
      buf := (server.buf.fill out).fill payload }
  have hup (payload : List Byte) (hpayload : payloadOf calls out = some payload) :
      Upstream calls (behind payload).plain [] payload := by
    rw [show (behind payload).plain = [out] by simp [behind, hphase.plain]]
    exact .first (by simpa using hpayload)
  have hpending (payload : List Byte) : (behind payload).buf.pending = payload := by
    simp [behind, IoBuffer.pending, IoBuffer.fill, hphase.idx]
  have hconnects (payload : List Byte) (hpayload : payloadOf calls out = some payload) :
      Safe T calls st s ({ st with crypto }.connectTo s (behind payload) connect) := by
    cases connect with
    | null => exact hclosed
    | remote r sent =>
      have hr : st.remote r = none := by simpa [Connect.fresh] using hconnect
      obtain ⟨buf, remote, hattach, hback, hconnected, hsplit⟩ :=
        attach_eq { st with crypto } s (behind payload) hphase.idx r sent
      let attached : ServerT κ := { behind payload with remote := some r, buf := buf }
      rw [connectTo, hattach]
      refine (h.connects hs hphase.remote hphase.query hr
        (((((touches_crypto hevolves).trans (touches_setRemote r remote)).trans (touches_setServer attached)).trans
          (touches_start (w := .remoteSend r) (by simp [Watcher.belongs]))).trans
          (touches_stop (w := .serverRecv s) (by simp [Watcher.belongs])))
        (Function.update_self ..) (Function.update_self ..) ?_ (by simp) hdecrypted hconn.encrypted
        (fun j hj => by cases hj)
        h.resolving rfl).safe
      exact {
        link := rfl
        lookup := Function.update_self ..
        back := hback
        query := hphase.query
        stage := hphase.stage.trans_ne (by decide)
        recv := by simp
        send := by simpa using hphase.send
        remoteRecv := by simpa using hidle (.remoteRecv r) (by simp [Watches, hr])
        remoteSend := by simp
        up := by
          have hup := hup payload hpayload
          rw [← hpending payload, ← hsplit] at hup
          exact hup.sends rfl
        waiting := by simp [hconnected]
        sealed := hphase.sealed
        toClient := hphase.toClient }
  have hwhole : (server.buf.fill out).whole = out := server.buf.whole_fill out
  simp only [Relay.handshake, hwhole, IoBuffer.len_fill]
  have hresolves (payload : List Byte) (hpayload : payloadOf calls out = some payload) :
      Moves T calls st s { (({ st with crypto }.stop (.serverRecv s)).setServer s
          { behind payload with query := some q, stage := .resolve }) with
        query := Function.update st.query q (some (some s))
        resolving := q :: st.resolving } := by
    let asking : ServerT κ := { behind payload with query := some q, stage := .resolve }
    have ht : st.Touches C { (({ st with crypto }.stop (.serverRecv s)).setServer s asking) with
        query := Function.update st.query q (some (some s))
        resolving := q :: st.resolving } s none (some q) := by
      refine ⟨fun i hi => by simp [hi], fun _ _ => rfl, fun i hi => ?_, fun w hw => ?_, hevolves⟩
      · exact Function.update_of_ne (ne_of_apply_ne some hi) _ _
      · have hstop : st.Touches C (st.stop (.serverRecv s)) s none none :=
          touches_stop (by simp [Watcher.belongs])
        exact hstop.active w hw
    have hnew : q ∉ st.resolving := by simp [h.resolving.2 q, hq]
    have hfoot : st.Footprint s none (some q) := by
      refine ⟨fun j remote hj => (by cases hj), fun j i hj hi => ?_, fun server₀ hs₀ => ?_⟩
      · cases hj
        simp [hq] at hi
      · cases hs.symm.trans hs₀
        simp [hphase.remote, hphase.query]
    refine h.moves ht hfoot (h.touches ht hfoot (Function.update_self ..)
      ⟨?_, hdecrypted, hconn.encrypted, .resolving q ?_⟩ (fun j hj => by cases hj) (fun j hj => .inl hj) ?_ ?_)
    · simpa using hconn.timer
    · exact {
        stage := rfl
        remote := hphase.remote
        query := rfl
        owner := Function.update_self ..
        recv := by simp
        send := by simpa using hphase.send
        idx := hphase.idx
        up := by
          have hup := hup payload hpayload
          rwa [← hpending payload] at hup
        sealed := hphase.sealed
        toClient := hphase.toClient }
    · refine ⟨List.nodup_cons.mpr ⟨hnew, h.resolving.1⟩, fun j => ?_⟩
      rcases eq_or_ne j q with rfl | hj
      · simp
      · simp [hj, h.resolving.2 j]
    · refine ⟨h.connections.1, fun i => (h.connections.2 i).trans ?_⟩
      rcases eq_or_ne i s with rfl | hi
      · simp [hs]
      · simp [hi]
  cases hrequest : serverRecvInit calls { data := Bytes.ofList 0 out, len := out.length } with
  | malformed _ => exact hclosed
  | blocked _ => exact hclosed
  | invalidHostName _ => exact hclosed
  | connectAddress _ _ payload => exact hconnects payload (by rw [payloadOf, hrequest, Request.payload])
  | connect _ _ _ _ payload => exact hconnects payload (by rw [payloadOf, hrequest, Request.payload])
  | resolve _ _ payload => exact (hresolves payload (by rw [payloadOf, hrequest, Request.payload])).safe

end

/-- Nothing has been decrypted yet, and the client is still read. -/
theorem Sound.listens (h : Sound T calls st) (hs : st.server s = some server)
    (hphase : st.Handshaking s server) {crypto : γ} (hevolves : C.Evolves st.crypto crypto) {server' : ServerT κ} (hback : SameBack server server')
    (hidx : server'.buf.idx = server.buf.idx) (hplain : server'.plain = server.plain)
    (hdecrypted : T.knows s crypto server'.d_ctx server'.fromClient server'.plain) :
    Moves T calls st s ({ st with crypto }.setServer s server') := by
  have hconn := h.conn s server hs
  refine h.settle hs hphase.remote hphase.query (hback.remote.trans hphase.remote) (hback.query.trans hphase.query)
    ((touches_crypto hevolves).trans (touches_setServer _)) (Function.update_self ..) rfl rfl rfl
    ⟨hconn.timer, hdecrypted, ?_, .handshaking ?_⟩
  · have hencrypted := hconn.encrypted
    rwa [← hback.e_ctx, ← hback.fromRemote, ← hback.sealed] at hencrypted
  · exact {
      stage := hback.stage.trans hphase.stage
      remote := hback.remote.trans hphase.remote
      query := hback.query.trans hphase.query
      recv := hphase.recv
      send := hphase.send
      idx := hidx.trans hphase.idx
      plain := hplain.trans hphase.plain
      sealed := hback.sealed.trans hphase.sealed
      toClient := hback.toClient.trans hphase.toClient }

theorem Sound.serverRecvCb (h : Sound T calls st) (hactive : st.active (.serverRecv s) = true)
    (recv : Recv) (hfits : recv.fits = true) (send : Send) (connect : Connect) (hconnect : connect.fresh st.remote = true) (q : Nat)
    (hq : st.query q = none) :
    Safe T calls st s (st.serverRecvCb C calls s recv send connect q) := by
  obtain ⟨server, hs⟩ := Option.isSome_iff_exists.mp (h.watched _ hactive)
  have hconn := h.conn s server hs
  cases hconn.phase with
  | handshaking hphase =>
    have hclosed {crypto : γ} (hevolves : C.Evolves st.crypto crypto) (server' : ServerT κ) (hr : server'.remote = server.remote)
        (hq : server'.query = server.query) :
        Safe T calls st s (({ st with crypto }.setServer s server').closeBoth none s) := by
      refine h.closeBoth hs hphase.remote hphase.query (hr.trans hphase.remote) (hq.trans hphase.query)
        ((touches_crypto hevolves).trans (touches_setServer _)) ⟨Function.update_self .., ?_, ?_⟩ rfl rfl rfl
      · simp [hr, hphase.remote]
      · simp [hq, hphase.query]
    have hclose : Safe T calls st s (st.closeBoth none s) := by
      refine h.closeBoth hs hphase.remote hphase.query hphase.remote hphase.query (touches_crypto (.refl _))
        ⟨hs, ?_, ?_⟩ rfl rfl rfl
      · simp [hphase.remote]
      · simp [hphase.query]
    simp only [Relay.serverRecvCb, hs, Option.bind_some, hphase.stage]
    cases recv with
    | closed => exact hclose
    | failed => exact hclose
    | again => exact h.stays
    | bytes bytes =>
      rcases hresult : C.decrypt st.crypto server.d_ctx bytes with ⟨verdict, out, ctx, crypto⟩
      have hevolves : C.Evolves st.crypto crypto := .decrypt (.refl _) hresult
      simp only [received, hresult]
      cases verdict with
      | error => exact hclosed hevolves _ rfl rfl
      | needMore =>
        simp only
        split
        · exact hclosed hevolves _ rfl rfl
        · refine (h.listens hs hphase hevolves ?_ ?_ ?_ (T.needMore h.filter hconn.decrypted hresult)).safe
          · exact ⟨rfl, rfl, rfl, rfl, rfl, rfl, rfl⟩
          · rfl
          · rfl
      | ok => exact h.handshake hs hphase hevolves (T.ok h.filter hconn.decrypted hresult) connect hconnect q hq
  | resolving q hphase => simp [hphase.recv] at hactive
  | connecting r remote hphase => simp [hphase.recv] at hactive
  | streaming r remote hphase =>
    have hidle : st.active (.remoteSend r) = false := by simpa [hactive] using hphase.recv
    have hclosed {crypto : γ} (hevolves : C.Evolves st.crypto crypto) (server' : ServerT κ) (remote' : RemoteT) (hr : server'.remote = server.remote)
        (hq : server'.query = server.query) (hback : remote'.server = remote.server) :
        Safe T calls st s ((({ st with crypto }.setServer s server').setRemote r remote').closeBoth
          (some r) s) := by
      refine h.closeBoth hs hphase.link hphase.query (hr.trans hphase.link) (hq.trans hphase.query)
        (((touches_crypto hevolves).trans (touches_setServer _)).trans (touches_setRemote r _))
        ⟨Function.update_self .., ?_, ?_⟩ rfl rfl rfl
      · simp [hr, hphase.link, hback, hphase.back]
      · simp [hq, hphase.query]
    have hclose : Safe T calls st s (st.closeBoth (some r) s) := by
      refine h.closeBoth hs hphase.link hphase.query hphase.link hphase.query (touches_crypto (.refl _))
        ⟨hs, ?_, ?_⟩ rfl rfl rfl
      · simp [hphase.link, hphase.lookup, hphase.back]
      · simp [hphase.query]
    simp only [Relay.serverRecvCb, hs, Option.bind_some, hphase.stage, hphase.link, hphase.lookup,
      start_of_active hconn.timer]
    cases recv with
    | closed => exact hclose
    | failed => exact hclose
    | again => exact h.stays
    | bytes bytes =>
      rcases hresult : C.decrypt st.crypto server.d_ctx bytes with ⟨verdict, out, ctx, crypto⟩
      have hevolves : C.Evolves st.crypto crypto := .decrypt (.refl _) hresult
      simp only [received, hresult]
      have hup := hphase.up
      rw [hidle, if_neg Bool.false_ne_true] at hup
      cases verdict with
      | error => exact hclosed hevolves _ _ rfl rfl rfl
      | needMore =>
        simp only
        split
        · exact hclosed hevolves _ _ rfl rfl rfl
        · refine (h.carries hs hphase hidle hevolves ?_ ?_ ?_ ?_ ?_).safe
          · exact ⟨rfl, rfl, rfl, rfl, rfl, rfl, rfl⟩
          · rfl
          · exact T.needMore h.filter hconn.decrypted hresult
          · exact ⟨rfl, rfl⟩
          · exact hup
      | ok =>
        have hout : out ≠ [] := by
          have hbytes : bytes ≠ [] := by
            rintro rfl
            simp [Recv.fits] at hfits
          have hne := C.decrypt_ne st.crypto server.d_ctx bytes hbytes
          rw [hresult] at hne
          exact hne rfl
        refine h.forward hs hphase hidle hevolves send ?_ ?_ hout (T.ok h.filter hconn.decrypted hresult) ?_
        · exact ⟨rfl, rfl, rfl, rfl, rfl, rfl, rfl⟩
        · rfl
        · rfl

-- ---------------------------------------------------------------------------
-- `server_send_cb` and `server_timeout_cb`
-- ---------------------------------------------------------------------------

theorem Sound.closes (h : Sound T calls st) (hs : st.server s = some server) :
    Safe T calls st s (st.closeBoth server.remote s) :=
  h.closeBoth hs rfl rfl rfl rfl (touches_crypto (.refl _)) ((h.conn s server hs).phase.linked hs) rfl rfl rfl

theorem Sound.serverTimeoutCb (h : Sound T calls st) (hactive : st.active (.serverTimer s) = true) :
    Safe T calls st s (st.serverTimeoutCb s) := by
  obtain ⟨server, hs⟩ := Option.isSome_iff_exists.mp (h.watched _ hactive)
  rw [Relay.serverTimeoutCb, hs]
  exact h.closes hs

theorem Sound.serverSendCb (h : Sound T calls st) (hactive : st.active (.serverSend s) = true)
    (send : Send) : Safe T calls st s (st.serverSendCb s send) := by
  obtain ⟨server, hs⟩ := Option.isSome_iff_exists.mp (h.watched _ hactive)
  have hconn := h.conn s server hs
  cases hconn.phase with
  | handshaking hphase => simp [hphase.send] at hactive
  | resolving q hphase => simp [hphase.send] at hactive
  | connecting r remote hphase => simp [hphase.send] at hactive
  | streaming r remote hphase =>
    have hclose := h.closes hs
    rw [hphase.link] at hclose
    have hdown := hphase.down
    rw [hactive, if_pos rfl] at hdown
    rw [Relay.serverSendCb, hs, Option.bind_some]
    split
    next hnone => simp [hphase.link] at hnone
    rename_i r' hr'
    cases hphase.link.symm.trans hr'
    split
    · exact hclose
    cases send with
    | again => exact h.stays
    | failed => exact hclose
    | upTo count =>
      have hsplit := server.buf.pending_split (min count server.buf.len)
      simp only
      split
      next hpart =>
        refine (h.settle hs hphase.link hphase.query ?_ ?_ (touches_setServer _) (Function.update_self ..) rfl
          rfl rfl ⟨hconn.timer, ?_, ?_, .streaming r remote ?_⟩).safe
        · exact hphase.link
        · exact hphase.query
        · exact hconn.decrypted
        · exact hconn.encrypted
        · exact { hphase with
            lookup := hphase.lookup
            down := by simpa [hactive, hsplit] using hdown
            backlog := fun _ => Nat.sub_pos_of_lt hpart }
      next hfull =>
        rw [hphase.lookup, Option.map_some]
        refine (h.settle hs hphase.link hphase.query ?_ ?_ (((touches_setServer _).trans
          (touches_stop (w := .serverSend s) (by simp [Watcher.belongs]))).trans
          (touches_start (w := .remoteRecv r) (by simp [Watcher.belongs]))) (Function.update_self ..) rfl rfl rfl
          ⟨?_, ?_, ?_, .streaming r remote ?_⟩).safe
        · exact hphase.link
        · exact hphase.query
        · simpa using hconn.timer
        · exact hconn.decrypted
        · exact hconn.encrypted
        · have hall : server.buf.pending.take (min count server.buf.len) = server.buf.pending := by
            refine List.take_of_length_le ?_
            have hlen : server.buf.pending.length ≤ server.buf.len := List.length_take_le ..
            omega
          exact {
            link := hphase.link
            lookup := hphase.lookup
            back := hphase.back
            query := hphase.query
            stage := hphase.stage
            connected := hphase.connected
            recv := by simpa using hphase.recv
            remoteRecv := by simp
            up := by simpa using hphase.up
            waiting := by simpa using hphase.waiting
            down := by simpa [hall] using hdown
            backlog := by simp }

-- ---------------------------------------------------------------------------
-- `remote_recv_cb`
-- ---------------------------------------------------------------------------

section
variable {r : Nat} {remote : RemoteT}

/-- What is read from the remote is sent back, or waits for the client. -/
theorem Sound.reply (h : Sound T calls st) (hs : st.server s = some server)
    (hphase : Streaming calls st s server r remote) (hidle : st.active (.serverSend s) = false)
    {crypto : γ} (hevolves : C.Evolves st.crypto crypto) {ctx : κ} {bytes out : List Byte} (hout : out ≠ [])
    (hencrypted : ∃ random, random.length = C.rand_len ∧ Encrypted C random ctx (server.fromRemote ++ [bytes]) (server.sealed ++ [out]))
    (send : Send) :
    let server' := { server with
      e_ctx := ctx, buf := server.buf.fill out, fromRemote := server.fromRemote ++ [bytes],
      sealed := server.sealed ++ [out] }
    Safe T calls st s (({ st with crypto }.setServer s server').reply s r server' send) := by
  intro server'
  have hconn := h.conn s server hs
  have hdown := hphase.down
  rw [hidle, if_neg Bool.false_ne_true, List.append_nil] at hdown
  have hdecrypted := T.stays hevolves h.filter hconn.decrypted
  have hsealed : server'.sealed.flatten = server.toClient ++ out := by simp [server', hdown]
  have hlen : 0 < out.length := List.length_pos_iff.mpr hout
  have hwaits (buf : IoBuffer) (toClient : List Byte) (hbuf : 0 < buf.len)
      (hdown : server'.sealed.flatten = toClient ++ buf.pending) :
      Moves T calls st s (((({ st with crypto }.setServer s server').setServer s
        { server' with buf, toClient }).stop (.remoteRecv r)).start (.serverSend s)) := by
    refine h.settle hs hphase.link hphase.query ?_ ?_ (((((touches_crypto hevolves).trans (touches_setServer _)).trans
      (touches_setServer _)).trans (touches_stop (by simp [Watcher.belongs]))).trans
      (touches_start (by simp [Watcher.belongs]))) (Function.update_self ..) rfl rfl rfl
      ⟨?_, hdecrypted, hencrypted, .streaming r remote ?_⟩
    · exact hphase.link
    · exact hphase.query
    · simpa using hconn.timer
    · exact {
        link := hphase.link
        lookup := hphase.lookup
        back := hphase.back
        query := hphase.query
        stage := hphase.stage
        connected := hphase.connected
        recv := by simpa using hphase.recv
        remoteRecv := by simp
        up := by simpa using hphase.up
        waiting := by simpa using hphase.waiting
        down := by simpa using hdown
        backlog := fun _ => hbuf }
  cases send with
  | again =>
    refine (hwaits { server'.buf with idx := 0 } server.toClient hlen ?_).safe
    rw [IoBuffer.pending_restart, hsealed, IoBuffer.whole_fill]
  | failed =>
    refine h.closeBoth hs hphase.link hphase.query ?_ ?_ ((touches_crypto hevolves).trans (touches_setServer _))
      ⟨Function.update_self .., ?_, ?_⟩ rfl rfl rfl
    · exact hphase.link
    · exact hphase.query
    · simp [server', hphase.link, hphase.lookup, hphase.back]
    · simp [server', hphase.query]
  | upTo count =>
    have hsplit := server'.buf.whole_split (min count server'.buf.len)
    rw [IoBuffer.whole_fill] at hsplit
    simp only [Relay.reply]
    split
    next hpart =>
      refine (hwaits _ _ (Nat.sub_pos_of_lt hpart) ?_).safe
      rw [hsealed, List.append_assoc, IoBuffer.whole_fill, hsplit]
    next hfull =>
      have hall : min count server'.buf.len = out.length := by
        have hlen : server'.buf.len = out.length := rfl
        omega
      refine (h.settle hs hphase.link hphase.query ?_ ?_ (((touches_crypto hevolves).trans (touches_setServer _)).trans
        (touches_setServer _)) (Function.update_self ..) rfl rfl rfl
        ⟨hconn.timer, ?_, ?_, .streaming r remote ?_⟩).safe
      · exact hphase.link
      · exact hphase.query
      · exact hdecrypted
      · exact hencrypted
      · exact { hphase with
          lookup := hphase.lookup
          down := by
            rw [hall, IoBuffer.whole_fill, List.take_length]
            simpa [hidle] using hsealed
          backlog := by simp [hidle] }

theorem Sound.remoteRecvCb (h : Sound T calls st) (hactive : st.active (.remoteRecv r) = true)
    (hown : ∀ i, (st.remote r).bind RemoteT.server = some i → i = s) (recv : Recv) (hfits : recv.fits = true)
    (send : Send) :
    Safe T calls st s (st.remoteRecvCb C r recv send) := by
  obtain ⟨remote, hr⟩ := Option.isSome_iff_exists.mp (h.watched _ hactive)
  obtain ⟨i, server, hback, hs, hlink⟩ := h.owned r remote hr
  obtain rfl : s = i := (hown i (by simp [hr, hback])).symm
  have hconn := h.conn s server hs
  cases hconn.phase with
  | handshaking hphase => simp [hphase.remote] at hlink
  | resolving q hphase => simp [hphase.remote] at hlink
  | connecting r' remote' hphase =>
    cases hphase.link.symm.trans hlink
    simp [hphase.remoteRecv] at hactive
  | streaming r' remote' hphase =>
    cases hphase.link.symm.trans hlink
    cases hphase.lookup.symm.trans hr
    have hidle : st.active (.serverSend s) = false := by simpa [hactive] using hphase.remoteRecv
    have hclose := h.closes hs
    rw [hlink] at hclose
    simp only [Relay.remoteRecvCb, hr, hback, hs, Option.bind_some, start_of_active hconn.timer]
    cases recv with
    | closed => exact hclose
    | failed => exact hclose
    | again => exact h.stays
    | bytes bytes =>
      have hbytes : bytes ≠ [] := by
        rintro rfl
        simp [Recv.fits] at hfits
      rcases hresult : C.encrypt st.crypto server.e_ctx bytes with ⟨verdict, out, ctx, crypto⟩
      have hevolves : C.Evolves st.crypto crypto := .encrypt (.refl _) hresult
      simp only [hresult]
      split
      next hok =>
        obtain rfl : verdict = .ok := hok
        have hout : out ≠ [] := by
          have hne := C.encrypt_ne st.crypto server.e_ctx bytes hbytes
          rw [hresult] at hne
          exact hne rfl
        obtain ⟨random, hrandom, hencrypted⟩ := hconn.encrypted
        exact h.reply hs hphase hidle hevolves hout ⟨random, hrandom, hencrypted.ok hfits hresult⟩ send
      next =>
        exact h.closeBoth hs hlink hphase.query hlink hphase.query (touches_crypto hevolves)
          ⟨hs, by simp [hlink, hr, hback], by simp [hphase.query]⟩ rfl rfl rfl

-- ---------------------------------------------------------------------------
-- `remote_send_cb`
-- ---------------------------------------------------------------------------

/-- A part of what waits is sent. -/
theorem Sound.flushes (h : Sound T calls st) (hs : st.server s = some server)
    (hphase : Phase calls st s server) (hlink : server.remote = some r)
    (hr : st.remote r = some remote) (hactive : st.active (.remoteSend r) = true)
    (hconnected : remote.connected = true) {n : Nat} (hpart : n < remote.buf.len) :
    Moves T calls st s (st.setRemote r { remote with
      buf := { remote.buf with len := remote.buf.len - n, idx := remote.buf.idx + n }
      toRemote := remote.toRemote ++ remote.buf.pending.take n }) := by
  have hconn := h.conn s server hs
  let remote' : RemoteT := { remote with
    buf := { remote.buf with len := remote.buf.len - n, idx := remote.buf.idx + n }
    toRemote := remote.toRemote ++ remote.buf.pending.take n }
  have hsplit := remote.buf.pending_split n
  have hpos : 0 < remote.buf.len - n := Nat.sub_pos_of_lt hpart
  cases hphase with
  | handshaking hphase => simp [hphase.remote] at hlink
  | resolving q hphase => simp [hphase.remote] at hlink
  | connecting r' remote' hphase =>
    cases hphase.link.symm.trans hlink
    cases hphase.lookup.symm.trans hr
    refine h.settle hs hlink hphase.query hlink hphase.query (touches_setRemote r _) hs rfl rfl rfl
      ⟨hconn.timer, hconn.decrypted, hconn.encrypted, .connecting r remote' ?_⟩
    exact { hphase with
      lookup := Function.update_self ..
      back := hphase.back
      up := hphase.up.sends hsplit
      waiting := fun _ => hpos }
  | streaming r' remote' hphase =>
    cases hphase.link.symm.trans hlink
    cases hphase.lookup.symm.trans hr
    have hup := hphase.up
    rw [hactive, if_pos rfl] at hup
    refine h.settle hs hlink hphase.query hlink hphase.query (touches_setRemote r _) hs rfl rfl rfl
      ⟨hconn.timer, hconn.decrypted, hconn.encrypted, .streaming r remote' ?_⟩
    exact { hphase with
      lookup := Function.update_self ..
      back := hphase.back
      connected := hconnected
      up := by
        rw [setRemote_active, hactive, if_pos rfl]
        exact hup.sends hsplit
      waiting := fun _ => hpos }

/-- All of the first payload has been sent, or there was none. -/
theorem Sound.established (h : Sound T calls st) (hs : st.server s = some server)
    (hphase : Connecting calls st s server r remote) (remote' : RemoteT)
    (hback : remote'.server = remote.server) (hconnected : remote'.connected = true)
    (hup : Upstream calls server.plain remote'.toRemote []) {st' : Relay κ γ}
    (hst : st' = ((((st.setRemote r remote').setServer s { server with stage := .stream }).stop
      (.remoteSend r)).start (.serverRecv s)).start (.remoteRecv r)) : Moves T calls st s st' := by
  have hconn := h.conn s server hs
  subst hst
  refine h.settle hs hphase.link hphase.query ?_ ?_ (((((touches_setRemote r _).trans (touches_setServer _)).trans
    (touches_stop (w := .remoteSend r) (by simp [Watcher.belongs]))).trans
    (touches_start (w := .serverRecv s) (by simp [Watcher.belongs]))).trans
    (touches_start (w := .remoteRecv r) (by simp [Watcher.belongs]))) (Function.update_self ..) rfl rfl rfl
    ⟨?_, ?_, ?_, .streaming r remote' ?_⟩
  · exact hphase.link
  · exact hphase.query
  · simpa using hconn.timer
  · exact hconn.decrypted
  · exact hconn.encrypted
  · exact {
      link := hphase.link
      lookup := Function.update_self ..
      back := hback.trans hphase.back
      query := hphase.query
      stage := rfl
      connected := hconnected
      recv := by simp
      remoteRecv := by simp [hphase.send]
      up := by simpa using hup
      waiting := by simp
      down := by simp [hphase.sealed, hphase.toClient, hphase.send]
      backlog := by simp [hphase.send] }

/-- All that waited has been sent. -/
theorem Sound.drained (h : Sound T calls st) (hs : st.server s = some server)
    (hphase : Streaming calls st s server r remote) {remote' : RemoteT}
    (hback : remote'.server = remote.server) (hconnected : remote'.connected = true)
    (hup : Upstream calls server.plain remote'.toRemote []) :
    Moves T calls st s (((st.setRemote r remote').stop (.remoteSend r)).start (.serverRecv s)) := by
  have hconn := h.conn s server hs
  refine h.settle hs hphase.link hphase.query hphase.link hphase.query (((touches_setRemote r _).trans
    (touches_stop (w := .remoteSend r) (by simp [Watcher.belongs]))).trans
    (touches_start (w := .serverRecv s) (by simp [Watcher.belongs]))) hs rfl rfl rfl
    ⟨?_, hconn.decrypted, hconn.encrypted, .streaming r remote' ?_⟩
  · simpa using hconn.timer
  · exact {
      link := hphase.link
      lookup := Function.update_self ..
      back := hback.trans hphase.back
      query := hphase.query
      stage := hphase.stage
      connected := hconnected
      recv := by simp
      remoteRecv := by simpa using hphase.remoteRecv
      up := by simpa using hup
      waiting := by simp
      down := by simpa using hphase.down
      backlog := by simpa using hphase.backlog }

theorem Sound.flush (h : Sound T calls st) (hs : st.server s = some server)
    (hphase : Phase calls st s server) (hlink : server.remote = some r)
    (hr : st.remote r = some remote) (hactive : st.active (.remoteSend r) = true)
    (hconnected : remote.connected = true) (send : Send) :
    Safe T calls st s (st.flush s r server remote send) := by
  have hconn := h.conn s server hs
  have hclose := h.closes hs
  rw [hlink] at hclose
  unfold Relay.flush
  split
  · exact hclose
  cases send with
  | again => exact h.stays
  | failed => exact hclose
  | upTo count =>
    simp only
    split
    next hpart => exact (h.flushes hs hphase hlink hr hactive hconnected hpart).safe
    next hfull =>
      have hall : remote.buf.pending.take (min count remote.buf.len) ++ [] = remote.buf.pending := by
        rw [List.append_nil]
        refine List.take_of_length_le ?_
        have hlen : remote.buf.pending.length ≤ remote.buf.len := List.length_take_le ..
        omega
      cases hphase with
      | handshaking hphase => simp [hphase.remote] at hlink
      | resolving q hphase => simp [hphase.remote] at hlink
      | connecting r' remote' hphase =>
        cases hphase.link.symm.trans hlink
        cases hphase.lookup.symm.trans hr
        rw [if_pos hphase.stage]
        refine (h.established hs hphase { remote with
          buf := remote.buf.clear
          toRemote := remote.toRemote ++ remote.buf.pending.take (min count remote.buf.len) } ?_ ?_ ?_ ?_).safe
        · rfl
        · exact hconnected
        · exact hphase.up.sends hall
        · rfl
      | streaming r' remote' hphase =>
        cases hphase.link.symm.trans hlink
        cases hphase.lookup.symm.trans hr
        have hup := hphase.up
        rw [hactive, if_pos rfl] at hup
        rw [if_neg (not_not_intro hphase.stage)]
        refine (h.drained hs hphase ?_ ?_ ?_).safe
        · rfl
        · exact hconnected
        · exact hup.sends hall

/-- `getpeername` has found the remote. -/
theorem Sound.connected (h : Sound T calls st) (hs : st.server s = some server)
    (hphase : Connecting calls st s server r remote) (hlen : 0 < remote.buf.len) :
    Moves T calls st s (st.setRemote r { remote with connected := true }) := by
  have hconn := h.conn s server hs
  refine h.settle hs hphase.link hphase.query hphase.link hphase.query (touches_setRemote r _) hs rfl rfl rfl
    ⟨hconn.timer, hconn.decrypted, hconn.encrypted, .connecting r { remote with connected := true } ?_⟩
  exact { hphase with
    lookup := Function.update_self ..
    back := hphase.back
    up := hphase.up
    waiting := fun _ => hlen }

theorem Sound.remoteSendCb (h : Sound T calls st) (hactive : st.active (.remoteSend r) = true)
    (hown : ∀ i, (st.remote r).bind RemoteT.server = some i → i = s) (peer : Bool) (send : Send) :
    Safe T calls st s (st.remoteSendCb r peer send) := by
  obtain ⟨remote, hr⟩ := Option.isSome_iff_exists.mp (h.watched _ hactive)
  obtain ⟨i, server, hback, hs, hlink⟩ := h.owned r remote hr
  obtain rfl : s = i := (hown i (by simp [hr, hback])).symm
  have hconn := h.conn s server hs
  have hclose := h.closes hs
  rw [hlink] at hclose
  simp only [Relay.remoteSendCb, hr, hback, hs, Option.bind_some]
  split
  next hconnected => exact h.flush hs hconn.phase hlink hr hactive hconnected send
  next hfirst =>
    cases hconn.phase with
    | handshaking hphase => simp [hphase.remote] at hlink
    | resolving q hphase => simp [hphase.remote] at hlink
    | streaming r' remote' hphase =>
      cases hphase.link.symm.trans hlink
      cases hphase.lookup.symm.trans hr
      exact absurd hphase.connected hfirst
    | connecting r' remote' hphase =>
      cases hphase.link.symm.trans hlink
      cases hphase.lookup.symm.trans hr
      split
      · split
        next hempty =>
          have hpending : remote.buf.pending = [] := by simp [IoBuffer.pending, hempty]
          refine (h.established hs hphase { remote with connected := true } ?_ ?_ ?_ ?_).safe
          · rfl
          · rfl
          · rw [← hpending]
            exact hphase.up
          · rw [hback]
        next hlen =>
          have hmoves := h.connected hs hphase (Nat.pos_of_ne_zero hlen)
          rw [hback] at hmoves
          have hphase' := (hmoves.sound.conn s server hs).phase
          refine hmoves.then (hmoves.sound.flush hs hphase' hlink (Function.update_self ..) hactive ?_ send)
          rfl
      · exact hclose

end

-- ---------------------------------------------------------------------------
-- `resolv_cb` and `resolv_free_cb`
-- ---------------------------------------------------------------------------

section
variable {q : Nat}

/-- The query is no longer asked, and freed. -/
@[simps] def forget (st : Relay κ γ) (q : Nat) : Relay κ γ :=
  { st with query := Function.update st.query q none, resolving := st.resolving.erase q }

theorem Sound.resolving_forget (h : Sound T calls st) :
    (st.forget q).resolving.Nodup ∧ ∀ j, j ∈ (st.forget q).resolving ↔ ((st.forget q).query j).isSome := by
  refine ⟨h.resolving.1.erase q, fun j => ?_⟩
  rw [forget_resolving, h.resolving.1.mem_erase_iff, h.resolving.2 j]
  rcases eq_or_ne j q with rfl | hj
  · simp
  · simp [hj]

/-- The client has gone away in the meantime. -/
theorem Sound.forgets (h : Sound T calls st) (hq : st.query q = some none) (s : Nat) :
    Moves T calls st s (st.forget q) := by
  have hne {i j : Nat} {server : ServerT κ} (hs : st.server i = some server) (hj : server.query = some j) :
      j ≠ q := by
    rintro rfl
    simp [(h.conn i server hs).phase.asked hj] at hq
  have ht (i : Nat) : st.Touches C (st.forget q) i none (some q) :=
    ⟨fun _ _ => rfl, fun _ _ => rfl, fun j hj => by simp [ne_of_apply_ne some hj], fun _ _ => rfl, .refl _⟩
  refine ⟨⟨h.filter, fun i server hs => ?_, h.owned, fun j i hj => ?_, fun w hw => ?_, h.resolving_forget, h.connections⟩,
    fun i _ => ⟨rfl, fun _ _ _ _ => rfl, fun server j hs hj => ?_, fun _ _ _ _ => rfl⟩⟩
  · exact (h.conn i server hs).frame h.filter (ht (i + 1)) i.lt_succ_self.ne nofun
      fun j hj => (Option.some_injective _).ne (hne hs hj)
  · have hjq : j ≠ q := by
      rintro rfl
      simp at hj
    exact h.asked j i (by simpa [hjq] using hj)
  · have hwatched := h.watched w hw
    cases w <;> exact hwatched
  · simp [hne hs hj]

theorem Sound.answered (h : Sound T calls st) (hactive : q ∈ st.resolving)
    (hown : ∀ i, (st.query q).join = some i → i = s) (found : Bool) (connect : Connect)
    (hconnect : connect.fresh st.remote = true) :
    Safe T calls st s (st.answered q found connect) := by
  obtain ⟨owner, hq⟩ := Option.isSome_iff_exists.mp ((h.resolving.2 q).mp hactive)
  cases owner with
  | none =>
    simp only [Relay.answered, resolvCb, hq, Option.bind_some, resolvFreeCb]
    exact (h.forgets hq s).safe
  | some i =>
    obtain rfl : s = i := (hown i (by simp [hq])).symm
    obtain ⟨server, hs, hquery⟩ := h.asked q s hq
    have hconn := h.conn s server hs
    have hlinked := hconn.phase.linked hs
    have hidle (w : Watcher) (hw : ¬ st.Watches w) : st.active w = false :=
      Bool.eq_false_iff.mpr fun hactive => hw (h.watched w hactive)
    cases hconn.phase with
    | handshaking hphase => simp [hphase.query] at hquery
    | connecting r remote hphase => simp [hphase.query] at hquery
    | streaming r remote hphase => simp [hphase.query] at hquery
    | resolving q' hphase =>
      cases hphase.query.symm.trans hquery
      let st₀ : Relay κ γ := { st with resolving := st.resolving.erase q }
      have hclosed : Safe T calls st s ((st₀.closeAndFreeServer s).bind fun st => st.resolvFreeCb q) := by
        have hclose : st₀.closeAndFreeServer s = some (st₀.closed s server) :=
          Linked.closeAndFreeServer ⟨hs, hlinked.remote, hlinked.query⟩ hphase.remote
        obtain ⟨st', hst', hmoves⟩ := h.closes hs
        cases hlinked.closeBoth.symm.trans hst'
        rw [hclose, Option.bind_some, resolvFreeCb, closed_query, if_pos hquery.symm]
        exact hmoves.then (hmoves.sound.forgets (by simp [hquery]) s).safe
      simp only [Relay.answered, resolvCb, hq, Option.bind_some]
      split
      · simp only [hs, Option.bind_some]
        cases connect with
        | null => exact hclosed
        | remote r sent =>
          have hr : st.remote r = none := by simpa [Connect.fresh] using hconnect
          obtain ⟨buf, remote, hattach, hback, hconnected, hsplit⟩ :=
            attach_eq st₀ s server hphase.idx r sent
          simp only
          rw [hattach]
          let attached : ServerT κ := { server with remote := some r, buf }
          let st' : Relay κ γ := (((st.forget q).setRemote r remote).setServer s attached).setServer s
            { attached with query := none }
          have hfree : (((st₀.setRemote r remote).setServer s attached).start (.remoteSend r)).resolvFreeCb q =
              some (st'.start (.remoteSend r)) := by
            simp [resolvFreeCb, st₀, hq]
            rfl
          rw [Option.bind_some, hfree]
          have ht : st.Touches C (st'.start (.remoteSend r)) s (some r) (some q) := by
            have hforget : st.Touches C (st.forget q) s (some r) (some q) :=
              ⟨fun _ _ => rfl, fun _ _ => rfl, fun j hj => by simp [ne_of_apply_ne some hj], fun _ _ => rfl, .refl _⟩
            exact (((hforget.trans (touches_setRemote r _)).trans (touches_setServer _)).trans
              (touches_setServer _)).trans (touches_start (w := .remoteSend r) (by simp [Watcher.belongs]))
          refine (h.connects hs hphase.remote hphase.query hr ht (Function.update_self ..)
            (Function.update_self ..) ?_ ?_ hconn.decrypted hconn.encrypted ?_ h.resolving_forget rfl).safe
          · exact {
              link := rfl
              lookup := Function.update_self ..
              back := hback
              query := rfl
              stage := hphase.stage.trans_ne (by decide)
              recv := by simpa [st'] using hphase.recv
              send := by simpa [st'] using hphase.send
              remoteRecv := by simpa [st'] using hidle (.remoteRecv r) (by simp [Watches, hr])
              remoteSend := by simp
              up := by
                have hup := hphase.up
                rw [← hsplit] at hup
                exact hup.sends rfl
              waiting := by simp [hconnected]
              sealed := hphase.sealed
              toClient := hphase.toClient }
          · simp [st']
          · intro j hj
            cases hj
            simp [st']
      · exact hclosed

end

end Relay
end SmartSocks.Ssserver.TcpRelay
