import SmartSocks.Sslocal.SelectorRuns

/-!
# The two streams of one connection

`Relay` is what the bytes of one pair are: what each channel was read for and
has accepted, the cipher object and the leftover. `Flowing` relates them while
the pair is connected: what a channel has accepted is a prefix of the stream it
should get, it is all of it when its brother may be read, and what is missing is
in the leftover when it waits for `OP_WRITE`.

A run keeps this unless the handshake is cut short, a remote tunnel takes up a
leftover (which it would encrypt again), or a local one leaves some of it behind
(which it would drop).
-/

namespace SmartSocks.Tunnel

open Jvm Crypto

variable {β σ : Type}

structure Relay (β σ : Type) where
  localReceived : List β
  localSent : List β
  remoteReceived : List β
  remoteSent : List β
  socks5 : Socks5 β σ
  leftover : ByteBuffer β

/-- The first pair of the thread. -/
def Tunnels.relay (t : Tunnels β σ) : Relay β σ where
  localReceived := (t.mSocketChannel ⟨0, .roleLocal⟩).received
  localSent := (t.mSocketChannel ⟨0, .roleLocal⟩).sent
  remoteReceived := (t.mSocketChannel ⟨0, .roleRemote⟩).received
  remoteSent := (t.mSocketChannel ⟨0, .roleRemote⟩).sent
  socks5 := t.socks5 0
  leftover := t.mWriteRemainingBuffer

namespace Relay

/-- The decryption of what a remote channel was read for. -/
def plaintext (C : StreamCipher β σ) (received : List β) : List β :=
  C.decrypting.output (C.init (received.take getIVLength)) (received.drop getIVLength)

/-- What the client has sent, behind the header. -/
def request (own : Byte → β) (v : Relay β σ) : List β :=
  (Socks5Protocol.header v.socks5.mDestAddress).map own ++ v.localReceived

/-- What a remote channel should get. -/
def ciphertext (C : StreamCipher β σ) (own : Byte → β) (v : Relay β σ) (iv : IV Byte) : List β :=
  iv.val.map own ++ C.encrypting.output (C.init (iv.val.map own)) (request own v)

section
variable (C : StreamCipher β σ) (own : Byte → β)

/-- Neither stream has a wrong byte. -/
structure Intact (v : Relay β σ) (iv : IV Byte) : Prop where
  up : v.remoteSent <+: ciphertext C own v iv
  down : v.localSent <+: plaintext C v.remoteReceived

/-- Before the handshake. -/
structure Idle (v : Relay β σ) : Prop where
  localReceived : v.localReceived = []
  localSent : v.localSent = []
  remoteReceived : v.remoteReceived = []
  remoteSent : v.remoteSent = []
  decryptIVSet : v.socks5.mCryptor.decryptIVSet = false
  position : v.leftover.position = 0

/-- After the handshake; `waits` says what the two tunnels wait for. -/
structure Flowing (v : Relay β σ) (waits : TunnelRole → Op → Prop) (iv : IV Byte) : Prop where
  encCipher : v.socks5.mCryptor.encCipher =
    some (C.encrypting.next (C.init (iv.val.map own)) (request own v))
  up : v.remoteSent <+: ciphertext C own v iv
  upWhole : waits .roleLocal .opRead → v.remoteSent = ciphertext C own v iv
  fresh : v.socks5.mCryptor.decryptIVSet = false → v.remoteReceived = []
  decCipher : v.socks5.mCryptor.decryptIVSet = true → getIVLength ≤ v.remoteReceived.length ∧
    v.socks5.mCryptor.decCipher = some (C.decrypting.next
      (C.init (v.remoteReceived.take getIVLength)) (v.remoteReceived.drop getIVLength))
  down : v.localSent <+: plaintext C v.remoteReceived
  downWhole : v.socks5.mTunnelEstablished = true → waits .roleRemote .opRead →
    v.localSent = plaintext C v.remoteReceived
  downRest : waits .roleLocal .opWrite →
    v.localSent ++ v.leftover.left <+: plaintext C v.remoteReceived
  position : waits .roleRemote .opRead → v.leftover.position = 0
  apart : waits .roleRemote .opRead → ¬ waits .roleLocal .opWrite

/-- The invariant of the pair, with the IVs that may have been drawn. -/
structure Streams (drawn : IV Byte → Prop) (v : Relay β σ) (waits : TunnelRole → Op → Prop) : Prop where
  idle : v.socks5.mCryptor.encryptIVSet = false → Idle v
  flowing : v.socks5.mCryptor.encryptIVSet = true → ∃ iv, drawn iv ∧ Flowing C own v waits iv

/-- Nothing was sent yet, or nothing wrong. -/
def Sound (drawn : IV Byte → Prop) (v : Relay β σ) : Prop :=
  v.remoteSent = [] ∧ v.localSent = [] ∨ ∃ iv, drawn iv ∧ Intact C own v iv

end

section
variable {C : StreamCipher β σ} {own : Byte → β} {v v' : Relay β σ} {iv : IV Byte}
  {waits w : TunnelRole → Op → Prop}

@[simp] theorem plaintext_nil : plaintext C [] = [] := rfl

theorem plaintext_short {received : List β} (h : received.length ≤ getIVLength) :
    plaintext C received = [] := by
  rw [plaintext, List.drop_of_length_le h]
  rfl

theorem plaintext_append {received : List β} (h : getIVLength ≤ received.length) (bytes : List β) :
    plaintext C (received ++ bytes) = plaintext C received ++
      C.decrypting.output (C.decrypting.next (C.init (received.take getIVLength))
        (received.drop getIVLength)) bytes := by
  rw [plaintext, List.take_append_of_le_length h, List.drop_append_of_le_length h,
    C.decrypting.output_append, plaintext]

/-- More bytes only extend what was decrypted. -/
theorem plaintext_of_received (received bytes : List β) :
    plaintext C received <+: plaintext C (received ++ bytes) := by
  rcases Nat.le_total getIVLength received.length with h | h
  · rw [plaintext_append h]
    exact List.prefix_append _ _
  · rw [plaintext_short h]
    exact List.nil_prefix

theorem Flowing.mono (h : Flowing C own v waits iv) (hw : ∀ role ops, w role ops → waits role ops) :
    Flowing C own v w iv where
  encCipher := h.encCipher
  up := h.up
  upWhole hl := h.upWhole (hw _ _ hl)
  fresh := h.fresh
  decCipher := h.decCipher
  down := h.down
  downWhole he hr := h.downWhole he (hw _ _ hr)
  downRest hl := h.downRest (hw _ _ hl)
  position hr := h.position (hw _ _ hr)
  apart hr hl := h.apart (hw _ _ hr) (hw _ _ hl)

theorem Flowing.intact (h : Flowing C own v waits iv) : Intact C own v iv := ⟨h.up, h.down⟩

theorem Streams.mono {drawn : IV Byte → Prop} (h : Streams C own drawn v waits)
    (hw : ∀ role ops, w role ops → waits role ops) : Streams C own drawn v w :=
  ⟨h.idle, fun hg => (h.flowing hg).imp fun _ hf => hf.imp_right fun hf => hf.mono hw⟩

-- ---------------------------------------------------------------------------
-- The moves of a pair
-- ---------------------------------------------------------------------------

/-- A chunk of the client was encrypted, and `k` bytes of it have gone. -/
def readLocal (C : StreamCipher β σ) (v : Relay β σ) (s : σ) (bytes : List β) (k : Nat)
    (leftover : ByteBuffer β) : Relay β σ :=
  { v with
    localReceived := v.localReceived ++ bytes
    remoteSent := v.remoteSent ++ (C.encrypting.output s bytes).take k
    socks5 := { v.socks5 with mCryptor := encrypted C v.socks5.mCryptor s bytes }
    leftover := leftover }

theorem Flowing.readLocal (h : Flowing C own v waits iv) (hwaits : waits .roleLocal .opRead) {s : σ}
    (hs : v.socks5.mCryptor.encCipher = some s) {bytes : List β} {k : Nat} {leftover : ByteBuffer β}
    (hle : ∀ role ops, w role ops → waits role ops ∨ role = .roleRemote ∧ ops = .opWrite)
    (hwhole : w .roleLocal .opRead → bytes.length ≤ k)
    (hleftover : leftover = v.leftover ∨ leftover.position = 0 ∧ ¬ w .roleLocal .opWrite) :
    Flowing C own (v.readLocal C s bytes k leftover) w iv := by
  have hstate : C.encrypting.next (C.init (iv.val.map own)) (v.request own) = s :=
    Option.some.inj (h.encCipher.symm.trans hs)
  have hrequest : request own (v.readLocal C s bytes k leftover) = v.request own ++ bytes :=
    (List.append_assoc _ _ _).symm
  have hcipher : ciphertext C own (v.readLocal C s bytes k leftover) iv =
      v.ciphertext C own iv ++ C.encrypting.output s bytes := by
    rw [ciphertext, hrequest, C.encrypting.output_append, hstate, ciphertext, List.append_assoc]
  have hsent : (v.readLocal C s bytes k leftover).remoteSent =
      v.ciphertext C own iv ++ (C.encrypting.output s bytes).take k := by
    rw [← h.upWhole hwaits]
    rfl
  have hread (hr : w .roleRemote .opRead) : waits .roleRemote .opRead := by
    rcases hle _ _ hr with hr | ⟨-, hops⟩
    · exact hr
    · cases hops
  have hwrite (hl : w .roleLocal .opWrite) : waits .roleLocal .opWrite := by
    rcases hle _ _ hl with hl | ⟨hrole, -⟩
    · exact hl
    · cases hrole
  refine ⟨?_, ?_, ?_, h.fresh, h.decCipher, h.down, fun he hr => h.downWhole he (hread hr), ?_, ?_,
    fun hr hl => h.apart (hread hr) (hwrite hl)⟩
  · rw [hrequest, C.encrypting.next_append, hstate]
    rfl
  · rw [hsent, hcipher]
    exact (List.prefix_append_right_inj _).mpr (List.take_prefix _ _)
  · intro hl
    rw [hsent, hcipher, List.take_of_length_le]
    rw [C.encrypting.length_output]
    exact hwhole hl
  · intro hl
    rcases hleftover with rfl | ⟨-, hnot⟩
    · exact h.downRest (hwrite hl)
    · exact absurd hl hnot
  · intro hr
    rcases hleftover with rfl | ⟨hzero, -⟩
    · exact h.position (hread hr)
    · exact hzero

/-- A chunk of the server was decrypted to `out`, and `k` bytes of it have gone. -/
def readRemote (v : Relay β σ) (bytes out : List β) (c : CryptBase β σ) (established : Bool) (k : Nat)
    (leftover : ByteBuffer β) : Relay β σ :=
  { v with
    remoteReceived := v.remoteReceived ++ bytes
    localSent := v.localSent ++ out.take k
    socks5 := { v.socks5 with mTunnelEstablished := established, mCryptor := c }
    leftover := leftover }

variable [Inhabited β]

/-- What comes out of the decryption is what the plaintext grows by. -/
theorem Flowing.decrypted (h : Flowing C own v waits iv) {bytes out : List β} {c : CryptBase β σ}
    (hc : CryptBase.Decrypted C bytes v.socks5.mCryptor (.ok out) c) :
    plaintext C (v.remoteReceived ++ bytes) = plaintext C v.remoteReceived ++ out ∧
      c.encCipher = v.socks5.mCryptor.encCipher ∧ c.decryptIVSet = true ∧
      getIVLength ≤ (v.remoteReceived ++ bytes).length ∧
      c.decCipher = some (C.decrypting.next (C.init ((v.remoteReceived ++ bytes).take getIVLength))
        ((v.remoteReceived ++ bytes).drop getIVLength)) := by
  cases hc with
  | first hset hlong =>
    rw [h.fresh hset]
    exact ⟨rfl, rfl, rfl, hlong, rfl⟩
  | next hset s hs =>
    obtain ⟨hlong, hcipher⟩ := h.decCipher hset
    obtain rfl := Option.some.inj (hs.symm.trans hcipher)
    refine ⟨plaintext_append hlong bytes, rfl, hset, ?_, ?_⟩
    · rw [List.length_append]
      exact Nat.le_add_right_of_le hlong
    · rw [List.take_append_of_le_length hlong, List.drop_append_of_le_length hlong,
        C.decrypting.next_append]

theorem Flowing.readRemote (h : Flowing C own v waits iv) (hwaits : waits .roleRemote .opRead)
    {bytes out : List β} {c : CryptBase β σ} {established : Bool} {k : Nat} {leftover : ByteBuffer β}
    (hc : CryptBase.Decrypted C bytes v.socks5.mCryptor (.ok out) c)
    (hle : ∀ role ops, w role ops → waits role ops ∨ role = .roleLocal ∧ ops = .opWrite)
    (hsent : out.take k ≠ [] → v.socks5.mTunnelEstablished = true)
    (hwhole : established = true → w .roleRemote .opRead →
      v.socks5.mTunnelEstablished = true ∧ out.length ≤ k)
    (hrest : w .roleLocal .opWrite → v.socks5.mTunnelEstablished = true ∧
      leftover.left = out.drop k)
    (hposition : w .roleRemote .opRead → leftover = v.leftover ∧ ¬ w .roleLocal .opWrite) :
    Flowing C own (v.readRemote bytes out c established k leftover) w iv := by
  obtain ⟨hplain, henc, hset, hlong, hdec⟩ := h.decrypted hc
  have hread (hr : w .roleRemote .opRead) : waits .roleRemote .opRead := by
    rcases hle _ _ hr with hr | ⟨hr, -⟩
    · exact hr
    · cases hr
  refine ⟨henc.trans h.encCipher, h.up, ?_, ?_, fun _ => ⟨hlong, hdec⟩, ?_, ?_, ?_, ?_, ?_⟩
  · intro hl
    rcases hle _ _ hl with hl | ⟨-, hops⟩
    · exact h.upWhole hl
    · cases hops
  · intro hnot
    rw [show (v.readRemote bytes out c established k leftover).socks5.mCryptor.decryptIVSet = true
      from hset] at hnot
    cases hnot
  · show v.localSent ++ out.take k <+: plaintext C (v.remoteReceived ++ bytes)
    by_cases hnil : out.take k = []
    · rw [hnil, List.append_nil]
      exact h.down.trans (plaintext_of_received _ _)
    · rw [h.downWhole (hsent hnil) hwaits, hplain]
      exact (List.prefix_append_right_inj _).mpr (List.take_prefix _ _)
  · intro he hr
    obtain ⟨hestablished, hk⟩ := hwhole he hr
    show v.localSent ++ out.take k = plaintext C (v.remoteReceived ++ bytes)
    rw [h.downWhole hestablished hwaits, hplain, List.take_of_length_le hk]
  · intro hl
    obtain ⟨hestablished, hleft⟩ := hrest hl
    have hwritten : v.localSent ++ out.take k ++ leftover.left = plaintext C (v.remoteReceived ++ bytes) := by
      rw [h.downWhole hestablished hwaits, hplain, hleft, List.append_assoc, List.take_append_drop]
    exact hwritten ▸ List.prefix_refl _
  · intro hr
    rw [show (v.readRemote bytes out c established k leftover).leftover = v.leftover
      from (hposition hr).1]
    exact h.position (hread hr)
  · exact fun hr => (hposition hr).2

/-- A local tunnel has written `k` bytes of the leftover. -/
def writeLocal (v : Relay β σ) (k : Nat) : Relay β σ :=
  { v with
    localSent := v.localSent ++ v.leftover.left.take k
    leftover := v.leftover.advance k }

omit [Inhabited β] in
theorem Flowing.writeLocal (h : Flowing C own v waits iv) (hwaits : waits .roleLocal .opWrite) {k : Nat}
    (hk : k ≤ v.leftover.remaining) (hle : ∀ role ops, w role ops → waits role ops) :
    Flowing C own (v.writeLocal k) w iv := by
  have hrest : (v.writeLocal k).localSent ++ (v.writeLocal k).leftover.left =
      v.localSent ++ v.leftover.left := by
    show v.localSent ++ v.leftover.left.take k ++ (v.leftover.advance k).left = _
    rw [v.leftover.advance_left hk, List.append_assoc, List.take_append_drop]
  have hread (hr : w .roleRemote .opRead) : False := h.apart (hle _ _ hr) hwaits
  refine ⟨h.encCipher, h.up, fun hl => h.upWhole (hle _ _ hl), h.fresh, h.decCipher, ?_,
    fun _ hr => (hread hr).elim, fun _ => ?_, fun hr => (hread hr).elim, fun hr => (hread hr).elim⟩
  · refine List.IsPrefix.trans ?_ (h.downRest hwaits)
    rw [← hrest]
    exact List.prefix_append _ _
  · rw [hrest]
    exact h.downRest hwaits

/-- The remote channel has accepted `bytes` of the handshake. -/
def greet (v : Relay β σ) (c : CryptBase β σ) (bytes : List β) : Relay β σ :=
  { v with
    remoteSent := v.remoteSent ++ bytes
    socks5 := { v.socks5 with mTunnelEstablished := true, mCryptor := c } }

omit [Inhabited β] in
/-- A handshake that was accepted whole. -/
theorem Idle.greet (h : Idle v) (own : Byte → β) (iv : IV Byte) {c : CryptBase β σ}
    (hc : c.encCipher = some (C.encrypting.next (C.init (iv.val.map own))
      ((Socks5Protocol.header v.socks5.mDestAddress).map own)))
    (hset : c.decryptIVSet = v.socks5.mCryptor.decryptIVSet) (hnot : ¬ w .roleLocal .opWrite) :
    Flowing C own (v.greet c (iv.val.map own ++ C.encrypting.output (C.init (iv.val.map own))
      ((Socks5Protocol.header v.socks5.mDestAddress).map own))) w iv := by
  have hrequest (bytes : List β) : request own (v.greet c bytes) =
      (Socks5Protocol.header v.socks5.mDestAddress).map own := by
    show (Socks5Protocol.header v.socks5.mDestAddress).map own ++ v.localReceived = _
    rw [h.localReceived, List.append_nil]
  have hsent (bytes : List β) : (v.greet c bytes).remoteSent = bytes := by
    show v.remoteSent ++ bytes = bytes
    rw [h.remoteSent, List.nil_append]
  have hwhole (bytes : List β) : ciphertext C own (v.greet c bytes) iv = iv.val.map own ++
      C.encrypting.output (C.init (iv.val.map own)) ((Socks5Protocol.header v.socks5.mDestAddress).map own) := by
    rw [ciphertext, hrequest]
  refine ⟨?_, ?_, fun _ => ?_, fun _ => h.remoteReceived, fun hdec => ?_, ?_, fun _ _ => ?_,
    fun hw => absurd hw hnot, fun _ => h.position, fun _ => hnot⟩
  · rw [hrequest]
    exact hc
  · exact (hsent _).trans (hwhole _).symm ▸ List.prefix_refl _
  · exact (hsent _).trans (hwhole _).symm
  · cases h.decryptIVSet.symm.trans (hset.symm.trans hdec)
  · show v.localSent <+: _
    rw [h.localSent]
    exact List.nil_prefix
  · show v.localSent = plaintext C v.remoteReceived
    rw [h.localSent, h.remoteReceived]
    rfl

omit [Inhabited β] in
/-- A tunnel that is disposed of passes nothing on. -/
theorem Flowing.disposed (h : Flowing C own v waits iv) :
    Flowing C own { v with socks5 := { v.socks5 with mTunnelEstablished := false } } waits iv :=
  ⟨h.encCipher, h.up, h.upWhole, h.fresh, h.decCipher, h.down, (by rintro ⟨⟩), h.downRest, h.position,
    h.apart⟩

end

end Relay

-- ---------------------------------------------------------------------------
-- The pair after an update
-- ---------------------------------------------------------------------------

namespace Tunnels

section
variable (t : Tunnels β σ)

/-- The keys do not show in what was read and accepted. -/
theorem relay_setChannel {id : TunnelId} {c : SocketChannel β}
    (hreceived : c.received = (t.mSocketChannel id).received)
    (hsent : c.sent = (t.mSocketChannel id).sent) : (t.setChannel id c).relay = t.relay := by
  have hsame (id' : TunnelId) :
      ((t.setChannel id c).mSocketChannel id').received = (t.mSocketChannel id').received ∧
        ((t.setChannel id c).mSocketChannel id').sent = (t.mSocketChannel id').sent := by
    by_cases h : id' = id
    · subst h
      rw [channel_setChannel]
      exact ⟨hreceived, hsent⟩
    · rw [t.channel_setChannel_ne id h]
      exact ⟨rfl, rfl⟩
  simp only [relay, hsame, socks5_setChannel]
  rfl

theorem relay_setKey (id : TunnelId) (key : Option SelectionKey) :
    (t.setKey id key).relay = t.relay := t.relay_setChannel rfl rfl

theorem relay_cancel (id : TunnelId) : (t.cancel id).relay = t.relay := t.relay_setKey id _

theorem relay_close (id : TunnelId) : (t.close id).relay = t.relay := by
  refine Eq.trans ?_ (t.relay_cancel id)
  exact (t.cancel id).relay_setChannel (c := { (t.cancel id).mSocketChannel id with isOpen := false })
    rfl rfl

theorem relay_send_local (bytes : List β) :
    (t.send ⟨0, .roleLocal⟩ bytes).relay =
      { t.relay with localSent := t.relay.localSent ++ bytes } := by
  simp [relay, send, setChannel]

theorem relay_send_remote (bytes : List β) :
    (t.send ⟨0, .roleRemote⟩ bytes).relay =
      { t.relay with remoteSent := t.relay.remoteSent ++ bytes } := by
  simp [relay, send, setChannel]

theorem relay_setSocks5 (r : Socks5 β σ) : (t.setSocks5 0 r).relay = { t.relay with socks5 := r } := by
  simp only [relay, channel_setSocks5, socks5_setSocks5]
  rfl

theorem relay_dispose_remote :
    (t.dispose ⟨0, .roleRemote⟩).relay =
      { t.relay with socks5 := { t.relay.socks5 with mTunnelEstablished := false } } :=
  t.relay_setSocks5 _

theorem relay_afterRead_local (b : ByteBuffer β) (bytes : List β) (c : CryptBase β σ) :
    (t.afterRead b ⟨0, .roleLocal⟩ bytes c).relay = { t.relay with
      localReceived := t.relay.localReceived ++ bytes
      socks5 := { t.relay.socks5 with mCryptor := c } } := by
  refine (({ t with mChannelBuffer := b }.receive ⟨0, .roleLocal⟩ bytes).relay_setSocks5 _).trans ?_
  simp [relay, receive, setChannel]

theorem relay_afterRead_remote (b : ByteBuffer β) (bytes : List β) (c : CryptBase β σ) :
    (t.afterRead b ⟨0, .roleRemote⟩ bytes c).relay = { t.relay with
      remoteReceived := t.relay.remoteReceived ++ bytes
      socks5 := { t.relay.socks5 with mCryptor := c } } := by
  refine (({ t with mChannelBuffer := b }.receive ⟨0, .roleRemote⟩ bytes).relay_setSocks5 _).trans ?_
  simp [relay, receive, setChannel]

theorem relay_establish (c : CryptBase β σ) (bytes : List β) :
    (t.establish ⟨0, .roleRemote⟩ c bytes).relay = { t.relay with
      remoteSent := t.relay.remoteSent ++ bytes
      socks5 := { t.relay.socks5 with mTunnelEstablished := true, mCryptor := c } } := by
  have hlocal : (t.establish ⟨0, .roleRemote⟩ c bytes).mSocketChannel ⟨0, .roleLocal⟩ = _ :=
    t.channel_establish_brother ⟨0, .roleRemote⟩ c bytes
  have hsocks5 : (t.establish ⟨0, .roleRemote⟩ c bytes).socks5 0 = _ :=
    t.socks5_establish ⟨0, .roleRemote⟩ c bytes
  simp only [relay, hlocal, hsocks5, channel_establish]
  rfl

end

end Tunnels

end SmartSocks.Tunnel

namespace SmartSocks.Sslocal

open Jvm Crypto Tunnel SelectorThread

variable {β σ : Type}

-- ---------------------------------------------------------------------------
-- What a handler does to the pair
-- ---------------------------------------------------------------------------

/-- What the tunnels of the first pair wait for. -/
def waits (t : Tunnels β σ) (keys : List Selected) (mRole : TunnelRole) (ops : Op) : Prop :=
  Awaits t keys ⟨0, mRole⟩ ops

section
variable {C : StreamCipher β σ} {own : Byte → β} {iv : IV Byte} {t u : Tunnels β σ}
  {all keys : List Selected} {calls : Calls} {b : ByteBuffer β} {bytes out : List β}
  {r : Except Throwable Unit}

/-- The streams are right after a handler, and stay so when it has returned. -/
def Carried (C : StreamCipher β σ) (own : Byte → β) (iv : IV Byte) (keys : List Selected)
    (r : Except Throwable Unit) (u : Tunnels β σ) : Prop :=
  Relay.Intact C own u.relay iv ∧ (r = .ok () → Relay.Flowing C own u.relay (waits u keys) iv)

section
variable {s : σ} {k : Nat} {leftover : ByteBuffer β}

/-- What is thrown leaves nobody waiting. -/
theorem carried_local_thrown (h : Relay.Flowing C own t.relay (waits t all) iv)
    (hwaits : waits t all .roleLocal .opRead) (hs : t.relay.socks5.mCryptor.encCipher = some s)
    (hrelay : u.relay = t.relay.readLocal C s bytes k leftover)
    (hleft : leftover = t.relay.leftover ∨ leftover.position = 0) (e : Throwable) :
    Carried C own iv keys (.error e) u := by
  refine ⟨?_, by rintro ⟨⟩⟩
  rw [hrelay]
  refine (h.readLocal (w := fun _ _ => False) hwaits hs (fun _ _ => False.elim) False.elim ?_).intact
  exact hleft.imp_right fun hzero => ⟨hzero, id⟩

theorem carried_local (h : Relay.Flowing C own t.relay (waits t all) iv)
    (hwaits : waits t all .roleLocal .opRead) (hs : t.relay.socks5.mCryptor.encCipher = some s)
    (hrelay : u.relay = t.relay.readLocal C s bytes k leftover)
    (hle : ∀ id ops, Awaits u keys id ops →
      Awaits t all id ops ∨ id = ⟨0, .roleRemote⟩ ∧ ops = .opWrite)
    (hwhole : waits u keys .roleLocal .opRead → bytes.length ≤ k)
    (hleft : leftover = t.relay.leftover ∨
      leftover.position = 0 ∧ ¬ waits u keys .roleLocal .opWrite) :
    Carried C own iv keys (.ok ()) u := by
  have hflowing := h.readLocal (w := waits u keys) hwaits hs (fun role ops hw => ?_) hwhole hleft
  · rw [← hrelay] at hflowing
    exact ⟨hflowing.intact, fun _ => hflowing⟩
  · rcases hle _ _ hw with hw | ⟨hid, hops⟩
    · exact .inl hw
    · exact .inr ⟨congrArg TunnelId.mRole hid, hops⟩

/-- A chunk of the client is passed on. -/
theorem carried_relayed_local (h : Relay.Flowing C own t.relay (waits t all) iv)
    (hwaits : waits t all .roleLocal .opRead) (hs : t.relay.socks5.mCryptor.encCipher = some s)
    (hsub : ∀ k ∈ keys, k ∈ all)
    (hregistered : ∀ id ops, .tunnel id ops ∈ keys → (t.mSocketChannel id).key ≠ none)
    (hrelayed : Relayed calls ⟨0, .roleLocal⟩ (t.afterRead b ⟨0, .roleLocal⟩ bytes
      (encrypted C t.relay.socks5.mCryptor s bytes)) (C.encrypting.output s bytes) r u) :
    Carried C own iv keys r u := by
  have hread : ∀ id', ((t.afterRead b ⟨0, .roleLocal⟩ bytes
      (encrypted C t.relay.socks5.mCryptor s bytes)).mSocketChannel id').key =
        (t.mSocketChannel id').key := key_afterRead
  have hafter := t.relay_afterRead_local b bytes (encrypted C t.relay.socks5.mCryptor s bytes)
  generalize t.afterRead b ⟨0, .roleLocal⟩ bytes (encrypted C t.relay.socks5.mCryptor s bytes) = t'
    at hrelayed hread hafter
  have hkey (b' : ByteBuffer β) (xs : List β) (id' : TunnelId) :
      ((({ t' with mChannelBuffer := b' }).send ⟨0, .roleRemote⟩ xs).mSocketChannel id').key =
        (t.mSocketChannel id').key := (key_send _ _).trans (hread id')
  have hsend (b' : ByteBuffer β) (k : Nat) :
      (({ t' with mChannelBuffer := b' }).send ⟨0, .roleRemote⟩
        ((C.encrypting.output s bytes).take k)).relay =
          t.relay.readLocal C s bytes k t.relay.leftover := by
    refine (({ t' with mChannelBuffer := b' } : Tunnels β σ).relay_send_remote _).trans ?_
    have hsame : ({ t' with mChannelBuffer := b' } : Tunnels β σ).relay = t'.relay := rfl
    rw [hsame, hafter]
    rfl
  have hscheduled (b' : ByteBuffer β) (k : Nat) (xs : List β) :
      ((({ t' with mChannelBuffer := b' }).send ⟨0, .roleRemote⟩
        ((C.encrypting.output s bytes).take k)).schedule xs).relay =
          t.relay.readLocal C s bytes k (t'.mWriteRemainingBuffer.store xs).flip :=
    congrArg (fun v : Relay β σ =>
      { v with leftover := (t'.mWriteRemainingBuffer.store xs).flip }) (hsend b' k)
  cases hrelayed with
  | failed b' hb hfailed =>
    refine carried_local h hwaits hs ((Tunnels.relay_cancel _ _).trans (hsend b' _))
      (fun id ops hw => ?_) (fun hw => ?_) (.inl rfl)
    · exact .inl ((Awaits.of_cancel hw).2.of_key (hkey b' _ _) (hsub _))
    · exact absurd rfl (Awaits.of_cancel hw).1
  | sent b' hb hwhole =>
    have hfull : (C.encrypting.output s bytes).take bytes.length = C.encrypting.output s bytes :=
      List.take_of_length_le (Nat.le_of_eq (C.encrypting.length_output s bytes))
    have hrelay := hsend b' bytes.length
    rw [hfull] at hrelay
    refine carried_local h hwaits hs hrelay (fun id ops hw => ?_) (fun _ => Nat.le_refl _) (.inl rfl)
    exact .inl (hw.of_key (hkey b' _ _) (hsub _))
  | overflow b' hb k hk hpart hroom =>
    exact carried_local_thrown h hwaits hs (hsend b' k) (.inl rfl) _
  | cancelled b' hb k hk hpart hroom hcancelled =>
    exact carried_local_thrown h hwaits hs (hscheduled b' k _) (.inr rfl) _
  | scheduled b' hb k hk hpart hroom hcancelled =>
    have hrelay := hscheduled b' k ((C.encrypting.output s bytes).drop k)
    have hnot : ¬ ((({ t' with mChannelBuffer := b' }).send ⟨0, .roleRemote⟩
        ((C.encrypting.output s bytes).take k)).schedule
          ((C.encrypting.output s bytes).drop k)).Cancelled ⟨0, .roleRemote⟩ :=
      mt (cancelled_send _ _).mp hcancelled
    refine carried_local h hwaits hs
      ((Tunnels.relay_cancel _ _).trans ((Tunnels.relay_setKey _ _ _).trans hrelay))
      (fun id ops hw => ?_) (fun hw => ?_) (.inr ⟨rfl, fun hw => ?_⟩)
    · rcases Awaits.of_setKey (Awaits.of_cancel hw).2 hnot
        (fun hmem => (hkey b' _ _).trans_ne (hregistered _ _ hmem)) with hnew | hold
      · exact .inr hnew
      · exact .inl (hold.of_key (hkey b' _ _) (hsub _))
    · exact absurd rfl (Awaits.of_cancel hw).1
    · exact absurd rfl (Awaits.of_cancel hw).1

end

variable [Inhabited β] {c : CryptBase β σ} {established : Bool} {k : Nat} {leftover : ByteBuffer β}

theorem carried_remote_thrown (h : Relay.Flowing C own t.relay (waits t all) iv)
    (hwaits : waits t all .roleRemote .opRead)
    (hc : CryptBase.Decrypted C bytes t.relay.socks5.mCryptor (.ok out) c)
    (hestablished : t.relay.socks5.mTunnelEstablished = true)
    (hrelay : u.relay = t.relay.readRemote bytes out c established k leftover) (e : Throwable) :
    Carried C own iv keys (.error e) u := by
  refine ⟨?_, by rintro ⟨⟩⟩
  rw [hrelay]
  exact (h.readRemote (w := fun _ _ => False) hwaits hc (fun _ _ => False.elim)
    (fun _ => hestablished) (fun _ => False.elim) False.elim False.elim).intact

theorem carried_remote (h : Relay.Flowing C own t.relay (waits t all) iv)
    (hwaits : waits t all .roleRemote .opRead)
    (hc : CryptBase.Decrypted C bytes t.relay.socks5.mCryptor (.ok out) c)
    (hrelay : u.relay = t.relay.readRemote bytes out c established k leftover)
    (hle : ∀ id ops, Awaits u keys id ops →
      Awaits t all id ops ∨ id = ⟨0, .roleLocal⟩ ∧ ops = .opWrite)
    (hsent : out.take k ≠ [] → t.relay.socks5.mTunnelEstablished = true)
    (hwhole : established = true → waits u keys .roleRemote .opRead →
      t.relay.socks5.mTunnelEstablished = true ∧ out.length ≤ k)
    (hrest : waits u keys .roleLocal .opWrite → t.relay.socks5.mTunnelEstablished = true ∧
      leftover.left = out.drop k)
    (hposition : waits u keys .roleRemote .opRead →
      leftover = t.relay.leftover ∧ ¬ waits u keys .roleLocal .opWrite) :
    Carried C own iv keys (.ok ()) u := by
  have hflowing := h.readRemote (w := waits u keys) hwaits hc (fun role ops hw => ?_) hsent hwhole hrest
    hposition
  · rw [← hrelay] at hflowing
    exact ⟨hflowing.intact, fun _ => hflowing⟩
  · rcases hle _ _ hw with hw | ⟨hid, hops⟩
    · exact .inl hw
    · exact .inr ⟨congrArg TunnelId.mRole hid, hops⟩

/-- A chunk of the server is passed on. -/
theorem carried_relayed_remote (h : Relay.Flowing C own t.relay (waits t all) iv)
    (hwaits : waits t all .roleRemote .opRead)
    (hc : CryptBase.Decrypted C bytes t.relay.socks5.mCryptor (.ok out) c)
    (hestablished : t.relay.socks5.mTunnelEstablished = true)
    (hsub : ∀ k ∈ keys, k ∈ all)
    (hregistered : ∀ id ops, .tunnel id ops ∈ keys → (t.mSocketChannel id).key ≠ none)
    (hrelayed : Relayed calls ⟨0, .roleRemote⟩ (t.afterRead b ⟨0, .roleRemote⟩ bytes c) out r u) :
    Carried C own iv keys r u := by
  have hread : ∀ id', ((t.afterRead b ⟨0, .roleRemote⟩ bytes c).mSocketChannel id').key =
      (t.mSocketChannel id').key := key_afterRead
  have hafter := t.relay_afterRead_remote b bytes c
  generalize t.afterRead b ⟨0, .roleRemote⟩ bytes c = t' at hrelayed hread hafter
  have hkey (b' : ByteBuffer β) (xs : List β) (id' : TunnelId) :
      ((({ t' with mChannelBuffer := b' }).send ⟨0, .roleLocal⟩ xs).mSocketChannel id').key =
        (t.mSocketChannel id').key := (key_send _ _).trans (hread id')
  have hsend (b' : ByteBuffer β) (k : Nat) :
      (({ t' with mChannelBuffer := b' }).send ⟨0, .roleLocal⟩ (out.take k)).relay =
        t.relay.readRemote bytes out c t.relay.socks5.mTunnelEstablished k t.relay.leftover := by
    refine (({ t' with mChannelBuffer := b' } : Tunnels β σ).relay_send_local _).trans ?_
    have hsame : ({ t' with mChannelBuffer := b' } : Tunnels β σ).relay = t'.relay := rfl
    rw [hsame, hafter]
    rfl
  have hbuffer : t'.mWriteRemainingBuffer = t.relay.leftover := congrArg Relay.leftover hafter
  have hscheduled (b' : ByteBuffer β) (k : Nat) (xs : List β) :
      ((({ t' with mChannelBuffer := b' }).send ⟨0, .roleLocal⟩ (out.take k)).schedule xs).relay =
        t.relay.readRemote bytes out c t.relay.socks5.mTunnelEstablished k
          (t'.mWriteRemainingBuffer.store xs).flip :=
    congrArg (fun v : Relay β σ =>
      { v with leftover := (t'.mWriteRemainingBuffer.store xs).flip }) (hsend b' k)
  cases hrelayed with
  | failed b' hb hfailed =>
    have hdisposed := (Tunnels.relay_dispose_remote _).trans (congrArg (fun v : Relay β σ =>
      { v with socks5 := { v.socks5 with mTunnelEstablished := false } })
      (hsend b' (Tunnel.accepted calls.writes out.length).1))
    have hkey' (xs : List β) (id' : TunnelId) :
        (((({ t' with mChannelBuffer := b' }).send ⟨0, .roleLocal⟩ xs).dispose
          ⟨0, .roleRemote⟩).mSocketChannel id').key = (t.mSocketChannel id').key := by
      rw [Tunnels.channel_dispose]
      exact hkey b' xs id'
    refine carried_remote h hwaits hc ((Tunnels.relay_cancel _ _).trans hdisposed)
      (fun id ops hw => ?_) (fun _ => hestablished) (by rintro ⟨⟩) (fun hw => ?_) (fun hw => ?_)
    · exact .inl ((Awaits.of_cancel hw).2.of_key (hkey' _ _) (hsub _))
    · exact (h.apart hwaits ((Awaits.of_cancel hw).2.of_key (hkey' _ _) (hsub _))).elim
    · exact absurd rfl (Awaits.of_cancel hw).1
  | sent b' hb hwhole =>
    have hrelay := hsend b' out.length
    rw [List.take_length] at hrelay
    have hold {id : TunnelId} {ops : Op} (hw : Awaits _ keys id ops) : Awaits t all id ops :=
      hw.of_key (hkey b' out id) (hsub _)
    have hnot : ¬ waits _ keys .roleLocal .opWrite := fun hw => h.apart hwaits (hold hw)
    exact carried_remote h hwaits hc hrelay (fun id ops hw => .inl (hold hw)) (fun _ => hestablished)
      (fun _ _ => ⟨hestablished, Nat.le_refl _⟩) (fun hw => absurd hw hnot) (fun _ => ⟨rfl, hnot⟩)
  | overflow b' hb k hk hpart hroom =>
    exact carried_remote_thrown h hwaits hc hestablished (hsend b' k) _
  | cancelled b' hb k hk hpart hroom hcancelled =>
    exact carried_remote_thrown h hwaits hc hestablished (hscheduled b' k _) _
  | scheduled b' hb k hk hpart hroom hcancelled =>
    have hrelay := hscheduled b' k (out.drop k)
    have hnot : ¬ ((({ t' with mChannelBuffer := b' }).send ⟨0, .roleLocal⟩ (out.take k)).schedule
        (out.drop k)).Cancelled ⟨0, .roleLocal⟩ := mt (cancelled_send _ _).mp hcancelled
    have hleft : (t'.mWriteRemainingBuffer.store (out.drop k)).flip.left = out.drop k := by
      rw [ByteBuffer.flip_left, ByteBuffer.store_drained _ (by rwa [List.length_drop]), hbuffer,
        ByteBuffer.drained, h.position hwaits]
      rfl
    refine carried_remote h hwaits hc
      ((Tunnels.relay_cancel _ _).trans ((Tunnels.relay_setKey _ _ _).trans hrelay))
      (fun id ops hw => ?_) (fun _ => hestablished) (fun _ hw => ?_) (fun _ => ⟨hestablished, hleft⟩)
      (fun hw => ?_)
    · rcases Awaits.of_setKey (Awaits.of_cancel hw).2 hnot
        (fun hmem => (hkey b' _ _).trans_ne (hregistered _ _ hmem)) with hnew | hold
      · exact .inr hnew
      · exact .inl (hold.of_key (hkey b' _ _) (hsub _))
    · exact absurd rfl (Awaits.of_cancel hw).1
    · exact absurd rfl (Awaits.of_cancel hw).1

omit [Inhabited β] in
/-- A step that only changes keys, or nothing that the pair can see. -/
theorem carried_same (h : Relay.Flowing C own t.relay (waits t all) iv) (hrelay : u.relay = t.relay)
    (hle : ∀ id ops, Awaits u keys id ops → Awaits t all id ops) : Carried C own iv keys r u := by
  have hflowing : Relay.Flowing C own u.relay (waits u keys) iv := by
    rw [hrelay]
    exact h.mono fun role ops => hle ⟨0, role⟩ ops
  exact ⟨hflowing.intact, fun _ => hflowing⟩

end

section
variable [Inhabited β] {C : StreamCipher β σ} {own : Nat → Byte → β} {iv : IV Byte} {t u : Tunnels β σ}
  {all keys : List Selected} {calls : Calls} {r : Except Throwable Unit}

theorem carried_readable_local (h : Relay.Flowing C (own 0) t.relay (waits t all) iv)
    (hwaits : waits t all .roleLocal .opRead) (hsub : ∀ k ∈ keys, k ∈ all)
    (hregistered : ∀ id ops, .tunnel id ops ∈ keys → (t.mSocketChannel id).key ≠ none)
    (hc : Connected t ⟨0, .roleLocal⟩) (hu : Readable C own t ⟨0, .roleLocal⟩ calls r u) :
    Carried C (own 0) iv keys r u := by
  cases hu with
  | nothing => exact carried_same h rfl fun id ops hw => hw.of_key rfl (hsub _)
  | ended => exact carried_same h rfl fun id ops hw => hw.of_key rfl (hsub _)
  | broken b hb chunk hread hne e c hcode => cases recode_cases hc.cipher hcode
  | kept b hb chunk hread hne out c hcode hkept =>
    cases recode_cases hc.cipher hcode with
    | encrypted s hs =>
      rcases hkept with hnot | hempty
      · cases hnot
      · rw [← List.length_eq_zero_iff, C.encrypting.length_output, List.length_map,
          List.length_eq_zero_iff] at hempty
        exact absurd hempty hne
  | relayed b hb chunk hread hne out c hcode hestablished hout hrelayed =>
    cases recode_cases hc.cipher hcode with
    | encrypted s hs => exact carried_relayed_local h hwaits hs.2 hsub hregistered hrelayed

theorem carried_readable_remote (h : Relay.Flowing C (own 0) t.relay (waits t all) iv)
    (hwaits : waits t all .roleRemote .opRead) (hsub : ∀ k ∈ keys, k ∈ all)
    (hregistered : ∀ id ops, .tunnel id ops ∈ keys → (t.mSocketChannel id).key ≠ none)
    (hc : Connected t ⟨0, .roleRemote⟩) (hu : Readable C own t ⟨0, .roleRemote⟩ calls r u) :
    Carried C (own 0) iv keys r u := by
  cases hu with
  | nothing => exact carried_same h rfl fun id ops hw => hw.of_key rfl (hsub _)
  | ended b =>
    have hflowing := h.disposed.mono (w := waits _ keys) fun role ops (hw : Awaits
      (({ t with mChannelBuffer := b } : Tunnels β σ).dispose ⟨0, .roleRemote⟩) keys ⟨0, role⟩ ops) =>
        hw.of_key rfl (hsub _)
    have hrelay : (({ t with mChannelBuffer := b } : Tunnels β σ).dispose ⟨0, .roleRemote⟩).relay =
        { t.relay with socks5 := { t.relay.socks5 with mTunnelEstablished := false } } :=
      Tunnels.relay_dispose_remote { t with mChannelBuffer := b }
    rw [← hrelay] at hflowing
    exact ⟨hflowing.intact, fun _ => hflowing⟩
  | broken b hb chunk hread hne e c hcode =>
    refine ⟨?_, by rintro ⟨⟩⟩
    rw [t.relay_afterRead_remote]
    exact ⟨h.up, h.down.trans (Relay.plaintext_of_received _ _)⟩
  | kept b hb chunk hread hne out c hcode hkept =>
    cases recode_cases hc.cipher hcode with
    | decrypted hdecrypted =>
      have hrelay : (t.afterRead b ⟨0, .roleRemote⟩ (chunk.val.map (own 0)) c).relay =
          t.relay.readRemote (chunk.val.map (own 0)) out c t.relay.socks5.mTunnelEstablished 0
            t.relay.leftover := by
        rw [t.relay_afterRead_remote, Relay.readRemote, List.take_zero, List.append_nil]
      have hold {id : TunnelId} {ops : Op} (hw : Awaits (t.afterRead b ⟨0, .roleRemote⟩
          (chunk.val.map (own 0)) c) keys id ops) : Awaits t all id ops :=
        hw.of_key (key_afterRead id) (hsub _)
      have hnot : ¬ waits (t.afterRead b ⟨0, .roleRemote⟩ (chunk.val.map (own 0)) c) keys .roleLocal
          .opWrite := fun hw => h.apart hwaits (hold hw)
      refine carried_remote h hwaits hdecrypted hrelay (fun id ops hw => .inl (hold hw))
        (fun hsent => absurd List.take_zero hsent) (fun hestablished _ => ⟨hestablished, ?_⟩)
        (fun hw => absurd hw hnot) (fun _ => ⟨rfl, hnot⟩)
      rcases hkept with hclosed | rfl
      · cases hclosed.symm.trans hestablished
      · exact Nat.le_refl _
  | relayed b hb chunk hread hne out c hcode hestablished hout hrelayed =>
    cases recode_cases hc.cipher hcode with
    | decrypted hdecrypted =>
      exact carried_relayed_remote h hwaits hdecrypted hestablished hsub hregistered hrelayed

omit [Inhabited β] in
/-- A local tunnel that gets rid of the whole leftover, or fails. -/
theorem carried_writable (h : Relay.Flowing C (own 0) t.relay (waits t all) iv)
    (hwaits : waits t all .roleLocal .opWrite) (hsub : ∀ k ∈ keys, k ∈ all)
    (hwhole : (accepted calls.writes t.mWriteRemainingBuffer.remaining).2 = true ∨
      (accepted calls.writes t.mWriteRemainingBuffer.remaining).1 = t.mWriteRemainingBuffer.remaining)
    (hu : Writable C t ⟨0, .roleLocal⟩ calls r u) : Carried C (own 0) iv keys r u := by
  have hafter {xs : List β} {k : Nat} (hk : k ≤ t.mWriteRemainingBuffer.remaining)
      (hxs : xs = t.mWriteRemainingBuffer.left.take k) :
      Carried C (own 0) iv keys r (t.afterWrite ⟨0, .roleLocal⟩ t.mWriteRemainingBuffer xs) := by
    have hlength : xs.length = k := by
      rw [hxs, List.length_take_of_le]
      rwa [ByteBuffer.length_left]
    have hrelay : (t.afterWrite ⟨0, .roleLocal⟩ t.mWriteRemainingBuffer xs).relay =
        t.relay.writeLocal k := by
      have hsend := t.relay_send_local xs
      refine (congrArg (fun v : Relay β σ =>
        { v with leftover := t.mWriteRemainingBuffer.advance xs.length }) hsend).trans ?_
      rw [hlength, hxs]
      rfl
    have hflowing := h.writeLocal hwaits hk (w := waits (t.afterWrite ⟨0, .roleLocal⟩
      t.mWriteRemainingBuffer xs) keys) fun role ops hw => Awaits.of_key hw (key_afterWrite _) (hsub _)
    rw [← hrelay] at hflowing
    exact ⟨hflowing.intact, fun _ => hflowing⟩
  have hleft : t.mWriteRemainingBuffer.left.length = t.mWriteRemainingBuffer.remaining :=
    ByteBuffer.length_left _
  rw [← hleft] at hwhole hafter
  cases hu with
  | underflow hrole => cases hrole
  | failed out b hb t₁ hresent k hk hfailed =>
    cases hresent with
    | asIs => exact hafter hk rfl
    | again hrole => cases hrole
  | drained out b hb t₁ hresent hdone =>
    cases hresent with
    | asIs => exact hafter (Nat.le_refl _) (List.take_length).symm
    | again hrole => cases hrole
  | cancelled out b hb t₁ hresent k hk hpart =>
    cases hresent with
    | asIs =>
      rw [hpart] at hwhole
      rcases hwhole with hfailed | hall
      · cases hfailed
      · exact absurd hk (hall ▸ Nat.lt_irrefl _)
    | again hrole => cases hrole
  | resumed out b hb t₁ hresent k hk hpart =>
    cases hresent with
    | asIs =>
      rw [hpart] at hwhole
      rcases hwhole with hfailed | hall
      · cases hfailed
      · exact absurd hk (hall ▸ Nat.lt_irrefl _)
    | again hrole => cases hrole

omit [Inhabited β] in
/-- The handshake: the pair was idle, and the channel accepts all of it. -/
theorem streams_connectable {drawn : IV Byte → Prop} (hiv : drawn calls.iv) (h : Relay.Idle t.relay) (hc : Connecting t ⟨0, .roleRemote⟩)
    (hwhole : calls.finishConnect = some true →
      (accepted calls.writes (t.relay.socks5.mDestAddress.hostName.length + 20)).1 =
        t.relay.socks5.mDestAddress.hostName.length + 20)
    (hwaits : ∀ c bytes, ¬ waits (t.establish ⟨0, .roleRemote⟩ c bytes) keys .roleLocal .opWrite)
    (hu : Connectable C own t ⟨0, .roleRemote⟩ calls r u) :
    Relay.Sound C (own 0) drawn u.relay ∧
      (r = .ok () → Relay.Streams C (own 0) drawn u.relay (waits u keys)) := by
  have hidle {v : Relay β σ} (hv : Relay.Idle v) (hset : v.socks5.mCryptor.encryptIVSet = false) :
      Relay.Sound C (own 0) drawn v ∧
        (r = .ok () → Relay.Streams C (own 0) drawn v (waits u keys)) := by
    refine ⟨.inl ⟨hv.remoteSent, hv.localSent⟩, fun _ => ⟨fun _ => hv, fun hgreeted => ?_⟩⟩
    rw [hset] at hgreeted
    cases hgreeted
  cases hu with
  | refused hcall =>
    rw [Tunnels.relay_dispose_remote, Tunnels.relay_close] at *
    exact hidle ⟨h.localReceived, h.localSent, h.remoteReceived, h.remoteSent, h.decryptIVSet,
      h.position⟩ hc.fresh
  | pending hcall =>
    rw [Tunnels.relay_dispose_remote] at *
    exact hidle ⟨h.localReceived, h.localSent, h.remoteReceived, h.remoteSent, h.decryptIVSet,
      h.position⟩ hc.fresh
  | tooLong hcall hlong c =>
    refine ⟨?_, by rintro ⟨⟩⟩
    rw [Tunnels.setCryptor, Tunnels.relay_setSocks5]
    exact .inl ⟨h.remoteSent, h.localSent⟩
  | connected hcall hs hgreeting hshort =>
    have hlength : hs.length = t.relay.socks5.mDestAddress.hostName.length + 20 := by
      rw [hgreeting, greeting, List.length_append, C.encrypting.length_output, List.length_map,
        List.length_map, calls.iv.property, Socks5Protocol.length_header, getIVLength]
      exact Nat.add_comm 16 _
    have hall : hs.take (accepted calls.writes hs.length).1 = hs := by
      rw [hlength, hwhole hcall, ← hlength, List.take_length]
    generalize hstarted : started C own _ calls.iv _ _ = c
    have henc : c.encCipher = some (C.encrypting.next (C.init (calls.iv.val.map (own 0)))
        ((Socks5Protocol.header t.relay.socks5.mDestAddress).map (own 0))) := by
      rw [← hstarted]
      rfl
    have hset : c.decryptIVSet = t.relay.socks5.mCryptor.decryptIVSet := by
      rw [← hstarted]
      rfl
    have hgreeted : c.encryptIVSet = true := by
      rw [← hstarted]
      rfl
    have hrelay : (t.establish ⟨0, .roleRemote⟩ c (hs.take (accepted calls.writes hs.length).1)).relay =
        t.relay.greet c hs := by
      rw [t.relay_establish, hall]
      rfl
    have hflowing := h.greet (own 0) calls.iv henc hset
      (hwaits c (hs.take (accepted calls.writes hs.length).1))
    have hgreet : t.relay.greet c hs = t.relay.greet c (calls.iv.val.map (own 0) ++ C.encrypting.output
        (C.init (calls.iv.val.map (own 0)))
          ((Socks5Protocol.header t.relay.socks5.mDestAddress).map (own 0))) :=
      congrArg (t.relay.greet c) hgreeting
    rw [← hgreet, ← hrelay] at hflowing
    refine ⟨.inr ⟨calls.iv, hiv, hflowing.intact⟩, fun _ =>
      ⟨fun hnot => ?_, fun _ => ⟨calls.iv, hiv, hflowing⟩⟩⟩
    rw [hrelay] at hnot
    cases hnot.symm.trans hgreeted

end

-- ---------------------------------------------------------------------------
-- Steps and runs
-- ---------------------------------------------------------------------------

/-- The handler does not lose, repeat or encrypt again what it writes: the
handshake is accepted whole, no remote tunnel takes up a leftover, and a local
one gets rid of all of it or fails. -/
def WriteWhole (t : Tunnels β σ) (calls : Calls) (id : TunnelId) : Op → Prop
  | .opRead => True
  | .opWrite => id.mRole = .roleLocal ∧
      ((accepted calls.writes t.mWriteRemainingBuffer.remaining).2 = true ∨
        (accepted calls.writes t.mWriteRemainingBuffer.remaining).1 = t.mWriteRemainingBuffer.remaining)
  | .opConnect => calls.finishConnect = some true →
      (accepted calls.writes ((t.socks5 id.pair).mDestAddress.hostName.length + 20)).1 =
        (t.socks5 id.pair).mDestAddress.hostName.length + 20

instance (t : Tunnels β σ) (calls : Calls) (id : TunnelId) :
    (ops : Op) → Decidable (WriteWhole t calls id ops)
  | .opRead => .isTrue trivial
  | .opWrite => inferInstanceAs (Decidable (_ ∧ _))
  | .opConnect => inferInstanceAs (Decidable (_ → _))

/-- The condition on a round. -/
def WholeOk (s : SelectorThread β σ) : Round → Prop
  | .handle calls =>
    match s.selectedKeys with
    | .tunnel id readyOps :: _ => isValid s.tunnels id = true → WriteWhole s.tunnels calls id readyOps
    | _ => True
  | _ => True

instance (s : SelectorThread β σ) : (e : Round) → Decidable (WholeOk s e)
  | .handle calls => by
    dsimp only [WholeOk]
    rcases s.selectedKeys with _ | ⟨_ | _, keys⟩ <;> infer_instance
  | .select _ | .accept _ => .isTrue trivial

section
variable [Inhabited β] (C : StreamCipher β σ) (own : Nat → Byte → β) (drawn : IV Byte → Prop)

/-- The invariant; what the tunnels wait for only matters while the thread runs. -/
structure Served (s : SelectorThread β σ) : Prop where
  sound : Relay.Sound C (own 0) drawn s.tunnels.relay
  streams : s.stopped = none →
    Relay.Streams C (own 0) drawn s.tunnels.relay (waits s.tunnels s.selectedKeys)

variable {C own drawn} {s t : SelectorThread β σ} {e : Round}

omit [Inhabited β] in
theorem wholeOk_handle {id : TunnelId} {readyOps : Op} {keys : List Selected} {calls : Calls}
    (hkeys : s.selectedKeys = .tunnel id readyOps :: keys) :
    WholeOk s (.handle calls) ↔
      (isValid s.tunnels id = true → WriteWhole s.tunnels calls id readyOps) := by
  simp only [WholeOk, hkeys]

omit [Inhabited β] in
/-- The handler of a key finds its tunnel waiting. -/
theorem awaits_head {id : TunnelId} {readyOps : Op} {keys : List Selected}
    (hkeys : s.selectedKeys = .tunnel id readyOps :: keys) (hvalid : isValid s.tunnels id = true) :
    Awaits s.tunnels s.selectedKeys id readyOps := by
  obtain ⟨key, hkey, hkeyvalid⟩ := isValid_iff.mp hvalid
  exact ⟨key, hkey, hkeyvalid, .inr (hkeys ▸ List.mem_cons_self ..)⟩

omit [Inhabited β] in
/-- A pair that was accepted has a fresh cipher object. -/
theorem relay_acceptable {t u : Tunnels β σ} {calls : AcceptCalls} {r : Except Throwable Unit}
    (h : Acceptable t 0 calls r u) (hnew : NewPair t 0) :
    ∃ k : Socks5 β σ, u.relay = { t.relay with socks5 := k } ∧ k.mCryptor = {} := by
  have hold : t.relay.socks5.mCryptor = {} := congrArg Socks5.mCryptor hnew.socks5
  cases h with
  | failed => exact ⟨_, rfl, hold⟩
  | dropped => exact ⟨_, rfl, hold⟩
  | unprotected => exact ⟨_, t.relay_setSocks5 _, rfl⟩
  | refused => exact ⟨_, t.relay_setSocks5 _, rfl⟩
  | connecting => exact ⟨_, (Tunnels.relay_setKey ..).trans (t.relay_setSocks5 _), rfl⟩

theorem served_step (hs : Steady s) (hserved : Served C own drawn s) (hone : t.accepted ≤ 1)
    (hok : WholeOk s e) (hiv : ∀ calls, e = .handle calls → drawn calls.iv)
    (hstep : step C own s e = some t) : Served C own drawn t := by
  have hstreams := hserved.streams (running_of_step hstep)
  have hregistered : ∀ id ops, .tunnel id ops ∈ s.selectedKeys →
      (s.tunnels.mSocketChannel id).key ≠ none := fun id ops hmem =>
    (hs.selected id ops hmem).registered
  -- the only pair is the first one
  have hpair {id : TunnelId} {readyOps : Op} {keys : List Selected} (hs1 : s.accepted ≤ 1)
      (hkeys : s.selectedKeys = .tunnel id readyOps :: keys) : id = ⟨0, id.mRole⟩ := by
    have hlt := (hs.selected id readyOps (hkeys ▸ List.mem_cons_self ..)).accepted
    obtain ⟨pair, role⟩ := id
    obtain rfl : pair = 0 := Nat.lt_one_iff.mp (Nat.lt_of_lt_of_le hlt hs1)
    rfl
  have hstarted {role : TunnelRole} (hc : Connected s.tunnels ⟨0, role⟩) :
      s.tunnels.greeted 0 = true := by
    obtain ⟨_, hset, -⟩ := hc.cipher
    exact hset
  have hcarried {iv : IV Byte} {keys : List Selected} {r : Except Throwable Unit} {u : Tunnels β σ}
      (hdrawn : drawn iv) (hgreeted : r = .ok () → u.greeted 0 = true)
      (h : Carried C (own 0) iv keys r u) : Served C own drawn (s.finish keys (r, u)) := by
    refine ⟨.inr ⟨iv, hdrawn, h.1⟩, fun hrunning => ?_⟩
    have hr := (finish_stopped ..).mp hrunning
    refine ⟨fun hnot => ?_, fun _ => ⟨iv, hdrawn, h.2 hr⟩⟩
    cases hnot.symm.trans (hgreeted hr)
  cases step_cases hs hstep with
  | selected hempty keys hkeys =>
    refine ⟨hserved.sound, fun _ => hstreams.mono fun role ops hw => ?_⟩
    rw [hempty]
    exact Awaits.of_selected hkeys hw
  | skipped id readyOps keys hkeys =>
    refine ⟨hserved.sound, fun _ => hstreams.mono fun role ops hw => Awaits.of_key hw rfl ?_⟩
    rw [hkeys]
    exact List.mem_cons_of_mem _
  | accepted keys hkeys calls h =>
    have hzero : s.accepted = 0 := Nat.le_zero.mp (Nat.le_of_succ_le_succ hone)
    have hnew := hs.fresh 0 (Nat.le_of_eq hzero)
    have hfresh : s.tunnels.relay.socks5.mCryptor.encryptIVSet = false :=
      congrArg (fun k : Socks5 β σ => k.mCryptor.encryptIVSet) hnew.socks5
    have hidle := hstreams.idle hfresh
    rw [hzero] at h
    obtain ⟨k, hrelay, hk⟩ := relay_acceptable h hnew
    have hidle' : Relay.Idle { s.tunnels.relay with socks5 := k } :=
      ⟨hidle.localReceived, hidle.localSent, hidle.remoteReceived, hidle.remoteSent,
        congrArg CryptBase.decryptIVSet hk, hidle.position⟩
    refine ⟨?_, fun _ => ⟨fun _ => ?_, fun hgreeted => ?_⟩⟩
    · exact .inl (hrelay ▸ ⟨hidle'.remoteSent, hidle'.localSent⟩)
    · exact hrelay ▸ hidle'
    · have hset : ({ s.tunnels.relay with socks5 := k } : Relay β σ).socks5.mCryptor.encryptIVSet =
          true := hrelay ▸ hgreeted
      cases (congrArg CryptBase.encryptIVSet hk).symm.trans hset
  | @readable id keys hkeys hvalid hc calls r u h =>
    have hsub : ∀ k ∈ keys, k ∈ s.selectedKeys := hkeys ▸ fun _ => List.mem_cons_of_mem _
    have hwaits := awaits_head hkeys hvalid
    have hid := hpair hone hkeys
    generalize id.mRole = role at hid
    subst hid
    obtain ⟨iv, hdrawn, hflowing⟩ := hstreams.flowing (hstarted hc)
    refine hcarried hdrawn ?_ ?_
    · rintro rfl
      exact ((h.keeps hc).greeted 0).trans (hstarted hc)
    · cases role with
      | roleLocal =>
        exact carried_readable_local hflowing hwaits hsub
          (fun id ops hmem => hregistered id ops (hsub _ hmem)) hc h
      | roleRemote =>
        exact carried_readable_remote hflowing hwaits hsub
          (fun id ops hmem => hregistered id ops (hsub _ hmem)) hc h
  | @writable id keys hkeys hvalid hc calls r u h =>
    have hsub : ∀ k ∈ keys, k ∈ s.selectedKeys := hkeys ▸ fun _ => List.mem_cons_of_mem _
    have hwaits := awaits_head hkeys hvalid
    obtain ⟨hrole, hwhole⟩ := (wholeOk_handle hkeys).mp hok hvalid
    have hid := hpair hone hkeys
    rw [hrole] at hid
    subst hid
    obtain ⟨iv, hdrawn, hflowing⟩ := hstreams.flowing (hstarted hc)
    refine hcarried hdrawn ?_ (carried_writable hflowing hwaits hsub hwhole h)
    rintro rfl
    exact ((h.keeps hc).greeted 0).trans (hstarted hc)
  | @connectable id keys hkeys hvalid hc calls r u h =>
    have hid := hpair hone hkeys
    rw [hc.role] at hid
    subst hid
    have hwhole := (wholeOk_handle hkeys).mp hok hvalid
    have hidle := hstreams.idle hc.fresh
    have hnot (c : CryptBase β σ) (bytes : List β) :
        ¬ waits (s.tunnels.establish ⟨0, .roleRemote⟩ c bytes) keys .roleLocal .opWrite := by
      intro hw
      rcases Awaits.of_establish hs hkeys hc hw with ⟨-, hops⟩ | ⟨hne, -⟩
      · cases hops
      · exact hne rfl
    obtain ⟨hintact, hstreams'⟩ := streams_connectable (hiv calls rfl) hidle hc hwhole hnot h
    exact ⟨hintact, fun hrunning => hstreams' ((finish_stopped ..).mp hrunning)⟩

theorem accepted_step (hs : Steady s) (hstep : step C own s e = some t) : s.accepted ≤ t.accepted := by
  cases step_cases hs hstep with
  | accepted => exact Nat.le_succ _
  | _ => exact Nat.le_refl _

theorem served_initial : Served C own drawn (initial : SelectorThread β σ) where
  sound := .inl ⟨rfl, rfl⟩
  streams _ := ⟨fun _ => ⟨rfl, rfl, rfl, rfl, rfl, rfl⟩, fun hset => by cases hset⟩

/-- The IVs that the handlers of some rounds draw. -/
def Drawn (rounds : List Round) (iv : IV Byte) : Prop :=
  ∃ calls, .handle calls ∈ rounds ∧ calls.iv = iv

theorem served_run {rounds : List Round} (hrun : Machine.run (step C own) initial rounds = some s)
    (hone : s.accepted ≤ 1) (hok : Machine.Guarded (step C own) WholeOk initial rounds) :
    Served C own (Drawn rounds) s := by
  have hdrawn : ∀ e ∈ rounds, ∀ calls, e = .handle calls → Drawn rounds calls.iv := by
    rintro _ hmem calls rfl
    exact ⟨calls, hmem, rfl⟩
  have hkeep : ∀ s e t, (s.stopped = none → Steady s) ∧ (s.accepted ≤ 1 → Served C own (Drawn rounds) s) →
      (WholeOk s e ∧ ∀ calls, e = .handle calls → Drawn rounds calls.iv) → step C own s e = some t →
      (t.stopped = none → Steady t) ∧ (t.accepted ≤ 1 → Served C own (Drawn rounds) t) := by
    rintro s e t ⟨hs, hserved⟩ ⟨hok, hiv⟩ hstep
    have hsteady := hs (running_of_step hstep)
    refine ⟨steady_step hsteady hstep, fun hone => ?_⟩
    have hbefore := hserved (Nat.le_trans (accepted_step hsteady hstep) hone)
    exact served_step hsteady hbefore hone hok hiv hstep
  exact (Machine.run_invariant hkeep ⟨fun _ => steady_initial, fun _ => served_initial⟩
    (hok.and_of_mem hdrawn) hrun).2 hone

end

/-- What one pair has sent is what it should have sent, as far as it goes. -/
theorem streams_kept [Inhabited β] (C : StreamCipher β σ) (own : Nat → Byte → β) (rounds : List Round)
    (s : SelectorThread β σ) (hrun : Machine.run (step C own) initial rounds = some s)
    (hone : s.accepted ≤ 1) (hok : Machine.Guarded (step C own) WholeOk initial rounds) :
    (s.tunnels.relay.remoteSent = [] ∨ ∃ calls, .handle calls ∈ rounds ∧
      s.tunnels.relay.remoteSent <+: s.tunnels.relay.ciphertext C (own 0) calls.iv) ∧
    s.tunnels.relay.localSent <+: Relay.plaintext C s.tunnels.relay.remoteReceived := by
  rcases (served_run hrun hone hok).sound with ⟨hup, hdown⟩ | ⟨_, ⟨calls, hmem, rfl⟩, hintact⟩
  · refine ⟨.inl hup, ?_⟩
    rw [hdown]
    exact List.nil_prefix
  · exact ⟨.inr ⟨calls, hmem, hintact.up⟩, hintact.down⟩

/-- A chunk each way; the client's channel accepts the second one in two parts. -/
def wholeRounds : List Round :=
  connectRounds 0 ++
    [.select [.tunnel ⟨0, .roleLocal⟩ .opRead, .tunnel ⟨0, .roleRemote⟩ .opRead],
      .handle (sampleCalls request [2]),
      .handle (sampleCalls answer [1]),
      .select [.tunnel ⟨0, .roleLocal⟩ .opWrite], .handle (sampleCalls nothing [100])]

theorem wholeRounds_kept :
    (after feedback (fun _ => id) wholeRounds).tunnels.relay.localSent <+:
      Relay.plaintext feedback (after feedback (fun _ => id) wholeRounds).tunnels.relay.remoteReceived := by
  have hrun := run_after feedback (fun _ => id) wholeRounds (by decide +kernel)
  have hone : (after feedback (fun _ => id) wholeRounds).accepted ≤ 1 := by decide +kernel
  generalize after feedback (fun _ => id) wholeRounds = s at hrun hone ⊢
  exact (streams_kept feedback (fun _ => id) wholeRounds s hrun hone (by decide +kernel)).2

/-- The rest of a chunk of the client, encrypted a second time before it is sent. -/
theorem stream_encrypted_twice :
    ∃ s, Machine.run (step feedback (fun _ => id)) initial (connectRounds 0 ++
        [.select [.tunnel ⟨0, .roleLocal⟩ .opRead],
          .handle (sampleCalls request [1]),
          .select [.tunnel ⟨0, .roleRemote⟩ .opWrite],
          .handle (sampleCalls nothing [100])]) = some s ∧
      s.accepted = 1 ∧
      ¬ s.tunnels.relay.remoteSent <+: s.tunnels.relay.ciphertext feedback id sampleIV := by
  refine ⟨_, rfl, rfl, ?_⟩
  decide +kernel

end SmartSocks.Sslocal
