import SmartSocks.Tunnel.Handlers

/-!
# The tunnels of a thread that runs

`Wired` is what the handlers rely on: a channel that is registered for reading
or writing belongs to a pair that has made its handshake, and such a pair has
its cipher and its channels open. `Kept` says that a step of one pair keeps
this and leaves the other pairs alone; it is proved of each update once, and
of a handler by composing the updates of its cases.
-/

namespace SmartSocks.Tunnel

open Jvm Crypto

variable {β σ : Type}

/-- The handshake of the pair was encrypted. -/
def Tunnels.greeted (t : Tunnels β σ) (pair : Nat) : Bool := (t.socks5 pair).mCryptor.encryptIVSet

/-- A channel of a pair that has made its handshake, or has not. -/
structure ChannelOk (role : TunnelRole) (greeted : Bool) (c : SocketChannel β) : Prop where
  isOpen : role = .roleLocal ∨ greeted = true → c.isOpen = true
  valid : ∀ key, c.key = some key → key.isValid = true → c.isOpen = true
  registered : ∀ key, c.key = some key → (key.interestOps = .opConnect ↔ greeted = false)
  answering : role = .roleLocal → c.key ≠ none → greeted = true

/-- The ciphers that the flags announce are there. -/
structure CipherOk (c : CryptBase β σ) : Prop where
  encrypting : c.encryptIVSet = true → ∃ s, c.encCipher = some s
  decrypting : c.decryptIVSet = true → ∃ s, c.decCipher = some s

structure Wired (t : Tunnels β σ) : Prop where
  channelBuffer : t.mChannelBuffer.capacity = capacity
  remainingBuffer : t.mWriteRemainingBuffer.capacity = capacity
  channel : ∀ id, ChannelOk id.mRole (t.greeted id.pair) (t.mSocketChannel id)
  cipher : ∀ pair, CipherOk (t.socks5 pair).mCryptor

section
variable {t : Tunnels β σ} {id : TunnelId}

theorem Wired.connected (h : Wired t) (hgreeted : t.greeted id.pair = true) : Connected t id where
  channelBuffer := h.channelBuffer
  remainingBuffer := h.remainingBuffer
  isOpen := (h.channel id).isOpen (.inr hgreeted)
  brotherOpen := (h.channel id.mBrotherTunnel).isOpen (.inr hgreeted)
  cipher := ((h.cipher id.pair).encrypting hgreeted).imp fun _ hs => ⟨hgreeted, hs⟩

theorem Wired.connecting (h : Wired t) (hfresh : t.greeted id.pair = false)
    (hvalid : ∃ key, (t.mSocketChannel id).key = some key ∧ key.isValid = true) :
    Connecting t id := by
  obtain ⟨key, hkey, hvalid⟩ := hvalid
  have hrole : id.mRole = .roleRemote := by
    cases hrole : id.mRole with
    | roleRemote => rfl
    | roleLocal =>
      have hgreeted := (h.channel id).answering hrole (by simp [hkey])
      rw [hfresh] at hgreeted
      cases hgreeted
  have hbrother : id.mBrotherTunnel.mRole = .roleLocal := by
    simp only [TunnelId.mBrotherTunnel, hrole]
  refine ⟨hrole, (h.channel id).valid key hkey hvalid,
    (h.channel id.mBrotherTunnel).isOpen (.inl hbrother), ⟨key, hkey, hvalid⟩, ?_, hfresh⟩
  by_contra hsome
  have hgreeted := (h.channel id.mBrotherTunnel).answering hbrother hsome
  rw [id.brother_pair, hfresh] at hgreeted
  cases hgreeted

end

-- ---------------------------------------------------------------------------
-- Updates
-- ---------------------------------------------------------------------------

/-- From `t` to `u` only the pair is changed, and it stays wired. -/
structure Kept (pair : Nat) (t u : Tunnels β σ) : Prop where
  wired : Wired t → Wired u
  channel : ∀ id, id.pair ≠ pair → u.mSocketChannel id = t.mSocketChannel id
  socks5 : ∀ pair', pair' ≠ pair → u.socks5 pair' = t.socks5 pair'
  key : ∀ id, (t.mSocketChannel id).key ≠ none → (u.mSocketChannel id).key ≠ none
  greeted : ∀ pair', u.greeted pair' = t.greeted pair'

namespace Kept

variable {pair : Nat} {t u v : Tunnels β σ} {id : TunnelId}

theorem refl (pair : Nat) (t : Tunnels β σ) : Kept pair t t :=
  ⟨fun h => h, fun _ _ => rfl, fun _ _ => rfl, fun _ h => h, fun _ => rfl⟩

theorem trans (h : Kept pair t u) (h' : Kept pair u v) : Kept pair t v where
  wired hw := h'.wired (h.wired hw)
  channel id hne := (h'.channel id hne).trans (h.channel id hne)
  socks5 pair' hne := (h'.socks5 pair' hne).trans (h.socks5 pair' hne)
  key id hkey := h'.key id (h.key id hkey)
  greeted pair' := (h'.greeted pair').trans (h.greeted pair')

theorem setChannel (id : TunnelId) {c : SocketChannel β}
    (hc : ChannelOk id.mRole (t.greeted id.pair) (t.mSocketChannel id) →
      ChannelOk id.mRole (t.greeted id.pair) c)
    (hkey : (t.mSocketChannel id).key ≠ none → c.key ≠ none) :
    Kept id.pair t (t.setChannel id c) where
  wired hw := by
    refine ⟨hw.channelBuffer, hw.remainingBuffer, ?_, hw.cipher⟩
    intro id'
    by_cases h : id' = id
    · subst h
      rw [t.channel_setChannel]
      exact hc (hw.channel id')
    · rw [t.channel_setChannel_ne id h]
      exact hw.channel id'
  channel id' hne := t.channel_setChannel_ne id (fun h => hne (congrArg TunnelId.pair h)) c
  socks5 _ _ := rfl
  key id' hsome := by
    by_cases h : id' = id
    · subst h
      rw [t.channel_setChannel]
      exact hkey hsome
    · rwa [t.channel_setChannel_ne id h]
  greeted _ := rfl

theorem setSocks5 {r : Socks5 β σ} (hset : r.mCryptor.encryptIVSet = t.greeted pair)
    (hc : CipherOk (t.socks5 pair).mCryptor → CipherOk r.mCryptor) :
    Kept pair t (t.setSocks5 pair r) := by
  have hgreeted : ∀ pair', (t.setSocks5 pair r).greeted pair' = t.greeted pair' := by
    intro pair'
    unfold Tunnels.greeted
    by_cases h : pair' = pair
    · subst h
      rw [t.socks5_setSocks5]
      exact hset
    · rw [t.socks5_setSocks5_ne pair h]
  refine ⟨?_, fun _ _ => rfl, fun _ hne => t.socks5_setSocks5_ne pair hne r, fun _ h => h, hgreeted⟩
  intro hw
  refine ⟨hw.channelBuffer, hw.remainingBuffer, ?_, ?_⟩
  · intro id
    rw [hgreeted]
    exact hw.channel id
  · intro pair'
    by_cases h : pair' = pair
    · subst h
      rw [t.socks5_setSocks5]
      exact hc (hw.cipher pair')
    · rw [t.socks5_setSocks5_ne pair h]
      exact hw.cipher pair'

theorem mChannelBuffer {b : ByteBuffer β} (hb : b.capacity = capacity) :
    Kept pair t { t with mChannelBuffer := b } :=
  ⟨fun h => ⟨hb, h.remainingBuffer, h.channel, h.cipher⟩, fun _ _ => rfl, fun _ _ => rfl,
    fun _ h => h, fun _ => rfl⟩

theorem mWriteRemainingBuffer {b : ByteBuffer β} (hb : Wired t → b.capacity = capacity) :
    Kept pair t { t with mWriteRemainingBuffer := b } :=
  ⟨fun h => ⟨h.channelBuffer, hb h, h.channel, h.cipher⟩, fun _ _ => rfl, fun _ _ => rfl,
    fun _ h => h, fun _ => rfl⟩

theorem schedule (bytes : List β) : Kept pair t (t.schedule bytes) :=
  mWriteRemainingBuffer fun h => h.remainingBuffer

theorem send (id : TunnelId) (bytes : List β) : Kept id.pair t (t.send id bytes) :=
  setChannel id (fun h => ⟨h.isOpen, h.valid, h.registered, h.answering⟩) fun h => h

theorem receive (id : TunnelId) (bytes : List β) : Kept id.pair t (t.receive id bytes) :=
  setChannel id (fun h => ⟨h.isOpen, h.valid, h.registered, h.answering⟩) fun h => h

theorem cancel (id : TunnelId) : Kept id.pair t (t.cancel id) := by
  refine setChannel _ (fun h => ⟨h.isOpen, ?_, ?_, ?_⟩) ?_
  · rintro key hkey hvalid
    obtain ⟨key', -, rfl⟩ := Option.map_eq_some_iff.mp hkey
    cases hvalid
  · rintro key hkey
    obtain ⟨key', hkey', rfl⟩ := Option.map_eq_some_iff.mp hkey
    exact h.registered key' hkey'
  · rintro hrole hkey
    exact h.answering hrole (mt Option.map_eq_none_iff.mpr hkey)
  · exact mt Option.map_eq_none_iff.mp

theorem setKey {ops : Op} (id : TunnelId) (hgreeted : t.greeted id.pair = true) (hops : ops ≠ .opConnect) :
    Kept id.pair t (t.setKey id (some { interestOps := ops })) := by
  refine setChannel _ (fun h => ⟨h.isOpen, fun _ _ _ => h.isOpen (.inr hgreeted), ?_, fun _ _ => hgreeted⟩)
    fun _ => Option.some_ne_none _
  rintro key hkey
  cases hkey
  rw [hgreeted]
  simpa using hops

theorem setEstablished (established : Bool) : Kept pair t (t.setEstablished pair established) :=
  setSocks5 rfl fun h => h

theorem dispose (id : TunnelId) : Kept id.pair t (t.dispose id) := by
  unfold Tunnels.dispose
  split
  · exact refl _ _
  · exact setEstablished false

theorem setCryptor {c : CryptBase β σ} (hset : c.encryptIVSet = t.greeted pair)
    (hc : CipherOk (t.socks5 pair).mCryptor → CipherOk c) : Kept pair t (t.setCryptor pair c) :=
  setSocks5 hset hc

end Kept

-- ---------------------------------------------------------------------------
-- Handlers
-- ---------------------------------------------------------------------------

section
variable [Inhabited β] {C : StreamCipher β σ} {c c' : CryptBase β σ} {bytes out : List β}

/-- What `recode` can do. -/
inductive Recoded (C : StreamCipher β σ) (c : CryptBase β σ) (bytes : List β) :
    TunnelRole → Except Throwable (List β) → CryptBase β σ → Prop
  | encrypted (s : σ) (hs : Encrypting c s) :
      Recoded C c bytes .roleLocal (.ok (C.encrypting.output s bytes)) (encrypted C c s bytes)
  | decrypted {r : Except Throwable (List β)} {c' : CryptBase β σ}
      (h : CryptBase.Decrypted C bytes c r c') : Recoded C c bytes .roleRemote r c'

theorem recode_cases {role : TunnelRole} {r : Except Throwable (List β)}
    (hcipher : ∃ s, Encrypting c s) (h : recode C role c bytes = (r, c')) :
    Recoded C c bytes role r c' := by
  cases role with
  | roleLocal =>
    obtain ⟨s, hs⟩ := hcipher
    rw [recode_local hs] at h
    cases h
    exact .encrypted s hs
  | roleRemote =>
    have hexec := CryptBase.exec_decrypt C bytes c
    simp only [recode] at h
    rw [h] at hexec
    exact .decrypted hexec

theorem Recoded.ok {role : TunnelRole} (h : Recoded C c bytes role (.ok out) c') :
    c'.encryptIVSet = c.encryptIVSet ∧ (CipherOk c → CipherOk c') := by
  cases h with
  | encrypted s hs => exact ⟨rfl, fun h => ⟨fun _ => ⟨_, rfl⟩, h.decrypting⟩⟩
  | decrypted h =>
    cases h with
    | first => exact ⟨rfl, fun h => ⟨h.encrypting, fun _ => ⟨_, rfl⟩⟩⟩
    | next => exact ⟨rfl, fun h => ⟨h.encrypting, fun _ => ⟨_, rfl⟩⟩⟩

end

/-- The first chunk from the server is still to come. -/
def AwaitsIV (t : Tunnels β σ) (id : TunnelId) : Prop :=
  id.mRole = .roleRemote ∧ (t.socks5 id.pair).mCryptor.decryptIVSet = false

instance (t : Tunnels β σ) (id : TunnelId) : Decidable (AwaitsIV t id) :=
  inferInstanceAs (Decidable (_ ∧ _))

/-- How many bytes of a chunk are passed on. -/
def passedOn (t : Tunnels β σ) (id : TunnelId) (chunk : Chunk) : Nat :=
  if AwaitsIV t id then chunk.val.length - getIVLength else chunk.val.length

section
variable [Inhabited β] {C : StreamCipher β σ} {own : Nat → Byte → β} {t : Tunnels β σ}
  {id : TunnelId} {chunk : Chunk} {out : List β} {c : CryptBase β σ}

theorem Recoded.passedOn
    (h : Recoded C (t.socks5 id.pair).mCryptor (chunk.val.map (own id.pair)) id.mRole (.ok out) c) :
    out.length = passedOn t id chunk ∧ (AwaitsIV t id → getIVLength ≤ chunk.val.length) := by
  generalize hrole : id.mRole = role at h
  cases h with
  | encrypted s hs =>
    have hnot : ¬ AwaitsIV t id := by simp [AwaitsIV, hrole]
    rw [Tunnel.passedOn, if_neg hnot, C.encrypting.length_output, List.length_map]
    exact ⟨rfl, fun h => absurd h hnot⟩
  | decrypted h =>
    cases h with
    | first hset hlong =>
      rw [List.length_map] at hlong
      rw [Tunnel.passedOn, if_pos ⟨hrole, hset⟩, C.decrypting.length_output, List.length_drop,
        List.length_map]
      exact ⟨rfl, fun _ => hlong⟩
    | next hset s hs =>
      have hnot : ¬ AwaitsIV t id := by simp [AwaitsIV, hset]
      rw [Tunnel.passedOn, if_neg hnot, C.decrypting.length_output, List.length_map]
      exact ⟨rfl, fun h => absurd h hnot⟩

end

section
variable {t u : Tunnels β σ} {id : TunnelId} {calls : Calls} {out : List β}

theorem Relayed.keeps (h : Relayed calls id t out (.ok ()) u) (hgreeted : t.greeted id.pair = true) :
    Kept id.pair t u := by
  cases h with
  | failed b hb =>
    exact (((Kept.mChannelBuffer hb).trans (.send id.mBrotherTunnel _)).trans (.dispose id)).trans
      (.cancel id)
  | sent b hb => exact (Kept.mChannelBuffer hb).trans (.send id.mBrotherTunnel _)
  | scheduled b hb k hk hpart hroom hkey =>
    exact ((((Kept.mChannelBuffer hb).trans (.send id.mBrotherTunnel _)).trans (.schedule _)).trans
      (.setKey id.mBrotherTunnel hgreeted (by simp))).trans (.cancel id)

variable [Inhabited β] {C : StreamCipher β σ} {own : Nat → Byte → β}

theorem Kept.afterRead {b : ByteBuffer β} (hb : b.capacity = capacity) {bytes : List β}
    {c : CryptBase β σ} (h : Recoded C (t.socks5 id.pair).mCryptor bytes id.mRole (.ok out) c) :
    Kept id.pair t (t.afterRead b id bytes c) :=
  ((Kept.mChannelBuffer hb).trans (.receive id bytes)).trans (.setCryptor h.ok.1 h.ok.2)

theorem Readable.keeps (h : Readable C own t id calls (.ok ()) u) (hc : Connected t id) :
    Kept id.pair t u := by
  cases h with
  | nothing b hb => exact .mChannelBuffer hb
  | ended b hb => exact (Kept.mChannelBuffer hb).trans (.dispose id)
  | kept b hb chunk hread hne out c hcode => exact .afterRead hb (recode_cases hc.cipher hcode)
  | relayed b hb chunk hread hne out c hcode hestablished hout hrelayed =>
    have hread := Kept.afterRead hb (recode_cases hc.cipher hcode)
    obtain ⟨s, hs, -⟩ := hc.cipher
    exact hread.trans (hrelayed.keeps ((hread.greeted _).trans hs))

omit [Inhabited β] in
theorem Resent.keeps {b : ByteBuffer β} {t₁ : Tunnels β σ} (h : Resent C t id out b t₁) :
    Kept id.pair t t₁ := by
  cases h with
  | asIs => exact .refl _ _
  | again => exact .setCryptor rfl fun h => ⟨fun _ => ⟨_, rfl⟩, h.decrypting⟩

omit [Inhabited β] in
theorem Kept.afterWrite {b : ByteBuffer β} (hb : b.capacity = capacity) (bytes : List β) :
    Kept id.pair t (t.afterWrite id b bytes) :=
  (Kept.send id bytes).trans (.mWriteRemainingBuffer fun _ => hb)

omit [Inhabited β] in
theorem Writable.keeps (h : Writable C t id calls (.ok ()) u) (hc : Connected t id) :
    Kept id.pair t u := by
  cases h with
  | failed out b hb t₁ hresent => exact (hresent.keeps.trans (.afterWrite hb _)).trans (.dispose id)
  | drained out b hb t₁ hresent => exact hresent.keeps.trans (.afterWrite hb _)
  | resumed out b hb t₁ hresent k =>
    have hsent := (hresent.keeps.trans (.afterWrite hb (out.take k))).trans (.cancel id)
    obtain ⟨s, hs, -⟩ := hc.cipher
    exact hsent.trans
      (.setKey id.mBrotherTunnel ((hsent.greeted _).trans hs) (by simp))

end

-- ---------------------------------------------------------------------------
-- The handshake
-- ---------------------------------------------------------------------------

namespace Tunnels

variable (t : Tunnels β σ) (id : TunnelId) (c : CryptBase β σ) (bytes : List β)

theorem channel_establish :
    (t.establish id c bytes).mSocketChannel id =
      { t.mSocketChannel id with
        key := some { interestOps := .opRead }
        sent := (t.mSocketChannel id).sent ++ bytes } := by
  have hne : id ≠ id.mBrotherTunnel := id.brother_ne.symm
  simp only [establish, channel_setKey, if_neg hne, if_true]
  exact congrArg (fun r : SocketChannel β => { r with key := some { interestOps := Op.opRead } })
    ((t.setCryptor id.pair c).channel_setChannel id _)

theorem channel_establish_brother :
    (t.establish id c bytes).mSocketChannel id.mBrotherTunnel =
      { t.mSocketChannel id.mBrotherTunnel with key := some { interestOps := .opRead } } := by
  simp only [establish, channel_setKey, if_neg id.brother_ne, if_true]
  exact congrArg (fun r : SocketChannel β => { r with key := some { interestOps := Op.opRead } })
    ((t.setCryptor id.pair c).channel_setChannel_ne id id.brother_ne _)

theorem channel_establish_ne {id' : TunnelId} (h : id'.pair ≠ id.pair) :
    (t.establish id c bytes).mSocketChannel id' = t.mSocketChannel id' := by
  have hne : id' ≠ id := fun heq => h (congrArg TunnelId.pair heq)
  have hbrother : id' ≠ id.mBrotherTunnel := fun heq =>
    h ((congrArg TunnelId.pair heq).trans id.brother_pair)
  simp only [establish, channel_setKey, if_neg hne, if_neg hbrother]
  exact (t.setCryptor id.pair c).channel_setChannel_ne id hne _

theorem socks5_establish :
    (t.establish id c bytes).socks5 id.pair =
      { t.socks5 id.pair with mTunnelEstablished := true, mCryptor := c } := by
  have hcryptor : ((t.setCryptor id.pair c).send id bytes).socks5 id.pair =
      { t.socks5 id.pair with mCryptor := c } := t.socks5_setSocks5 id.pair _
  refine (((t.setCryptor id.pair c).send id bytes).socks5_setSocks5 id.pair _).trans ?_
  rw [hcryptor]

theorem socks5_establish_ne {pair : Nat} (h : pair ≠ id.pair) :
    (t.establish id c bytes).socks5 pair = t.socks5 pair :=
  (((t.setCryptor id.pair c).send id bytes).socks5_setSocks5_ne id.pair h _).trans
    (t.socks5_setSocks5_ne id.pair h _)

end Tunnels

/-- From `t` to `u` the pair has made its handshake. -/
structure Greeted (id : TunnelId) (t u : Tunnels β σ) : Prop where
  wired : Wired t → Wired u
  channel : ∀ id', id'.pair ≠ id.pair → u.mSocketChannel id' = t.mSocketChannel id'
  socks5 : ∀ pair, pair ≠ id.pair → u.socks5 pair = t.socks5 pair
  key : ∀ id', (t.mSocketChannel id').key ≠ none → (u.mSocketChannel id').key ≠ none
  greeted : u.greeted id.pair = true

section
variable {t u : Tunnels β σ} {id : TunnelId} {calls : Calls}

theorem greeted_establish (hc : Connecting t id) {c : CryptBase β σ} (hset : c.encryptIVSet = true)
    (hcipher : CipherOk (t.socks5 id.pair).mCryptor → CipherOk c) (bytes : List β) :
    Greeted id t (t.establish id c bytes) := by
  have hgreeted : (t.establish id c bytes).greeted id.pair = true := by
    rw [Tunnels.greeted, t.socks5_establish]
    exact hset
  refine ⟨fun hw => ⟨hw.channelBuffer, hw.remainingBuffer, ?_, ?_⟩,
    fun _ => t.channel_establish_ne id c bytes, fun _ => t.socks5_establish_ne id c bytes, ?_, hgreeted⟩
  · intro id'
    by_cases hpair : id'.pair = id.pair
    · rw [hpair, hgreeted]
      rcases TunnelId.eq_or_brother hpair with rfl | rfl
      · rw [t.channel_establish]
        exact ⟨fun _ => hc.isOpen, fun _ _ _ => hc.isOpen, by rintro _ ⟨⟩; simp, fun _ _ => rfl⟩
      · rw [t.channel_establish_brother]
        exact ⟨fun _ => hc.brotherOpen, fun _ _ _ => hc.brotherOpen, by rintro _ ⟨⟩; simp,
          fun _ _ => rfl⟩
    · rw [t.channel_establish_ne id c bytes hpair, Tunnels.greeted,
        t.socks5_establish_ne id c bytes hpair]
      exact hw.channel id'
  · intro pair
    by_cases hpair : pair = id.pair
    · rw [hpair, t.socks5_establish]
      exact hcipher (hw.cipher id.pair)
    · rw [t.socks5_establish_ne id c bytes hpair]
      exact hw.cipher pair
  · intro id' hkey
    by_cases hpair : id'.pair = id.pair
    · rcases TunnelId.eq_or_brother hpair with rfl | rfl
      · rw [t.channel_establish]
        exact Option.some_ne_none _
      · rw [t.channel_establish_brother]
        exact Option.some_ne_none _
    · rwa [t.channel_establish_ne id c bytes hpair]

theorem Kept.close (hrole : id.mRole = .roleRemote) (hfresh : t.greeted id.pair = false) :
    Kept id.pair t (t.close id) := by
  have hcancelled : ∀ key, ((t.cancel id).mSocketChannel id).key = some key → key.isValid = false := by
    intro key hkey
    rw [t.channel_cancel, if_pos rfl] at hkey
    obtain ⟨key', -, rfl⟩ := Option.map_eq_some_iff.mp hkey
    rfl
  refine (Kept.cancel id).trans (.setChannel _ (fun h => ⟨?_, ?_, h.registered, h.answering⟩) fun h => h)
  · rw [hrole, (Kept.cancel id).greeted, hfresh]
    simp
  · intro key hkey hvalid
    rw [hcancelled key hkey] at hvalid
    cases hvalid

variable [Inhabited β] {C : StreamCipher β σ} {own : Nat → Byte → β}

omit [Inhabited β] in
theorem Connectable.keeps (h : Connectable C own t id calls (.ok ()) u) (hc : Connecting t id) :
    Kept id.pair t u ∨ Greeted id t u := by
  cases h with
  | refused => exact .inl ((Kept.close hc.role hc.fresh).trans (.dispose id))
  | pending => exact .inl (.dispose id)
  | connected =>
    right
    refine greeted_establish hc (rfl : (started C own id.pair calls.iv (t.socks5 id.pair).mDestAddress
      (t.socks5 id.pair).mCryptor).encryptIVSet = true) ?_ _
    exact fun h => ⟨fun _ => ⟨_, rfl⟩, h.decrypting⟩

end

end SmartSocks.Tunnel
