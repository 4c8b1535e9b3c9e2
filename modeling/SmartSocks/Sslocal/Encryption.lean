import SmartSocks.Crypto.SingleIV
import SmartSocks.Sslocal.SelectorRuns

/-!
# What the tunnels encrypt

`cipherCalls` lists the calls that one round makes on the cipher object of a
pair, and `cryptor_step` says that the object changes by these calls only. Over
a run they are one list that starts with the handshake, so what `encrypt`
returns for a pair is one stream with one IV (`encrypted_once`). No channel of
the client is registered before the handshake; hence `beforeSend` never adds an
IV to a chunk that `onReadable` passes on.
-/

namespace SmartSocks.Tunnel

open Jvm Crypto

variable {β σ : Type}

/-- The cipher object of a pair. -/
def Tunnels.cryptor (t : Tunnels β σ) (pair : Nat) : CryptBase β σ := (t.socks5 pair).mCryptor

section
variable (own : Nat → Byte → β)

/-- What `onReadable` does with the bytes of a read: `beforeSend` of the remote
tunnel, or `afterReceived`. -/
def readCall (id : TunnelId) (iv : IV Byte) (bytes : List β) : Call β :=
  match id.mRole with
  | .roleLocal => .encrypt (drawIV own id.pair iv) bytes
  | .roleRemote => .receive bytes

/-- The calls of a handler on the cipher object of its pair. -/
def handlerCalls (t : Tunnels β σ) (id : TunnelId) (calls : Calls) : Op → List (Call β)
  | .opRead =>
    match calls.read with
    | .bytes chunk =>
      if chunk.val = [] then [] else [readCall own id calls.iv (chunk.val.map (own id.pair))]
    | _ => []
  | .opWrite =>
    match id.mRole with
    | .roleLocal => []
    | .roleRemote =>
      -- a position behind the start throws before anything is encrypted
      if t.mWriteRemainingBuffer.position = 0 then
        [.encrypt (drawIV own id.pair calls.iv) t.mWriteRemainingBuffer.left]
      else []
  | .opConnect =>
    -- a longer name does not fit the buffer of the handshake
    if calls.finishConnect = some true ∧ (t.socks5 id.pair).mDestAddress.hostName.length ≤ 1020 then
      [.encrypt (drawIV own id.pair calls.iv)
        ((Socks5Protocol.header (t.socks5 id.pair).mDestAddress).map (own id.pair))]
    else []

end

-- ---------------------------------------------------------------------------
-- Updates
-- ---------------------------------------------------------------------------

namespace Tunnels

variable (t : Tunnels β σ) (id : TunnelId) (pair : Nat)

@[simp] theorem cryptor_setCryptor (c : CryptBase β σ) : (t.setCryptor pair c).cryptor pair = c := by
  rw [cryptor, setCryptor, socks5_setSocks5]

theorem cryptor_setCryptor_ne {pair' : Nat} (h : pair' ≠ pair) (c : CryptBase β σ) :
    (t.setCryptor pair c).cryptor pair' = t.cryptor pair' := by
  rw [cryptor, setCryptor, socks5_setSocks5_ne _ _ h, cryptor]

@[simp] theorem cryptor_dispose (pair' : Nat) : (t.dispose id).cryptor pair' = t.cryptor pair' := by
  cases hrole : id.mRole with
  | roleLocal => rw [t.dispose_local id hrole]
  | roleRemote =>
    rw [t.dispose_remote id hrole, cryptor, socks5_setEstablished, cryptor]
    split
    · next h => rw [h]
    · rfl

end Tunnels

section
variable {t u : Tunnels β σ} {id : TunnelId} {calls : Calls} {out : List β}
  {r : Except Throwable Unit}

/-- Passing bytes on does not touch a cipher object. -/
theorem Relayed.cryptor (h : Relayed calls id t out r u) (pair : Nat) :
    u.cryptor pair = t.cryptor pair := by
  cases h with
  | failed b =>
    exact Tunnels.cryptor_dispose (({ t with mChannelBuffer := b }).send id.mBrotherTunnel _) id pair
  | sent => rfl
  | overflow => rfl
  | cancelled => rfl
  | scheduled => rfl

variable [Inhabited β] {C : StreamCipher β σ} {own : Nat → Byte → β}

theorem recode_state (C : StreamCipher β σ) (own : Nat → Byte → β) (id : TunnelId)
    {c : CryptBase β σ} (hcipher : ∃ s, Encrypting c s) (iv : IV Byte) (bytes : List β) :
    (recode C id.mRole c bytes).2 = perform C c (readCall own id iv bytes) := by
  obtain ⟨s, hs⟩ := hcipher
  cases hrole : id.mRole with
  | roleLocal =>
    simp only [recode_local hs, readCall, hrole, perform, CryptBase.exec_encrypt_next _ hs.1 hs.2]
    rfl
  | roleRemote => simp only [recode, readCall, hrole, perform, receive_state]

theorem Readable.cryptor (h : Readable C own t id calls r u) (hc : Connected t id) :
    u.cryptor id.pair = performed C (t.cryptor id.pair) (handlerCalls own t id calls .opRead) ∧
      ∀ pair, pair ≠ id.pair → u.cryptor pair = t.cryptor pair := by
  -- the cipher object after a read
  have hread {chunk : Chunk} (hbytes : calls.read = .bytes chunk) (hne : chunk.val ≠ [])
      {r : Except Throwable (List β)} {c : CryptBase β σ}
      (hcode : recode C id.mRole (t.socks5 id.pair).mCryptor (chunk.val.map (own id.pair)) = (r, c)) :
      c = performed C (t.cryptor id.pair) (handlerCalls own t id calls .opRead) := by
    have hstate := recode_state C own id hc.cipher calls.iv (chunk.val.map (own id.pair))
    rw [hcode] at hstate
    simp only [handlerCalls, hbytes, if_neg hne]
    exact hstate
  cases h with
  | nothing b hb chunk hbytes hempty =>
    simp only [handlerCalls, hbytes, if_pos hempty]
    exact ⟨rfl, fun _ _ => rfl⟩
  | ended b hb hbytes =>
    have hnone : handlerCalls own t id calls .opRead = [] := by
      cases hread : calls.read with
      | bytes chunk => exact absurd hread (hbytes chunk)
      | endOfStream => simp only [handlerCalls, hread]
      | ioException => simp only [handlerCalls, hread]
    rw [hnone]
    exact ⟨Tunnels.cryptor_dispose _ id _, fun pair _ => Tunnels.cryptor_dispose _ id pair⟩
  | broken b hb chunk hbytes hne e c hcode =>
    exact ⟨(Tunnels.cryptor_setCryptor ..).trans (hread hbytes hne hcode),
      fun pair hpair => Tunnels.cryptor_setCryptor_ne _ _ hpair c⟩
  | kept b hb chunk hbytes hne out c hcode =>
    exact ⟨(Tunnels.cryptor_setCryptor ..).trans (hread hbytes hne hcode),
      fun pair hpair => Tunnels.cryptor_setCryptor_ne _ _ hpair c⟩
  | relayed b hb chunk hbytes hne out c hcode hestablished hout hrelayed =>
    constructor
    · rw [hrelayed.cryptor]
      exact (Tunnels.cryptor_setCryptor ..).trans (hread hbytes hne hcode)
    · intro pair hpair
      rw [hrelayed.cryptor]
      exact Tunnels.cryptor_setCryptor_ne _ _ hpair c

theorem Resent.cryptor {b : ByteBuffer β} {t₁ : Tunnels β σ} (h : Resent C t id out b t₁) :
    t₁.cryptor id.pair = performed C (t.cryptor id.pair) (handlerCalls own t id calls .opWrite) ∧
      ∀ pair, pair ≠ id.pair → t₁.cryptor pair = t.cryptor pair := by
  cases h with
  | asIs hrole =>
    exact ⟨by simp only [handlerCalls, hrole]; rfl, fun _ _ => rfl⟩
  | again hrole s hs hzero b =>
    have hexec : (CryptBase.encrypt C (drawIV own id.pair calls.iv) t.mWriteRemainingBuffer.left).exec
        (t.cryptor id.pair) = _ := CryptBase.exec_encrypt_next _ hs.1 hs.2
    refine ⟨(Tunnels.cryptor_setCryptor ..).trans ?_,
      fun pair hpair => Tunnels.cryptor_setCryptor_ne _ _ hpair _⟩
    simp only [handlerCalls, hrole, hzero, if_true]
    exact (congrArg Prod.snd hexec).symm

theorem Writable.cryptor (h : Writable C t id calls r u) :
    u.cryptor id.pair = performed C (t.cryptor id.pair) (handlerCalls own t id calls .opWrite) ∧
      ∀ pair, pair ≠ id.pair → u.cryptor pair = t.cryptor pair := by
  cases h with
  | underflow hrole hpos =>
    exact ⟨by simp only [handlerCalls, hrole, if_neg (Nat.ne_of_gt hpos)]; rfl, fun _ _ => rfl⟩
  | failed out b hb t₁ hresent k =>
    have hsame (pair : Nat) : ((t₁.afterWrite id b (out.take k)).dispose id).cryptor pair =
        t₁.cryptor pair := Tunnels.cryptor_dispose _ id pair
    simp only [hsame]
    exact hresent.cryptor
  | drained out b hb t₁ hresent => exact hresent.cryptor
  | cancelled out b hb t₁ hresent => exact hresent.cryptor
  | resumed out b hb t₁ hresent => exact hresent.cryptor

theorem cryptor_onConnected (C : StreamCipher β σ) (own : Nat → Byte → β) (calls : Calls)
    (h : Connecting t id) :
    ∀ pair, ((onConnected C own id calls).exec t).2.cryptor pair =
      (t.setCryptor id.pair ((Socks5Protocol.handshake C (own id.pair) (drawIV own id.pair calls.iv)
        (t.socks5 id.pair).mDestAddress).exec (t.socks5 id.pair).mCryptor).2).cryptor pair := by
  intro pair
  rcases @Socks5Protocol.exec_handshake_cases β σ _ (own id.pair) (t.socks5 id.pair).mDestAddress _ C
      (drawIV own id.pair calls.iv) h.fresh with
    ⟨hshort, b, hexec, -⟩ | ⟨hlong, c, hexec⟩
  · rcases exec_onConnected C own calls h with ⟨hlong, -⟩ | ⟨-, hs, -, hconnected⟩
    · exact absurd hshort (Nat.not_le.mpr hlong)
    · rw [hconnected, Tunnels.cryptor, hexec]
      by_cases hpair : pair = id.pair
      · rw [hpair, Tunnels.socks5_establish, Tunnels.cryptor_setCryptor]
        rfl
      · rw [Tunnels.socks5_establish_ne _ _ _ _ hpair, Tunnels.cryptor_setCryptor_ne _ _ hpair,
          Tunnels.cryptor]
  · have hconnected : (onConnected C own id calls).exec t =
        (.error .bufferOverflow, t.setCryptor id.pair c) := by
      simp only [onConnected, h.role, Prog.exec_bind, Prog.exec_get, exec_onCryptor, hexec]
    rw [hconnected, hexec]

theorem cryptor_onConnectable (C : StreamCipher β σ) (own : Nat → Byte → β) (calls : Calls)
    (h : Connecting t id) :
    ((onConnectable C own id calls).exec t).2.cryptor id.pair =
        performed C (t.cryptor id.pair) (handlerCalls own t id calls .opConnect) ∧
      ∀ pair, pair ≠ id.pair →
        ((onConnectable C own id calls).exec t).2.cryptor pair = t.cryptor pair := by
  cases hcall : calls.finishConnect with
  | none =>
    have hexec : (onConnectable C own id calls).exec t = (.ok (), (t.close id).dispose id) := by
      simp only [onConnectable, hcall]
      rw [exec_catchIOException]
      rfl
    simp only [handlerCalls, hcall, hexec]
    exact ⟨Tunnels.cryptor_dispose (t.close id) id _,
      fun pair _ => Tunnels.cryptor_dispose (t.close id) id pair⟩
  | some finished =>
    cases finished with
    | false =>
      have hexec : (onConnectable C own id calls).exec t = (.ok (), t.dispose id) := by
        simp only [onConnectable, hcall]
        rw [exec_catchIOException]
        rfl
      simp only [handlerCalls, hcall, hexec]
      exact ⟨Tunnels.cryptor_dispose t id _, fun pair _ => Tunnels.cryptor_dispose t id pair⟩
    | true =>
      have hne : ((onConnected C own id calls).exec t).1 ≠ .error .io := by
        rcases exec_onConnected C own calls h with ⟨-, c, hexec⟩ | ⟨-, hs, -, hexec⟩
        · rw [hexec]
          simp
        · rw [hexec]
          simp
      have hexec : (onConnectable C own id calls).exec t = (onConnected C own id calls).exec t := by
        simp only [onConnectable, hcall]
        exact exec_catchIOException_eq hne
      rw [hexec]
      constructor
      · rw [cryptor_onConnected C own calls h, Tunnels.cryptor_setCryptor,
          Socks5Protocol.handshake_state]
        by_cases hfit : (t.socks5 id.pair).mDestAddress.hostName.length ≤ 1020
        · simp only [handlerCalls, hcall, hfit, and_self, if_true]
          rfl
        · simp only [handlerCalls, hcall, hfit, and_false, if_false]
          rfl
      · intro pair hpair
        rw [cryptor_onConnected C own calls h, Tunnels.cryptor_setCryptor_ne _ _ hpair]

-- ---------------------------------------------------------------------------
-- `beforeSend` in `onReadable`
-- ---------------------------------------------------------------------------

/-- `onReadable` up to `beforeSend`. -/
def untilSend (C : StreamCipher β σ) (own : Nat → Byte → β) (id : TunnelId) (chunk : Chunk) :
    Handler β σ Unit := do
  modify fun t => { t with mChannelBuffer := t.mChannelBuffer.clear }
  receive own id chunk.val
  let mChannelBuffer ← afterReceived C id (← get).mChannelBuffer
  modify ({ · with mChannelBuffer })

/-- From there on `onReadable` is `relay`, which starts with `beforeSend`. -/
theorem exec_onReadable_untilSend {chunk : Chunk} (hread : calls.read = .bytes chunk)
    (hne : chunk.val ≠ []) (h : (untilSend C own id chunk).exec t = (.ok (), u)) :
    (onReadable C own id calls).exec t =
      (catchIOException id
        (if u.isTunnelEstablished id ∧ u.mChannelBuffer.hasRemaining then relay C own id calls
        else pure ())).exec u := by
  have hpos : 0 < chunk.val.length := List.length_pos_iff.mpr hne
  simp only [untilSend, Prog.exec_bind, Prog.exec_modify, Prog.exec_get] at h
  simp only [onReadable, Prog.exec_bind, Prog.exec_modify, hread, hpos, if_true, exec_catchIOException,
    Prog.exec_get]
  rcases hreceive : (receive own id chunk.val).exec
    { t with mChannelBuffer := t.mChannelBuffer.clear } with ⟨e | ⟨⟩, v⟩
  · rw [hreceive] at h
    cases h
  · rw [hreceive] at h
    dsimp only at h ⊢
    rcases hafter : (afterReceived C id v.mChannelBuffer).exec v with ⟨e | b, w⟩
    · rw [hafter] at h
      cases h
    · rw [hafter] at h
      cases h
      rfl

/-- The buffer at `beforeSend`, and the cipher object. -/
theorem untilSend_buffer {chunk : Chunk} (hc : Connected t id)
    (h : (untilSend C own id chunk).exec t = (.ok (), u)) :
    u.mChannelBuffer.position = 0 ∧ u.mChannelBuffer.capacity = capacity ∧
      (id.mRole = .roleLocal → u.cryptor id.pair = t.cryptor id.pair) := by
  obtain ⟨b, hreceive, hcap, hzero, -⟩ := @exec_receive β σ t id own _ hc.channelBuffer chunk
  simp only [untilSend, Prog.exec_bind, Prog.exec_modify, Prog.exec_get, hreceive] at h
  cases hrole : id.mRole with
  | roleLocal =>
    simp only [afterReceived, hrole, Prog.exec_pure] at h
    cases h
    exact ⟨hzero, hcap, fun _ => rfl⟩
  | roleRemote =>
    simp only [afterReceived, hrole, exec_onCryptor] at h
    rcases CryptBase.decrypt_cases C b.left (t.cryptor id.pair) with
      ⟨out, c, hdecrypt, hlen⟩ | ⟨e, c, hdecrypt, -⟩
    · have hfit : out.length ≤ b.capacity := by
        rw [b.length_left] at hlen
        exact Nat.le_trans hlen b.remaining_le_capacity
      obtain ⟨b', hexec, -, hzero', hcap'⟩ := Socks5Tunnel.exec_recode_ok hzero hdecrypt hfit
      have hafter : (Socks5Tunnel.afterReceived C b).exec (t.socks5 id.pair).mCryptor = (.ok b', c) :=
        hexec
      simp only [Tunnels.receive, Tunnels.setChannel, hafter] at h
      cases h
      exact ⟨hzero', hcap'.trans hcap, by rintro ⟨⟩⟩
    · have hafter : (Socks5Tunnel.afterReceived C b).exec (t.socks5 id.pair).mCryptor =
          (.error e, c) := by
        refine (Socks5Tunnel.exec_recode hzero).trans ?_
        have hdecrypt : (CryptBase.decrypt C b.left).exec (t.socks5 id.pair).mCryptor = (.error e, c) :=
          hdecrypt
        rw [hdecrypt]
      simp only [Tunnels.receive, Tunnels.setChannel, hafter] at h
      cases h

/-- `beforeSend` gives back as many bytes as it gets, in a buffer of the same
size. -/
def SendsWhole (C : StreamCipher β σ) (own : Nat → Byte → β) (id : TunnelId) (u : Tunnels β σ) : Prop :=
  ∀ iv, ∃ b v, (beforeSend C own id.mBrotherTunnel iv u.mChannelBuffer).exec u = (.ok b, v) ∧
    b.left.length = u.mChannelBuffer.left.length ∧ b.position = 0 ∧ b.capacity = capacity

theorem sendsWhole_of_connected {chunk : Chunk} (hc : Connected t id)
    (h : (untilSend C own id chunk).exec t = (.ok (), u)) : SendsWhole C own id u := by
  intro iv
  obtain ⟨hzero, hcap, hsame⟩ := untilSend_buffer hc h
  cases hrole : id.mRole with
  | roleLocal =>
    have hbrother : id.mBrotherTunnel.mRole = .roleRemote := by
      simp only [TunnelId.mBrotherTunnel, hrole]
    obtain ⟨s, hs⟩ := hc.cipher
    have hs' : Encrypting (u.cryptor id.pair) s := by rwa [hsame hrole]
    obtain ⟨b, hexec, hleft, hzero', hcap'⟩ := exec_beforeSend_remote C own hbrother iv hs' hzero
    refine ⟨b, _, hexec, ?_, hzero', hcap'.trans hcap⟩
    rw [hleft, C.encrypting.length_output]
  | roleRemote =>
    have hbrother : id.mBrotherTunnel.mRole = .roleLocal := by
      simp only [TunnelId.mBrotherTunnel, hrole]
    refine ⟨u.mChannelBuffer, u, ?_, rfl, hzero, hcap⟩
    rw [beforeSend_local hbrother]
    rfl

end

end SmartSocks.Tunnel

namespace SmartSocks.Sslocal

open Jvm Crypto Tunnel

namespace SelectorThread

variable {β σ : Type}

-- ---------------------------------------------------------------------------
-- Runs
-- ---------------------------------------------------------------------------

/-- The calls of one round on the cipher object of a pair. -/
def cipherCalls (own : Nat → Byte → β) (pair : Nat) (s : SelectorThread β σ) :
    Round → List (Call β)
  | .handle calls =>
    match s.selectedKeys with
    | .tunnel id readyOps :: _ =>
      if id.pair = pair ∧ isValid s.tunnels id = true then handlerCalls own s.tunnels id calls readyOps
      else []
    | _ => []
  | _ => []

variable [Inhabited β] (C : StreamCipher β σ) (own : Nat → Byte → β)

/-- The calls of a run. -/
def runCalls (pair : Nat) : SelectorThread β σ → List Round → List (Call β)
  | _, [] => []
  | s, e :: es =>
    cipherCalls own pair s e ++
      match step C own s e with
      | some t => runCalls pair t es
      | none => []

variable {C own} {s t : SelectorThread β σ} {e : Round} {pair : Nat}

theorem step_handle {id : TunnelId} {readyOps : Op} {keys : List Selected} (hrunning : s.stopped = none)
    (hkeys : s.selectedKeys = .tunnel id readyOps :: keys) (hvalid : isValid s.tunnels id = true)
    (calls : Calls) :
    step C own s (.handle calls) =
      some (s.finish keys ((handler C own id readyOps calls).exec s.tunnels)) := by
  simp only [step, hrunning, hkeys, hvalid, Option.isSome_none, Bool.false_eq_true, if_false, if_true]

/-- The calls of a handler, seen from any pair. -/
theorem cryptor_handle {id : TunnelId} {readyOps : Op} {keys : List Selected} {calls : Calls}
    {u : Tunnels β σ} (hkeys : s.selectedKeys = .tunnel id readyOps :: keys)
    (hvalid : isValid s.tunnels id = true)
    (h : u.cryptor id.pair =
        performed C (s.tunnels.cryptor id.pair) (handlerCalls own s.tunnels id calls readyOps) ∧
      ∀ pair, pair ≠ id.pair → u.cryptor pair = s.tunnels.cryptor pair) :
    u.cryptor pair =
      performed C (s.tunnels.cryptor pair) (cipherCalls own pair s (.handle calls)) := by
  simp only [cipherCalls, hkeys, hvalid, and_true]
  by_cases hpair : id.pair = pair
  · subst hpair
    simp only [if_true]
    exact h.1
  · simp only [hpair, if_false]
    exact h.2 pair (Ne.symm hpair)

/-- A cipher object changes by the calls of the round. -/
theorem cryptor_step (pair : Nat) (hs : Steady s) (h : step C own s e = some t) :
    t.tunnels.cryptor pair = performed C (s.tunnels.cryptor pair) (cipherCalls own pair s e) := by
  cases step_cases hs h with
  | selected => rfl
  | skipped id readyOps keys hkeys hinvalid calls =>
    simp only [cipherCalls, hkeys, hinvalid, Bool.false_eq_true, and_false, if_false]
    rfl
  | accepted keys hkeys calls haccept =>
    refine Eq.trans ?_ (show s.tunnels.cryptor pair = performed C _ [] from rfl)
    have hnew := (hs.fresh s.accepted (Nat.le_refl _)).socks5
    have hset (dest : InetSocketAddress) :
        (s.tunnels.setSocks5 s.accepted { mDestAddress := dest }).cryptor pair =
          s.tunnels.cryptor pair := by
      unfold Tunnels.cryptor
      by_cases hpair : pair = s.accepted
      · rw [hpair, Tunnels.socks5_setSocks5, hnew]
      · rw [Tunnels.socks5_setSocks5_ne _ _ hpair]
    cases haccept with
    | failed => rfl
    | dropped => rfl
    | unprotected haccept hserver dest => exact hset dest
    | refused haccept hserver dest => exact hset dest
    | connecting haccept hserver dest => exact hset dest
  | readable id keys hkeys hvalid hc calls hreadable =>
    exact cryptor_handle hkeys hvalid (hreadable.cryptor hc)
  | writable id keys hkeys hvalid hc calls hwritable =>
    exact cryptor_handle hkeys hvalid hwritable.cryptor
  | connectable id keys hkeys hvalid hc calls =>
    have hstep := h.symm.trans (step_handle (running_of_step h) hkeys hvalid calls)
    rw [congrArg SelectorThread.tunnels (Option.some.inj hstep)]
    exact cryptor_handle hkeys hvalid (cryptor_onConnectable C own calls hc)

omit [Inhabited β] in
/-- The first call on the cipher object of a pair is the one of its handshake. -/
theorem cipherCalls_fresh (own : Nat → Byte → β) (e : Round) (hs : Steady s) (hfresh : s.tunnels.greeted pair = false) :
    cipherCalls own pair s e = [] ∨ ∃ iv dest, cipherCalls own pair s e =
      [.encrypt (drawIV own pair iv) ((Socks5Protocol.header dest).map (own pair))] := by
  cases e with
  | select => exact .inl rfl
  | accept => exact .inl rfl
  | handle calls =>
    rcases hkeys : s.selectedKeys with _ | ⟨_ | ⟨id, readyOps⟩, keys⟩
    · simp only [cipherCalls, hkeys, true_or]
    · simp only [cipherCalls, hkeys, true_or]
    · simp only [cipherCalls, hkeys]
      split
      · next hid =>
        obtain ⟨rfl, -⟩ := hid
        have hok := hs.selected id readyOps (hkeys ▸ List.mem_cons_self ..)
        obtain rfl := hok.connect.mpr hfresh
        rw [handlerCalls]
        split
        · exact .inr ⟨calls.iv, _, rfl⟩
        · exact .inl rfl
      · exact .inl rfl

theorem cryptor_run (pair : Nat) {rounds : List Round} (hs : s.stopped = none → Steady s)
    (hr : Machine.run (step C own) s rounds = some t) :
    t.tunnels.cryptor pair = performed C (s.tunnels.cryptor pair) (runCalls C own pair s rounds) := by
  induction rounds generalizing s with
  | nil =>
    cases hr
    rfl
  | cons e rounds ih =>
    obtain ⟨u, hu, hr⟩ := Machine.run_cons.mp hr
    have hsteady := hs (running_of_step hu)
    rw [ih (steady_step hsteady hu) hr, cryptor_step pair hsteady hu, ← performed_append]
    simp only [runCalls, hu]

theorem runCalls_head {rounds : List Round} {call : Call β} (hs : s.stopped = none → Steady s)
    (hfresh : s.tunnels.greeted pair = false)
    (hr : Machine.run (step C own) s rounds = some t)
    (hcall : call ∈ (runCalls C own pair s rounds).head?) :
    ∃ iv dest, call = .encrypt (drawIV own pair iv) ((Socks5Protocol.header dest).map (own pair)) := by
  induction rounds generalizing s with
  | nil => cases hcall
  | cons e rounds ih =>
    obtain ⟨u, hu, hr⟩ := Machine.run_cons.mp hr
    have hsteady := hs (running_of_step hu)
    simp only [runCalls, hu] at hcall
    rcases cipherCalls_fresh own e hsteady hfresh with hnone | ⟨iv, dest, hone⟩
    · rw [hnone] at hcall
      refine ih (steady_step hsteady hu) ?_ hr hcall
      have hsame := cryptor_step pair hsteady hu
      rw [hnone] at hsame
      exact (congrArg CryptBase.encryptIVSet hsame).trans hfresh
    · rw [hone] at hcall
      cases hcall
      exact ⟨iv, dest, rfl⟩

/-- What holds of the calls on the cipher object of a pair. -/
structure EncryptedOnce (C : StreamCipher β σ) (own : Nat → Byte → β) (s : SelectorThread β σ)
    (pair : Nat) (calls : List (Call β)) : Prop where
  /-- The cipher object has seen these calls. -/
  cryptor : s.tunnels.cryptor pair = performed C {} calls
  /-- What `encrypt` has returned is one IV and one ciphertext. -/
  stream : ∃ outs : List (List β), emitted C {} calls = outs.map .ok ∧ outs.flatten = ivStream C calls
  /-- The IV is that of the handshake. -/
  handshake : ∀ call ∈ calls.head?, ∃ iv dest,
    call = .encrypt (drawIV own pair iv) ((Socks5Protocol.header dest).map (own pair))
  /-- The client's channel is not registered before it. -/
  registered : s.stopped = none → (s.tunnels.mSocketChannel ⟨pair, .roleLocal⟩).key ≠ none → calls ≠ []

/-- In every run, each cipher object emits one IV, and `beforeSend` never makes a
chunk longer. -/
theorem encrypted_once (rounds : List Round) (hr : Machine.run (step C own) initial rounds = some s) :
    (∀ pair, EncryptedOnce C own s pair (runCalls C own pair initial rounds)) ∧
      ∀ id keys chunk u, s.stopped = none → s.selectedKeys = .tunnel id .opRead :: keys →
        isValid s.tunnels id = true → (untilSend C own id chunk).exec s.tunnels = (.ok (), u) →
        SendsWhole C own id u := by
  have hinitial : (initial : SelectorThread β σ).stopped = none →
      Steady (initial : SelectorThread β σ) := fun _ => steady_initial
  constructor
  · intro pair
    have hcryptor := cryptor_run pair hinitial hr
    have hfresh : (initial : SelectorThread β σ).tunnels.greeted pair = false := rfl
    refine ⟨hcryptor, emitted_fresh _ rfl, fun _ => runCalls_head hinitial hfresh hr, ?_⟩
    intro hrunning hkey hnone
    -- a registered channel of the client belongs to a pair that was greeted
    have hsteady := steady_run hr hrunning
    have hgreeted : (s.tunnels.cryptor pair).encryptIVSet = true :=
      (hsteady.wired.channel ⟨pair, .roleLocal⟩).answering rfl hkey
    rw [hcryptor, hnone] at hgreeted
    cases hgreeted
  · intro id keys chunk u hrunning hkeys hvalid huntil
    have hsteady := steady_run hr hrunning
    have hok := hsteady.selected id .opRead (hkeys ▸ List.mem_cons_self ..)
    have hgreeted : s.tunnels.greeted id.pair = true := by
      rw [← Bool.not_eq_false]
      exact mt hok.connect.mpr (by simp)
    exact sendsWhole_of_connected (hsteady.wired.connected hgreeted) huntil

/-- A pair is connected and its client sends two bytes. -/
def uploadRounds : List Round :=
  connectRounds 0 ++
    [.select [.tunnel ⟨0, .roleLocal⟩ .opRead], .handle (sampleCalls request [2]),
      .select [.tunnel ⟨0, .roleLocal⟩ .opRead]]

theorem upload_encrypted_once :
    EncryptedOnce feedback (fun _ b => b) (after feedback (fun _ b => b) uploadRounds) 0
        (runCalls feedback (fun _ b => b) 0 initial uploadRounds) ∧
      ∀ u, (untilSend feedback (fun _ b => b) ⟨0, .roleLocal⟩ request).exec
          (after feedback (fun _ b => b) uploadRounds).tunnels = (.ok (), u) →
        SendsWhole feedback (fun _ b => b) ⟨0, .roleLocal⟩ u := by
  obtain ⟨honce, hsends⟩ := encrypted_once uploadRounds (run_after feedback (fun _ b => b) uploadRounds rfl)
  exact ⟨honce 0, fun u => hsends ⟨0, .roleLocal⟩ [] request u rfl rfl rfl⟩

end SelectorThread

end SmartSocks.Sslocal
