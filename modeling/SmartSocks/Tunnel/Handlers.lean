import SmartSocks.Tunnel.Updates

/-!
# What the handlers do

Each handler of the selector thread is run once here, symbolically, and what it
can do is listed by cases (`Readable`, `Writable`, `Connectable`): the bytes that
move, the cipher state, the key that is cancelled and the channel that is
registered, and for each exception what came before it. Results about runs are
derived from these cases. They hold of a pair that is set up as the thread sets
it up: the static buffers have their capacity, and the cipher is started before
the channels are registered for reading.
-/

namespace SmartSocks.Tunnel

open Jvm Crypto

variable {β σ : Type}

-- ---------------------------------------------------------------------------
-- Writing to a channel
-- ---------------------------------------------------------------------------

/-- How many of `room` bytes the loop of `write` gets rid of, and whether it
ends with an `IOException`. -/
def accepted : List WriteResult → Nat → Nat × Bool
  | [], _ => (0, false)
  | .ioException :: _, _ => (0, true)
  | .accepts count :: writes, room =>
    if min count room = 0 then (0, false)
    else
      (min count room + (accepted writes (room - min count room)).1,
        (accepted writes (room - min count room)).2)

theorem accepted_le (writes : List WriteResult) (room : Nat) : (accepted writes room).1 ≤ room := by
  induction writes generalizing room with
  | nil => exact Nat.zero_le _
  | cons result writes ih =>
    cases result with
    | ioException => exact Nat.zero_le _
    | accepts count =>
      rw [accepted]
      split
      · exact Nat.zero_le _
      · have := ih (room - min count room)
        simp only
        omega

theorem exec_writeLoop (id : TunnelId) (writes : List WriteResult) (bytesWrite : Int)
    (b : ByteBuffer β) (t : Tunnels β σ) :
    (writeLoop id writes bytesWrite b).exec t =
      (.ok (if (accepted writes b.remaining).2 then -1
          else bytesWrite + (accepted writes b.remaining).1,
        b.advance (accepted writes b.remaining).1),
      t.send id (b.left.take (accepted writes b.remaining).1)) := by
  induction writes generalizing bytesWrite b t with
  | nil => simp [writeLoop, accepted, b.advance_zero, t.send_nil]
  | cons result writes ih =>
    cases result with
    | ioException => simp [writeLoop, accepted, b.advance_zero, t.send_nil]
    | accepts count =>
      rw [writeLoop, accepted]
      by_cases h : min count b.remaining = 0
      · simp [h, b.advance_zero, t.send_nil]
      · have hleft : b.left.take (min count b.remaining) ++
            ((b.advance (min count b.remaining)).left).take
              (accepted writes (b.remaining - min count b.remaining)).1 =
            b.left.take (min count b.remaining +
              (accepted writes (b.remaining - min count b.remaining)).1) := by
          rw [b.advance_left (Nat.min_le_right _ _), List.take_add]
        simp only [h, if_false, Prog.exec_bind, Prog.exec_modify, ih, b.advance_remaining,
          b.advance_advance, t.send_send, hleft, Int.natCast_add, Int.add_assoc]

theorem exec_write (id : TunnelId) (writes : List WriteResult) (b : ByteBuffer β) (t : Tunnels β σ) :
    (write id writes b).exec t =
      (.ok (if (accepted writes b.remaining).2 then -1 else ((accepted writes b.remaining).1 : Int),
        b.advance (accepted writes b.remaining).1),
      t.send id (b.left.take (accepted writes b.remaining).1)) := by
  rw [write, exec_writeLoop, Int.zero_add]

-- ---------------------------------------------------------------------------
-- Registering a channel
-- ---------------------------------------------------------------------------

section
variable {t : Tunnels β σ} {id : TunnelId} {ops : Op} {key : SelectionKey}

theorem exec_register_none (hopen : (t.mSocketChannel id).isOpen = true)
    (hkey : (t.mSocketChannel id).key = none) :
    (register id ops).exec t = (.ok (), t.setKey id (some { interestOps := ops })) := by
  simp [register, Prog.exec_bind, hopen, hkey]

theorem exec_register_valid (hopen : (t.mSocketChannel id).isOpen = true)
    (hkey : (t.mSocketChannel id).key = some key) (hvalid : key.isValid = true) :
    (register id ops).exec t = (.ok (), t.setKey id (some { interestOps := ops })) := by
  simp [register, Prog.exec_bind, hopen, hkey, hvalid]

theorem exec_register_cancelled (hopen : (t.mSocketChannel id).isOpen = true)
    (hkey : (t.mSocketChannel id).key = some key) (hvalid : key.isValid = false) :
    (register id ops).exec t = (.error .cancelledKey, t) := by
  simp [register, Prog.exec_bind, hopen, hkey, hvalid]

/-- The key of a channel was cancelled and is still there. -/
def Tunnels.Cancelled (t : Tunnels β σ) (id : TunnelId) : Prop :=
  ∃ key, (t.mSocketChannel id).key = some key ∧ key.isValid = false

theorem exec_register (ops : Op) (hopen : (t.mSocketChannel id).isOpen = true) :
    t.Cancelled id ∧ (register id ops).exec t = (.error .cancelledKey, t) ∨
      ¬ t.Cancelled id ∧
        (register id ops).exec t = (.ok (), t.setKey id (some { interestOps := ops })) := by
  unfold Tunnels.Cancelled
  cases hkey : (t.mSocketChannel id).key with
  | none =>
    right
    refine ⟨?_, exec_register_none hopen hkey⟩
    rintro ⟨_, h, -⟩
    cases h
  | some key =>
    cases hvalid : key.isValid with
    | true =>
      right
      refine ⟨?_, exec_register_valid hopen hkey hvalid⟩
      rintro ⟨_, h, hinvalid⟩
      cases h
      rw [hvalid] at hinvalid
      cases hinvalid
    | false => exact .inl ⟨⟨key, rfl, hvalid⟩, exec_register_cancelled hopen hkey hvalid⟩

end

-- ---------------------------------------------------------------------------
-- Leftovers
-- ---------------------------------------------------------------------------

section
variable {t : Tunnels β σ} {id : TunnelId} {b : ByteBuffer β}

/-- The leftover is put behind the position of the static buffer. -/
def Tunnels.schedule (t : Tunnels β σ) (bytes : List β) : Tunnels β σ :=
  { t with mWriteRemainingBuffer := (t.mWriteRemainingBuffer.store bytes).flip }

theorem exec_scheduleRemainWrite (hopen : (t.mSocketChannel id).isOpen = true) :
    t.mWriteRemainingBuffer.remaining < b.remaining ∧
        (scheduleRemainWrite id b).exec t = (.error .bufferOverflow, t) ∨
      b.remaining ≤ t.mWriteRemainingBuffer.remaining ∧
        (t.Cancelled id ∧
            (scheduleRemainWrite id b).exec t = (.error .cancelledKey, t.schedule b.left) ∨
          ¬ t.Cancelled id ∧ (scheduleRemainWrite id b).exec t =
            (.ok (), (t.schedule b.left).setKey id (some { interestOps := .opWrite }))) := by
  rcases Nat.lt_or_ge t.mWriteRemainingBuffer.remaining b.remaining with hlt | hle
  · left
    have hlong : t.mWriteRemainingBuffer.remaining < b.left.length := by rwa [b.length_left]
    refine ⟨hlt, ?_⟩
    simp [scheduleRemainWrite, Prog.exec_bind, ByteBuffer.put_overflow _ hlong]
  · right
    have hfit : b.left.length ≤ t.mWriteRemainingBuffer.remaining := by rwa [b.length_left]
    have hexec : (scheduleRemainWrite id b).exec t = (register id .opWrite).exec (t.schedule b.left) := by
      simp [scheduleRemainWrite, Prog.exec_bind, ByteBuffer.put_ok _ hfit, Tunnels.schedule]
    rw [hexec]
    exact ⟨hle, exec_register .opWrite (t := t.schedule b.left) hopen⟩

end

-- ---------------------------------------------------------------------------
-- The cipher object of a pair
-- ---------------------------------------------------------------------------

section
variable {t : Tunnels β σ} {pair : Nat}

theorem exec_onCryptor {α : Type} (m : Prog (CryptBase β σ) α) :
    (onCryptor pair m).exec t =
      ((m.exec (t.socks5 pair).mCryptor).1, t.setCryptor pair (m.exec (t.socks5 pair).mCryptor).2) := rfl

/-- The cipher object has an encrypting cipher. -/
def Encrypting (c : CryptBase β σ) (s : σ) : Prop := c.encryptIVSet = true ∧ c.encCipher = some s

/-- The cipher object after it has encrypted some bytes more. -/
def encrypted (C : StreamCipher β σ) (c : CryptBase β σ) (s : σ) (bytes : List β) : CryptBase β σ :=
  { c with encCipher := some (C.encrypting.next s bytes) }

variable [Inhabited β] {C : StreamCipher β σ} {own : Nat → Byte → β} {id : TunnelId}
  {b : ByteBuffer β} {s : σ}

theorem beforeSend_local (hrole : id.mRole = .roleLocal) (iv : IV Byte) :
    beforeSend C own id iv b = pure b := by simp only [beforeSend, hrole]

theorem beforeSend_remote (hrole : id.mRole = .roleRemote) (iv : IV Byte) :
    beforeSend C own id iv b =
      onCryptor id.pair (Socks5Tunnel.beforeSend C (drawIV own id.pair iv) b) := by
  simp only [beforeSend, hrole]

/-- `beforeSend` of a remote tunnel whose cipher is started. -/
theorem exec_beforeSend_remote (C : StreamCipher β σ) (own : Nat → Byte → β)
    (hrole : id.mRole = .roleRemote) (iv : IV Byte)
    (hs : Encrypting (t.socks5 id.pair).mCryptor s) (hp : b.position = 0) :
    ∃ b', (beforeSend C own id iv b).exec t =
        (.ok b', t.setCryptor id.pair (encrypted C (t.socks5 id.pair).mCryptor s b.left)) ∧
      b'.left = C.encrypting.output s b.left ∧ b'.position = 0 ∧ b'.capacity = b.capacity := by
  have hfit : (C.encrypting.output s b.left).length ≤ b.capacity := by
    rw [C.encrypting.length_output, b.length_left]
    exact b.remaining_le_capacity
  obtain ⟨b', hexec, hb'⟩ :=
    Socks5Tunnel.exec_recode_ok hp
      (CryptBase.exec_encrypt_next (drawIV own id.pair iv) hs.1 hs.2) hfit
  refine ⟨b', ?_, hb'⟩
  have hcrypt : (Socks5Tunnel.beforeSend C (drawIV own id.pair iv) b).exec
      (t.socks5 id.pair).mCryptor = _ := hexec
  rw [beforeSend_remote hrole, exec_onCryptor, hcrypt]
  rfl

/-- A position behind the start makes it throw. -/
theorem exec_beforeSend_underflow (hrole : id.mRole = .roleRemote) (iv : IV Byte)
    (hp : 0 < b.position) : (beforeSend C own id iv b).exec t = (.error .bufferUnderflow, t) := by
  have hcrypt : (Socks5Tunnel.beforeSend C (drawIV own id.pair iv) b).exec
      (t.socks5 id.pair).mCryptor = _ := Socks5Tunnel.exec_recode_underflow hp
  rw [beforeSend_remote hrole, exec_onCryptor, hcrypt, t.setCryptor_self]

end

-- ---------------------------------------------------------------------------
-- `onReadable`
-- ---------------------------------------------------------------------------

/-- A pair that is connected: its channels are open and its cipher is started.
-/
structure Connected (t : Tunnels β σ) (id : TunnelId) : Prop where
  channelBuffer : t.mChannelBuffer.capacity = capacity
  remainingBuffer : t.mWriteRemainingBuffer.capacity = capacity
  isOpen : (t.mSocketChannel id).isOpen = true
  brotherOpen : (t.mSocketChannel id.mBrotherTunnel).isOpen = true
  cipher : ∃ s, Encrypting (t.socks5 id.pair).mCryptor s

/-- What becomes of the bytes that are passed on to the brother. -/
inductive Relayed (calls : Calls) (id : TunnelId) (t : Tunnels β σ) (out : List β) :
    Except Throwable Unit → Tunnels β σ → Prop
  | failed (b : ByteBuffer β) (hb : b.capacity = capacity)
      (hfailed : (accepted calls.writes out.length).2 = true) :
      Relayed calls id t out (.ok ())
        (((({ t with mChannelBuffer := b }).send id.mBrotherTunnel
          (out.take (accepted calls.writes out.length).1)).dispose id).cancel id)
  | sent (b : ByteBuffer β) (hb : b.capacity = capacity)
      (hwhole : accepted calls.writes out.length = (out.length, false)) :
      Relayed calls id t out (.ok ()) (({ t with mChannelBuffer := b }).send id.mBrotherTunnel out)
  | overflow (b : ByteBuffer β) (hb : b.capacity = capacity) (k : Nat) (hk : k < out.length)
      (hpart : accepted calls.writes out.length = (k, false))
      (hroom : t.mWriteRemainingBuffer.remaining < out.length - k) :
      Relayed calls id t out (.error .bufferOverflow)
        (({ t with mChannelBuffer := b }).send id.mBrotherTunnel (out.take k))
  | cancelled (b : ByteBuffer β) (hb : b.capacity = capacity) (k : Nat) (hk : k < out.length)
      (hpart : accepted calls.writes out.length = (k, false))
      (hroom : out.length - k ≤ t.mWriteRemainingBuffer.remaining)
      (hkey : t.Cancelled id.mBrotherTunnel) :
      Relayed calls id t out (.error .cancelledKey)
        ((({ t with mChannelBuffer := b }).send id.mBrotherTunnel (out.take k)).schedule (out.drop k))
  | scheduled (b : ByteBuffer β) (hb : b.capacity = capacity) (k : Nat) (hk : k < out.length)
      (hpart : accepted calls.writes out.length = (k, false))
      (hroom : out.length - k ≤ t.mWriteRemainingBuffer.remaining)
      (hkey : ¬ t.Cancelled id.mBrotherTunnel) :
      Relayed calls id t out (.ok ())
        ((((({ t with mChannelBuffer := b }).send id.mBrotherTunnel (out.take k)).schedule
          (out.drop k)).setKey id.mBrotherTunnel (some { interestOps := .opWrite })).cancel id)

section
variable {t t₁ : Tunnels β σ} {id : TunnelId} {calls : Calls} {b : ByteBuffer β}

theorem key_send (id' : TunnelId) (xs : List β) :
    ((t.send id' xs).mSocketChannel id).key = (t.mSocketChannel id).key := by
  unfold Tunnels.send
  by_cases h : id = id'
  · subst h
    rw [t.channel_setChannel]
  · rw [t.channel_setChannel_ne id' h]

theorem cancelled_send (id' : TunnelId) (xs : List β) :
    (t.send id' xs).Cancelled id ↔ t.Cancelled id := by
  unfold Tunnels.Cancelled
  rw [key_send]

theorem isOpen_send (id' : TunnelId) (xs : List β) :
    ((t.send id' xs).mSocketChannel id).isOpen = (t.mSocketChannel id).isOpen := by
  unfold Tunnels.send
  by_cases h : id = id'
  · subst h
    rw [t.channel_setChannel]
  · rw [t.channel_setChannel_ne id' h]

variable [Inhabited β] {C : StreamCipher β σ} {own : Nat → Byte → β}

theorem exec_relay (C : StreamCipher β σ) (own : Nat → Byte → β) (calls : Calls)
    (hsend : (beforeSend C own id.mBrotherTunnel calls.iv t.mChannelBuffer).exec t = (.ok b, t₁))
    (hb : b.capacity = capacity) (hopen : (t₁.mSocketChannel id.mBrotherTunnel).isOpen = true) :
    Relayed calls id t₁ b.left ((relay C own id calls).exec t).1 ((relay C own id calls).exec t).2 := by
  have hlen : b.left.length = b.remaining := b.length_left
  have hle := accepted_le calls.writes b.remaining
  simp only [relay, Prog.exec_bind, Prog.exec_get, hsend, exec_write, Prog.exec_modify]
  rcases hacc : accepted calls.writes b.remaining with ⟨k, failed⟩
  rw [hacc] at hle
  cases failed with
  | true =>
    have hk : k = (accepted calls.writes b.left.length).1 := by rw [hlen, hacc]
    have hnot : ¬ (0 : Int) ≤ -1 := by decide
    simp only [if_true, hnot, if_false, Prog.exec_bind, Prog.exec_modify]
    rw [hk]
    exact .failed _ hb (by rw [hlen, hacc])
  | false =>
    have hnonneg : (0 : Int) ≤ k := Int.natCast_nonneg k
    simp only [Bool.false_eq_true, if_false, hnonneg, if_true]
    rcases Nat.lt_or_ge k b.remaining with hlt | hge
    · have hmore : (b.advance k).hasRemaining = true := by
        rw [ByteBuffer.hasRemaining_iff, b.advance_remaining]
        exact Nat.sub_pos_of_lt hlt
      have hdrop : (b.advance k).left = b.left.drop k := b.advance_left hle
      have hrest : (b.advance k).remaining = b.left.length - k := by rw [b.advance_remaining, hlen]
      have hpart : accepted calls.writes b.left.length = (k, false) := by rw [hlen, hacc]
      have hkey : ({ t₁.send id.mBrotherTunnel (b.left.take k) with mChannelBuffer := b.advance k } :
          Tunnels β σ).Cancelled id.mBrotherTunnel ↔ t₁.Cancelled id.mBrotherTunnel :=
        cancelled_send _ _
      have hopen' : (({ t₁.send id.mBrotherTunnel (b.left.take k) with mChannelBuffer := b.advance k } :
          Tunnels β σ).mSocketChannel id.mBrotherTunnel).isOpen = true :=
        (isOpen_send _ _).trans hopen
      simp only [hmore, if_true, Prog.exec_bind, Prog.exec_modify]
      rcases exec_scheduleRemainWrite (b := b.advance k) hopen' with
        ⟨hroom, hexec⟩ | ⟨hroom, ⟨hcancel, hexec⟩ | ⟨hcancel, hexec⟩⟩
      · rw [hrest] at hroom
        rw [hexec]
        exact .overflow (b.advance k) hb k (hlen ▸ hlt) hpart hroom
      · rw [hrest] at hroom
        rw [hexec, hdrop]
        exact .cancelled (b.advance k) hb k (hlen ▸ hlt) hpart hroom (hkey.mp hcancel)
      · rw [hrest] at hroom
        rw [hexec, hdrop]
        exact .scheduled (b.advance k) hb k (hlen ▸ hlt) hpart hroom (mt hkey.mpr hcancel)
    · obtain rfl : k = b.remaining := Nat.le_antisymm hle hge
      have hdone : (b.advance b.remaining).hasRemaining = false := by
        rw [← Bool.not_eq_true, ByteBuffer.hasRemaining_iff, b.advance_remaining, Nat.sub_self]
        exact Nat.lt_irrefl 0
      simp only [hdone, Bool.false_eq_true, if_false]
      rw [← hlen, List.take_length]
      exact .sent _ hb (by rw [hlen, hacc])

end

/-- What a tunnel makes of the bytes it reads, with the cipher object of its
pair. -/
def recode [Inhabited β] (C : StreamCipher β σ) (role : TunnelRole) (c : CryptBase β σ)
    (bytes : List β) : Except Throwable (List β) × CryptBase β σ :=
  match role with
  | .roleLocal => (CryptBase.processEncrypt C bytes).exec c
  | .roleRemote => (CryptBase.decrypt C bytes).exec c

theorem recode_local [Inhabited β] {C : StreamCipher β σ} {c : CryptBase β σ} {s : σ}
    (hs : Encrypting c s) (bytes : List β) :
    recode C .roleLocal c bytes = (.ok (C.encrypting.output s bytes), encrypted C c s bytes) := by
  simp only [recode, CryptBase.processEncrypt, Prog.exec_bind, Prog.exec_get, hs.2]
  rfl

/-- The pair after bytes were read and recoded. -/
def Tunnels.afterRead (t : Tunnels β σ) (b : ByteBuffer β) (id : TunnelId) (bytes : List β)
    (c : CryptBase β σ) : Tunnels β σ :=
  ({ t with mChannelBuffer := b }.receive id bytes).setCryptor id.pair c

/-- Reading leaves the keys as they are. -/
theorem key_afterRead {t : Tunnels β σ} {b : ByteBuffer β} {id : TunnelId} {bytes : List β}
    {c : CryptBase β σ} (id' : TunnelId) :
    ((t.afterRead b id bytes c).mSocketChannel id').key = (t.mSocketChannel id').key :=
  Tunnels.key_receive { t with mChannelBuffer := b } id id' bytes

/-- What `onReadable` can do. -/
inductive Readable [Inhabited β] (C : StreamCipher β σ) (own : Nat → Byte → β) (t : Tunnels β σ)
    (id : TunnelId) (calls : Calls) : Except Throwable Unit → Tunnels β σ → Prop
  | nothing (b : ByteBuffer β) (hb : b.capacity = capacity) (chunk : Chunk)
      (hread : calls.read = .bytes chunk) (hempty : chunk.val = []) :
      Readable C own t id calls (.ok ()) { t with mChannelBuffer := b }
  | ended (b : ByteBuffer β) (hb : b.capacity = capacity)
      (hread : ∀ chunk, calls.read ≠ .bytes chunk) :
      Readable C own t id calls (.ok ()) ({ t with mChannelBuffer := b }.dispose id)
  | broken (b : ByteBuffer β) (hb : b.capacity = capacity) (chunk : Chunk)
      (hread : calls.read = .bytes chunk) (hne : chunk.val ≠ []) (e : Throwable) (c : CryptBase β σ)
      (hcode : recode C id.mRole (t.socks5 id.pair).mCryptor (chunk.val.map (own id.pair)) =
        (.error e, c)) :
      Readable C own t id calls (.error e) (t.afterRead b id (chunk.val.map (own id.pair)) c)
  | kept (b : ByteBuffer β) (hb : b.capacity = capacity) (chunk : Chunk)
      (hread : calls.read = .bytes chunk) (hne : chunk.val ≠ []) (out : List β) (c : CryptBase β σ)
      (hcode : recode C id.mRole (t.socks5 id.pair).mCryptor (chunk.val.map (own id.pair)) =
        (.ok out, c))
      (hkept : t.isTunnelEstablished id = false ∨ out = []) :
      Readable C own t id calls (.ok ()) (t.afterRead b id (chunk.val.map (own id.pair)) c)
  | relayed (b : ByteBuffer β) (hb : b.capacity = capacity) (chunk : Chunk)
      (hread : calls.read = .bytes chunk) (hne : chunk.val ≠ []) (out : List β) (c : CryptBase β σ)
      (hcode : recode C id.mRole (t.socks5 id.pair).mCryptor (chunk.val.map (own id.pair)) =
        (.ok out, c))
      (hestablished : t.isTunnelEstablished id = true) (hout : out ≠ [])
      {r : Except Throwable Unit} {u : Tunnels β σ}
      (hrelayed : Relayed calls id (t.afterRead b id (chunk.val.map (own id.pair)) c) out r u) :
      Readable C own t id calls r u

section
variable {t : Tunnels β σ} {id : TunnelId} {calls : Calls}

theorem exec_catchIOException (id : TunnelId) (m : Handler β σ Unit) (t : Tunnels β σ) :
    (catchIOException id m).exec t =
      match m.exec t with
      | (.ok (), u) => (.ok (), u)
      | (.error e, u) => if e = .io then (.ok (), u.dispose id) else (.error e, u) := by
  rw [catchIOException, Prog.exec_tryCatch]
  rcases m.exec t with ⟨e | ⟨⟩, u⟩
  · by_cases h : e = .io
    · simp [h]
    · simp [h]
  · rfl

/-- `catch` has nothing to do where no `IOException` is thrown. -/
theorem exec_catchIOException_eq {m : Handler β σ Unit} (h : (m.exec t).1 ≠ .error .io) :
    (catchIOException id m).exec t = m.exec t := by
  rw [exec_catchIOException]
  rcases hm : m.exec t with ⟨e | ⟨⟩, u⟩
  · rw [hm] at h
    have hne : e ≠ .io := fun heq => h (congrArg _ heq)
    exact if_neg hne
  · rfl

/-- What is in `mChannelBuffer` does not matter. -/
theorem Relayed.of_buffer {b : ByteBuffer β} {out : List β} {r : Except Throwable Unit}
    {u : Tunnels β σ} (h : Relayed calls id { t with mChannelBuffer := b } out r u) :
    Relayed calls id t out r u := by
  cases h with
  | failed b hb hfailed => exact .failed b hb hfailed
  | sent b hb hwhole => exact .sent b hb hwhole
  | overflow b hb k hk hpart hroom => exact .overflow b hb k hk hpart hroom
  | cancelled b hb k hk hpart hroom hkey => exact .cancelled b hb k hk hpart hroom hkey
  | scheduled b hb k hk hpart hroom hkey => exact .scheduled b hb k hk hpart hroom hkey

theorem Relayed.ne_io {out : List β} {r : Except Throwable Unit} {u : Tunnels β σ}
    (h : Relayed calls id t out r u) : r ≠ .error .io := by
  cases h <;> simp

variable [Inhabited β] {C : StreamCipher β σ} {own : Nat → Byte → β}

omit [Inhabited β] in
/-- `read` and `flip`: the buffer holds the bytes that were read. -/
theorem exec_receive (own : Nat → Byte → β) {b : ByteBuffer β} (hb : b.capacity = capacity)
    (chunk : Chunk) :
    ∃ b', (receive own id chunk.val).exec { t with mChannelBuffer := b.clear } =
        (.ok (), { t with mChannelBuffer := b' }.receive id (chunk.val.map (own id.pair))) ∧
      b'.capacity = capacity ∧ b'.position = 0 ∧ b'.left = chunk.val.map (own id.pair) := by
  have hfit : (chunk.val.map (own id.pair)).length ≤ b.clear.remaining := by
    rw [List.length_map, b.clear_remaining, hb]
    exact chunk.property
  refine ⟨(b.clear.store (chunk.val.map (own id.pair))).flip, ?_, hb, rfl, ?_⟩
  · simp only [receive, Prog.exec_bind, Prog.exec_get, ByteBuffer.put_ok _ hfit, Prog.exec_lift,
      Prog.exec_modify]
  · exact b.refilled_left (b.clear_remaining ▸ hfit)

/-- The part of `onReadable` behind a read that gave some bytes. -/
def passOn (C : StreamCipher β σ) (own : Nat → Byte → β) (id : TunnelId) (calls : Calls) :
    Handler β σ Unit := do
  let mChannelBuffer ← afterReceived C id (← get).mChannelBuffer
  modify ({ · with mChannelBuffer })
  if (← get).isTunnelEstablished id ∧ mChannelBuffer.hasRemaining then
    relay C own id calls

omit [Inhabited β] in
theorem hasRemaining_of_left {b : ByteBuffer β} : b.hasRemaining = true ↔ b.left ≠ [] := by
  rw [ByteBuffer.hasRemaining_iff, ← b.length_left, List.length_pos_iff]

theorem exec_passOn_local (C : StreamCipher β σ) (own : Nat → Byte → β) (calls : Calls)
    (hrole : id.mRole = .roleLocal) {s : σ}
    (hs : Encrypting (t.socks5 id.pair).mCryptor s) (hcap : t.mChannelBuffer.capacity = capacity)
    (hzero : t.mChannelBuffer.position = 0) (hne : t.mChannelBuffer.left ≠ [])
    (hopen : (t.mSocketChannel id.mBrotherTunnel).isOpen = true) :
    Relayed calls id
      (t.setCryptor id.pair (encrypted C (t.socks5 id.pair).mCryptor s t.mChannelBuffer.left))
      (C.encrypting.output s t.mChannelBuffer.left)
      ((passOn C own id calls).exec t).1 ((passOn C own id calls).exec t).2 := by
  have hbrother : id.mBrotherTunnel.mRole = .roleRemote := by
    simp only [TunnelId.mBrotherTunnel, hrole]
  have hmore : t.mChannelBuffer.hasRemaining = true := hasRemaining_of_left.mpr hne
  have hestablished : t.isTunnelEstablished id = true := by
    simp only [Tunnels.isTunnelEstablished, hrole]
  have hexec : (passOn C own id calls).exec t = (relay C own id calls).exec t := by
    simp only [passOn, afterReceived, hrole, Prog.exec_bind, Prog.exec_get, Prog.exec_pure,
      Prog.exec_modify]
    exact congrArg (fun m => Prog.exec m t) (if_pos ⟨hestablished, hmore⟩)
  obtain ⟨b', hsend, hleft, -, hb'⟩ :=
    exec_beforeSend_remote C own hbrother calls.iv (t := t) hs hzero
  rw [hexec, ← hleft]
  exact exec_relay C own calls hsend (hb'.trans hcap) hopen

omit [Inhabited β] in
theorem isTunnelEstablished_setCryptor (pair : Nat) (c : CryptBase β σ) :
    (t.setCryptor pair c).isTunnelEstablished id = t.isTunnelEstablished id := by
  unfold Tunnels.isTunnelEstablished Tunnels.setCryptor
  by_cases h : id.pair = pair
  · subst h
    rw [t.socks5_setSocks5]
  · rw [t.socks5_setSocks5_ne pair h]

theorem exec_passOn_remote (C : StreamCipher β σ) (own : Nat → Byte → β) (calls : Calls)
    (hrole : id.mRole = .roleRemote)
    (hcap : t.mChannelBuffer.capacity = capacity) (hzero : t.mChannelBuffer.position = 0)
    (hopen : (t.mSocketChannel id.mBrotherTunnel).isOpen = true) :
    (∃ e c, (CryptBase.decrypt C t.mChannelBuffer.left).exec (t.socks5 id.pair).mCryptor =
        (.error e, c) ∧ e ≠ .io ∧
        (passOn C own id calls).exec t = (.error e, t.setCryptor id.pair c)) ∨
      ∃ out c, (CryptBase.decrypt C t.mChannelBuffer.left).exec (t.socks5 id.pair).mCryptor =
        (.ok out, c) ∧
        ((t.isTunnelEstablished id = false ∨ out = []) ∧
            (∃ b, b.capacity = capacity ∧ (passOn C own id calls).exec t =
              (.ok (), { t.setCryptor id.pair c with mChannelBuffer := b })) ∨
          t.isTunnelEstablished id = true ∧ out ≠ [] ∧
            Relayed calls id (t.setCryptor id.pair c) out ((passOn C own id calls).exec t).1
              ((passOn C own id calls).exec t).2) := by
  have hbrother : id.mBrotherTunnel.mRole = .roleLocal := by
    simp only [TunnelId.mBrotherTunnel, hrole]
  have hreceived : afterReceived C id t.mChannelBuffer =
      onCryptor id.pair (Socks5Tunnel.afterReceived C t.mChannelBuffer) := by
    simp only [afterReceived, hrole]
  simp only [passOn, Prog.exec_bind, Prog.exec_get, hreceived, exec_onCryptor]
  rcases CryptBase.decrypt_cases C t.mChannelBuffer.left (t.socks5 id.pair).mCryptor with
    ⟨out, c, hcode, hlen⟩ | ⟨e, c, hcode, hne⟩
  · right
    have hfit : out.length ≤ t.mChannelBuffer.capacity := by
      rw [t.mChannelBuffer.length_left] at hlen
      exact Nat.le_trans hlen t.mChannelBuffer.remaining_le_capacity
    obtain ⟨b, hexec, hleft, -, hb⟩ := Socks5Tunnel.exec_recode_ok hzero hcode hfit
    have hexec' : (Socks5Tunnel.afterReceived C t.mChannelBuffer).exec (t.socks5 id.pair).mCryptor =
        (.ok b, c) := hexec
    refine ⟨out, c, hcode, ?_⟩
    simp only [hexec', Prog.exec_modify]
    have hcond : (({ t.setCryptor id.pair c with mChannelBuffer := b } :
        Tunnels β σ).isTunnelEstablished id = true ∧ b.hasRemaining = true) ↔
          (t.isTunnelEstablished id = true ∧ out ≠ []) := by
      have hsame : ({ t.setCryptor id.pair c with mChannelBuffer := b } :
          Tunnels β σ).isTunnelEstablished id = t.isTunnelEstablished id :=
        isTunnelEstablished_setCryptor _ c
      rw [hsame, hasRemaining_of_left, hleft]
    by_cases hpass : t.isTunnelEstablished id = true ∧ out ≠ []
    · right
      have hsend : (beforeSend C own id.mBrotherTunnel calls.iv b).exec
          { t.setCryptor id.pair c with mChannelBuffer := b } =
            (.ok b, { t.setCryptor id.pair c with mChannelBuffer := b }) := by
        rw [beforeSend_local hbrother]
        rfl
      have hrelay := exec_relay C own calls
        (t := { t.setCryptor id.pair c with mChannelBuffer := b }) hsend (hb.trans hcap) hopen
      rw [hleft] at hrelay
      rw [congrArg (fun m => Prog.exec m _) (if_pos (hcond.mpr hpass))]
      exact ⟨hpass.1, hpass.2, hrelay.of_buffer⟩
    · left
      rw [congrArg (fun m => Prog.exec m _) (if_neg (mt hcond.mp hpass))]
      refine ⟨?_, b, hb.trans hcap, rfl⟩
      rw [not_and_or, not_not, Bool.not_eq_true] at hpass
      exact hpass
  · left
    have hexec : (Socks5Tunnel.afterReceived C t.mChannelBuffer).exec (t.socks5 id.pair).mCryptor =
        (.error e, c) := by
      refine (Socks5Tunnel.exec_recode hzero).trans ?_
      rw [hcode]
    exact ⟨e, c, hcode, hne, by rw [hexec]⟩

theorem exec_onReadable (h : Connected t id) :
    Readable C own t id calls ((onReadable C own id calls).exec t).1
      ((onReadable C own id calls).exec t).2 := by
  have hclear : t.mChannelBuffer.clear.capacity = capacity := h.channelBuffer
  simp only [onReadable, Prog.exec_bind, Prog.exec_modify]
  cases hread : calls.read with
  | ioException =>
    rw [exec_catchIOException]
    exact .ended _ hclear (by simp [hread])
  | endOfStream =>
    rw [exec_catchIOException]
    exact .ended _ hclear (by simp [hread])
  | bytes chunk =>
    by_cases hempty : chunk.val = []
    · have hnot : ¬ 0 < chunk.val.length := by simp [hempty]
      rw [exec_catchIOException]
      simp only [hnot, if_false, Prog.exec_pure]
      exact .nothing _ hclear chunk hread hempty
    · have hpos : 0 < chunk.val.length := List.length_pos_iff.mpr hempty
      simp only [hpos, if_true]
      obtain ⟨b, hreceive, hcap, hzero, hleft⟩ :=
        exec_receive (t := t) own h.channelBuffer chunk
      -- from here on the handler works on what was read
      have hbody : (receive own id chunk.val >>= fun _ => passOn C own id calls).exec
          { t with mChannelBuffer := t.mChannelBuffer.clear } = (passOn C own id calls).exec
            ({ t with mChannelBuffer := b }.receive id (chunk.val.map (own id.pair))) := by
        rw [Prog.exec_bind, hreceive]
      have hopen : (({ t with mChannelBuffer := b }.receive id
          (chunk.val.map (own id.pair))).mSocketChannel id.mBrotherTunnel).isOpen = true :=
        (congrArg SocketChannel.isOpen (t.channel_setChannel_ne id id.brother_ne _)).trans h.brotherOpen
      suffices hpass : Readable C own t id calls
          ((passOn C own id calls).exec ({ t with mChannelBuffer := b }.receive id
            (chunk.val.map (own id.pair)))).1
          ((passOn C own id calls).exec ({ t with mChannelBuffer := b }.receive id
            (chunk.val.map (own id.pair)))).2 ∧
          ((passOn C own id calls).exec ({ t with mChannelBuffer := b }.receive id
            (chunk.val.map (own id.pair)))).1 ≠ .error .io by
        obtain ⟨hcases, hne⟩ := hpass
        rw [← hbody] at hcases hne
        rw [← exec_catchIOException_eq hne] at hcases
        exact hcases
      cases hrole : id.mRole with
      | roleLocal =>
        obtain ⟨s, hs⟩ := h.cipher
        have hne : b.left ≠ [] := by
          rw [hleft]
          exact mt List.map_eq_nil_iff.mp hempty
        have hrelay := exec_passOn_local C own calls
          (t := { t with mChannelBuffer := b }.receive id (chunk.val.map (own id.pair)))
          hrole hs hcap hzero hne hopen
        refine ⟨.relayed b hcap chunk hread hempty _ _ ?_ ?_ ?_ hrelay, hrelay.ne_io⟩
        · rw [hrole, ← hleft]
          exact recode_local hs _
        · simp only [Tunnels.isTunnelEstablished, hrole]
        · rw [← List.length_pos_iff, C.encrypting.length_output, List.length_pos_iff]
          exact hne
      | roleRemote =>
        have hcode : ∀ r, (CryptBase.decrypt C b.left).exec (t.socks5 id.pair).mCryptor = r →
            recode C id.mRole (t.socks5 id.pair).mCryptor (chunk.val.map (own id.pair)) = r := by
          intro r hr
          rw [hrole, ← hleft]
          exact hr
        rcases exec_passOn_remote C own calls
            (t := { t with mChannelBuffer := b }.receive id (chunk.val.map (own id.pair)))
            hrole hcap hzero hopen with
          ⟨e, c, hdecrypt, hne, hexec⟩ | ⟨out, c, hdecrypt, ⟨hkept, b', hb', hexec⟩ |
            ⟨hestablished, hout, hrelay⟩⟩
        · rw [hexec]
          exact ⟨.broken b hcap chunk hread hempty e c (hcode _ hdecrypt), by simpa using hne⟩
        · rw [hexec]
          exact ⟨.kept b' hb' chunk hread hempty out c (hcode _ hdecrypt) hkept, by simp⟩
        · exact ⟨.relayed b hcap chunk hread hempty out c (hcode _ hdecrypt) hestablished hout hrelay,
            hrelay.ne_io⟩

end

-- ---------------------------------------------------------------------------
-- `onWritable`
-- ---------------------------------------------------------------------------

/-- What `onWritable` makes of the leftover: a remote tunnel encrypts it, though
it was encrypted before. -/
inductive Resent (C : StreamCipher β σ) (t : Tunnels β σ) (id : TunnelId) :
    List β → ByteBuffer β → Tunnels β σ → Prop
  | asIs (hrole : id.mRole = .roleLocal) :
      Resent C t id t.mWriteRemainingBuffer.left t.mWriteRemainingBuffer t
  | again (hrole : id.mRole = .roleRemote) (s : σ) (hs : Encrypting (t.socks5 id.pair).mCryptor s)
      (hzero : t.mWriteRemainingBuffer.position = 0) (b : ByteBuffer β)
      (hleft : b.left = C.encrypting.output s t.mWriteRemainingBuffer.left) (hb : b.position = 0) :
      Resent C t id (C.encrypting.output s t.mWriteRemainingBuffer.left) b
        (t.setCryptor id.pair
          (encrypted C (t.socks5 id.pair).mCryptor s t.mWriteRemainingBuffer.left))

/-- The pair after a part of the leftover was written. -/
def Tunnels.afterWrite (t : Tunnels β σ) (id : TunnelId) (b : ByteBuffer β) (bytes : List β) :
    Tunnels β σ :=
  { t.send id bytes with mWriteRemainingBuffer := b.advance bytes.length }

theorem key_afterWrite {t : Tunnels β σ} {id : TunnelId} {b : ByteBuffer β} {bytes : List β}
    (id' : TunnelId) :
    ((t.afterWrite id b bytes).mSocketChannel id').key = (t.mSocketChannel id').key :=
  key_send id bytes

/-- What `onWritable` can do. -/
inductive Writable (C : StreamCipher β σ) (t : Tunnels β σ) (id : TunnelId) (calls : Calls) :
    Except Throwable Unit → Tunnels β σ → Prop
  | underflow (hrole : id.mRole = .roleRemote) (hpos : 0 < t.mWriteRemainingBuffer.position) :
      Writable C t id calls (.error .bufferUnderflow) t
  | failed (out : List β) (b : ByteBuffer β) (hb : b.capacity = capacity) (t₁ : Tunnels β σ)
      (hresent : Resent C t id out b t₁) (k : Nat) (hk : k ≤ out.length)
      (hfailed : accepted calls.writes out.length = (k, true)) :
      Writable C t id calls (.ok ()) ((t₁.afterWrite id b (out.take k)).dispose id)
  | drained (out : List β) (b : ByteBuffer β) (hb : b.capacity = capacity) (t₁ : Tunnels β σ)
      (hresent : Resent C t id out b t₁) (hwhole : accepted calls.writes out.length = (out.length, false)) :
      Writable C t id calls (.ok ()) (t₁.afterWrite id b out)
  | cancelled (out : List β) (b : ByteBuffer β) (hb : b.capacity = capacity) (t₁ : Tunnels β σ)
      (hresent : Resent C t id out b t₁) (k : Nat) (hk : k < out.length)
      (hpart : accepted calls.writes out.length = (k, false))
      (hkey : t.isTunnelEstablished id = false ∨ t.Cancelled id.mBrotherTunnel) :
      Writable C t id calls (.error .cancelledKey) ((t₁.afterWrite id b (out.take k)).cancel id)
  | resumed (out : List β) (b : ByteBuffer β) (hb : b.capacity = capacity) (t₁ : Tunnels β σ)
      (hresent : Resent C t id out b t₁) (k : Nat) (hk : k < out.length)
      (hpart : accepted calls.writes out.length = (k, false))
      (hestablished : t.isTunnelEstablished id = true) (hkey : ¬ t.Cancelled id.mBrotherTunnel) :
      Writable C t id calls (.ok ())
        (((t₁.afterWrite id b (out.take k)).cancel id).setKey id.mBrotherTunnel
          (some { interestOps := .opRead }))

section
variable {t t₁ : Tunnels β σ} {id : TunnelId} {calls : Calls} {b : ByteBuffer β} {out : List β}

theorem cancelled_cancel (hkey : (t.mSocketChannel id).key ≠ none) : (t.cancel id).Cancelled id := by
  obtain ⟨key, hkey⟩ := Option.ne_none_iff_exists'.mp hkey
  refine ⟨{ key with isValid := false }, ?_, rfl⟩
  unfold Tunnels.cancel Tunnels.setKey
  rw [t.channel_setChannel, hkey]
  rfl

theorem cancelled_cancel_brother :
    (t.cancel id).Cancelled id.mBrotherTunnel ↔ t.Cancelled id.mBrotherTunnel := by
  unfold Tunnels.Cancelled Tunnels.cancel Tunnels.setKey
  rw [t.channel_setChannel_ne id id.brother_ne]

theorem isOpen_cancel (id' : TunnelId) :
    ((t.cancel id).mSocketChannel id').isOpen = (t.mSocketChannel id').isOpen := by
  unfold Tunnels.cancel Tunnels.setKey
  by_cases h : id' = id
  · subst h
    rw [t.channel_setChannel]
  · rw [t.channel_setChannel_ne id h]

theorem Resent.channel {C : StreamCipher β σ} (h : Resent C t id out b t₁) :
    t₁.mSocketChannel = t.mSocketChannel := by
  cases h <;> rfl

theorem Resent.established {C : StreamCipher β σ} (h : Resent C t id out b t₁) :
    t₁.isTunnelEstablished id = t.isTunnelEstablished id := by
  cases h with
  | asIs => rfl
  | again => exact isTunnelEstablished_setCryptor _ _

variable [Inhabited β] {C : StreamCipher β σ} {own : Nat → Byte → β}

theorem exec_resend (C : StreamCipher β σ) (own : Nat → Byte → β) (calls : Calls)
    (h : Connected t id) :
    id.mRole = .roleRemote ∧ 0 < t.mWriteRemainingBuffer.position ∧
        (beforeSend C own id calls.iv t.mWriteRemainingBuffer).exec t = (.error .bufferUnderflow, t) ∨
      ∃ out b t₁, Resent C t id out b t₁ ∧ b.left = out ∧ b.capacity = capacity ∧
        (beforeSend C own id calls.iv t.mWriteRemainingBuffer).exec t = (.ok b, t₁) := by
  cases hrole : id.mRole with
  | roleLocal =>
    right
    refine ⟨_, _, t, .asIs hrole, rfl, h.remainingBuffer, ?_⟩
    rw [beforeSend_local hrole]
    rfl
  | roleRemote =>
    rcases Nat.eq_zero_or_pos t.mWriteRemainingBuffer.position with hzero | hpos
    · right
      obtain ⟨s, hs⟩ := h.cipher
      obtain ⟨b, hexec, hleft, hb, hcap⟩ := exec_beforeSend_remote C own hrole calls.iv hs hzero
      exact ⟨_, b, _, .again hrole s hs hzero b hleft hb, hleft, hcap.trans h.remainingBuffer, hexec⟩
    · left
      exact ⟨rfl, hpos, exec_beforeSend_underflow hrole _ hpos⟩

theorem exec_onWritable (h : Connected t id) (hkey : (t.mSocketChannel id).key ≠ none) :
    Writable C t id calls ((onWritable C own id calls).exec t).1
      ((onWritable C own id calls).exec t).2 := by
  rcases exec_resend C own calls h with
    ⟨hrole, hpos, hexec⟩ | ⟨out, b, t₁, hresent, hleft, hcap, hexec⟩
  · simp only [onWritable, Prog.exec_bind, Prog.exec_get, hexec]
    exact .underflow hrole hpos
  · have hlen : out.length = b.remaining := by rw [← hleft, b.length_left]
    have hle := accepted_le calls.writes out.length
    simp only [onWritable, Prog.exec_bind, Prog.exec_get, hexec, exec_write, Prog.exec_modify, hleft,
      ← hlen]
    rcases hacc : accepted calls.writes out.length with ⟨k, failed⟩
    rw [hacc] at hle
    have htake : (out.take k).length = k := List.length_take_of_le hle
    have hafter : ({ t₁.send id (out.take k) with mWriteRemainingBuffer := b.advance k } :
        Tunnels β σ) = t₁.afterWrite id b (out.take k) := by rw [Tunnels.afterWrite, htake]
    cases failed with
    | true =>
      have hnot : ¬ (0 : Int) ≤ -1 := by decide
      simp only [if_true, hnot, if_false, Prog.exec_modify, hafter]
      exact .failed out b hcap t₁ hresent k hle hacc
    | false =>
      have hnonneg : (0 : Int) ≤ k := Int.natCast_nonneg k
      simp only [Bool.false_eq_true, if_false, hnonneg, if_true]
      rcases Nat.lt_or_ge k out.length with hlt | hge
      · have hmore : (b.advance k).hasRemaining = true := by
          rw [ByteBuffer.hasRemaining_iff, b.advance_remaining, ← hlen]
          exact Nat.sub_pos_of_lt hlt
        have hopen (id' : TunnelId) : (((t₁.afterWrite id b (out.take k)).cancel id).mSocketChannel
            id').isOpen = (t.mSocketChannel id').isOpen := by
          rw [isOpen_cancel, ← hresent.channel]
          exact isOpen_send _ _
        have hother : ((t₁.afterWrite id b (out.take k)).cancel id).Cancelled id.mBrotherTunnel ↔
            t.Cancelled id.mBrotherTunnel := by
          have hsend : (t₁.afterWrite id b (out.take k)).Cancelled id.mBrotherTunnel ↔
              t₁.Cancelled id.mBrotherTunnel := cancelled_send _ _
          rw [cancelled_cancel_brother, hsend, Tunnels.Cancelled, hresent.channel, Tunnels.Cancelled]
        have hself : ((t₁.afterWrite id b (out.take k)).cancel id).Cancelled id := by
          refine cancelled_cancel ?_
          have hsame : ((t₁.afterWrite id b (out.take k)).mSocketChannel id).key =
              (t₁.mSocketChannel id).key := key_send id _
          rw [hsame, hresent.channel]
          exact hkey
        have hsame : ((t₁.afterWrite id b (out.take k)).cancel id).isTunnelEstablished id =
            t.isTunnelEstablished id := hresent.established
        simp only [hmore, if_true, Prog.exec_bind, Prog.exec_modify, Prog.exec_get, hafter, hsame]
        cases hestablished : t.isTunnelEstablished id with
        | true =>
          simp only [if_true]
          rcases exec_register .opRead ((hopen _).trans h.brotherOpen) with
            ⟨hcancel, hexec'⟩ | ⟨hcancel, hexec'⟩
          · rw [beginReceive, hexec']
            exact .cancelled out b hcap t₁ hresent k hlt hacc (.inr (hother.mp hcancel))
          · rw [beginReceive, hexec']
            exact .resumed out b hcap t₁ hresent k hlt hacc hestablished (mt hother.mpr hcancel)
        | false =>
          simp only [Bool.false_eq_true, if_false]
          obtain ⟨key, hown, hvalid⟩ := hself
          rw [beginReceive, exec_register_cancelled ((hopen id).trans h.isOpen) hown hvalid]
          exact .cancelled out b hcap t₁ hresent k hlt hacc (.inl hestablished)
      · obtain rfl : k = out.length := Nat.le_antisymm hle hge
        have hdone : (b.advance out.length).hasRemaining = false := by
          rw [← Bool.not_eq_true, ByteBuffer.hasRemaining_iff, b.advance_remaining, ← hlen, Nat.sub_self]
          exact Nat.lt_irrefl 0
        simp only [hdone, Bool.false_eq_true, if_false, hafter]
        rw [List.take_length]
        exact .drained out b hcap t₁ hresent hacc

end

-- ---------------------------------------------------------------------------
-- `onConnectable`
-- ---------------------------------------------------------------------------

/-- A pair whose remote tunnel waits for its connection, as `connect` left it. -/
structure Connecting (t : Tunnels β σ) (id : TunnelId) : Prop where
  role : id.mRole = .roleRemote
  isOpen : (t.mSocketChannel id).isOpen = true
  brotherOpen : (t.mSocketChannel id.mBrotherTunnel).isOpen = true
  valid : ∃ key, (t.mSocketChannel id).key = some key ∧ key.isValid = true
  unregistered : (t.mSocketChannel id.mBrotherTunnel).key = none
  fresh : (t.socks5 id.pair).mCryptor.encryptIVSet = false

/-- The handshake: the IV and the encrypted header. -/
def greeting (C : StreamCipher β σ) (own : Nat → Byte → β) (pair : Nat) (iv : IV Byte)
    (dest : InetSocketAddress) : List β :=
  iv.val.map (own pair) ++
    C.encrypting.output (C.init (iv.val.map (own pair))) ((Socks5Protocol.header dest).map (own pair))

/-- The cipher object after the handshake. -/
def started (C : StreamCipher β σ) (own : Nat → Byte → β) (pair : Nat) (iv : IV Byte)
    (dest : InetSocketAddress) (c : CryptBase β σ) : CryptBase β σ :=
  { c with
    encryptIVSet := true
    decryptIV := some (iv.val.map (own pair))
    encCipher := some (C.encrypting.next (C.init (iv.val.map (own pair)))
      ((Socks5Protocol.header dest).map (own pair))) }

/-- The pair after the handshake: both channels are registered for reading. -/
def Tunnels.establish (t : Tunnels β σ) (id : TunnelId) (c : CryptBase β σ) (bytes : List β) :
    Tunnels β σ :=
  ((((t.setCryptor id.pair c).send id bytes).setEstablished id.pair true).setKey id
    (some { interestOps := .opRead })).setKey id.mBrotherTunnel (some { interestOps := .opRead })

/-- What `onConnectable` can do. -/
inductive Connectable (C : StreamCipher β σ) (own : Nat → Byte → β) (t : Tunnels β σ) (id : TunnelId)
    (calls : Calls) : Except Throwable Unit → Tunnels β σ → Prop
  | refused (hcall : calls.finishConnect = none) :
      Connectable C own t id calls (.ok ()) ((t.close id).dispose id)
  | pending (hcall : calls.finishConnect = some false) :
      Connectable C own t id calls (.ok ()) (t.dispose id)
  | tooLong (hcall : calls.finishConnect = some true)
      (hlong : 1004 < (t.socks5 id.pair).mDestAddress.hostName.length) (c : CryptBase β σ) :
      Connectable C own t id calls (.error .bufferOverflow) (t.setCryptor id.pair c)
  | connected (hcall : calls.finishConnect = some true) (hs : List β)
      (hgreeting : hs = greeting C own id.pair calls.iv (t.socks5 id.pair).mDestAddress)
      (hshort : (t.socks5 id.pair).mDestAddress.hostName.length ≤ 1004) :
      Connectable C own t id calls (.ok ())
        (t.establish id
          (started C own id.pair calls.iv (t.socks5 id.pair).mDestAddress (t.socks5 id.pair).mCryptor)
          (hs.take (accepted calls.writes hs.length).1))

section
variable {t : Tunnels β σ} {id : TunnelId} {calls : Calls} [Inhabited β] {C : StreamCipher β σ}
  {own : Nat → Byte → β}

omit [Inhabited β] in
/-- `onTunnelEstablished`, on channels that can be registered. -/
theorem exec_beginReceive_both {u : Tunnels β σ} (hopen : (u.mSocketChannel id).isOpen = true)
    (hbrother : (u.mSocketChannel id.mBrotherTunnel).isOpen = true)
    (hkey : ∃ key, (u.mSocketChannel id).key = some key ∧ key.isValid = true)
    (hnone : (u.mSocketChannel id.mBrotherTunnel).key = none) :
    (do beginReceive id; beginReceive id.mBrotherTunnel : Handler β σ Unit).exec u =
      (.ok (), (u.setKey id (some { interestOps := .opRead })).setKey id.mBrotherTunnel
        (some { interestOps := .opRead })) := by
  obtain ⟨key, hkey, hvalid⟩ := hkey
  have hother : (u.setKey id (some { interestOps := .opRead })).mSocketChannel id.mBrotherTunnel =
      u.mSocketChannel id.mBrotherTunnel := u.channel_setChannel_ne id id.brother_ne _
  rw [Prog.exec_bind, beginReceive, exec_register_valid hopen hkey hvalid, beginReceive]
  exact exec_register_none (hother ▸ hbrother) (hother ▸ hnone)

theorem exec_onConnected (C : StreamCipher β σ) (own : Nat → Byte → β) (calls : Calls)
    (h : Connecting t id) :
    1004 < (t.socks5 id.pair).mDestAddress.hostName.length ∧
        (∃ c, (onConnected C own id calls).exec t = (.error .bufferOverflow, t.setCryptor id.pair c)) ∨
      (t.socks5 id.pair).mDestAddress.hostName.length ≤ 1004 ∧ ∃ hs, hs = greeting C own id.pair calls.iv (t.socks5 id.pair).mDestAddress ∧
        (onConnected C own id calls).exec t = (.ok (), t.establish id
          (started C own id.pair calls.iv (t.socks5 id.pair).mDestAddress (t.socks5 id.pair).mCryptor)
          (hs.take (accepted calls.writes hs.length).1)) := by
  simp only [onConnected, h.role, Prog.exec_bind, Prog.exec_get, exec_onCryptor]
  rcases Socks5Protocol.exec_handshake_cases C (drawIV own id.pair calls.iv) h.fresh with
    ⟨hshort, b, hexec, hleft⟩ | ⟨hlong, c, hexec⟩
  · right
    refine ⟨hshort, b.left, hleft, ?_⟩
    rw [hexec]
    have hsent : ∀ u : Tunnels β σ, (u.send id (b.left.take (accepted calls.writes b.remaining).1))
        = u.send id (b.left.take (accepted calls.writes b.left.length).1) := by
      intro u
      rw [b.length_left]
    simp only [exec_write, Prog.exec_modify, hsent]
    refine (Prog.exec_bind _ _ _).symm.trans (exec_beginReceive_both ?_ ?_ ?_ ?_)
    · exact (isOpen_send id _).trans h.isOpen
    · exact (isOpen_send id _).trans h.brotherOpen
    · obtain ⟨key, hkey, hvalid⟩ := h.valid
      exact ⟨key, (key_send id _).trans hkey, hvalid⟩
    · exact (key_send id _).trans h.unregistered
  · left
    rw [hexec]
    exact ⟨hlong, c, rfl⟩

theorem exec_onConnectable (h : Connecting t id) :
    Connectable C own t id calls ((onConnectable C own id calls).exec t).1
      ((onConnectable C own id calls).exec t).2 := by
  simp only [onConnectable]
  cases hcall : calls.finishConnect with
  | none =>
    rw [exec_catchIOException]
    exact .refused hcall
  | some finished =>
    cases finished with
    | false =>
      rw [exec_catchIOException]
      exact .pending hcall
    | true =>
      rcases exec_onConnected C own calls h with
        ⟨hlong, c, hexec⟩ | ⟨hshort, hs, hgreeting, hexec⟩
      · rw [exec_catchIOException_eq (by rw [hexec]; simp)]
        simp only [hexec]
        exact .tooLong hcall hlong c
      · rw [exec_catchIOException_eq (by rw [hexec]; simp)]
        simp only [hexec]
        exact .connected hcall hs hgreeting hshort

end

end SmartSocks.Tunnel
