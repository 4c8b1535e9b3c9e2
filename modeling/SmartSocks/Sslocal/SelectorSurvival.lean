import SmartSocks.Sslocal.SelectorRuns

/-!
# Which rounds the selector thread survives

A handler catches nothing but `IOException`. What makes it throw something else
is found in its arguments and in the state before it: the first chunk from the
server is shorter than the IV, a leftover does not fit behind the position of
`mWriteRemainingBuffer`, a channel is registered whose key was cancelled in the
same round, or a remote tunnel takes up a leftover that is partly written.
`StepOk` excludes these, and a run survives just when all its steps meet it.
-/

namespace SmartSocks.Tunnel

open Jvm Crypto

variable {β σ : Type}

/-- A leftover of `room` bytes can be scheduled for the tunnel. -/
def LeftoverOk (t : Tunnels β σ) (id : TunnelId) (calls : Calls) (room : Nat) : Prop :=
  ∀ k, k < room → accepted calls.writes room = (k, false) →
    room - k ≤ t.mWriteRemainingBuffer.remaining ∧ ¬ t.Cancelled id

def ReadOk (t : Tunnels β σ) (id : TunnelId) (calls : Calls) : Prop :=
  ∀ chunk, calls.read = .bytes chunk → chunk.val ≠ [] →
    (AwaitsIV t id → getIVLength ≤ chunk.val.length) ∧
      (t.isTunnelEstablished id = true →
        LeftoverOk t id.mBrotherTunnel calls (passedOn t id chunk))

def WriteOk (t : Tunnels β σ) (id : TunnelId) (calls : Calls) : Prop :=
  (id.mRole = .roleRemote → t.mWriteRemainingBuffer.position = 0) ∧
    ∀ k, k < t.mWriteRemainingBuffer.remaining →
      accepted calls.writes t.mWriteRemainingBuffer.remaining = (k, false) →
        t.isTunnelEstablished id = true ∧ ¬ t.Cancelled id.mBrotherTunnel

/-- The IV and the header fit the buffer of the handshake. -/
def ConnectOk (t : Tunnels β σ) (id : TunnelId) (calls : Calls) : Prop :=
  calls.finishConnect = some true → (t.socks5 id.pair).mDestAddress.hostName.length ≤ 1004

-- ---------------------------------------------------------------------------
-- One handler
-- ---------------------------------------------------------------------------

section
variable {t u : Tunnels β σ} {id : TunnelId} {calls : Calls} {r : Except Throwable Unit} {out : List β}

theorem Relayed.ok_iff (h : Relayed calls id t out r u) :
    r = .ok () ↔ LeftoverOk t id.mBrotherTunnel calls out.length := by
  cases h with
  | failed b hb hfailed =>
    refine iff_of_true rfl fun k _ hpart => ?_
    rw [hpart] at hfailed
    cases hfailed
  | sent b hb hwhole =>
    refine iff_of_true rfl fun k hk hpart => ?_
    cases hwhole.symm.trans hpart
    exact absurd hk (Nat.lt_irrefl _)
  | overflow b hb k hk hpart hroom =>
    exact iff_of_false (by simp) fun h => absurd (h k hk hpart).1 (Nat.not_le.mpr hroom)
  | cancelled b hb k hk hpart hroom hkey =>
    exact iff_of_false (by simp) fun h => (h k hk hpart).2 hkey
  | scheduled b hb k hk hpart hroom hkey =>
    refine iff_of_true rfl fun k' _ hpart' => ?_
    cases hpart.symm.trans hpart'
    exact ⟨hroom, hkey⟩

theorem Resent.length {C : StreamCipher β σ} {b : ByteBuffer β} {t₁ : Tunnels β σ}
    (h : Resent C t id out b t₁) : out.length = t.mWriteRemainingBuffer.remaining := by
  cases h with
  | asIs => exact ByteBuffer.length_left _
  | again => rw [C.encrypting.length_output, ByteBuffer.length_left]

theorem Resent.position {C : StreamCipher β σ} {b : ByteBuffer β} {t₁ : Tunnels β σ}
    (h : Resent C t id out b t₁) (hrole : id.mRole = .roleRemote) :
    t.mWriteRemainingBuffer.position = 0 := by
  cases h with
  | asIs hlocal =>
    rw [hlocal] at hrole
    cases hrole
  | again hrole s hs hzero => exact hzero

theorem Writable.ok_iff {C : StreamCipher β σ} (h : Writable C t id calls r u) :
    r = .ok () ↔ WriteOk t id calls := by
  cases h with
  | underflow hrole hpos =>
    exact iff_of_false (by simp) fun h => absurd (h.1 hrole) (Nat.ne_of_gt hpos)
  | failed out b hb t₁ hresent k hk hfailed =>
    refine iff_of_true rfl ⟨hresent.position, fun k' _ hpart => ?_⟩
    rw [← hresent.length] at hpart
    cases hfailed.symm.trans hpart
  | drained out b hb t₁ hresent hwhole =>
    refine iff_of_true rfl ⟨hresent.position, fun k hk hpart => ?_⟩
    rw [← hresent.length] at hk hpart
    cases hwhole.symm.trans hpart
    exact absurd hk (Nat.lt_irrefl _)
  | cancelled out b hb t₁ hresent k hk hpart hkey =>
    refine iff_of_false (by simp) fun h => ?_
    rw [hresent.length] at hk hpart
    obtain ⟨hestablished, hvalid⟩ := h.2 k hk hpart
    rcases hkey with hnot | hcancelled
    · rw [hnot] at hestablished
      cases hestablished
    · exact hvalid hcancelled
  | resumed out b hb t₁ hresent k hk hpart hestablished hkey =>
    exact iff_of_true rfl ⟨hresent.position, fun _ _ _ => ⟨hestablished, hkey⟩⟩

variable {own : Nat → Byte → β}

theorem Connectable.ok_iff {C : StreamCipher β σ} (h : Connectable C own t id calls r u) :
    r = .ok () ↔ ConnectOk t id calls := by
  cases h with
  | refused hcall => exact iff_of_true rfl fun h => by rw [hcall] at h; cases h
  | pending hcall => exact iff_of_true rfl fun h => by rw [hcall] at h; cases h
  | tooLong hcall hlong c =>
    exact iff_of_false (by simp) fun h => absurd (h hcall) (Nat.not_le.mpr hlong)
  | connected hcall hs hgreeting hshort => exact iff_of_true rfl fun _ => hshort

variable [Inhabited β] {C : StreamCipher β σ} {chunk : Chunk} {c : CryptBase β σ}

/-- Only a first chunk that is too short throws. -/
theorem Recoded.short {e : Throwable} (hcipher : CipherOk (t.socks5 id.pair).mCryptor)
    (h : Recoded C (t.socks5 id.pair).mCryptor (chunk.val.map (own id.pair)) id.mRole (.error e) c) :
    AwaitsIV t id ∧ chunk.val.length < getIVLength := by
  generalize hrole : id.mRole = role at h
  cases h with
  | decrypted h =>
    cases h with
    | short hset hshort =>
      rw [List.length_map] at hshort
      exact ⟨⟨hrole, hset⟩, hshort⟩
    | broken hset hs =>
      obtain ⟨s, hsome⟩ := hcipher.decrypting hset
      rw [hs] at hsome
      cases hsome

omit [Inhabited β] in
/-- Reading does not change where a leftover can go. -/
theorem leftoverOk_afterRead {b : ByteBuffer β} {bytes : List β} {room : Nat} :
    LeftoverOk (t.afterRead b id bytes c) id.mBrotherTunnel calls room ↔
      LeftoverOk t id.mBrotherTunnel calls room := by
  have hkey : (t.afterRead b id bytes c).mSocketChannel id.mBrotherTunnel =
      t.mSocketChannel id.mBrotherTunnel := t.channel_setChannel_ne id id.brother_ne _
  unfold LeftoverOk Tunnels.Cancelled
  rw [hkey]
  rfl

theorem Readable.ok_iff (h : Readable C own t id calls r u) (hc : Connected t id)
    (hcipher : CipherOk (t.socks5 id.pair).mCryptor) : r = .ok () ↔ ReadOk t id calls := by
  cases h with
  | nothing b hb chunk hread hempty =>
    refine iff_of_true rfl fun chunk' hread' hne => ?_
    cases hread.symm.trans hread'
    exact absurd hempty hne
  | ended b hb hread => exact iff_of_true rfl fun chunk' hread' _ => absurd hread' (hread chunk')
  | broken b hb chunk hread hne e c hcode =>
    obtain ⟨hawaits, hshort⟩ := (recode_cases hc.cipher hcode).short hcipher
    exact iff_of_false (by simp) fun h =>
      absurd ((h chunk hread hne).1 hawaits) (Nat.not_le.mpr hshort)
  | kept b hb chunk hread hne out c hcode hkept =>
    refine iff_of_true rfl fun chunk' hread' _ => ?_
    cases hread.symm.trans hread'
    obtain ⟨hlength, hlong⟩ := (recode_cases hc.cipher hcode).passedOn
    refine ⟨hlong, fun hestablished k hk => ?_⟩
    rcases hkept with hnot | rfl
    · rw [hnot] at hestablished
      cases hestablished
    · rw [← hlength] at hk
      exact absurd hk (Nat.not_lt_zero k)
  | relayed b hb chunk hread hne out c hcode hestablished hout hrelayed =>
    obtain ⟨hlength, hlong⟩ := (recode_cases hc.cipher hcode).passedOn
    rw [hrelayed.ok_iff, leftoverOk_afterRead, hlength]
    constructor
    · intro hleft chunk' hread' _
      cases hread.symm.trans hread'
      exact ⟨hlong, fun _ => hleft⟩
    · intro h
      exact (h chunk hread hne).2 hestablished

end

end SmartSocks.Tunnel

namespace SmartSocks.Sslocal

open Jvm Crypto Tunnel

variable {β σ : Type}

def AcceptOk (calls : AcceptCalls) : Prop :=
  calls.accept = .ok () ∧
    (calls.hasServer = true → calls.destAddress ≠ none →
      calls.protectSocket ≠ none ∧ (calls.protectSocket = some true → calls.connect = .ok ()))

/-- The condition on a round. -/
def StepOk (s : SelectorThread β σ) : Round → Prop
  | .select _ => True
  | .accept calls => AcceptOk calls
  | .handle calls => ∀ id readyOps keys, s.selectedKeys = .tunnel id readyOps :: keys →
    SelectorThread.isValid s.tunnels id = true →
      match readyOps with
      | .opRead => ReadOk s.tunnels id calls
      | .opWrite => WriteOk s.tunnels id calls
      | .opConnect => ConnectOk s.tunnels id calls

theorem Acceptable.ok_iff {t u : Tunnels β σ} {pair : Nat} {calls : AcceptCalls}
    {r : Except Throwable Unit} (h : Acceptable t pair calls r u) : r = .ok () ↔ AcceptOk calls := by
  cases h with
  | failed e haccept => simp [AcceptOk, haccept]
  | dropped haccept hnone =>
    refine iff_of_true rfl ⟨haccept, fun hserver hdest => ?_⟩
    rcases hnone with hnot | hnot
    · rw [hnot] at hserver
      cases hserver
    · exact absurd hnot hdest
  | unprotected haccept hserver dest hdest hprotect =>
    simp [AcceptOk, haccept, hserver, hdest, hprotect]
  | refused haccept hserver dest hdest hprotect =>
    simp [AcceptOk, haccept, hserver, hdest, hprotect]
  | connecting haccept hserver dest hdest hprotect hconnect =>
    simp [AcceptOk, haccept, hserver, hdest, hprotect, hconnect]

namespace SelectorThread

section
variable [Inhabited β] {C : StreamCipher β σ} {own : Nat → Byte → β} {s t : SelectorThread β σ}
  {e : Round}

/-- One step stops the thread just when the condition fails. -/
theorem stepOk_iff (hs : Steady s) (hstep : step C own s e = some t) :
    t.stopped = none ↔ StepOk s e := by
  have hrunning := running_of_step hstep
  cases step_cases hs hstep with
  | selected hempty keys hkeys => exact iff_of_true hrunning trivial
  | skipped id readyOps keys hkeys hinvalid =>
    refine iff_of_true hrunning fun id' ops' keys' hkeys' hvalid => ?_
    cases hkeys.symm.trans hkeys'
    rw [hinvalid] at hvalid
    cases hvalid
  | accepted keys hkeys calls h => exact (finish_stopped s keys _ _).trans h.ok_iff
  | readable id keys hkeys hvalid hc calls h =>
    rw [finish_stopped, h.ok_iff hc (hs.wired.cipher id.pair)]
    simp [StepOk, hkeys, hvalid]
  | writable id keys hkeys hvalid hc calls h =>
    rw [finish_stopped, h.ok_iff]
    simp [StepOk, hkeys, hvalid]
  | connectable id keys hkeys hvalid hc calls h =>
    rw [finish_stopped, h.ok_iff]
    simp [StepOk, hkeys, hvalid]

end

end SelectorThread

open SelectorThread

/-- A run survives just when all its rounds meet the condition. -/
theorem thread_survives_iff [Inhabited β] (C : StreamCipher β σ) (own : Nat → Byte → β)
    (rounds : List Round) (s : SelectorThread β σ)
    (h : Machine.run (step C own) initial rounds = some s) :
    s.stopped = none ↔ Machine.Guarded (step C own) StepOk initial rounds :=
  Machine.run_alive_iff (fun _ _ _ => running_of_step) (fun _ _ _ => stepOk_iff)
    (fun _ _ _ => steady_step) steady_initial rfl h

/-- A request and the answer pass whole. -/
def quietRounds : List Round :=
  connectRounds 0 ++
    [.select [.tunnel ⟨0, .roleLocal⟩ .opRead], .handle (sampleCalls request [2]),
      .select [.tunnel ⟨0, .roleRemote⟩ .opRead], .handle (sampleCalls answer [2])]

theorem quietRounds_survived :
    (after feedback (fun _ b => b) quietRounds).stopped = none ∧
      Machine.Guarded (step feedback fun _ b => b) StepOk initial quietRounds := by
  have hstopped : (after feedback (fun _ b => b) quietRounds).stopped = none := by decide +kernel
  exact ⟨hstopped, (thread_survives_iff feedback (fun _ b => b) quietRounds _
    (run_after _ _ _ (by decide +kernel))).mp hstopped⟩

/-- What stopped the sample thread. -/
def stoppedBy (rounds : List Round) : Option (Option Throwable) :=
  (Machine.run (step feedback fun _ b => b) initial (connectRounds 0 ++ rounds)).map (·.stopped)

/-- The first chunk from the server has one byte; both directions leave a
leftover in one round; a remote tunnel stays registered behind its leftover; a
second leftover is longer than the room behind the first. -/
theorem thread_stopped :
    stoppedBy
      [.select [.tunnel ⟨0, .roleRemote⟩ .opRead],
        .handle (sampleCalls ⟨sampleStream.take 1, by decide⟩ [])] =
      some (some .arrayIndexOutOfBounds) ∧
    stoppedBy
      [.select [.tunnel ⟨0, .roleLocal⟩ .opRead, .tunnel ⟨0, .roleRemote⟩ .opRead],
        .handle (sampleCalls request [1]),
        .handle (sampleCalls answer [1])] = some (some .cancelledKey) ∧
    stoppedBy
      [.select [.tunnel ⟨0, .roleLocal⟩ .opRead],
        .handle (sampleCalls request [1]),
        .select [.tunnel ⟨0, .roleRemote⟩ .opWrite], .handle (sampleCalls nothing [1]),
        .select [.tunnel ⟨0, .roleRemote⟩ .opWrite], .handle (sampleCalls nothing [])] =
      some (some .bufferUnderflow) ∧
    stoppedBy
      [.select [.tunnel ⟨0, .roleRemote⟩ .opRead],
        .handle (sampleCalls ⟨sampleStream ++ [0x03], by decide⟩ [1]),
        .select [.tunnel ⟨0, .roleLocal⟩ .opWrite], .handle (sampleCalls nothing [1]),
        .select [.tunnel ⟨0, .roleRemote⟩ .opRead],
        .handle (sampleCalls ⟨[0x01, 0x02, 0x03], by decide⟩ [1])] =
      some (some .bufferOverflow) := by
  decide +kernel

end SmartSocks.Sslocal
