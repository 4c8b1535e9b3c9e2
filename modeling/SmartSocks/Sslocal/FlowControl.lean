import SmartSocks.Sslocal.SelectorRuns

/-!
# Flow control

For each direction of a pair, what was taken from the reader and not accepted by
the writer should wait with the writer registered for `OP_WRITE` and the reader
paused, and both should be registered for reading when nothing waits. How many
bytes wait is counted from the two channels; since a remote channel also accepts
the handshake, the thread is watched for how much of it that was.

One leftover ends it: a channel has one interest set, so the writer is no longer
read from, and nothing registers it for reading when the leftover has gone.
-/

namespace SmartSocks.Sslocal

open Jvm Crypto Tunnel SelectorThread

variable {β σ : Type}

-- ---------------------------------------------------------------------------
-- What waits
-- ---------------------------------------------------------------------------

/-- How many bytes a channel should have accepted for what was read from its
brother `id`. -/
def due (t : Tunnels β σ) (handshake : Nat) (id : TunnelId) : Nat :=
  match id.mRole with
  | .roleLocal => handshake + (t.mSocketChannel id).received.length
  | .roleRemote => (t.mSocketChannel id).received.length - getIVLength

/-- How many of them still wait. -/
def waiting (t : Tunnels β σ) (handshake : Nat) (id : TunnelId) : Nat :=
  due t handshake id - (t.mSocketChannel id.mBrotherTunnel).sent.length

/-- The channel is registered for an operation. -/
def Registered (t : Tunnels β σ) (id : TunnelId) (ops : Op) : Prop :=
  (t.mSocketChannel id).key = some { interestOps := ops }

/-- The law of the direction from a tunnel to its brother. -/
structure Directed (t : Tunnels β σ) (handshake : Nat) (id : TunnelId) : Prop where
  pending : 0 < waiting t handshake id →
    Registered t id.mBrotherTunnel .opWrite ∧ ¬ Registered t id .opRead
  idle : waiting t handshake id = 0 →
    Registered t id .opRead ∧ ¬ Registered t id.mBrotherTunnel .opWrite

/-- The thread, and how many bytes of its handshake each remote channel has
accepted. -/
structure Watched (β σ : Type) where
  thread : SelectorThread β σ
  handshake : Nat → Nat

/-- Both directions of all established pairs. -/
def FlowControlled (w : Watched β σ) : Prop :=
  ∀ pair, (w.thread.tunnels.socks5 pair).mTunnelEstablished = true →
    ∀ id, id.pair = pair → Directed w.thread.tunnels (w.handshake pair) id

/-- What is passed on from a tunnel of an established pair is accepted whole; only
a remote tunnel may find that its brother's channel fails. -/
def AllAccepted (t : Tunnels β σ) (calls : Calls) (id : TunnelId) : Prop :=
  (t.socks5 id.pair).mTunnelEstablished = true →
    match calls.read with
    | .bytes chunk => 0 < passedOn t id chunk →
      accepted calls.writes (passedOn t id chunk) = (passedOn t id chunk, false) ∨
        id.mRole = .roleRemote ∧ (accepted calls.writes (passedOn t id chunk)).2 = true
    | _ => True

instance (t : Tunnels β σ) (calls : Calls) (id : TunnelId) : Decidable (AllAccepted t calls id) := by
  dsimp only [AllAccepted]
  rcases calls.read with _ | _ | _ <;> infer_instance

/-- The condition on a round. -/
def AcceptedOk (s : SelectorThread β σ) : Round → Prop
  | .handle calls =>
    match s.selectedKeys with
    | .tunnel id .opRead :: _ => isValid s.tunnels id = true → AllAccepted s.tunnels calls id
    | _ => True
  | _ => True

instance (s : SelectorThread β σ) : (e : Round) → Decidable (AcceptedOk s e)
  | .handle calls => by
    dsimp only [AcceptedOk]
    rcases s.selectedKeys with _ | ⟨_ | ⟨id, _ | _ | _⟩, keys⟩ <;> infer_instance
  | .select _ | .accept _ => .isTrue trivial

-- ---------------------------------------------------------------------------
-- The invariant of one pair
-- ---------------------------------------------------------------------------

/-- Before the handshake. -/
structure Untouched (t : Tunnels β σ) (pair : Nat) : Prop where
  established : (t.socks5 pair).mTunnelEstablished = false
  decryptIVSet : (t.socks5 pair).mCryptor.decryptIVSet = false
  received : ∀ id, id.pair = pair → (t.mSocketChannel id).received = []
  sent : ∀ id, id.pair = pair → (t.mSocketChannel id).sent = []

/-- While the pair is established: nothing waits. -/
structure Level (t : Tunnels β σ) (keys : List Selected) (handshake pair : Nat) : Prop where
  registered : ∀ id, id.pair = pair → Registered t id .opRead
  selected : ∀ id, id.pair = pair → .tunnel id .opWrite ∉ keys
  accepted : ∀ id, id.pair = pair →
    due t handshake id = (t.mSocketChannel id.mBrotherTunnel).sent.length
  waits : (t.socks5 pair).mCryptor.decryptIVSet = false →
    (t.mSocketChannel ⟨pair, .roleRemote⟩).received = []
  started : (t.socks5 pair).mCryptor.decryptIVSet = true →
    getIVLength ≤ (t.mSocketChannel ⟨pair, .roleRemote⟩).received.length

structure Balanced (t : Tunnels β σ) (keys : List Selected) (handshake pair : Nat) : Prop where
  fresh : t.greeted pair = false → Untouched t pair
  level : (t.socks5 pair).mTunnelEstablished = true → Level t keys handshake pair

section
variable {t u : Tunnels β σ} {all keys : List Selected} {handshake handshake' pair : Nat} {id : TunnelId}

theorem Level.directed (h : Level t keys handshake id.pair) : Directed t handshake id := by
  have hnone : waiting t handshake id = 0 := by
    rw [waiting, h.accepted id rfl, Nat.sub_self]
  refine ⟨fun hpending => absurd hnone (Nat.ne_of_gt hpending), fun _ => ⟨h.registered id rfl, ?_⟩⟩
  intro hwrite
  cases (h.registered id.mBrotherTunnel rfl).symm.trans hwrite

/-- A step of another pair. -/
theorem Balanced.frame (h : Balanced t all handshake pair)
    (hchannel : ∀ id, id.pair = pair → u.mSocketChannel id = t.mSocketChannel id)
    (hsocks5 : u.socks5 pair = t.socks5 pair) (hsub : ∀ k ∈ keys, k ∈ all)
    (hwatch : t.greeted pair = true → handshake' = handshake) : Balanced u keys handshake' pair := by
  have hgreeted : u.greeted pair = t.greeted pair := by rw [Tunnels.greeted, hsocks5, Tunnels.greeted]
  refine ⟨fun hfresh => ?_, fun hestablished => ?_⟩
  · have hold := h.fresh (hgreeted ▸ hfresh)
    refine ⟨hsocks5 ▸ hold.established, hsocks5 ▸ hold.decryptIVSet, fun id hid => ?_, fun id hid => ?_⟩
    · rw [hchannel id hid]
      exact hold.received id hid
    · rw [hchannel id hid]
      exact hold.sent id hid
  · rw [hsocks5] at hestablished
    have hold := h.level hestablished
    have hset : t.greeted pair = true := by
      by_contra hfresh
      have hnot := (h.fresh (Bool.eq_false_iff.mpr hfresh)).established
      rw [hnot] at hestablished
      cases hestablished
    obtain rfl := hwatch hset
    refine ⟨fun id hid => ?_, fun id hid hmem => hold.selected id hid (hsub _ hmem), fun id hid => ?_, ?_, ?_⟩
    · rw [Registered, hchannel id hid]
      exact hold.registered id hid
    · rw [due, hchannel id hid, hchannel id.mBrotherTunnel hid]
      exact hold.accepted id hid
    · rw [hsocks5, hchannel _ rfl]
      exact hold.waits
    · rw [hsocks5, hchannel _ rfl]
      exact hold.started

/-- A pair that has made its handshake and is no longer established. -/
theorem Balanced.of_closed (hgreeted : u.greeted pair = true)
    (hclosed : (u.socks5 pair).mTunnelEstablished = false) : Balanced u keys handshake pair := by
  refine ⟨fun hfresh => ?_, fun hestablished => ?_⟩
  · cases hfresh.symm.trans hgreeted
  · cases hclosed.symm.trans hestablished

end

-- ---------------------------------------------------------------------------
-- Handlers
-- ---------------------------------------------------------------------------

section
variable [Inhabited β] {C : StreamCipher β σ} {own : Nat → Byte → β} {t u : Tunnels β σ}
  {all keys : List Selected} {handshake : Nat} {id : TunnelId} {calls : Calls} {chunk : Chunk}
  {out : List β} {c : CryptBase β σ}

/-- A chunk was read and all that it is passed on as was accepted. -/
theorem Level.read (h : Level t all handshake id.pair)
    (hcode : Recoded C (t.socks5 id.pair).mCryptor (chunk.val.map (own id.pair)) id.mRole (.ok out) c)
    (hchannel : u.mSocketChannel id = { t.mSocketChannel id with
      received := (t.mSocketChannel id).received ++ chunk.val.map (own id.pair) })
    (hbrother : u.mSocketChannel id.mBrotherTunnel = { t.mSocketChannel id.mBrotherTunnel with
      sent := (t.mSocketChannel id.mBrotherTunnel).sent ++ out })
    (hsocks5 : u.socks5 id.pair = { t.socks5 id.pair with mCryptor := c })
    (hsub : ∀ k ∈ keys, k ∈ all) : Level u keys handshake id.pair := by
  obtain ⟨hlength, hlong⟩ := hcode.passedOn
  obtain ⟨pair, role⟩ := id
  have hregistered : ∀ id, id.pair = pair → Registered u id .opRead := by
    intro id hid
    rcases TunnelId.eq_or_brother (show id.pair = TunnelId.pair ⟨pair, role⟩ from hid) with rfl | rfl
    · rw [Registered, hchannel]
      exact h.registered _ rfl
    · rw [Registered, hbrother]
      exact h.registered _ rfl
  have hselected : ∀ id, id.pair = pair → .tunnel id .opWrite ∉ keys :=
    fun id hid hmem => h.selected id hid (hsub _ hmem)
  have hdue : ∀ {k : Nat}, Tunnel.passedOn t ⟨pair, role⟩ chunk = k → due u handshake ⟨pair, role⟩ =
      due t handshake ⟨pair, role⟩ + k → ∀ id, id.pair = pair →
      due u handshake id = (u.mSocketChannel id.mBrotherTunnel).sent.length := by
    intro k hk hgrow id hid
    rcases TunnelId.eq_or_brother (show id.pair = TunnelId.pair ⟨pair, role⟩ from hid) with rfl | rfl
    · rw [hgrow, hbrother, h.accepted _ rfl, List.length_append, hlength, hk]
    · rw [TunnelId.brother_brother, due, hbrother, hchannel]
      have hold := h.accepted (TunnelId.mBrotherTunnel ⟨pair, role⟩) rfl
      rwa [TunnelId.brother_brother] at hold
  cases role with
  | roleLocal =>
    have hnot : ¬ AwaitsIV t ⟨pair, .roleLocal⟩ := fun hawaits => by cases hawaits.1
    have hremote : (u.mSocketChannel ⟨pair, .roleRemote⟩).received =
        (t.mSocketChannel ⟨pair, .roleRemote⟩).received := by
      have hreceived := congrArg SocketChannel.received hbrother
      exact hreceived
    have hset : (u.socks5 pair).mCryptor.decryptIVSet = (t.socks5 pair).mCryptor.decryptIVSet := by
      rw [hsocks5]
      cases hcode
      rfl
    refine ⟨hregistered, hselected, hdue (if_neg hnot) ?_, ?_, ?_⟩
    · simp only [due, hchannel, List.length_append, List.length_map, Nat.add_assoc]
    · rw [hset, hremote]
      exact h.waits
    · rw [hset, hremote]
      exact h.started
  | roleRemote =>
    have hreceived : (u.mSocketChannel ⟨pair, .roleRemote⟩).received.length =
        (t.mSocketChannel ⟨pair, .roleRemote⟩).received.length + chunk.val.length := by
      rw [hchannel, List.length_append, List.length_map]
    have hset : (u.socks5 pair).mCryptor.decryptIVSet = true := by
      rw [hsocks5]
      cases hcode with
      | decrypted hdecrypted =>
        cases hdecrypted with
        | first => rfl
        | next hset => exact hset
    have hfull : getIVLength ≤ (u.mSocketChannel ⟨pair, .roleRemote⟩).received.length := by
      rw [hreceived]
      cases hawaits : (t.socks5 pair).mCryptor.decryptIVSet with
      | false => exact Nat.le_add_left_of_le (hlong ⟨rfl, hawaits⟩)
      | true => exact Nat.le_add_right_of_le (h.started hawaits)
    refine ⟨hregistered, hselected, hdue rfl ?_, fun hfresh => ?_, fun _ => hfull⟩
    · simp only [due, hreceived]
      cases hawaits : (t.socks5 pair).mCryptor.decryptIVSet with
      | false =>
        have hpassed : passedOn t ⟨pair, .roleRemote⟩ chunk = chunk.val.length - getIVLength :=
          if_pos ⟨rfl, hawaits⟩
        rw [hpassed, h.waits hawaits]
        simp
      | true =>
        have hnot : ¬ AwaitsIV t ⟨pair, .roleRemote⟩ := fun hfresh => by
          cases hfresh.2.symm.trans hawaits
        have hpassed : passedOn t ⟨pair, .roleRemote⟩ chunk = chunk.val.length := if_neg hnot
        rw [hpassed]
        exact Nat.sub_add_comm (h.started hawaits)
    · cases hfresh.symm.trans hset

omit [Inhabited β] in
theorem closed_dispose_remote {t : Tunnels β σ} (hrole : id.mRole = .roleRemote) :
    ((t.dispose id).socks5 id.pair).mTunnelEstablished = false := by
  rw [t.dispose_remote id hrole, Tunnels.socks5_setEstablished, if_pos rfl]

omit [Inhabited β] in
/-- Only a handshake establishes a tunnel. -/
theorem closed_dispose {t : Tunnels β σ} (id : TunnelId)
    (hclosed : (t.socks5 id.pair).mTunnelEstablished = false) :
    ((t.dispose id).socks5 id.pair).mTunnelEstablished = false := by
  cases hrole : id.mRole with
  | roleLocal => rwa [t.dispose_local id hrole]
  | roleRemote => exact closed_dispose_remote hrole

omit [Inhabited β] in
theorem closed_setCryptor {t : Tunnels β σ} (pair : Nat)
    (hclosed : (t.socks5 pair).mTunnelEstablished = false) :
    ((t.setCryptor pair c).socks5 pair).mTunnelEstablished = false := by
  rwa [Tunnels.socks5_setCryptor, if_pos rfl]

theorem closed_readable (h : Readable C own t id calls (.ok ()) u)
    (hclosed : (t.socks5 id.pair).mTunnelEstablished = false) :
    (u.socks5 id.pair).mTunnelEstablished = false := by
  have hread {b : ByteBuffer β} {bytes : List β} {c : CryptBase β σ} :
      ((t.afterRead b id bytes c).socks5 id.pair).mTunnelEstablished = false :=
    closed_setCryptor id.pair hclosed
  cases h with
  | nothing => exact hclosed
  | ended b => exact closed_dispose (t := { t with mChannelBuffer := b }) id hclosed
  | kept => exact hread
  | relayed b hb chunk hread' hne out c hcode hestablished hout hrelayed =>
    cases hrelayed with
    | failed b' => exact closed_dispose (t := ({ t.afterRead b id _ c with mChannelBuffer := b' } :
        Tunnels β σ).send id.mBrotherTunnel _) id hread
    | sent => exact hread
    | scheduled => exact hread

omit [Inhabited β] in
theorem closed_writable (h : Writable C t id calls (.ok ()) u)
    (hclosed : (t.socks5 id.pair).mTunnelEstablished = false) :
    (u.socks5 id.pair).mTunnelEstablished = false := by
  have hresent {out : List β} {b : ByteBuffer β} {t₁ : Tunnels β σ} (h : Resent C t id out b t₁) :
      (t₁.socks5 id.pair).mTunnelEstablished = false := by
    cases h with
    | asIs => exact hclosed
    | again => exact closed_setCryptor id.pair hclosed
  cases h with
  | failed out b hb t₁ h =>
    have hclosed₁ := hresent h
    exact closed_dispose (t := t₁.afterWrite id b _) id hclosed₁
  | drained out b hb t₁ h =>
    have hclosed₁ := hresent h
    exact hclosed₁
  | resumed out b hb t₁ h =>
    have hclosed₁ := hresent h
    exact hclosed₁

/-- What `onReadable` does to a pair from which nothing waits. -/
theorem balanced_readable (h : Readable C own t id calls (.ok ()) u) (hc : Connected t id)
    (hbal : Balanced t all handshake id.pair) (hok : AllAccepted t calls id)
    (hsub : ∀ k ∈ keys, k ∈ all) : Balanced u keys handshake id.pair := by
  obtain ⟨s, hset, hs⟩ := hc.cipher
  have hgreeted : u.greeted id.pair = true := ((h.keeps hc).greeted id.pair).trans hset
  cases hest : (t.socks5 id.pair).mTunnelEstablished with
  | false => exact .of_closed hgreeted (closed_readable h hest)
  | true =>
    have hlevel := hbal.level hest
    have hopen : t.isTunnelEstablished id = true := by
      unfold Tunnels.isTunnelEstablished
      split
      · rfl
      · exact hest
    have hread {b : ByteBuffer β} {chunk : Chunk} {out : List β} {c : CryptBase β σ}
        (hcode : recode C id.mRole (t.socks5 id.pair).mCryptor (chunk.val.map (own id.pair)) =
          (.ok out, c)) (b' : ByteBuffer β) :
        Level (({ t.afterRead b id (chunk.val.map (own id.pair)) c with mChannelBuffer := b' } :
          Tunnels β σ).send id.mBrotherTunnel out) keys handshake id.pair := by
      have hne : id.mBrotherTunnel ≠ id := id.brother_ne
      refine hlevel.read (recode_cases hc.cipher hcode) ?_ ?_ ?_ hsub
      · rw [Tunnels.channel_send, if_neg hne.symm]
        exact (Tunnels.channel_receive { t with mChannelBuffer := b } id id _).trans (if_pos rfl)
      · rw [Tunnels.channel_send, if_pos rfl]
        have hother := (Tunnels.channel_receive { t with mChannelBuffer := b } id id.mBrotherTunnel
          (chunk.val.map (own id.pair))).trans (if_neg hne)
        exact congrArg (fun r : SocketChannel β => { r with sent := r.sent ++ out }) hother
      · exact (Tunnels.socks5_setCryptor _ id.pair id.pair c).trans (if_pos rfl)
    have hlevelled {u : Tunnels β σ} (hu : u.greeted id.pair = true) (h : Level u keys handshake id.pair) :
        Balanced u keys handshake id.pair := by
      refine ⟨fun hfresh => ?_, fun _ => h⟩
      cases hfresh.symm.trans hu
    cases h with
    | nothing b =>
      exact hbal.frame (fun _ _ => rfl) rfl hsub fun _ => rfl
    | ended b =>
      cases hrole : id.mRole with
      | roleLocal =>
        rw [Tunnels.dispose_local _ id hrole]
        exact hbal.frame (fun _ _ => rfl) rfl hsub fun _ => rfl
      | roleRemote => exact .of_closed hgreeted (closed_dispose_remote hrole)
    | kept b hb chunk hread' hne out c hcode hkept =>
      rcases hkept with hnot | rfl
      · cases hnot.symm.trans hopen
      · refine hlevelled hgreeted ?_
        have hlevel' := hread (b := b) hcode (t.afterRead b id (chunk.val.map (own id.pair)) c).mChannelBuffer
        rwa [Tunnels.send_nil] at hlevel'
    | relayed b hb chunk hread' hne out c hcode hestablished hout hrelayed =>
      obtain ⟨hlength, -⟩ := (recode_cases hc.cipher hcode).passedOn
      have hpos : 0 < passedOn t id chunk := hlength ▸ List.length_pos_iff.mpr hout
      have hall := hok hest
      rw [hread'] at hall
      have hall := hall hpos
      rw [← hlength] at hall
      cases hrelayed with
      | failed b' hb' hfailed =>
        rcases hall with hwhole | ⟨hrole, -⟩
        · rw [hwhole] at hfailed
          cases hfailed
        · exact .of_closed hgreeted (closed_dispose_remote hrole)
      | sent b' => exact hlevelled hgreeted (hread hcode b')
      | scheduled b' hb' k hk hpart =>
        rcases hall with hwhole | ⟨-, hfailed⟩
        · cases hwhole.symm.trans hpart
          exact absurd hk (Nat.lt_irrefl _)
        · rw [hpart] at hfailed
          cases hfailed

omit [Inhabited β] in
theorem Untouched.of_channels (h : Untouched t id.pair) (hrole : id.mRole = .roleRemote)
    (hsocks5 : u.socks5 = t.socks5)
    (hreceived : ∀ id', (u.mSocketChannel id').received = (t.mSocketChannel id').received)
    (hsent : ∀ id', (u.mSocketChannel id').sent = (t.mSocketChannel id').sent) :
    Untouched (u.dispose id) id.pair := by
  refine ⟨closed_dispose_remote hrole, ?_, fun id' hid' => ?_, fun id' hid' => ?_⟩
  · rw [u.dispose_remote id hrole, Tunnels.socks5_setEstablished, if_pos rfl, hsocks5]
    exact h.decryptIVSet
  · rw [u.channel_dispose, hreceived]
    exact h.received id' hid'
  · rw [u.channel_dispose, hsent]
    exact h.sent id' hid'

omit [Inhabited β] in
theorem balanced_writable (h : Writable C t id calls (.ok ()) u) (hc : Connected t id)
    (hbal : Balanced t all handshake id.pair) (hselected : .tunnel id .opWrite ∈ all) :
    Balanced u keys handshake id.pair := by
  obtain ⟨s, hset, hs⟩ := hc.cipher
  have hgreeted : u.greeted id.pair = true := ((h.keeps hc).greeted id.pair).trans hset
  cases hest : (t.socks5 id.pair).mTunnelEstablished with
  | false => exact .of_closed hgreeted (closed_writable h hest)
  | true => exact absurd hselected ((hbal.level hest).selected id rfl)

omit [Inhabited β] in
theorem balanced_selected {pair : Nat} (hkeys : Selectable (deregister t) keys)
    (hbal : Balanced t all handshake pair) : Balanced (deregister t) keys handshake pair := by
  refine ⟨fun hfresh => ?_, fun hestablished => ?_⟩
  · have hold := hbal.fresh hfresh
    exact ⟨hold.established, hold.decryptIVSet, hold.received, hold.sent⟩
  · have hold := hbal.level hestablished
    have hregistered : ∀ id, id.pair = pair → Registered (deregister t) id .opRead := by
      intro id hid
      exact Option.filter_eq_some_iff.mpr ⟨hold.registered id hid, rfl⟩
    refine ⟨hregistered, fun id hid hmem => ?_, hold.accepted, hold.waits, hold.started⟩
    have hready : Registered (deregister t) id .opWrite := hkeys.2 _ hmem
    cases (hregistered id hid).symm.trans hready

omit [Inhabited β] in
theorem balanced_acceptable {pair : Nat} {calls : AcceptCalls} {r : Except Throwable Unit}
    (h : Acceptable t pair calls r u) (hnew : NewPair t pair) : Balanced u keys handshake pair := by
  have huntouched {u : Tunnels β σ} {dest : InetSocketAddress}
      (hsocks5 : u.socks5 pair = { mDestAddress := dest })
      (hreceived : ∀ id, (u.mSocketChannel id).received = (t.mSocketChannel id).received)
      (hsent : ∀ id, (u.mSocketChannel id).sent = (t.mSocketChannel id).sent) :
      Balanced u keys handshake pair := by
    refine ⟨fun _ => ⟨?_, ?_, fun id hid => ?_, fun id hid => ?_⟩, fun hestablished => ?_⟩
    · rw [hsocks5]
    · rw [hsocks5]
    · rw [hreceived, hnew.channel id hid]
    · rw [hsent, hnew.channel id hid]
    · rw [hsocks5] at hestablished
      cases hestablished
  have hset (dest : InetSocketAddress) :
      (t.setSocks5 pair { mDestAddress := dest }).socks5 pair = { mDestAddress := dest } :=
    t.socks5_setSocks5 pair _
  cases h with
  | failed => exact huntouched hnew.socks5 (fun _ => rfl) fun _ => rfl
  | dropped => exact huntouched hnew.socks5 (fun _ => rfl) fun _ => rfl
  | unprotected haccept hserver dest => exact huntouched (hset dest) (fun _ => rfl) fun _ => rfl
  | refused haccept hserver dest => exact huntouched (hset dest) (fun _ => rfl) fun _ => rfl
  | connecting haccept hserver dest =>
    exact huntouched (hset dest) (fun id => Tunnels.received_setKey ..) fun id => Tunnels.sent_setKey ..

omit [Inhabited β] in
/-- The handshake, which is counted when it is made. -/
theorem balanced_connectable (h : Connectable C own t id calls (.ok ()) u) (hc : Connecting t id)
    (hbal : Balanced t all handshake id.pair)
    (hselected : ∀ id', id'.pair = id.pair → .tunnel id' .opWrite ∉ keys) :
    Balanced u keys (u.mSocketChannel id).sent.length id.pair := by
  have hold := hbal.fresh hc.fresh
  have hdisposed {u : Tunnels β σ} {k : Nat} (h : Untouched u id.pair) : Balanced u keys k id.pair := by
    refine ⟨fun _ => h, fun hestablished => ?_⟩
    cases h.established.symm.trans hestablished
  cases h with
  | refused =>
    exact hdisposed (hold.of_channels hc.role rfl (t.received_close id) (t.sent_close id))
  | pending => exact hdisposed (hold.of_channels hc.role rfl (fun _ => rfl) fun _ => rfl)
  | connected hcall hs =>
    generalize hstarted : started C own _ calls.iv _ _ = c
    have hset : c.decryptIVSet = false := by
      rw [← hstarted]
      exact hold.decryptIVSet
    have hgreeted : c.encryptIVSet = true := by
      rw [← hstarted]
      rfl
    have hsocks5 := t.socks5_establish id c (hs.take (accepted calls.writes hs.length).1)
    have hchannel := t.channel_establish id c (hs.take (accepted calls.writes hs.length).1)
    have hbrother := t.channel_establish_brother id c (hs.take (accepted calls.writes hs.length).1)
    generalize t.establish id c (hs.take (accepted calls.writes hs.length).1) = u
      at hsocks5 hchannel hbrother ⊢
    have hnothing : (u.mSocketChannel id).received = [] := by
      rw [hchannel]
      exact hold.received id rfl
    have hlocal : id.mBrotherTunnel.mRole = .roleLocal := by
      simp only [TunnelId.mBrotherTunnel, hc.role]
    refine ⟨fun hfresh => ?_, fun _ => ⟨fun id' hid' => ?_, hselected, fun id' hid' => ?_,
      fun _ => ?_, fun hstarted => ?_⟩⟩
    · rw [Tunnels.greeted, hsocks5] at hfresh
      cases hfresh.symm.trans hgreeted
    · rcases TunnelId.eq_or_brother hid' with rfl | rfl
      · rw [Registered, hchannel]
      · rw [Registered, hbrother]
    · rcases TunnelId.eq_or_brother hid' with rfl | rfl
      · simp only [due, hc.role, hnothing, hbrother, hold.sent id'.mBrotherTunnel rfl]
        rfl
      · simp only [due, hlocal, hbrother, hold.received id.mBrotherTunnel rfl, id.brother_brother]
        rfl
    · obtain ⟨pair, role⟩ := id
      obtain rfl := hc.role
      exact hnothing
    · rw [hsocks5] at hstarted
      cases hset.symm.trans hstarted

end

-- ---------------------------------------------------------------------------
-- Steps and runs
-- ---------------------------------------------------------------------------

section
variable [Inhabited β] (C : StreamCipher β σ) (own : Nat → Byte → β)

/-- A step of the thread; what a remote channel has accepted when its pair makes
the handshake is kept. -/
def watch (w : Watched β σ) (e : Round) : Option (Watched β σ) :=
  (step C own w.thread e).map fun t =>
    { thread := t
      handshake := fun pair =>
        if w.thread.tunnels.greeted pair = true then w.handshake pair
        else (t.tunnels.mSocketChannel ⟨pair, .roleRemote⟩).sent.length }

def Watched.initial : Watched β σ := ⟨SelectorThread.initial, fun _ => 0⟩

variable {C own} {w w' : Watched β σ} {e : Round}

theorem balanced_step (hs : Steady w.thread)
    (hbal : ∀ pair, Balanced w.thread.tunnels w.thread.selectedKeys (w.handshake pair) pair)
    (hok : AcceptedOk w.thread e) (hstep : watch C own w e = some w') (hrunning : w'.thread.stopped = none)
    (pair : Nat) : Balanced w'.thread.tunnels w'.thread.selectedKeys (w'.handshake pair) pair := by
  obtain ⟨t, hthread, rfl⟩ := Option.map_eq_some_iff.mp hstep
  -- a handler leaves the other pairs alone
  have hother {other : Nat} {u : Tunnels β σ} {keys : List Selected} {k : Nat}
      (hsub : ∀ k ∈ keys, k ∈ w.thread.selectedKeys) (hne : pair ≠ other)
      (h : ∀ id, id.pair ≠ other → u.mSocketChannel id = w.thread.tunnels.mSocketChannel id)
      (hsocks5 : ∀ pair, pair ≠ other → u.socks5 pair = w.thread.tunnels.socks5 pair) :
      Balanced u keys (if w.thread.tunnels.greeted pair = true then w.handshake pair else k) pair :=
    (hbal pair).frame (fun id hid => h id (hid.trans_ne hne)) (hsocks5 pair hne) hsub
      fun hgreeted => if_pos hgreeted
  cases step_cases hs hthread with
  | selected hempty keys hkeys =>
    refine balanced_selected hkeys ((hbal pair).frame (fun _ _ => rfl) rfl (fun _ h => h) fun h => ?_)
    exact if_pos h
  | skipped id readyOps keys hkeys =>
    refine (hbal pair).frame (fun _ _ => rfl) rfl (fun _ hmem => ?_) fun h => if_pos h
    rw [hkeys]
    exact List.mem_cons_of_mem _ hmem
  | accepted keys hkeys calls h =>
    have hnew := hs.fresh _ (Nat.le_refl w.thread.accepted)
    have hsub : ∀ k ∈ keys, k ∈ w.thread.selectedKeys := hkeys ▸ fun _ => List.mem_cons_of_mem _
    by_cases hpair : pair = w.thread.accepted
    · subst hpair
      exact balanced_acceptable h hnew
    · exact hother hsub hpair (h.keeps hnew).channel (h.keeps hnew).socks5
  | @readable id keys hkeys hvalid hc calls r u h =>
    obtain rfl := (finish_stopped ..).mp hrunning
    have hsub : ∀ k ∈ keys, k ∈ w.thread.selectedKeys := hkeys ▸ fun _ => List.mem_cons_of_mem _
    by_cases hpair : pair = id.pair
    · subst hpair
      have hgreeted : w.thread.tunnels.greeted id.pair = true := by
        obtain ⟨_, hset, -⟩ := hc.cipher
        exact hset
      have haccepted : AllAccepted w.thread.tunnels calls id := by
        simp only [AcceptedOk, hkeys] at hok
        exact hok hvalid
      simp only [if_pos hgreeted]
      exact balanced_readable h hc (hbal id.pair) haccepted hsub
    · exact hother hsub hpair (h.keeps hc).channel (h.keeps hc).socks5
  | @writable id keys hkeys hvalid hc calls r u h =>
    obtain rfl := (finish_stopped ..).mp hrunning
    have hsub : ∀ k ∈ keys, k ∈ w.thread.selectedKeys := hkeys ▸ fun _ => List.mem_cons_of_mem _
    by_cases hpair : pair = id.pair
    · subst hpair
      have hgreeted : w.thread.tunnels.greeted id.pair = true := by
        obtain ⟨_, hset, -⟩ := hc.cipher
        exact hset
      simp only [if_pos hgreeted]
      exact balanced_writable h hc (hbal id.pair) (hkeys ▸ List.mem_cons_self ..)
    · exact hother hsub hpair (h.keeps hc).channel (h.keeps hc).socks5
  | @connectable id keys hkeys hvalid hc calls r u h =>
    obtain rfl := (finish_stopped ..).mp hrunning
    have hsub : ∀ k ∈ keys, k ∈ w.thread.selectedKeys := hkeys ▸ fun _ => List.mem_cons_of_mem _
    by_cases hpair : pair = id.pair
    · subst hpair
      have hnot : ¬ w.thread.tunnels.greeted id.pair = true := by
        rw [Tunnels.greeted, hc.fresh]
        exact Bool.false_ne_true
      have hid : id = ⟨id.pair, .roleRemote⟩ := by
        rw [← hc.role]
      have hselected : ∀ id', id'.pair = id.pair → .tunnel id' .opWrite ∉ keys := by
        intro id' hid' hmem
        have hconnect := (hs.selected id' .opWrite (hsub _ hmem)).connect
        rw [hid', Tunnels.greeted, hc.fresh] at hconnect
        cases hconnect.mpr rfl
      simp only [if_neg hnot, ← hid]
      exact balanced_connectable h hc (hbal id.pair) hselected
    · rcases h.keeps hc with hkept | hgreeted
      · exact hother hsub hpair hkept.channel hkept.socks5
      · exact hother hsub hpair hgreeted.channel hgreeted.socks5

theorem balanced_initial (pair : Nat) :
    Balanced (Watched.initial : Watched β σ).thread.tunnels [] 0 pair := by
  refine ⟨fun _ => ⟨rfl, rfl, fun _ _ => rfl, fun _ _ => rfl⟩, fun hestablished => ?_⟩
  cases hestablished

theorem balanced_run {rounds : List Round} (hrun : Machine.run (watch C own) .initial rounds = some w)
    (hok : Machine.Guarded (watch C own) (fun w => AcceptedOk w.thread) .initial rounds)
    (hrunning : w.thread.stopped = none) (pair : Nat) :
    Balanced w.thread.tunnels w.thread.selectedKeys (w.handshake pair) pair := by
  have hkeep : ∀ (w : Watched β σ) e w', (w.thread.stopped = none → Steady w.thread ∧
        ∀ pair, Balanced w.thread.tunnels w.thread.selectedKeys (w.handshake pair) pair) →
      AcceptedOk w.thread e → watch C own w e = some w' → w'.thread.stopped = none →
      Steady w'.thread ∧
        ∀ pair, Balanced w'.thread.tunnels w'.thread.selectedKeys (w'.handshake pair) pair := by
    rintro w e w' hinv hok hstep hstopped
    obtain ⟨t, hthread, rfl⟩ := Option.map_eq_some_iff.mp hstep
    obtain ⟨hs, hbal⟩ := hinv (running_of_step hthread)
    exact ⟨steady_step hs hthread hstopped, balanced_step hs hbal hok hstep hstopped⟩
  exact (Machine.run_invariant hkeep (fun _ => ⟨steady_initial, balanced_initial⟩) hok hrun
    hrunning).2 pair

end

/-- Where nothing is left over in an established pair, both directions of every
pair are under control between two handlers. -/
theorem flow_controlled [Inhabited β] (C : StreamCipher β σ) (own : Nat → Byte → β)
    (rounds : List Round) (w : Watched β σ)
    (hrun : Machine.run (watch C own) .initial rounds = some w)
    (hok : Machine.Guarded (watch C own) (fun w => AcceptedOk w.thread) .initial rounds)
    (hrunning : w.thread.stopped = none) : FlowControlled w := by
  rintro pair hestablished id rfl
  exact ((balanced_run hrun hok hrunning id.pair).level hestablished).directed

/-- The watched thread after some rounds. -/
def watched (rounds : List Round) : Watched Byte Byte :=
  (Machine.run (watch feedback fun _ => id) .initial rounds).getD .initial

/-- A chunk each way, accepted whole. -/
def levelRounds : List Round :=
  connectRounds 0 ++
    [.select [.tunnel ⟨0, .roleLocal⟩ .opRead], .handle (sampleCalls request [2]),
      .select [.tunnel ⟨0, .roleRemote⟩ .opRead], .handle (sampleCalls answer [2])]

theorem levelRounds_controlled : FlowControlled (watched levelRounds) := by
  have hrun : Machine.run (watch feedback fun _ => id) .initial levelRounds =
      some (watched levelRounds) := Machine.run_getD (by decide +kernel)
  have hrunning : (watched levelRounds).thread.stopped = none := by decide +kernel
  generalize watched levelRounds = w at hrun hrunning ⊢
  exact flow_controlled feedback (fun _ => id) levelRounds w hrun (by decide +kernel) hrunning

/-- A leftover of one byte for the client. -/
def leftoverRounds : List Round :=
  connectRounds 0 ++
    [.select [.tunnel ⟨0, .roleRemote⟩ .opRead], .handle (sampleCalls answer [1])]

/-- The client's channel accepts it. -/
def drainedRounds : List Round :=
  leftoverRounds ++
    [.select [.tunnel ⟨0, .roleLocal⟩ .opWrite], .handle (sampleCalls nothing [1])]

/-- While the leftover waits the client is not read from, and when it has gone
neither channel is. -/
theorem flow_stalled :
    (watched leftoverRounds).thread.stopped = none ∧ ¬ FlowControlled (watched leftoverRounds) ∧
    (watched drainedRounds).thread.stopped = none ∧ ¬ FlowControlled (watched drainedRounds) := by
  refine ⟨by decide +kernel, ?_, by decide +kernel, ?_⟩
  · intro h
    have hidle := (h 0 (by decide +kernel) ⟨0, .roleLocal⟩ rfl).idle (by decide +kernel)
    revert hidle
    unfold Registered
    decide +kernel
  · intro h
    have hidle := (h 0 (by decide +kernel) ⟨0, .roleRemote⟩ rfl).idle (by decide +kernel)
    revert hidle
    unfold Registered
    decide +kernel

end SmartSocks.Sslocal
