import SmartSocks.Sslocal.SelectorRuns

/-!
# The bytes of a connection stay with it

Every byte is labelled with the pair on whose channels it was read, or whose
tunnel has made it (an IV, a header). The cipher and the buffers carry the
labels along, and a channel is isolated when all bytes it has accepted carry the
label of its own pair.

All pairs share `mWriteRemainingBuffer`. A leftover is put behind whatever was
drained from it before and `flip` hands out both, to each tunnel that waits for
`OP_WRITE`. `ScheduleOk` is the condition on a step that leaves a leftover: no
other pair waits, and what was drained is of the same pair.
-/

namespace SmartSocks.Tunnel

open Jvm Crypto

variable {σ : Type}

/-- A byte with its pair. -/
abbrev Labelled := Byte × Nat

def label (pair : Nat) (b : Byte) : Labelled := (b, pair)

def OfPair (pair : Nat) (bytes : List Labelled) : Prop := ∀ b ∈ bytes, b.2 = pair

section
variable {pair : Nat} {xs ys : List Labelled}

theorem OfPair.append (hx : OfPair pair xs) (hy : OfPair pair ys) : OfPair pair (xs ++ ys) :=
  fun b hb => (List.mem_append.mp hb).elim (hx b) (hy b)

theorem OfPair.take (h : OfPair pair xs) (k : Nat) : OfPair pair (xs.take k) :=
  fun b hb => h b (List.mem_of_mem_take hb)

theorem OfPair.drop (h : OfPair pair xs) (k : Nat) : OfPair pair (xs.drop k) :=
  fun b hb => h b (List.mem_of_mem_drop hb)

theorem ofPair_map (bytes : List Byte) : OfPair pair (bytes.map (label pair)) := by
  intro b hb
  obtain ⟨a, -, rfl⟩ := List.mem_map.mp hb
  rfl

/-- A cipher leaves the labels in place. -/
theorem OfPair.output (h : OfPair pair xs) (T : Transducer σ Byte Byte) (s : σ) :
    OfPair pair ((T.labelled Nat).output s xs) := by
  intro b hb
  have hmem : b.2 ∈ ((T.labelled Nat).output s xs).map Prod.snd := List.mem_map_of_mem hb
  rw [T.map_snd_output_labelled] at hmem
  obtain ⟨a, ha, heq⟩ := List.mem_map.mp hmem
  rw [← heq]
  exact h a ha

end

-- ---------------------------------------------------------------------------
-- What a handler sends
-- ---------------------------------------------------------------------------

/-- The bytes that the channels have accepted are of their pairs. -/
def Isolated (t : Tunnels Labelled σ) : Prop :=
  ∀ id, OfPair id.pair (t.mSocketChannel id).sent

section
variable {t u : Tunnels Labelled σ} {id : TunnelId} {calls : Calls} {r : Except Throwable Unit}
  {out bytes : List Labelled} {c : CryptBase Labelled σ}

theorem Isolated.send (h : Isolated t) (hbytes : OfPair id.pair bytes) :
    Isolated (t.send id bytes) := by
  intro id'
  rw [t.channel_send]
  split
  · next heq =>
    subst heq
    exact (h id').append hbytes
  · exact h id'

theorem Isolated.of_sent (h : Isolated t)
    (hsent : ∀ id, (u.mSocketChannel id).sent = (t.mSocketChannel id).sent) : Isolated u := by
  intro id
  rw [hsent]
  exact h id

theorem Isolated.setKey (h : Isolated t) (key : Option SelectionKey) : Isolated (t.setKey id key) :=
  h.of_sent fun id' => t.sent_setKey id id' key

theorem Isolated.cancel (h : Isolated t) (id : TunnelId) : Isolated (t.cancel id) :=
  h.of_sent fun id' => t.sent_cancel id id'

theorem Isolated.dispose (h : Isolated t) (id : TunnelId) : Isolated (t.dispose id) :=
  h.of_sent fun id' => by rw [t.channel_dispose]

theorem Isolated.afterRead (h : Isolated t) (b : ByteBuffer Labelled) :
    Isolated (t.afterRead b id bytes c) :=
  h.of_sent fun id' => Tunnels.sent_receive { t with mChannelBuffer := b } id id' bytes

theorem Relayed.isolated (h : Relayed calls id t out r u) (ht : Isolated t)
    (hout : OfPair id.pair out) : Isolated u := by
  have hsend (b : ByteBuffer Labelled) (k : Nat) :
      Isolated (({ t with mChannelBuffer := b }).send id.mBrotherTunnel (out.take k)) :=
    Isolated.send (t := { t with mChannelBuffer := b }) ht (hout.take k)
  cases h with
  | failed b => exact ((hsend b _).dispose id).cancel id
  | sent b => exact Isolated.send (t := { t with mChannelBuffer := b }) ht hout
  | overflow b hb k => exact hsend b k
  | cancelled b hb k => exact hsend b k
  | scheduled b hb k =>
    have hscheduled : Isolated ((({ t with mChannelBuffer := b }).send id.mBrotherTunnel
        (out.take k)).schedule (out.drop k)) := hsend b k
    exact (hscheduled.setKey _).cancel id

variable {C : StreamCipher Byte σ}

theorem Recoded.ofPair {c' : CryptBase Labelled σ} {role : TunnelRole} {pair : Nat}
    (h : Recoded (C.labelled Nat) c bytes role (.ok out) c') (hbytes : OfPair pair bytes) :
    OfPair pair out := by
  cases h with
  | encrypted s => exact hbytes.output C.encrypting s
  | decrypted h =>
    cases h with
    | first => exact (hbytes.drop getIVLength).output C.decrypting _
    | next hset s => exact hbytes.output C.decrypting s

theorem Readable.isolated (h : Readable (C.labelled Nat) label t id calls r u) (hc : Connected t id)
    (ht : Isolated t) : Isolated u := by
  cases h with
  | nothing => exact ht
  | ended b => exact Isolated.dispose (t := { t with mChannelBuffer := b }) ht id
  | broken b => exact ht.afterRead b
  | kept b => exact ht.afterRead b
  | relayed b hb chunk hread hne out c hcode hestablished hout hrelayed =>
    have hout := (recode_cases hc.cipher hcode).ofPair (ofPair_map chunk.val)
    exact hrelayed.isolated (ht.afterRead b) hout

theorem Resent.ofPair {b : ByteBuffer Labelled} {t₁ : Tunnels Labelled σ} {pair : Nat}
    (h : Resent (C.labelled Nat) t id out b t₁)
    (hleft : OfPair pair t.mWriteRemainingBuffer.left) : OfPair pair out := by
  cases h with
  | asIs => exact hleft
  | again hrole s => exact hleft.output C.encrypting s

theorem Resent.left {b : ByteBuffer Labelled} {t₁ : Tunnels Labelled σ}
    (h : Resent (C.labelled Nat) t id out b t₁) : b.left = out := by
  cases h with
  | asIs => rfl
  | again hrole s hs hzero b hleft => exact hleft

theorem Isolated.afterWrite {b : ByteBuffer Labelled} {t₁ : Tunnels Labelled σ} (ht : Isolated t)
    (h : Resent (C.labelled Nat) t id out b t₁) (hbytes : OfPair id.pair bytes) :
    Isolated (t₁.afterWrite id b bytes) := by
  have ht₁ : Isolated t₁ := ht.of_sent fun id' => by rw [h.channel]
  have hsend : Isolated (t₁.send id bytes) := ht₁.send hbytes
  exact hsend

theorem Writable.isolated (h : Writable (C.labelled Nat) t id calls r u) (ht : Isolated t)
    (hleft : OfPair id.pair t.mWriteRemainingBuffer.left) : Isolated u := by
  cases h with
  | underflow => exact ht
  | failed out b hb t₁ hresent k =>
    exact (ht.afterWrite hresent ((hresent.ofPair hleft).take k)).dispose id
  | drained out b hb t₁ hresent => exact ht.afterWrite hresent (hresent.ofPair hleft)
  | cancelled out b hb t₁ hresent k =>
    exact (ht.afterWrite hresent ((hresent.ofPair hleft).take k)).cancel id
  | resumed out b hb t₁ hresent k =>
    exact ((ht.afterWrite hresent ((hresent.ofPair hleft).take k)).cancel id).setKey _

theorem Connectable.isolated (h : Connectable (C.labelled Nat) label t id calls r u)
    (ht : Isolated t) : Isolated u := by
  cases h with
  | refused =>
    have hclose : Isolated (t.close id) := ht.of_sent fun id' => t.sent_close id id'
    exact hclose.dispose id
  | pending => exact ht.dispose id
  | tooLong => exact ht
  | connected hcall hs hgreeting =>
    have hout : OfPair id.pair hs := by
      rw [hgreeting]
      exact (ofPair_map _).append ((ofPair_map _).output C.encrypting _)
    have hsend : Isolated ((t.setCryptor id.pair (started (C.labelled Nat) label id.pair calls.iv
        (t.socks5 id.pair).mDestAddress (t.socks5 id.pair).mCryptor)).send id
          (hs.take (accepted calls.writes hs.length).1)) :=
      Isolated.send (t := t.setCryptor id.pair _) ht (hout.take _)
    exact (Isolated.setKey (Isolated.of_sent hsend fun _ => rfl) _).setKey _

end

end SmartSocks.Tunnel

namespace SmartSocks.Sslocal

open Jvm Crypto Tunnel SelectorThread

variable {σ : Type}

-- ---------------------------------------------------------------------------
-- What waits in `mWriteRemainingBuffer`
-- ---------------------------------------------------------------------------

/-- Every tunnel that waits for `OP_WRITE` finds bytes of its own pair. -/
def Waiting (t : Tunnels Labelled σ) (keys : List Selected) : Prop :=
  ∀ id, Awaits t keys id .opWrite → OfPair id.pair t.mWriteRemainingBuffer.left

/-- A leftover of the pair may be scheduled: no other pair waits, and what was
drained before is of the same pair. -/
structure RoomFor (s : SelectorThread Labelled σ) (pair : Nat) : Prop where
  waiting : ∀ other < s.accepted, other ≠ pair → ∀ mRole ∈ [.roleLocal, .roleRemote],
    ¬ Awaits s.tunnels s.selectedKeys ⟨other, mRole⟩ .opWrite
  drained : OfPair pair s.tunnels.mWriteRemainingBuffer.drained

/-- The brother does not accept all that the handler passes on. -/
def LeavesLeftover (t : Tunnels Labelled σ) (id : TunnelId) (calls : Calls) : Prop :=
  match calls.read with
  | .bytes chunk => t.isTunnelEstablished id = true ∧
      (accepted calls.writes (passedOn t id chunk)).1 < passedOn t id chunk ∧
      (accepted calls.writes (passedOn t id chunk)).2 = false
  | _ => False

/-- The condition on a round. -/
def ScheduleOk (s : SelectorThread Labelled σ) : Round → Prop
  | .handle calls =>
    match s.selectedKeys with
    | .tunnel id .opRead :: _ => isValid s.tunnels id = true → LeavesLeftover s.tunnels id calls →
        RoomFor s id.pair
    | _ => True
  | _ => True

instance (pair : Nat) (bytes : List Labelled) : Decidable (OfPair pair bytes) :=
  inferInstanceAs (Decidable (∀ b ∈ bytes, _))

instance (s : SelectorThread Labelled σ) (pair : Nat) : Decidable (RoomFor s pair) :=
  decidable_of_iff (_ ∧ _) ⟨fun h => ⟨h.1, h.2⟩, fun h => ⟨h.waiting, h.drained⟩⟩

instance (t : Tunnels Labelled σ) (id : TunnelId) (calls : Calls) :
    Decidable (LeavesLeftover t id calls) := by
  dsimp only [LeavesLeftover]
  rcases calls.read with _ | _ | _ <;> infer_instance

instance (s : SelectorThread Labelled σ) : (e : Round) → Decidable (ScheduleOk s e)
  | .handle calls => by
    dsimp only [ScheduleOk]
    rcases s.selectedKeys with _ | ⟨_ | ⟨id, _ | _ | _⟩, keys⟩ <;> infer_instance
  | .select _ | .accept _ => .isTrue trivial

section
variable {t u : Tunnels Labelled σ} {keys keys' : List Selected} {id : TunnelId} {calls : Calls}
  {out : List Labelled}

/-- A step that wakes no writer and leaves the leftover as it is. -/
theorem Waiting.of_awaits (h : Waiting t keys)
    (hawaits : ∀ id, Awaits u keys' id .opWrite → Awaits t keys id .opWrite)
    (hbuffer : u.mWriteRemainingBuffer = t.mWriteRemainingBuffer) : Waiting u keys' := by
  intro id hid
  rw [hbuffer]
  exact h id (hawaits id hid)

theorem Waiting.of_keys (h : Waiting t keys)
    (hkey : ∀ id, (u.mSocketChannel id).key = (t.mSocketChannel id).key)
    (hkeys : ∀ k ∈ keys', k ∈ keys)
    (hbuffer : u.mWriteRemainingBuffer = t.mWriteRemainingBuffer) : Waiting u keys' :=
  h.of_awaits (fun id hid => hid.of_key (hkey id) (hkeys _)) hbuffer

theorem waiting_relayed (h : Relayed calls id t out (.ok ()) u) (hw : Waiting t keys)
    (hout : OfPair id.pair out)
    (hroom : (accepted calls.writes out.length).1 < out.length →
      (accepted calls.writes out.length).2 = false →
        (∀ id', Awaits t keys id' .opWrite → id'.pair = id.pair) ∧
          OfPair id.pair t.mWriteRemainingBuffer.drained)
    (hregistered : ∀ id ops, .tunnel id ops ∈ keys → (t.mSocketChannel id).key ≠ none) :
    Waiting u keys := by
  cases h with
  | failed b =>
    refine hw.of_awaits (fun id' hid' => ?_) ?_
    · refine hid'.of_cancel.2.of_key ?_ fun h => h
      rw [Tunnels.channel_dispose]
      exact key_send _ _
    · rw [Tunnels.cancel, Tunnels.setKey, Tunnels.setChannel]
      exact Tunnels.mWriteRemainingBuffer_dispose ..
  | sent b => exact hw.of_keys (fun id' => key_send _ _) (fun _ h => h) rfl
  | scheduled b hb k hk hpart hfit hkey =>
    rw [hpart] at hroom
    obtain ⟨hother, hdrained⟩ := hroom hk rfl
    have hleft : (t.mWriteRemainingBuffer.store (out.drop k)).flip.left =
        t.mWriteRemainingBuffer.drained ++ out.drop k := by
      rw [ByteBuffer.flip_left]
      exact ByteBuffer.store_drained _ (by rwa [List.length_drop])
    have hsame (id' : TunnelId) : (((({ t with mChannelBuffer := b }).send id.mBrotherTunnel
        (out.take k)).schedule (out.drop k)).mSocketChannel id').key =
          (t.mSocketChannel id').key := key_send _ _
    intro id' hid'
    have hpair : id'.pair = id.pair := by
      have hnot : ¬ ((({ t with mChannelBuffer := b }).send id.mBrotherTunnel (out.take k)).schedule
          (out.drop k)).Cancelled id.mBrotherTunnel := by
        unfold Tunnels.Cancelled
        rwa [hsame]
      rcases hid'.of_cancel.2.of_setKey hnot (fun hmem => hsame _ ▸ hregistered _ _ hmem) with
        ⟨rfl, -⟩ | hid'
      · rfl
      · exact hother id' (hid'.of_key (hsame id') fun h => h)
    rw [hpair]
    show OfPair id.pair (t.mWriteRemainingBuffer.store (out.drop k)).flip.left
    rw [hleft]
    exact hdrained.append (hout.drop k)

variable {C : StreamCipher Byte σ}

theorem waiting_readable (h : Readable (C.labelled Nat) label t id calls (.ok ()) u)
    (hc : Connected t id) (hw : Waiting t keys)
    (hroom : LeavesLeftover t id calls → (∀ id', Awaits t keys id' .opWrite → id'.pair = id.pair) ∧
      OfPair id.pair t.mWriteRemainingBuffer.drained)
    (hregistered : ∀ id ops, .tunnel id ops ∈ keys → (t.mSocketChannel id).key ≠ none) :
    Waiting u keys := by
  cases h with
  | nothing => exact hw.of_keys (fun _ => rfl) (fun _ h => h) rfl
  | ended b =>
    refine hw.of_keys (fun id' => ?_) (fun _ h => h) (Tunnels.mWriteRemainingBuffer_dispose ..)
    rw [Tunnels.channel_dispose]
  | kept b => exact hw.of_keys key_afterRead (fun _ h => h) rfl
  | relayed b hb chunk hread hne out c hcode hestablished hout hrelayed =>
    have hcases := recode_cases hc.cipher hcode
    have hw' : Waiting (t.afterRead b id (chunk.val.map (label id.pair)) c) keys :=
      hw.of_keys key_afterRead (fun _ h => h) rfl
    refine waiting_relayed hrelayed hw' (hcases.ofPair (ofPair_map chunk.val)) ?_ ?_
    · intro hk hpart
      rw [hcases.passedOn.1] at hk hpart
      have hleaves : LeavesLeftover t id calls := by
        unfold LeavesLeftover
        rw [hread]
        exact ⟨hestablished, hk, hpart⟩
      obtain ⟨hother, hdrained⟩ := hroom hleaves
      exact ⟨fun id' hid' => hother id' (hid'.of_key (key_afterRead id') fun h => h), hdrained⟩
    · intro id' ops hmem
      rw [key_afterRead]
      exact hregistered id' ops hmem

/-- What is left of the leftover is still of the pair of each tunnel that waits. -/
theorem waiting_writable (h : Writable (C.labelled Nat) t id calls (.ok ()) u) (hw : Waiting t keys)
    (hregistered : ∀ id ops, .tunnel id ops ∈ keys → (t.mSocketChannel id).key ≠ none) :
    Waiting u keys := by
  have hafter {out bytes : List Labelled} {b : ByteBuffer Labelled} {t₁ : Tunnels Labelled σ}
      (hresent : Resent (C.labelled Nat) t id out b t₁) (hbytes : bytes.length ≤ out.length) :
      Waiting (t₁.afterWrite id b bytes) keys := by
    intro id' hid'
    have hle : bytes.length ≤ b.remaining := by rwa [← b.length_left, hresent.left]
    show OfPair id'.pair (b.advance bytes.length).left
    rw [b.advance_left hle, hresent.left]
    have hid : Awaits t keys id' .opWrite :=
      hid'.of_key ((key_afterWrite id').trans (by rw [hresent.channel])) fun h => h
    exact (hresent.ofPair (hw id' hid)).drop _
  cases h with
  | failed out b hb t₁ hresent k hk =>
    refine (hafter hresent (List.length_take_le' k out)).of_keys (fun id' => ?_) (fun _ h => h)
      (Tunnels.mWriteRemainingBuffer_dispose ..)
    rw [Tunnels.channel_dispose]
  | drained out b hb t₁ hresent => exact hafter hresent (Nat.le_refl _)
  | resumed out b hb t₁ hresent k hk hpart hestablished hkey =>
    have hsame (id' : TunnelId) : ((t₁.afterWrite id b (out.take k)).mSocketChannel id').key =
        (t.mSocketChannel id').key := (key_afterWrite id').trans (by rw [hresent.channel])
    have hbrother : (((t₁.afterWrite id b (out.take k)).cancel id).mSocketChannel
        id.mBrotherTunnel).key = (t.mSocketChannel id.mBrotherTunnel).key := by
      rw [Tunnels.channel_cancel, if_neg id.brother_ne]
      exact hsame _
    have hnot : ¬ ((t₁.afterWrite id b (out.take k)).cancel id).Cancelled id.mBrotherTunnel := by
      unfold Tunnels.Cancelled
      rwa [hbrother]
    refine (hafter hresent (List.length_take_le' k out)).of_awaits (fun id' hid' => ?_) rfl
    rcases hid'.of_setKey hnot fun hmem => hbrother ▸ hregistered _ _ hmem with ⟨-, hops⟩ | hid'
    · cases hops
    · exact hid'.of_cancel.2

end

-- ---------------------------------------------------------------------------
-- Steps and runs
-- ---------------------------------------------------------------------------

/-- The invariant; the leftover only matters while the thread runs. -/
structure Separate (s : SelectorThread Labelled σ) : Prop where
  isolated : Isolated s.tunnels
  waiting : s.stopped = none → Waiting s.tunnels s.selectedKeys

section
variable {C : StreamCipher Byte σ} {s t : SelectorThread Labelled σ} {e : Round}

theorem scheduleOk_readable {id : TunnelId} {keys : List Selected} {calls : Calls}
    (hkeys : s.selectedKeys = .tunnel id .opRead :: keys) :
    ScheduleOk s (.handle calls) ↔
      (isValid s.tunnels id = true → LeavesLeftover s.tunnels id calls → RoomFor s id.pair) := by
  simp only [ScheduleOk, hkeys]

/-- Only the tunnels of the pair wait. -/
theorem RoomFor.pair_of_awaits {pair : Nat} (h : RoomFor s pair) (hs : Steady s) {id : TunnelId}
    (hid : Awaits s.tunnels s.selectedKeys id .opWrite) : id.pair = pair := by
  by_contra hne
  have haccepted : id.pair < s.accepted := by
    by_contra hge
    have hnew := (hs.fresh id.pair (Nat.le_of_not_lt hge)).channel id rfl
    obtain ⟨key, hkey, -⟩ := hid
    rw [hnew] at hkey
    cases hkey
  refine h.waiting id.pair haccepted hne id.mRole ?_ hid
  cases id.mRole <;> simp

theorem sent_acceptable {t u : Tunnels Labelled σ} {pair : Nat} {calls : AcceptCalls}
    {r : Except Throwable Unit} (h : Acceptable t pair calls r u) (id : TunnelId) :
    (u.mSocketChannel id).sent = (t.mSocketChannel id).sent := by
  cases h with
  | failed => rfl
  | dropped => rfl
  | unprotected => rfl
  | refused => rfl
  | connecting => exact Tunnels.sent_setKey ..

theorem separate_step (hs : Steady s) (hsep : Separate s) (hok : ScheduleOk s e)
    (hstep : step (C.labelled Nat) label s e = some t) : Separate t := by
  have hwaiting := hsep.waiting (running_of_step hstep)
  have hregistered : ∀ id ops, .tunnel id ops ∈ s.selectedKeys →
      (s.tunnels.mSocketChannel id).key ≠ none := fun id ops hmem =>
    (hs.selected id ops hmem).registered
  cases step_cases hs hstep with
  | selected hempty keys hkeys =>
    refine ⟨hsep.isolated, fun _ => hwaiting.of_awaits (fun id hid => ?_) rfl⟩
    rw [hempty]
    exact hid.of_selected hkeys
  | skipped id readyOps keys hkeys =>
    refine ⟨hsep.isolated, fun _ => hwaiting.of_keys (fun _ => rfl) (fun k hk => ?_) rfl⟩
    rw [hkeys]
    exact List.mem_cons_of_mem _ hk
  | accepted keys hkeys calls h =>
    refine ⟨?_, fun _ => hwaiting.of_awaits (fun id hid => ?_) ?_⟩
    · exact hsep.isolated.of_sent fun id => sent_acceptable h id
    · rcases Awaits.of_acceptable hs hkeys h hid with hops | hid
      · cases hops
      · exact hid
    · cases h <;> rfl
  | readable id keys hkeys hvalid hc calls h =>
    rw [hkeys] at hwaiting hregistered
    have hw : Waiting s.tunnels keys :=
      hwaiting.of_keys (fun _ => rfl) (fun _ => List.mem_cons_of_mem _) rfl
    refine ⟨h.isolated hc hsep.isolated, fun hrunning => ?_⟩
    obtain rfl := (finish_stopped ..).mp hrunning
    refine waiting_readable h hc hw (fun hleaves => ?_) fun id ops hmem =>
      hregistered id ops (List.mem_cons_of_mem _ hmem)
    have hroom := (scheduleOk_readable hkeys).mp hok hvalid hleaves
    refine ⟨fun id' hid' => hroom.pair_of_awaits hs (hid'.of_key rfl fun hmem => ?_), hroom.drained⟩
    rw [hkeys]
    exact List.mem_cons_of_mem _ hmem
  | writable id keys hkeys hvalid hc calls h =>
    obtain ⟨key, hkey, hkeyvalid⟩ := isValid_iff.mp hvalid
    have hleft := hwaiting id ⟨key, hkey, hkeyvalid, .inr (hkeys ▸ List.mem_cons_self ..)⟩
    rw [hkeys] at hwaiting hregistered
    have hw : Waiting s.tunnels keys :=
      hwaiting.of_keys (fun _ => rfl) (fun _ => List.mem_cons_of_mem _) rfl
    refine ⟨h.isolated hsep.isolated hleft, fun hrunning => ?_⟩
    obtain rfl := (finish_stopped ..).mp hrunning
    exact waiting_writable h hw fun id ops hmem => hregistered id ops (List.mem_cons_of_mem _ hmem)
  | connectable id keys hkeys hvalid hc calls h =>
    refine ⟨h.isolated hsep.isolated, fun hrunning => ?_⟩
    obtain rfl := (finish_stopped ..).mp hrunning
    have hmem : ∀ k ∈ keys, k ∈ s.selectedKeys := by
      rw [hkeys]
      exact fun _ => List.mem_cons_of_mem _
    cases h with
    | refused =>
      refine hwaiting.of_awaits (fun id' hid' => ?_) (Tunnels.mWriteRemainingBuffer_dispose ..)
      have hclose : Awaits (s.tunnels.close id) keys id' .opWrite :=
        hid'.of_key (by rw [finish, Tunnels.channel_dispose]) fun h => h
      exact hclose.of_close.2.of_key rfl (hmem _)
    | pending =>
      refine hwaiting.of_keys (fun id' => ?_) hmem (Tunnels.mWriteRemainingBuffer_dispose ..)
      rw [finish, Tunnels.channel_dispose]
    | connected hcall out =>
      refine hwaiting.of_awaits (fun id' hid' => ?_) rfl
      rcases Awaits.of_establish hs hkeys hc hid' with ⟨-, hops⟩ | ⟨-, hid'⟩
      · cases hops
      · exact hid'

end

theorem separate_run {C : StreamCipher Byte σ} {rounds : List Round} {s : SelectorThread Labelled σ}
    (hrun : Machine.run (step (C.labelled Nat) label) initial rounds = some s)
    (hok : Machine.Guarded (step (C.labelled Nat) label) ScheduleOk initial rounds) : Separate s := by
  have hkeep : ∀ s e t, (s.stopped = none → Steady s) ∧ Separate s → ScheduleOk s e →
      step (C.labelled Nat) label s e = some t → (t.stopped = none → Steady t) ∧ Separate t := by
    rintro s e t ⟨hs, hsep⟩ hok hstep
    have hsteady := hs (running_of_step hstep)
    exact ⟨steady_step hsteady hstep, separate_step hsteady hsep hok hstep⟩
  have hinitial : Separate (initial : SelectorThread Labelled σ) := by
    refine ⟨fun id b hb => ?_, fun _ id hid => ?_⟩
    · cases hb
    · obtain ⟨key, hkey, -⟩ := hid
      cases hkey
  exact (Machine.run_invariant hkeep ⟨fun _ => steady_initial, hinitial⟩ hok hrun).2

/-- In a run whose rounds meet the condition every byte stays with its pair. -/
theorem relay_isolated (C : StreamCipher Byte σ) (rounds : List Round) (s : SelectorThread Labelled σ)
    (hrun : Machine.run (step (C.labelled Nat) label) initial rounds = some s)
    (hok : Machine.Guarded (step (C.labelled Nat) label) ScheduleOk initial rounds) :
    ∀ id, ∀ b ∈ (s.tunnels.mSocketChannel id).sent, b.2 = id.pair :=
  (separate_run hrun hok).isolated

/-- A leftover for one pair, written and read again behind it. -/
def apartRounds : List Round :=
  connectRounds 0 ++ connectRounds 1 ++
    [.select [.tunnel ⟨0, .roleRemote⟩ .opRead, .tunnel ⟨1, .roleLocal⟩ .opRead],
      .handle (sampleCalls answer [1]),
      .handle (sampleCalls request [2]),
      .select [.tunnel ⟨0, .roleLocal⟩ .opWrite], .handle (sampleCalls nothing [1])]

theorem apartRounds_isolated :
    Isolated (after (feedback.labelled Nat) label apartRounds).tunnels := by
  have hrun := run_after (feedback.labelled Nat) label apartRounds (by decide +kernel)
  generalize after (feedback.labelled Nat) label apartRounds = s at hrun ⊢
  exact relay_isolated feedback apartRounds s hrun (by decide +kernel)

/-- The leftover of pair 1 is put over that of pair 0, whose channel gets it. -/
theorem relay_mixed :
    (Machine.run (step (feedback.labelled Nat) label) initial
      (connectRounds 0 ++ connectRounds 1 ++
        [.select [.tunnel ⟨0, .roleRemote⟩ .opRead, .tunnel ⟨1, .roleRemote⟩ .opRead],
          .handle (sampleCalls answer [1]),
          .handle (sampleCalls answer [1]),
          .select [.tunnel ⟨0, .roleLocal⟩ .opWrite],
          .handle (sampleCalls nothing [1])])).map
      (fun s => (s.tunnels.mSocketChannel ⟨0, .roleLocal⟩).sent.map Prod.snd) = some [0, 1] := by
  decide +kernel

end SmartSocks.Sslocal
