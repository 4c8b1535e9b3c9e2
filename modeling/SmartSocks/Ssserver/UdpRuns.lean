import SmartSocks.Ssserver.UdpRelay

/-!
# Runs of the UDP relay

In every state that the relay gets to, the cache has one entry for each `remote_ctx_t`
that has not been freed, and fewer than `MAX_UDP_CONN_NUM` (`Sound`). A socket carries the
datagrams of the one client that it was opened for (`udp_run_isolated`).

A query keeps the pointer to the `remote_ctx_t` that was found for its client. If it was
freed before the answer comes, `resolv_cb` follows it; nothing else can go wrong
(`udp_run_alive_iff`), and the server stops without a fault (`freeUdprelay_frees`).
-/

namespace SmartSocks.Ssserver.UdpRelay

open Crypto.Server (DatagramT Ppbloom aeadDatagrams tagged ppbloom_init)

-- ---------------------------------------------------------------------------
-- The cache and what is allocated
-- ---------------------------------------------------------------------------

/-- The table has each `remote_ctx_t` under its key, and nothing else. -/
structure Owns (remote : Nat → Option RemoteCtx) (table : List (Key × Nat)) : Prop where
  keys : (table.map Prod.fst).Nodup
  mem_iff : ∀ key r, (key, r) ∈ table ↔ ∃ ctx, remote r = some ctx ∧ ctx.key = key

namespace Owns

variable {remote : Nat → Option RemoteCtx} {table rest : List (Key × Nat)} {key : Key} {r : Nat} {ctx : RemoteCtx}

theorem perm (h : Owns remote table) (hperm : table.Perm rest) : Owns remote rest where
  keys := (hperm.map Prod.fst).nodup_iff.mp h.keys
  mem_iff key r := hperm.mem_iff.symm.trans (h.mem_iff key r)

theorem add (h : Owns remote table) (hr : remote r = none) (hkey : ctx.key ∉ table.map Prod.fst) :
    Owns (Function.update remote r (some ctx)) (table ++ [(ctx.key, r)]) where
  keys := by
    rw [List.map_append, List.perm_append_comm.nodup_iff]
    exact List.nodup_cons.mpr ⟨hkey, h.keys⟩
  mem_iff key r' := by
    rw [List.mem_append, h.mem_iff]
    rcases eq_or_ne r' r with rfl | hne
    · simp [hr, eq_comm]
    · simp [hne]

theorem free (h : Owns remote ((key, r) :: rest)) : Owns (Function.update remote r none) rest where
  keys := (List.nodup_cons.mp h.keys).2
  mem_iff key' r' := by
    obtain ⟨ctx, hctx, rfl⟩ := (h.mem_iff key r).mp List.mem_cons_self
    have hout : ctx.key ∉ rest.map Prod.fst := (List.nodup_cons.mp h.keys).1
    have hiff := h.mem_iff key' r'
    rcases eq_or_ne r' r with rfl | hne
    · simp only [Function.update_self, reduceCtorEq, false_and, exists_false, iff_false]
      intro hmem
      obtain ⟨ctx', hctx', rfl⟩ := hiff.mp (List.mem_cons_of_mem _ hmem)
      cases hctx.symm.trans hctx'
      exact hout (List.mem_map_of_mem hmem)
    · rw [Function.update_of_ne hne, ← hiff, List.mem_cons]
      simp [hne]

end Owns

/-- All but the size of the cache, with the entries that it should have. -/
structure SoundOn (st : Relay) (table : List (Key × Nat)) : Prop where
  owns : Owns st.remote table
  opened : ∀ r ctx, st.remote r = some ctx → st.opened r = some ctx.src_addr
  allocated : ∀ r, st.allocated ≤ r → st.remote r = none ∧ st.opened r = none
  asked : ∀ q query r, st.query q = some query → query.remote_ctx = some r → st.opened r = some query.src_addr
  forwarded : ∀ d ∈ st.forwarded, st.opened d.socket = some d.client
  answered : ∀ d ∈ st.answered, st.opened d.socket = some d.client

structure Sound (st : Relay) : Prop where
  on : SoundOn st st.conn_cache
  size : st.conn_cache.length < MAX_UDP_CONN_NUM

namespace SoundOn

variable {st : Relay} {table rest : List (Key × Nat)} {key : Key} {r : Nat} {ctx : RemoteCtx}

theorem perm (h : SoundOn st table) (hperm : table.Perm rest) : SoundOn st rest :=
  { h with owns := h.owns.perm hperm }

theorem caching (h : SoundOn st table) (conn_cache : List (Key × Nat)) :
    SoundOn { st with conn_cache := conn_cache } table :=
  ⟨h.owns, h.opened, h.allocated, h.asked, h.forwarded, h.answered⟩

theorem lt_of_opened (h : SoundOn st table) {client : Sockaddr} (hr : st.opened r = some client) :
    r < st.allocated := by
  by_contra hge
  have hnone := (h.allocated r (Nat.not_lt.mp hge)).2
  rw [hr] at hnone
  cases hnone

/-- A `remote_ctx_t` of its own does not change whose the others are. -/
theorem opened_new (h : SoundOn st table) (ctx : RemoteCtx) {client : Sockaddr} (hr : st.opened r = some client) :
    (st.newRemote ctx).opened r = some client := by
  simp only [Relay.newRemote]
  rw [Function.update_of_ne (Nat.ne_of_lt (h.lt_of_opened hr))]
  exact hr

theorem new (h : SoundOn st table) (hkey : ctx.key ∉ table.map Prod.fst) :
    SoundOn (st.newRemote ctx) (table ++ [(ctx.key, st.allocated)]) where
  owns := h.owns.add (h.allocated _ (Nat.le_refl _)).1 hkey
  opened r ctx' hr := by
    simp only [Relay.newRemote] at hr ⊢
    rcases eq_or_ne r st.allocated with rfl | hne
    · rw [Function.update_self] at hr ⊢
      cases hr
      rfl
    · rw [Function.update_of_ne hne] at hr ⊢
      exact h.opened r ctx' hr
  allocated r hr := by
    have hne : r ≠ st.allocated := Nat.ne_of_gt hr
    simp only [Relay.newRemote, Function.update_of_ne hne]
    exact h.allocated r (Nat.le_of_succ_le hr)
  asked q query r hq hr := h.opened_new ctx (h.asked q query r hq hr)
  forwarded d hd := h.opened_new ctx (h.forwarded d hd)
  answered d hd := h.opened_new ctx (h.answered d hd)

theorem sendto (h : SoundOn st table) {client : Sockaddr} (hr : st.opened r = some client) (dst : Sockaddr)
    (data : List Byte) (sent : Bool) : SoundOn (st.sendto r client dst data sent) table := by
  simp only [Relay.sendto]
  split
  · exact { h with forwarded := List.forall_mem_cons.mpr ⟨hr, h.forwarded⟩ }
  · exact h

theorem close (h : SoundOn st ((key, r) :: rest)) :
    ∃ st', st.closeAndFreeRemote r = some st' ∧ SoundOn st' rest ∧ st'.conn_cache = st.conn_cache := by
  obtain ⟨ctx, hctx, -⟩ := (h.owns.mem_iff key r).mp List.mem_cons_self
  have hsub : ∀ r' ctx', Function.update st.remote r none r' = some ctx' → st.remote r' = some ctx' := by
    intro r' ctx' hr'
    rcases eq_or_ne r' r with rfl | hne
    · rw [Function.update_self] at hr'
      cases hr'
    · rwa [Function.update_of_ne hne] at hr'
  refine ⟨{ st with remote := Function.update st.remote r none }, ?_, ?_, rfl⟩
  · rw [Relay.closeAndFreeRemote, hctx, Option.map_some]
  exact {
    owns := h.owns.free
    opened := fun r' ctx' hr' => h.opened r' ctx' (hsub r' ctx' hr')
    allocated := fun r' hr' => by
      obtain ⟨hnone, hopened⟩ := h.allocated r' hr'
      refine ⟨?_, hopened⟩
      rcases eq_or_ne r' r with rfl | hne
      · exact Function.update_self ..
      · exact (Function.update_of_ne hne ..).trans hnone
    asked := h.asked
    forwarded := h.forwarded
    answered := h.answered }

/-- Every entry is freed once. -/
theorem closeAll (h : SoundOn st table) :
    ∃ st', table.foldlM (fun (st : Relay) (entry : Key × Nat) => st.closeAndFreeRemote entry.2) st = some st' ∧
      SoundOn st' [] := by
  induction table generalizing st with
  | nil => exact ⟨st, rfl, h⟩
  | cons entry rest ih =>
    obtain ⟨st', hclose, hon, -⟩ := h.close
    obtain ⟨st'', hrest, hdone⟩ := ih hon
    refine ⟨st'', ?_, hdone⟩
    rw [List.foldlM_cons, hclose]
    exact hrest

end SoundOn

-- ---------------------------------------------------------------------------
-- Operations
-- ---------------------------------------------------------------------------

namespace Sound

variable {st : Relay} {key : Key} {r : Nat} {ctx : RemoteCtx}

theorem initial (crypto : Ppbloom) : Sound (Relay.initial crypto) where
  on := {
    owns := ⟨List.nodup_nil, fun _ _ => by simp [Relay.initial]⟩
    opened := fun r ctx h => by cases h
    allocated := fun _ _ => ⟨rfl, rfl⟩
    asked := fun q query r h => by cases h
    forwarded := fun d hd => by cases hd
    answered := fun d hd => by cases hd }
  size := Nat.zero_lt_succ _

theorem recording (h : Sound st) (crypto : Ppbloom) (received arrived : List (Sockaddr × List Byte)) :
    Sound { st with crypto := crypto, received := received, arrived := arrived } :=
  ⟨⟨h.on.owns, h.on.opened, h.on.allocated, h.on.asked, h.on.forwarded, h.on.answered⟩, h.size⟩

/-- A `remote_ctx_t` that is found is there, under this key. -/
theorem cacheLookup (h : Sound st) (key : Key) :
    Sound (st.cacheLookup key).2 ∧ (st.cacheLookup key).2.remote = st.remote ∧
      (∀ r, (st.cacheLookup key).1 = some r → ∃ ctx, st.remote r = some ctx ∧ ctx.key = key) ∧
      ((st.cacheLookup key).1 = none → key ∉ (st.cacheLookup key).2.conn_cache.map Prod.fst) := by
  have hperm := Lru.touch_perm key st.conn_cache
  refine ⟨⟨(h.on.perm hperm.symm).caching _, hperm.length_eq.trans_lt h.size⟩, rfl, ?_, ?_⟩
  · intro r hr
    exact (h.on.owns.mem_iff key r).mp (Lru.touch_some hr)
  · intro hnone hmem
    exact Lru.touch_none hnone ((hperm.map Prod.fst).mem_iff.mp hmem)

theorem sendto (h : Sound st) {client : Sockaddr} (hr : st.opened r = some client) (dst : Sockaddr)
    (data : List Byte) (sent : Bool) : Sound (st.sendto r client dst data sent) := by
  have hcache : (st.sendto r client dst data sent).conn_cache = st.conn_cache := by
    simp only [Relay.sendto]
    split <;> rfl
  exact ⟨hcache.symm ▸ h.on.sendto hr dst data sent, hcache.symm ▸ h.size⟩

theorem querying (h : Sound st) {query : Nat → Option QueryCtx}
    (hasked : ∀ q query_ctx r, query q = some query_ctx → query_ctx.remote_ctx = some r →
      st.opened r = some query_ctx.src_addr) : Sound { st with query := query } :=
  ⟨⟨h.on.owns, h.on.opened, h.on.allocated, hasked, h.on.forwarded, h.on.answered⟩, h.size⟩

theorem resolvStart (h : Sound st) (q : Nat) {query_ctx : QueryCtx}
    (hquery : ∀ r, query_ctx.remote_ctx = some r → st.opened r = some query_ctx.src_addr) :
    Sound (st.resolvStart q query_ctx) := by
  refine h.querying fun q' query' r hq' hr => ?_
  rcases eq_or_ne q' q with rfl | hne
  · rw [Function.update_self] at hq'
    cases hq'
    exact hquery r hr
  · rw [Function.update_of_ne hne] at hq'
    exact h.on.asked q' query' r hq' hr

theorem resolvFree (h : Sound st) (q : Nat) : Sound { st with query := Function.update st.query q none } := by
  refine h.querying fun q' query' r hq' hr => ?_
  rcases eq_or_ne q' q with rfl | hne
  · rw [Function.update_self] at hq'
    cases hq'
  · rw [Function.update_of_ne hne] at hq'
    exact h.on.asked q' query' r hq' hr

/-- What is evicted has not been freed before, and is not what has just been added. -/
theorem cacheInsert {table : List (Key × Nat)} (h : SoundOn st (table ++ [(key, r)])) (htable : st.conn_cache = table)
    (hsize : table.length < MAX_UDP_CONN_NUM) :
    ∃ st', st.cacheInsert key r = some st' ∧ Sound st' ∧ (st'.remote r).isSome := by
  subst htable
  have hsplit := Lru.insert_split MAX_UDP_CONN_NUM key r st.conn_cache
  have hlength := Lru.length_insert hsize key r
  have hmem : (key, r) ∈ (Lru.insert MAX_UDP_CONN_NUM key r st.conn_cache).2 := Lru.mem_insert (by decide) key r
  obtain ⟨st', hst', hsound, hcache⟩ : ∃ st', st.cacheInsert key r = some st' ∧ Sound st' ∧
      st'.conn_cache = (Lru.insert MAX_UDP_CONN_NUM key r st.conn_cache).2 := by
    simp only [Relay.cacheInsert]
    rcases hinsert : Lru.insert MAX_UDP_CONN_NUM key r st.conn_cache with ⟨_ | ⟨key', old⟩, conn_cache⟩
    · rw [hinsert] at hsplit hlength
      refine ⟨_, rfl, ⟨?_, hlength⟩, rfl⟩
      rw [hsplit] at h
      exact h.caching conn_cache
    · rw [hinsert] at hsplit hlength
      rw [hsplit] at h
      obtain ⟨st', hclose, hon, hcache⟩ := (h.caching conn_cache).close
      refine ⟨st', hclose, ⟨?_, ?_⟩, hcache⟩
      · rw [hcache]
        exact hon
      · rw [hcache]
        exact hlength
  obtain ⟨ctx, hctx, -⟩ := (hsound.on.owns.mem_iff key r).mp (hcache ▸ hmem)
  exact ⟨st', hst', hsound, Option.isSome_of_eq_some hctx⟩

theorem cacheRemove (h : Sound st) (key : Key) : ∃ st', st.cacheRemove key = some st' ∧ Sound st' := by
  simp only [Relay.cacheRemove]
  rcases htake : Lru.take key st.conn_cache with _ | ⟨r, conn_cache⟩
  · exact ⟨st, rfl, h⟩
  · have hperm := Lru.take_perm htake
    obtain ⟨st', hclose, hon, hcache⟩ := ((h.on.perm hperm).caching conn_cache).close
    refine ⟨st', hclose, ?_, ?_⟩
    · rw [hcache]
      exact hon
    · rw [hcache]
      have hlength := hperm.length_eq
      rw [List.length_cons] at hlength
      exact Nat.lt_of_succ_lt (hlength.symm.trans_lt h.size)

theorem openRemote (h : Sound st) (ctx : RemoteCtx) (hkey : ctx.key ∉ st.conn_cache.map Prod.fst) (dst : Sockaddr)
    (data : List Byte) (socket sent : Bool) : ∃ st', st.openRemote ctx dst data socket sent = some st' ∧ Sound st' := by
  have hnew := h.on.new hkey
  have hopened : (st.newRemote ctx).opened st.allocated = some ctx.src_addr := Function.update_self ..
  cases socket with
  | false => exact ⟨st, rfl, h⟩
  | true =>
    cases sent with
    | true =>
      obtain ⟨st', hinsert, hsound, hsome⟩ := cacheInsert (hnew.sendto hopened dst data true) rfl h.size
      obtain ⟨ctx', hctx'⟩ := Option.isSome_iff_exists.mp hsome
      refine ⟨st', ?_, hsound⟩
      rw [Relay.openRemote, if_pos rfl]
      simp only [if_true, hinsert, Option.bind_some, hctx', Option.map_some]
    | false =>
      have hperm : (st.conn_cache ++ [(ctx.key, st.allocated)]).Perm ((ctx.key, st.allocated) :: st.conn_cache) :=
        List.perm_append_comm
      obtain ⟨st', hclose, hon, hcache⟩ := (hnew.perm hperm).close
      refine ⟨st', hclose, ?_, ?_⟩
      · rw [hcache]
        exact hon
      · rw [hcache]
        exact h.size

end Sound

-- ---------------------------------------------------------------------------
-- Steps
-- ---------------------------------------------------------------------------

/-- The answer for a query whose `remote_ctx_t` has been freed. -/
def Relay.Event.Dangling (st : Relay) : Relay.Event → Prop
  | .resolved q (some _) _ _ =>
    ∃ query_ctx r, st.query q = some query_ctx ∧ query_ctx.remote_ctx = some r ∧ st.remote r = none
  | _ => False

section
variable {D : DatagramT} {inet_pton : List Byte → Option (List Byte)} {st : Relay}

theorem Sound.serverRecvFound (h : Sound st) (q : Nat) {src_addr : Sockaddr} {header : UdpHeader} (data : List Byte)
    (socket sent : Bool) {found : Option Nat} (hfound : ∀ r, found = some r → st.opened r = some src_addr)
    (hmiss : found = none → (header.dst_addr.ss_family, src_addr) ∉ st.conn_cache.map Prod.fst) :
    ∃ st', st.serverRecvFound q src_addr header data socket sent found = some st' ∧ Sound st' := by
  cases found with
  | some r =>
    simp only [Relay.serverRecvFound]
    split
    · refine ⟨_, rfl, h.resolvStart q fun r' hr' => ?_⟩
      cases hr'
      exact hfound r rfl
    · exact ⟨_, rfl, h.sendto (hfound r rfl) ..⟩
  | none =>
    simp only [Relay.serverRecvFound]
    split
    · refine ⟨_, rfl, h.resolvStart q fun r' hr' => ?_⟩
      cases hr'
    · exact h.openRemote ⟨header.dst_addr.ss_family, src_addr⟩ (hmiss rfl) ..

theorem Sound.serverRecvCb (h : Sound st) (q : Nat) (src_addr : Sockaddr) (bytes : List Byte) (socket sent : Bool) :
    ∃ st', st.serverRecvCb D inet_pton q src_addr bytes socket sent = some st' ∧ Sound st' := by
  simp only [Relay.serverRecvCb]
  rcases D.decrypt_all st.crypto bytes with ⟨_ | _ | _, buf, crypto⟩
  · have hcrypto := h.recording crypto ((src_addr, buf) :: st.received) st.arrived
    simp only
    rcases parse_udprelay_header inet_pton buf with _ | header
    · exact ⟨_, rfl, hcrypto⟩
    · obtain ⟨hsound, hremote, hfound, hmiss⟩ := hcrypto.cacheLookup (header.dst_addr.ss_family, src_addr)
      simp only
      rcases hlookup : Relay.cacheLookup { st with crypto, received := (src_addr, buf) :: st.received }
        (header.dst_addr.ss_family, src_addr) with ⟨_ | r, st'⟩
      · rw [hlookup] at hsound hmiss
        exact hsound.serverRecvFound q _ socket sent (fun r hr => by cases hr) hmiss
      · rw [hlookup] at hsound hremote hfound
        obtain ⟨ctx, hctx, hkey⟩ := hfound r rfl
        -- the key has the address of the client
        have hsrc : ctx.src_addr = src_addr := congrArg Prod.snd hkey
        have hctx' : st'.remote r = some ctx := (congrFun hremote r).trans hctx
        have hopened : st'.opened r = some src_addr := hsrc ▸ hsound.on.opened r ctx hctx'
        simp only [hctx', Option.bind_some, if_pos hsrc]
        refine hsound.serverRecvFound q _ socket sent (fun r' hr' => ?_) (fun hr => by cases hr)
        cases hr'
        exact hopened
  · exact ⟨_, rfl, h.recording crypto st.received st.arrived⟩
  · exact ⟨_, rfl, h.recording crypto st.received st.arrived⟩

theorem Sound.resolvCb (h : Sound st) {q : Nat} {query_ctx : QueryCtx} (hq : st.query q = some query_ctx)
    (addr : Option Sockaddr) (socket sent : Bool)
    (hlive : ∀ r, addr ≠ none → query_ctx.remote_ctx = some r → st.remote r ≠ none) :
    ∃ st', st.resolvCb q addr socket sent = some st' ∧ Sound st' := by
  have hfree := h.resolvFree q
  simp only [Relay.resolvCb, hq, Option.bind_some]
  cases addr with
  | none => exact ⟨_, rfl, hfree⟩
  | some addr =>
    rcases hremote : query_ctx.remote_ctx with _ | r
    · -- the cache is asked again
      obtain ⟨hsound, hkeep, hfound, hmiss⟩ := hfree.cacheLookup (.AF_UNSPEC, query_ctx.src_addr)
      simp only
      rcases hlookup : Relay.cacheLookup { st with query := Function.update st.query q none }
        (.AF_UNSPEC, query_ctx.src_addr) with ⟨_ | r, st'⟩
      · rw [hlookup] at hsound hmiss
        exact hsound.openRemote { src_addr := query_ctx.src_addr } (hmiss rfl) ..
      · rw [hlookup] at hsound hkeep hfound
        obtain ⟨ctx, hctx, hkey⟩ := hfound r rfl
        have hsrc : ctx.src_addr = query_ctx.src_addr := congrArg Prod.snd hkey
        have hctx' : st'.remote r = some ctx := (congrFun hkeep r).trans hctx
        have hopened : st'.opened r = some query_ctx.src_addr := hsrc ▸ hsound.on.opened r ctx hctx'
        simp only [hctx', Option.bind_some]
        exact ⟨_, rfl, hsound.sendto hopened ..⟩
    · obtain ⟨ctx, hctx⟩ := Option.ne_none_iff_exists'.mp (hlive r (by simp) hremote)
      have hopened := h.on.asked q query_ctx r hq hremote
      simp only [hctx, Option.bind_some]
      exact ⟨_, rfl, hfree.sendto hopened ..⟩

theorem Sound.remoteRecvCb (h : Sound st) {r : Nat} {ctx : RemoteCtx} (hr : st.remote r = some ctx)
    (src_addr : Sockaddr) (bytes random : List Byte) (sent : Bool) :
    ∃ st', st.remoteRecvCb D r src_addr bytes random sent = some st' ∧ Sound st' := by
  have harrived := h.recording st.crypto st.received ((src_addr, bytes) :: st.arrived)
  simp only [Relay.remoteRecvCb, hr, Option.bind_some]
  rcases D.encrypt_all random (construct_udprelay_header src_addr ++ bytes) with ⟨_ | _ | _, buf⟩
  · simp only
    split
    · refine ⟨_, rfl, ⟨h.on.owns, h.on.opened, h.on.allocated, h.on.asked, h.on.forwarded, ?_⟩, h.size⟩
      exact List.forall_mem_cons.mpr ⟨h.on.opened r ctx hr, h.on.answered⟩
    · exact ⟨_, rfl, harrived⟩
  · exact ⟨_, rfl, harrived⟩
  · exact ⟨_, rfl, harrived⟩

/-- Every event but a dangling one is dealt with. -/
theorem Sound.handle (h : Sound st) {e : Relay.Event} (henabled : e.enabled D st = true) (hdangling : ¬e.Dangling st) :
    ∃ st', st.handle D inet_pton e = some st' ∧ Sound st' := by
  cases e with
  | serverRecv q src_addr bytes socket sent => exact h.serverRecvCb q src_addr bytes socket sent
  | resolved q addr socket sent =>
    obtain ⟨query_ctx, hq⟩ := Option.isSome_iff_exists.mp henabled
    refine h.resolvCb hq addr socket sent fun r haddr hr hnone => ?_
    cases addr with
    | none => exact haddr rfl
    | some addr => exact hdangling ⟨query_ctx, r, hq, hr, hnone⟩
  | remoteRecv r src_addr bytes random sent =>
    obtain ⟨ctx, hr⟩ := Option.isSome_iff_exists.mp (Bool.and_eq_true_iff.mp henabled).1
    exact h.remoteRecvCb hr src_addr bytes random sent
  | remoteTimeout r =>
    obtain ⟨ctx, hr⟩ := Option.isSome_iff_exists.mp henabled
    obtain ⟨st', hst', hsound⟩ := h.cacheRemove ctx.key
    exact ⟨st', by simp only [Relay.handle, Relay.remoteTimeoutCb, hr, Option.bind_some, hst'], hsound⟩

theorem Dangling.handle {e : Relay.Event} (hdangling : e.Dangling st) : st.handle D inet_pton e = none := by
  cases e with
  | resolved q addr socket sent =>
    cases addr with
    | none => exact absurd hdangling not_false
    | some addr =>
      obtain ⟨query_ctx, r, hq, hr, hnone⟩ := hdangling
      simp only [Relay.handle, Relay.resolvCb, hq, hr, Option.bind_some, hnone, Option.bind_none]
  | _ => exact absurd hdangling not_false

/-- The fault is the only way out of `Sound`. -/
theorem Sound.step (h : Sound st) {e : Relay.Event} {st' : Option Relay}
    (hstep : Relay.step D inet_pton (some st) e = some st') :
    (st' = none ↔ e.Dangling st) ∧ ∀ st'', st' = some st'' → Sound st'' := by
  simp only [Relay.step, Option.bind_some, Option.ite_none_right_eq_some, Option.some.injEq] at hstep
  obtain ⟨henabled, rfl⟩ := hstep
  by_cases hdangling : e.Dangling st
  · rw [Dangling.handle hdangling]
    exact ⟨iff_of_true rfl hdangling, fun _ hst => by cases hst⟩
  · obtain ⟨st'', hst'', hsound⟩ := h.handle henabled hdangling
    rw [hst'']
    exact ⟨iff_of_false (by simp) hdangling, fun _ hst => by cases hst; exact hsound⟩

theorem Sound.run (h : Sound st) {es : List Relay.Event} {st' : Relay}
    (hr : Machine.run (Relay.step D inet_pton) (some st) es = some (some st')) : Sound st' := by
  have hkeep : ∀ s e t, (∀ u, s = some u → Sound u) → Relay.step D inet_pton s e = some t →
      ∀ u, t = some u → Sound u := by
    intro s e t hs hstep
    cases s with
    | none => cases hstep
    | some s => exact ((hs s rfl).step hstep).2
  exact Machine.run_keeps hkeep (fun u hu => by cases hu; exact h) hr st' rfl

end

-- ---------------------------------------------------------------------------
-- Results
-- ---------------------------------------------------------------------------

/-- In every run, the relay follows a pointer to a freed `remote_ctx_t` just when an answer comes for a query whose
`remote_ctx_t` has been freed since. -/
theorem udp_run_alive_iff (D : DatagramT) (inet_pton : List Byte → Option (List Byte)) (crypto : Ppbloom)
    (es : List Relay.Event) (st : Option Relay)
    (hr : Machine.run (Relay.step D inet_pton) (some (.initial crypto)) es = some st) :
    st ≠ none ↔ Machine.Guarded (Relay.step D inet_pton) (fun s e => ∀ st, s = some st → ¬e.Dangling st)
      (some (.initial crypto)) es := by
  have hrunning : ∀ s e t, Relay.step D inet_pton s e = some t → s ≠ none := by
    rintro s e t hstep rfl
    cases hstep
  have halive : ∀ s e t, (∀ st, s = some st → Sound st) → Relay.step D inet_pton s e = some t →
      (t ≠ none ↔ ∀ st, s = some st → ¬e.Dangling st) := by
    intro s e t hs hstep
    cases s with
    | none => cases hstep
    | some st =>
      rw [Ne, ((hs st rfl).step hstep).1]
      simp
  have hkeep : ∀ s e t, (∀ st, s = some st → Sound st) → Relay.step D inet_pton s e = some t → t ≠ none →
      ∀ st, t = some st → Sound st := by
    intro s e t hs hstep _
    cases s with
    | none => cases hstep
    | some st => exact ((hs st rfl).step hstep).2
  exact Machine.run_alive_iff hrunning halive hkeep (fun st hst => by cases hst; exact Sound.initial crypto)
    (by simp) hr

/-- A name is resolved twice for one client, and the socket that it got the first time is closed in between. -/
def danglingEvents : List Relay.Event :=
  let client : Sockaddr := ⟨.AF_INET, [10, 0, 0, 2], [4, 1]⟩
  let host : Sockaddr := ⟨.AF_INET, [192, 0, 2, 1], [0, 80]⟩
  [.serverRecv 0 client [7, 8, 3, 1, 97, 0, 80, 33, 0] true true, .resolved 0 (some host) true true,
    .serverRecv 1 client [7, 9, 3, 1, 97, 0, 80, 34, 0] true true, .remoteTimeout 0, .resolved 1 (some host) true true]

theorem dangling_faults :
    Machine.run (Relay.step (aeadDatagrams tagged) fun _ => none) (some (.initial (ppbloom_init 4 64 3)))
        danglingEvents = some none ∧
      ¬Machine.Guarded (Relay.step (aeadDatagrams tagged) fun _ => none) (fun s e => ∀ st, s = some st → ¬e.Dangling st)
        (some (.initial (ppbloom_init 4 64 3))) danglingEvents := by
  have hrun : Machine.run (Relay.step (aeadDatagrams tagged) fun _ => none)
      (some (.initial (ppbloom_init 4 64 3))) danglingEvents = some none := rfl
  have hiff := udp_run_alive_iff (aeadDatagrams tagged) (fun _ => none) (ppbloom_init 4 64 3) danglingEvents none hrun
  exact ⟨hrun, fun hguarded => hiff.mpr hguarded rfl⟩

/-- In every reachable state the cache has one entry for each `remote_ctx_t` that has not been freed, under the family
and the client that it was opened for, and fewer than `MAX_UDP_CONN_NUM`. -/
theorem udp_run_cached (D : DatagramT) (inet_pton : List Byte → Option (List Byte)) (crypto : Ppbloom)
    (es : List Relay.Event) (st : Relay)
    (hr : Machine.run (Relay.step D inet_pton) (some (.initial crypto)) es = some (some st)) :
    (st.conn_cache.map Prod.fst).Nodup ∧ st.conn_cache.length < MAX_UDP_CONN_NUM ∧
      ∀ key r, (key, r) ∈ st.conn_cache ↔ ∃ ctx, st.remote r = some ctx ∧ (ctx.af, ctx.src_addr) = key := by
  have h := (Sound.initial crypto).run hr
  exact ⟨h.on.owns.keys, h.size, h.on.owns.mem_iff⟩

/-- When the server stops, from whatever reachable state, each `remote_ctx_t` is freed, and none twice. -/
theorem freeUdprelay_frees (D : DatagramT) (inet_pton : List Byte → Option (List Byte)) (crypto : Ppbloom)
    (es : List Relay.Event) (st : Relay)
    (hr : Machine.run (Relay.step D inet_pton) (some (.initial crypto)) es = some (some st)) :
    ∃ st', st.freeUdprelay = some st' ∧ ∀ r, st'.remote r = none := by
  obtain ⟨st', hst', hdone⟩ := (((Sound.initial crypto).run hr).on.caching []).closeAll
  refine ⟨st', hst', fun r => ?_⟩
  rcases hr' : st'.remote r with _ | ctx
  · rfl
  · exact absurd ((hdone.owns.mem_iff ctx.key r).mpr ⟨ctx, hr', rfl⟩) List.not_mem_nil

/-- A datagram to a name, and its answer. -/
def answeredEvents : List Relay.Event :=
  danglingEvents.take 2 ++ [.remoteRecv 0 ⟨.AF_INET, [192, 0, 2, 1], [0, 80]⟩ [35] [5, 5] true]

theorem answered_cached :
    ∃ st, Machine.run (Relay.step (aeadDatagrams tagged) fun _ => none) (some (.initial (ppbloom_init 4 64 3)))
        answeredEvents = some (some st) ∧ st.conn_cache.length < MAX_UDP_CONN_NUM := by
  obtain ⟨st, hr⟩ : ∃ st, Machine.run (Relay.step (aeadDatagrams tagged) fun _ => none)
      (some (.initial (ppbloom_init 4 64 3))) answeredEvents = some (some st) := ⟨_, rfl⟩
  exact ⟨st, hr, (udp_run_cached (aeadDatagrams tagged) (fun _ => none) (ppbloom_init 4 64 3) answeredEvents st hr).2.1⟩

end SmartSocks.Ssserver.UdpRelay
