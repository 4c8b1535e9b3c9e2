import SmartSocks.Crypto.Segmentation
import SmartSocks.Sslocal.TCPProxyServer
import SmartSocks.Tunnel.Wired

/-!
# Runs of the selector thread

`Steady` is the invariant of a thread that runs: its tunnels are wired, the
pairs that were not accepted yet are untouched, and every selected key belongs
to an accepted pair and is ready for connecting just when the pair has not made
its handshake. With it, `step_cases` lists what one step can do in terms of the
cases of the handlers.
-/

namespace SmartSocks.Sslocal

open Jvm Crypto Tunnel

variable {β σ : Type}

-- ---------------------------------------------------------------------------
-- `onAcceptable`
-- ---------------------------------------------------------------------------

/-- A pair of which nothing was registered yet. -/
structure NewPair (t : Tunnels β σ) (pair : Nat) : Prop where
  channel : ∀ id, id.pair = pair → t.mSocketChannel id = {}
  socks5 : t.socks5 pair = {}

/-- What `onAcceptable` can do. -/
inductive Acceptable (t : Tunnels β σ) (pair : Nat) (calls : AcceptCalls) :
    Except Throwable Unit → Tunnels β σ → Prop
  | failed (e : Throwable) (haccept : calls.accept = .error e) : Acceptable t pair calls (.error e) t
  | dropped (haccept : calls.accept = .ok ())
      (hnone : calls.hasServer = false ∨ calls.destAddress = none) :
      Acceptable t pair calls (.ok ()) t
  | unprotected (haccept : calls.accept = .ok ()) (hserver : calls.hasServer = true)
      (dest : InetSocketAddress) (hdest : calls.destAddress = some dest)
      (hprotect : calls.protectSocket = none) :
      Acceptable t pair calls (.error .nullPointer) (t.setSocks5 pair { mDestAddress := dest })
  | refused (haccept : calls.accept = .ok ()) (hserver : calls.hasServer = true)
      (dest : InetSocketAddress) (hdest : calls.destAddress = some dest)
      (hprotect : calls.protectSocket = some false) :
      Acceptable t pair calls (.ok ()) (t.setSocks5 pair { mDestAddress := dest })
  | connecting (haccept : calls.accept = .ok ()) (hserver : calls.hasServer = true)
      (dest : InetSocketAddress) (hdest : calls.destAddress = some dest)
      (hprotect : calls.protectSocket = some true) {r : Except Throwable Unit}
      (hconnect : calls.connect = r) :
      Acceptable t pair calls r ((t.setSocks5 pair { mDestAddress := dest }).setKey ⟨pair, .roleRemote⟩
        (some { interestOps := .opConnect }))

section
variable {t u : Tunnels β σ} {pair : Nat} {calls : AcceptCalls}

theorem exec_onAcceptable (calls : AcceptCalls) (hnew : NewPair t pair) :
    Acceptable t pair calls ((onAcceptable pair calls).exec t).1
      ((onAcceptable pair calls).exec t).2 := by
  have hlocal : t.setChannel ⟨pair, .roleLocal⟩ {} = t := by
    rw [Tunnels.setChannel, ← hnew.channel ⟨pair, .roleLocal⟩ rfl, Function.update_eq_self]
  have hremote : t.setChannel ⟨pair, .roleRemote⟩ {} = t := by
    rw [Tunnels.setChannel, ← hnew.channel ⟨pair, .roleRemote⟩ rfl, Function.update_eq_self]
  have hsocks5 : t.setSocks5 pair {} = t := by
    rw [Tunnels.setSocks5, ← hnew.socks5, Function.update_eq_self]
  cases haccept : calls.accept with
  | error e =>
    simp only [onAcceptable, Prog.exec_bind, Prog.exec_lift, haccept]
    exact .failed e haccept
  | ok =>
    cases hserver : calls.hasServer with
    | false =>
      simp only [onAcceptable, Prog.exec_bind, Prog.exec_lift, Prog.exec_modify, haccept, hserver,
        Bool.false_eq_true, if_false, Prog.exec_pure, hlocal]
      exact .dropped haccept (.inl hserver)
    | true =>
      cases hdest : calls.destAddress with
      | none =>
        simp only [onAcceptable, Prog.exec_bind, Prog.exec_lift, Prog.exec_modify, haccept, hserver,
          hdest, if_true, Prog.exec_pure, hlocal, hremote, hsocks5]
        exact .dropped haccept (.inr hdest)
      | some dest =>
        simp only [onAcceptable, Prog.exec_bind, Prog.exec_lift, Prog.exec_modify, haccept, hserver,
          hdest, if_true, hlocal, hremote, hsocks5]
        cases hprotect : calls.protectSocket with
        | none => exact .unprotected haccept hserver dest hdest hprotect
        | some protect =>
          cases protect with
          | false => exact .refused haccept hserver dest hdest hprotect
          | true =>
            have hchannel : (t.setSocks5 pair { mDestAddress := dest }).mSocketChannel
                ⟨pair, .roleRemote⟩ = {} := hnew.channel _ rfl
            have hregister : (register ⟨pair, .roleRemote⟩ .opConnect).exec
                (t.setSocks5 pair { mDestAddress := dest }) = _ :=
              exec_register_none (congrArg SocketChannel.isOpen hchannel)
                (congrArg SocketChannel.key hchannel)
            simp only [Prog.exec_bind, Prog.exec_lift, hregister]
            exact .connecting haccept hserver dest hdest hprotect rfl

theorem Acceptable.keeps {r : Except Throwable Unit} (h : Acceptable t pair calls r u)
    (hnew : NewPair t pair) : Kept pair t u := by
  have hfresh : t.greeted pair = false := by
    rw [Tunnels.greeted, hnew.socks5]
  have hsocks5 : ∀ dest, Kept pair t (t.setSocks5 pair { mDestAddress := dest }) := fun dest =>
    .setSocks5 hfresh.symm fun _ => ⟨by simp, by simp⟩
  cases h with
  | failed => exact .refl _ _
  | dropped => exact .refl _ _
  | unprotected => exact hsocks5 _
  | refused => exact hsocks5 _
  | connecting haccept hserver dest =>
    refine (hsocks5 dest).trans (.setChannel ⟨pair, .roleRemote⟩ (fun h => ?_) ?_)
    · refine ⟨h.isOpen, fun _ _ _ => ?_, ?_, by rintro ⟨⟩⟩
      · exact congrArg SocketChannel.isOpen (hnew.channel ⟨pair, .roleRemote⟩ rfl)
      · rintro _ ⟨⟩
        simp [(hsocks5 dest).greeted, hfresh]
    · exact fun _ => Option.some_ne_none _

end

namespace SelectorThread

-- ---------------------------------------------------------------------------
-- The invariant
-- ---------------------------------------------------------------------------

/-- A selected key that was not handled yet. -/
structure SelectedOk (s : SelectorThread β σ) (id : TunnelId) (readyOps : Op) : Prop where
  accepted : id.pair < s.accepted
  connect : readyOps = .opConnect ↔ s.tunnels.greeted id.pair = false
  registered : (s.tunnels.mSocketChannel id).key ≠ none

structure Steady (s : SelectorThread β σ) : Prop where
  wired : Wired s.tunnels
  fresh : ∀ pair, s.accepted ≤ pair → NewPair s.tunnels pair
  nodup : (s.selectedKeys.map Selected.attachment).Nodup
  selected : ∀ id readyOps, .tunnel id readyOps ∈ s.selectedKeys → SelectedOk s id readyOps

section
variable {s t : SelectorThread β σ} {id : TunnelId} {readyOps : Op} {keys : List Selected}
  {u : Tunnels β σ}

theorem Steady.newPair_of_kept (hs : Steady s) (h : id.pair < s.accepted)
    (hchannel : ∀ id', id'.pair ≠ id.pair → u.mSocketChannel id' = s.tunnels.mSocketChannel id')
    (hsocks5 : ∀ pair, pair ≠ id.pair → u.socks5 pair = s.tunnels.socks5 pair) (pair : Nat)
    (hpair : s.accepted ≤ pair) : NewPair u pair := by
  have hne : pair ≠ id.pair := Nat.ne_of_gt (Nat.lt_of_lt_of_le h hpair)
  refine ⟨fun id' hid' => ?_, (hsocks5 pair hne).trans (hs.fresh pair hpair).socks5⟩
  rw [hchannel id' (hid'.trans_ne hne)]
  exact (hs.fresh pair hpair).channel id' hid'

/-- What stopped the thread does not matter. -/
theorem Steady.with_stopped (hs : Steady s) (stopped : Option Throwable) :
    Steady { s with stopped } :=
  ⟨hs.wired, hs.fresh, hs.nodup, fun id ops hmem =>
    ⟨(hs.selected id ops hmem).accepted, (hs.selected id ops hmem).connect,
      (hs.selected id ops hmem).registered⟩⟩

/-- A handler that keeps its pair keeps the thread steady. -/
theorem Steady.of_kept (hs : Steady s) (hkeys : s.selectedKeys = .tunnel id readyOps :: keys)
    (h : Kept id.pair s.tunnels u) : Steady { s with tunnels := u, selectedKeys := keys } := by
  have hselected := hs.selected
  have hnodup := hs.nodup
  rw [hkeys] at hselected hnodup
  have hid := (hselected id readyOps (List.mem_cons_self ..)).accepted
  refine ⟨h.wired hs.wired, hs.newPair_of_kept hid h.channel h.socks5, hnodup.of_cons, ?_⟩
  intro id' ops' hmem
  have hok := hselected id' ops' (List.mem_cons_of_mem _ hmem)
  exact ⟨hok.accepted, hok.connect.trans (by rw [← h.greeted]), h.key id' hok.registered⟩

/-- So does one that has made the handshake: no other key of its pair is
selected. -/
theorem Steady.of_greeted (hs : Steady s) (hkeys : s.selectedKeys = .tunnel id readyOps :: keys)
    (hc : Connecting s.tunnels id) (h : Greeted id s.tunnels u) :
    Steady { s with tunnels := u, selectedKeys := keys } := by
  have hselected := hs.selected
  have hnodup := hs.nodup
  rw [hkeys] at hselected hnodup
  have hid := (hselected id readyOps (List.mem_cons_self ..)).accepted
  refine ⟨h.wired hs.wired, hs.newPair_of_kept hid h.channel h.socks5, hnodup.of_cons, ?_⟩
  intro id' ops' hmem
  have hok := hselected id' ops' (List.mem_cons_of_mem _ hmem)
  have hne : id' ≠ id := by
    rintro rfl
    exact (List.nodup_cons.mp hnodup).1 (List.mem_map.mpr ⟨_, hmem, rfl⟩)
  have hpair : id'.pair ≠ id.pair := by
    intro hpair
    rcases TunnelId.eq_or_brother hpair with rfl | rfl
    · exact hne rfl
    · exact hok.registered hc.unregistered
  refine ⟨hok.accepted, hok.connect.trans ?_, h.key id' hok.registered⟩
  rw [Tunnels.greeted, Tunnels.greeted, h.socks5 _ hpair]

theorem Steady.of_accepted (hs : Steady s) (hkeys : s.selectedKeys = .server :: keys)
    (h : Kept s.accepted s.tunnels u) :
    Steady { s with tunnels := u, selectedKeys := keys, accepted := s.accepted + 1 } := by
  have hselected := hs.selected
  have hnodup := hs.nodup
  rw [hkeys] at hselected hnodup
  refine ⟨h.wired hs.wired, ?_, hnodup.of_cons, ?_⟩
  · intro pair hpair
    have hne : pair ≠ s.accepted := Nat.ne_of_gt (Nat.lt_of_succ_le hpair)
    have hnew := hs.fresh pair (Nat.le_of_succ_le hpair)
    refine ⟨fun id' hid' => ?_, (h.socks5 pair hne).trans hnew.socks5⟩
    rw [h.channel id' (hid'.trans_ne hne)]
    exact hnew.channel id' hid'
  · intro id' ops' hmem
    have hok := hselected id' ops' (List.mem_cons_of_mem _ hmem)
    exact ⟨Nat.lt_succ_of_lt hok.accepted, hok.connect.trans (by rw [← h.greeted]),
      h.key id' hok.registered⟩

theorem wired_deregister {t : Tunnels β σ} (h : Wired t) : Wired (deregister t) := by
  refine ⟨h.channelBuffer, h.remainingBuffer, fun id => ?_, h.cipher⟩
  have hid := h.channel id
  have hkey : ∀ key, ((deregister t).mSocketChannel id).key = some key →
      (t.mSocketChannel id).key = some key := fun key hkey => (Option.filter_eq_some_iff.mp hkey).1
  refine ⟨hid.isOpen, fun key hk => hid.valid key (hkey key hk),
    fun key hk => hid.registered key (hkey key hk), fun hrole hsome => hid.answering hrole ?_⟩
  obtain ⟨key, hk⟩ := Option.ne_none_iff_exists'.mp hsome
  rw [hkey key hk]
  exact Option.some_ne_none _

theorem Steady.of_selected (hs : Steady s) (h : Selectable (deregister s.tunnels) keys) :
    Steady { s with tunnels := deregister s.tunnels, selectedKeys := keys } := by
  have hwired := wired_deregister hs.wired
  refine ⟨hwired, fun pair hpair => ⟨fun id hid => ?_, (hs.fresh pair hpair).socks5⟩, h.1, ?_⟩
  · simp [deregister, (hs.fresh pair hpair).channel id hid]
  · intro id ops hmem
    have hready : ((deregister s.tunnels).mSocketChannel id).key = some { interestOps := ops } :=
      h.2 _ hmem
    refine ⟨?_, (hwired.channel id).registered _ hready, by rw [hready]; simp⟩
    by_contra hpair
    have hnew := (hs.fresh id.pair (Nat.le_of_not_lt hpair)).channel id rfl
    simp [deregister, hnew] at hready

end

-- ---------------------------------------------------------------------------
-- Steps
-- ---------------------------------------------------------------------------

section
variable [Inhabited β] (C : StreamCipher β σ) (own : Nat → Byte → β)

/-- What one step can do. -/
inductive Stepped (s : SelectorThread β σ) : Round → SelectorThread β σ → Prop
  | selected (hempty : s.selectedKeys = []) (keys : List Selected)
      (hkeys : Selectable (deregister s.tunnels) keys) :
      Stepped s (.select keys) { s with tunnels := deregister s.tunnels, selectedKeys := keys }
  | skipped (id : TunnelId) (readyOps : Op) (keys : List Selected)
      (hkeys : s.selectedKeys = .tunnel id readyOps :: keys)
      (hinvalid : isValid s.tunnels id = false) (calls : Calls) :
      Stepped s (.handle calls) { s with selectedKeys := keys }
  | accepted (keys : List Selected) (hkeys : s.selectedKeys = .server :: keys) (calls : AcceptCalls)
      {r : Except Throwable Unit} {u : Tunnels β σ}
      (h : Acceptable s.tunnels s.accepted calls r u) :
      Stepped s (.accept calls) { s.finish keys (r, u) with accepted := s.accepted + 1 }
  | readable (id : TunnelId) (keys : List Selected)
      (hkeys : s.selectedKeys = .tunnel id .opRead :: keys) (hvalid : isValid s.tunnels id = true)
      (hc : Connected s.tunnels id) (calls : Calls) {r : Except Throwable Unit} {u : Tunnels β σ}
      (h : Readable C own s.tunnels id calls r u) : Stepped s (.handle calls) (s.finish keys (r, u))
  | writable (id : TunnelId) (keys : List Selected)
      (hkeys : s.selectedKeys = .tunnel id .opWrite :: keys) (hvalid : isValid s.tunnels id = true)
      (hc : Connected s.tunnels id) (calls : Calls) {r : Except Throwable Unit} {u : Tunnels β σ}
      (h : Writable C s.tunnels id calls r u) : Stepped s (.handle calls) (s.finish keys (r, u))
  | connectable (id : TunnelId) (keys : List Selected)
      (hkeys : s.selectedKeys = .tunnel id .opConnect :: keys) (hvalid : isValid s.tunnels id = true)
      (hc : Connecting s.tunnels id) (calls : Calls) {r : Except Throwable Unit} {u : Tunnels β σ}
      (h : Connectable C own s.tunnels id calls r u) :
      Stepped s (.handle calls) (s.finish keys (r, u))

variable {C own} {s t : SelectorThread β σ} {e : Round}

theorem running_of_step (h : step C own s e = some t) : s.stopped = none := by
  unfold step at h
  split at h
  · cases h
  · rename_i hrunning
    simpa using hrunning

omit [Inhabited β] in
theorem isValid_iff {t : Tunnels β σ} {id : TunnelId} :
    isValid t id = true ↔ ∃ key, (t.mSocketChannel id).key = some key ∧ key.isValid = true := by
  unfold isValid
  cases (t.mSocketChannel id).key <;> simp

theorem step_cases (hs : Steady s) (h : step C own s e = some t) : Stepped C own s e t := by
  have hrunning : ¬ s.stopped.isSome = true := by simp [running_of_step h]
  unfold step at h
  rw [if_neg hrunning] at h
  cases e with
  | select keys =>
    cases hkeys : s.selectedKeys with
    | cons => simp [hkeys] at h
    | nil =>
      simp only [hkeys, Option.ite_none_right_eq_some, Option.some.injEq] at h
      obtain ⟨hselectable, rfl⟩ := h
      exact .selected hkeys keys hselectable
  | accept calls =>
    rcases hkeys : s.selectedKeys with _ | ⟨_ | _, keys⟩
    · simp [hkeys] at h
    · simp only [hkeys, Option.some.injEq] at h
      subst h
      exact .accepted keys hkeys calls (exec_onAcceptable calls (hs.fresh _ (Nat.le_refl _)))
    · simp [hkeys] at h
  | handle calls =>
    rcases hkeys : s.selectedKeys with _ | ⟨_ | ⟨id, readyOps⟩, keys⟩
    · simp [hkeys] at h
    · simp [hkeys] at h
    · simp only [hkeys] at h
      have hok := hs.selected id readyOps (hkeys ▸ List.mem_cons_self ..)
      cases hvalid : isValid s.tunnels id with
      | false =>
        simp only [hvalid, Bool.false_eq_true, if_false, Option.some.injEq] at h
        subst h
        exact .skipped id readyOps keys hkeys hvalid calls
      | true =>
        simp only [hvalid, if_true, Option.some.injEq] at h
        subst h
        have hgreeted (hne : readyOps ≠ .opConnect) : s.tunnels.greeted id.pair = true := by
          rw [← Bool.not_eq_false]
          exact mt hok.connect.mpr hne
        cases readyOps with
        | opRead =>
          have hc := hs.wired.connected (hgreeted (by simp))
          exact .readable id keys hkeys hvalid hc calls (exec_onReadable hc)
        | opWrite =>
          have hc := hs.wired.connected (hgreeted (by simp))
          exact .writable id keys hkeys hvalid hc calls (exec_onWritable hc hok.registered)
        | opConnect =>
          have hc := hs.wired.connecting (hok.connect.mp rfl) (isValid_iff.mp hvalid)
          exact .connectable id keys hkeys hvalid hc calls (exec_onConnectable hc)

omit [Inhabited β] in
theorem finish_stopped (s : SelectorThread β σ) (keys : List Selected) (r : Except Throwable Unit)
    (u : Tunnels β σ) :
    (s.finish keys (r, u)).stopped = none ↔ r = .ok () := by
  cases r with
  | ok => simp [finish]
  | error => simp [finish]

theorem steady_step (hs : Steady s) (hstep : step C own s e = some t)
    (hrunning : t.stopped = none) : Steady t := by
  cases step_cases hs hstep with
  | selected hempty keys hkeys => exact hs.of_selected hkeys
  | skipped id readyOps keys hkeys => exact hs.of_kept hkeys (.refl _ _)
  | accepted keys hkeys calls h =>
    exact (hs.of_accepted hkeys (h.keeps (hs.fresh _ (Nat.le_refl _)))).with_stopped _
  | readable id keys hkeys hvalid hc calls h =>
    obtain rfl := (finish_stopped ..).mp hrunning
    exact (hs.of_kept hkeys (h.keeps hc)).with_stopped _
  | writable id keys hkeys hvalid hc calls h =>
    obtain rfl := (finish_stopped ..).mp hrunning
    exact (hs.of_kept hkeys (h.keeps hc)).with_stopped _
  | connectable id keys hkeys hvalid hc calls h =>
    obtain rfl := (finish_stopped ..).mp hrunning
    rcases h.keeps hc with hkept | hgreeted
    · exact (hs.of_kept hkeys hkept).with_stopped _
    · exact (hs.of_greeted hkeys hc hgreeted).with_stopped _

theorem steady_initial : Steady (initial : SelectorThread β σ) where
  wired := by
    refine ⟨rfl, rfl, fun id => ⟨fun _ => rfl, ?_, ?_, ?_⟩, fun _ => ⟨?_, ?_⟩⟩ <;>
      simp [initial]
  fresh _ _ := ⟨fun _ _ => rfl, rfl⟩
  nodup := List.nodup_nil
  selected _ _ h := by cases h

/-- A thread that runs is steady, whatever it did before. -/
theorem steady_run {rounds : List Round} (h : Machine.run (step C own) initial rounds = some s)
    (hrunning : s.stopped = none) : Steady s := by
  have hkeep : ∀ s e t, (s.stopped = none → Steady s) → step C own s e = some t →
      t.stopped = none → Steady t := fun s e t hs hstep hstopped =>
    steady_step (hs (running_of_step hstep)) hstep hstopped
  exact Machine.run_keeps hkeep (fun _ => steady_initial) h hrunning

end

-- ---------------------------------------------------------------------------
-- What a tunnel waits for
-- ---------------------------------------------------------------------------

/-- The tunnel is registered for an operation, or was selected for it. -/
def Awaits (t : Tunnels β σ) (keys : List Selected) (id : TunnelId) (ops : Op) : Prop :=
  ∃ key, (t.mSocketChannel id).key = some key ∧ key.isValid = true ∧
    (key.interestOps = ops ∨ .tunnel id ops ∈ keys)

instance (t : Tunnels β σ) (keys : List Selected) (id : TunnelId) (ops : Op) :
    Decidable (Awaits t keys id ops) :=
  decidable_of_iff
    (∃ key ∈ (t.mSocketChannel id).key, key.isValid = true ∧
      (key.interestOps = ops ∨ .tunnel id ops ∈ keys)) Iff.rfl

section
variable {t u : Tunnels β σ} {keys keys' : List Selected} {id id' : TunnelId} {ops ops' : Op}

theorem Awaits.of_key (h : Awaits u keys id ops)
    (hkey : (u.mSocketChannel id).key = (t.mSocketChannel id).key)
    (hkeys : .tunnel id ops ∈ keys → .tunnel id ops ∈ keys') : Awaits t keys' id ops := by
  obtain ⟨key, hk, hvalid, hwaits⟩ := h
  exact ⟨key, hkey ▸ hk, hvalid, hwaits.imp_right hkeys⟩

theorem Awaits.of_cancel (h : Awaits (t.cancel id) keys id' ops) :
    id' ≠ id ∧ Awaits t keys id' ops := by
  obtain ⟨key, hk, hvalid, hwaits⟩ := h
  rw [t.channel_cancel] at hk
  by_cases heq : id' = id
  · rw [if_pos heq] at hk
    obtain ⟨key', -, rfl⟩ := Option.map_eq_some_iff.mp hk
    cases hvalid
  · rw [if_neg heq] at hk
    exact ⟨heq, key, hk, hvalid, hwaits⟩

theorem Awaits.of_close (h : Awaits (t.close id) keys id' ops) : id' ≠ id ∧ Awaits t keys id' ops := by
  obtain ⟨key, hk, hvalid, hwaits⟩ := h
  rw [t.channel_close] at hk
  by_cases heq : id' = id
  · rw [if_pos heq] at hk
    obtain ⟨key', -, rfl⟩ := Option.map_eq_some_iff.mp hk
    cases hvalid
  · rw [if_neg heq] at hk
    exact ⟨heq, key, hk, hvalid, hwaits⟩

/-- A channel that is registered waits for its operation, and for what it was
selected for. -/
theorem Awaits.of_setKey (h : Awaits (t.setKey id (some { interestOps := ops })) keys id' ops')
    (hcancelled : ¬ t.Cancelled id)
    (hselected : .tunnel id ops' ∈ keys → (t.mSocketChannel id).key ≠ none) :
    id' = id ∧ ops' = ops ∨ Awaits t keys id' ops' := by
  obtain ⟨key, hk, hvalid, hwaits⟩ := h
  rw [t.channel_setKey] at hk
  by_cases heq : id' = id
  · subst heq
    rw [if_pos rfl] at hk
    cases hk
    rcases hwaits with hops | hmem
    · exact .inl ⟨rfl, hops.symm⟩
    · right
      obtain ⟨key, hkey⟩ := Option.ne_none_iff_exists'.mp (hselected hmem)
      refine ⟨key, hkey, ?_, .inr hmem⟩
      by_contra hinvalid
      exact hcancelled ⟨key, hkey, by simpa using hinvalid⟩
  · rw [if_neg heq] at hk
    exact .inr ⟨key, hk, hvalid, hwaits⟩

/-- After the handshake both tunnels wait to read. -/
theorem Awaits.of_establish {s : SelectorThread β σ} {c : CryptBase β σ} {bytes : List β}
    (hs : Steady s) (hkeys : s.selectedKeys = .tunnel id .opConnect :: keys)
    (hc : Connecting s.tunnels id) (h : Awaits (s.tunnels.establish id c bytes) keys id' ops) :
    id'.pair = id.pair ∧ ops = .opRead ∨ id'.pair ≠ id.pair ∧ Awaits s.tunnels s.selectedKeys id' ops := by
  have hselected := hs.selected
  have hnodup := hs.nodup
  rw [hkeys] at hselected hnodup
  by_cases hpair : id'.pair = id.pair
  · obtain ⟨key, hk, -, hwaits⟩ := h
    rcases TunnelId.eq_or_brother hpair with rfl | rfl
    · rw [Tunnels.channel_establish] at hk
      cases hk
      rcases hwaits with hops | hmem
      · exact .inl ⟨hpair, hops.symm⟩
      · exact absurd (List.mem_map.mpr ⟨_, hmem, rfl⟩) (List.nodup_cons.mp hnodup).1
    · rw [Tunnels.channel_establish_brother] at hk
      cases hk
      rcases hwaits with hops | hmem
      · exact .inl ⟨hpair, hops.symm⟩
      · exact absurd hc.unregistered
          (hselected _ _ (List.mem_cons_of_mem _ hmem)).registered
  · right
    refine ⟨hpair, h.of_key ?_ ?_⟩
    · rw [Tunnels.channel_establish_ne _ _ _ _ hpair]
    · rw [hkeys]
      exact List.mem_cons_of_mem _

/-- What is selected was waited for. -/
theorem Awaits.of_selected (hselectable : Selectable (deregister t) keys)
    (h : Awaits (deregister t) keys id ops) : Awaits t [] id ops := by
  obtain ⟨key, hk, hvalid, hwaits⟩ := h
  have hkey : (t.mSocketChannel id).key = some key := (Option.filter_eq_some_iff.mp hk).1
  refine ⟨key, hkey, hvalid, .inl ?_⟩
  rcases hwaits with hops | hmem
  · exact hops
  · have hready : ((deregister t).mSocketChannel id).key = some { interestOps := ops } :=
      hselectable.2 _ hmem
    cases hk.symm.trans hready
    rfl

/-- Accepting a channel makes none wait but for its connection. -/
theorem Awaits.of_acceptable {s : SelectorThread β σ} {calls : AcceptCalls}
    {r : Except Throwable Unit} (hs : Steady s) (hkeys : s.selectedKeys = .server :: keys)
    (hu : Acceptable s.tunnels s.accepted calls r u) (h : Awaits u keys id ops) :
    ops = .opConnect ∨ Awaits s.tunnels s.selectedKeys id ops := by
  have hmem : .tunnel id ops ∈ keys → .tunnel id ops ∈ s.selectedKeys := by
    rw [hkeys]
    exact List.mem_cons_of_mem _
  cases hu with
  | failed => exact .inr (h.of_key rfl hmem)
  | dropped => exact .inr (h.of_key rfl hmem)
  | unprotected => exact .inr (h.of_key rfl hmem)
  | refused => exact .inr (h.of_key rfl hmem)
  | connecting haccept hserver dest =>
    have hnew := (hs.fresh _ (Nat.le_refl _)).channel ⟨s.accepted, .roleRemote⟩ rfl
    have hnone : ((s.tunnels.setSocks5 s.accepted { mDestAddress := dest }).mSocketChannel
        ⟨s.accepted, .roleRemote⟩).key = none := congrArg SocketChannel.key hnew
    have hcancelled : ¬ (s.tunnels.setSocks5 s.accepted { mDestAddress := dest }).Cancelled
        ⟨s.accepted, .roleRemote⟩ := by
      rintro ⟨key, hkey, -⟩
      rw [hnone] at hkey
      cases hkey
    have hselected : ∀ ops, .tunnel ⟨s.accepted, .roleRemote⟩ ops ∉ keys := by
      intro ops hsel
      have hlt := (hs.selected _ ops (hkeys ▸ List.mem_cons_of_mem _ hsel)).accepted
      exact Nat.lt_irrefl _ hlt
    rcases h.of_setKey hcancelled fun hsel => absurd hsel (hselected ops) with ⟨-, hops⟩ | h
    · exact .inl hops
    · exact .inr (h.of_key rfl hmem)

end

-- ---------------------------------------------------------------------------
-- Sample rounds
-- ---------------------------------------------------------------------------

/-- The state after some rounds that the thread can take. -/
def after [Inhabited β] (C : StreamCipher β σ) (own : Nat → Byte → β) (rounds : List Round) :
    SelectorThread β σ :=
  (Machine.run (step C own) initial rounds).getD initial

theorem run_after [Inhabited β] (C : StreamCipher β σ) (own : Nat → Byte → β) (rounds : List Round)
    (h : (Machine.run (step C own) initial rounds).isSome = true) :
    Machine.run (step C own) initial rounds = some (after C own rounds) :=
  Machine.run_getD h

theorem nothing_fits : ([] : List Byte).length ≤ capacity := by decide
theorem request_fits : ([0x01, 0x02] : List Byte).length ≤ capacity := by decide
theorem sampleStream_fits : sampleStream.length ≤ capacity := by decide

/-- What the sample handlers read: a request in the clear and its encrypted answer. -/
def nothing : Chunk := ⟨[], nothing_fits⟩
def request : Chunk := ⟨[0x01, 0x02], request_fits⟩
def answer : Chunk := ⟨sampleStream, sampleStream_fits⟩

/-- A handler that reads `chunk`, and whose writes accept `counts`. -/
def sampleCalls (chunk : Chunk) (counts : List Nat) : Calls where
  read := .bytes chunk
  writes := counts.map .accepts
  finishConnect := some true
  iv := sampleIV

def sampleAccept : AcceptCalls where
  accept := .ok ()
  destAddress := some ⟨[0x61], 80⟩
  hasServer := true
  protectSocket := some true
  connect := .ok ()

/-- A channel is accepted, and its pair is connected. -/
def connectRounds (pair : Nat) : List Round :=
  [.select [.server], .accept sampleAccept, .select [.tunnel ⟨pair, .roleRemote⟩ .opConnect],
    .handle (sampleCalls nothing [100])]

end SelectorThread

end SmartSocks.Sslocal
