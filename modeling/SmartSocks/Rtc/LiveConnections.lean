import SmartSocks.Rtc.RtcSignalling

/-!
# Live signalling connections

A connection is live from its creation until it closes or is disconnected. Only
`destroy` disconnects, and only the current connection, so a connection that is
live when `initialize` replaces it stays live with nothing that refers to it.
Nothing else gets a second one.
-/

namespace SmartSocks.Rtc

namespace RtcSignalling

variable (s : RtcSignalling)

@[simp] theorem sendTextMessage_disconnected (json : Fields) :
    (s.sendTextMessage json).disconnected = s.disconnected := by
  unfold sendTextMessage
  split <;> rfl

@[simp] theorem onOpen_disconnected : s.onOpen.disconnected = s.disconnected := by
  simp [onOpen, register]

@[simp] theorem sendToPeer_disconnected (peerID msg : Option Jvm.JString) :
    (s.sendToPeer peerID msg).disconnected = s.disconnected := by
  simp [sendToPeer, apply_ite RtcSignalling.disconnected]

@[simp] theorem sendToAll_disconnected (msg : Option Jvm.JString) :
    (s.sendToAll msg).disconnected = s.disconnected := by
  simp [sendToAll, apply_ite RtcSignalling.disconnected]

theorem mem_disconnect {connection : Nat} :
    connection ∈ s.disconnect.disconnected ↔
      connection ∈ s.disconnected ∨ s.mWebSocketConnection = some connection := by
  unfold disconnect
  split
  next hnone => simp [hnone]
  next current hcurrent => simp [hcurrent, eq_comm]

/-- `destroy` disconnects the current connection, or none. -/
theorem mem_destroy {connection : Nat} (h : connection ∈ s.destroy.disconnected) :
    connection ∈ s.disconnected ∨ s.mWebSocketConnection = some connection := by
  cases hstate : s.mSignallingState with
  | idle => exact .inl (by simpa [destroy, hstate] using h)
  | disconnected => exact .inl (by simpa [destroy, hstate] using h)
  | connecting => exact .inl (by simpa [destroy, hstate] using h)
  | closed => exact .inl (by simpa [destroy, hstate] using h)
  | connected => exact s.mem_disconnect.mp (by simpa [destroy, hstate] using h)
  | registered =>
    have hleft := (mem_disconnect s.leave).mp (by simpa [destroy, hstate] using h)
    simpa [leave] using hleft

theorem mem_destroy_of_mem {connection : Nat} (h : connection ∈ s.disconnected) :
    connection ∈ s.destroy.disconnected := by
  have hdisconnect : connection ∈ s.disconnect.disconnected := s.mem_disconnect.mpr (.inl h)
  have hleave : connection ∈ s.leave.disconnect.disconnected :=
    (mem_disconnect s.leave).mpr (.inl (by simpa [leave] using h))
  cases hstate : s.mSignallingState <;> simp [destroy, hstate, h, hdisconnect, hleave]

end RtcSignalling

namespace Client

/-- `connect` was called, `onClose` did not come, and `disconnect` was not called. -/
def Live (s : Client) (connection : Nat) : Prop :=
  connection < s.created ∧ s.link connection ≠ .closed ∧ connection ∉ s.signalling.disconnected

instance (s : Client) : DecidablePred s.Live := fun _ => inferInstanceAs (Decidable (_ ∧ _ ∧ _))

/-- One live connection at most, and none that is not the current one. -/
structure SingleLive (s : Client) : Prop where
  unique : ∀ connection other, s.Live connection → s.Live other → connection = other
  current : ∀ connection, s.Live connection → s.signalling.mWebSocketConnection = some connection

/-- An `initialize` that goes past its test finds no current connection, or one that
has closed or was disconnected. -/
def Replaceable (s : Client) : SignallingEvent → Prop
  | .initializeWith _ =>
    s.signalling.Effective → ∀ connection ∈ s.signalling.mWebSocketConnection, ¬ s.Live connection
  | _ => True

theorem forall_mem_some {p : Nat → Prop} {connection : Nat} :
    p connection ↔ ∀ c ∈ some connection, p c := by
  simp

instance (s : Client) : DecidablePred s.Replaceable
  | .initializeWith _ =>
    have : Decidable (∀ connection ∈ s.signalling.mWebSocketConnection, ¬ s.Live connection) :=
      match s.signalling.mWebSocketConnection with
      | none => .isTrue nofun
      | some connection => decidable_of_iff (¬ s.Live connection) (forall_mem_some (p := fun c => ¬ s.Live c))
    instDecidableForall
  | .destroy | .onOpen _ | .onClose _ | .sendToPeer .. | .sendToAll _ => instDecidableTrue

/-- Only the current connection is live, and all connections there are were created. -/
structure Tracked (s : Client) : Prop where
  live : ∀ connection, s.Live connection → s.signalling.mWebSocketConnection = some connection
  current : ∀ connection ∈ s.signalling.mWebSocketConnection, connection < s.created
  disconnected : ∀ connection ∈ s.signalling.disconnected, connection < s.created

section
variable {s t : Client} {e : SignallingEvent}

theorem Tracked.singleLive (hs : s.Tracked) : s.SingleLive where
  unique := fun connection other hconnection hother =>
    Option.some.inj ((hs.live connection hconnection).symm.trans (hs.live other hother))
  current := hs.live

theorem tracked_initial : Tracked {} where
  live := fun _ hlive => absurd hlive.1 (Nat.not_lt_zero _)
  current := nofun
  disconnected := nofun

/-- A step that creates no connection and makes none live. -/
theorem Tracked.of_live (hs : s.Tracked) (hcreated : t.created = s.created)
    (hconnection : t.signalling.mWebSocketConnection = s.signalling.mWebSocketConnection)
    (hlive : ∀ connection, t.Live connection → s.Live connection)
    (hdisconnected : ∀ connection ∈ t.signalling.disconnected,
      connection ∈ s.signalling.disconnected ∨ s.signalling.mWebSocketConnection = some connection) :
    t.Tracked where
  live := fun connection h => hconnection.trans (hs.live connection (hlive connection h))
  current := by
    rw [hconnection, hcreated]
    exact hs.current
  disconnected := by
    rw [hcreated]
    intro connection hmem
    exact (hdisconnected connection hmem).elim (hs.disconnected connection) (hs.current connection)

/-- What `initialize` replaces a connection by. -/
theorem initialized (config : RtcSignallingConfig) (heffective : s.signalling.Effective)
    (h : s.step (.initializeWith config) = some t) :
    t = { s with
      signalling := { s.signalling with
        mRtcSignallingConfig := some config
        mWebSocketConnection := some s.created
        mSignallingState := .connecting }
      created := s.created + 1
      link := Function.update s.link s.created .connecting
      destroyed := false } := by
  rw [step, if_pos heffective, RtcSignalling.initializeWith, if_pos heffective] at h
  exact (Option.some.inj h).symm

theorem ignored (config : RtcSignallingConfig) (heffective : ¬ s.signalling.Effective)
    (h : s.step (.initializeWith config) = some t) : t = s := by
  rw [step, if_neg heffective, RtcSignalling.initializeWith, if_neg heffective] at h
  exact (Option.some.inj h).symm

theorem Tracked.initializeWith (config : RtcSignallingConfig) (hs : s.Tracked)
    (hguard : s.Replaceable (.initializeWith config)) (h : s.step (.initializeWith config) = some t) :
    t.Tracked := by
  by_cases heffective : s.signalling.Effective
  case neg =>
    rw [ignored config heffective h]
    exact hs
  rw [initialized config heffective h]
  refine ⟨?_, ?_, fun connection hmem => Nat.lt_succ_of_lt (hs.disconnected connection hmem)⟩
  · rintro connection ⟨hcreated, hlink, hdisconnected⟩
    obtain hlt | rfl := Nat.lt_succ_iff_lt_or_eq.mp hcreated
    · -- an old connection was not live, unless it was the current one
      have hopen : s.link connection ≠ .closed := fun hclosed =>
        hlink ((Function.update_of_ne hlt.ne _ _).trans hclosed)
      have hlive : s.Live connection := ⟨hlt, hopen, hdisconnected⟩
      exact absurd hlive (hguard heffective connection (hs.live connection hlive))
    · rfl
  · rintro connection ⟨⟩
    exact Nat.lt_succ_self _

theorem tracked_step (hs : s.Tracked) (hguard : s.Replaceable e) (h : s.step e = some t) : t.Tracked := by
  cases e with
  | initializeWith config => exact hs.initializeWith config hguard h
  | destroy =>
    cases h
    refine hs.of_live rfl s.signalling.destroy_connection ?_ fun connection => s.signalling.mem_destroy
    rintro connection ⟨hcreated, hlink, hdisconnected⟩
    exact ⟨hcreated, hlink, mt s.signalling.mem_destroy_of_mem hdisconnected⟩
  | onOpen opened =>
    simp only [Client.step, Option.ite_none_right_eq_some, Option.some.injEq] at h
    obtain ⟨⟨-, hconnecting⟩, rfl⟩ := h
    refine hs.of_live rfl s.signalling.onOpen_connection ?_ fun connection hmem => .inl (by simpa using hmem)
    rintro connection ⟨hcreated, hlink, hdisconnected⟩
    refine ⟨hcreated, ?_, by simpa using hdisconnected⟩
    rintro hclosed
    have hne : connection ≠ opened := by
      rintro rfl
      cases hclosed.symm.trans hconnecting
    exact hlink ((Function.update_of_ne hne _ _).trans hclosed)
  | onClose closed =>
    simp only [Client.step, Option.ite_none_right_eq_some, Option.some.injEq] at h
    obtain ⟨-, rfl⟩ := h
    refine hs.of_live rfl rfl ?_ fun connection hmem => .inl hmem
    rintro connection ⟨hcreated, hlink, hdisconnected⟩
    refine ⟨hcreated, fun hclosed => hlink ?_, hdisconnected⟩
    by_cases heq : connection = closed
    · subst heq
      exact Function.update_self ..
    · exact (Function.update_of_ne heq _ _).trans hclosed
  | sendToPeer peerID msg =>
    cases h
    exact hs.of_live rfl (by simp) (fun _ => by simp [Live]) (fun _ hmem => .inl (by simpa using hmem))
  | sendToAll msg =>
    cases h
    exact hs.of_live rfl (by simp) (fun _ => by simp [Live]) (fun _ hmem => .inl (by simpa using hmem))

/-- A live connection that is replaced is live beside the new one. -/
theorem Tracked.two_live (hs : s.Tracked) (hguard : ¬ s.Replaceable e) (h : s.step e = some t) :
    ¬ t.SingleLive := by
  cases e with
  | initializeWith config =>
    simp only [Replaceable, not_forall, not_not] at hguard
    obtain ⟨heffective, connection, hcurrent, hlive⟩ := hguard
    have hnew : t.Live s.created := by
      rw [initialized config heffective h]
      refine ⟨Nat.lt_succ_self _, ?_, fun hmem => absurd (hs.disconnected _ hmem) (Nat.lt_irrefl _)⟩
      simp
    have hold : t.Live connection := by
      rw [initialized config heffective h]
      refine ⟨Nat.lt_succ_of_lt hlive.1, ?_, hlive.2.2⟩
      simpa [Function.update_of_ne hlive.1.ne] using hlive.2.1
    exact fun hsingle => absurd (hsingle.unique connection s.created hold hnew) hlive.1.ne
  | _ => exact absurd trivial hguard

end

end Client

open Client

/-- In all states of a run at most one connection is live, and no other than the
current one, just when no `initialize` replaces a live connection. -/
theorem single_live_iff (events : List SignallingEvent) (s : Client)
    (hrun : Machine.run Client.step {} events = some s) :
    (∀ before t, before <+: events → Machine.run Client.step {} before = some t → t.SingleLive) ↔
      Machine.Guarded Client.step Replaceable {} events :=
  (Machine.guarded_iff (fun _ _ _ => tracked_step) (fun _ => Tracked.singleLive)
    (fun _ _ _ => Tracked.two_live) tracked_initial hrun).symm

/-- A client that joins, leaves and joins again. -/
theorem sampleSession_single_live : ∃ s, Machine.run Client.step {} sampleSession = some s ∧
    ∀ before t, before <+: sampleSession → Machine.run Client.step {} before = some t → t.SingleLive := by
  have hstate : (Machine.run Client.step {} sampleSession).isSome = true := by decide
  obtain ⟨s, hrun⟩ := Option.isSome_iff_exists.mp hstate
  exact ⟨s, hrun, (single_live_iff sampleSession s hrun).mpr (by decide)⟩

/-- A client that is registered and is initialized again has two connections, and
so has one that is destroyed while it connects. -/
theorem abandoned_connections_live :
    (∃ s, Machine.run Client.step {} [.initializeWith sampleConfig, .onOpen 0, .initializeWith sampleConfig] =
      some s ∧ s.Live 0 ∧ s.Live 1) ∧
    (∃ s, Machine.run Client.step {} [.initializeWith sampleConfig, .destroy, .initializeWith sampleConfig] =
      some s ∧ s.Live 0 ∧ s.Live 1) ∧
    ¬ ∀ events s, Machine.run Client.step {} events = some s →
      ∀ connection other, s.Live connection → s.Live other → connection = other := by
  have hlive (events : List SignallingEvent)
      (h : (Machine.run Client.step {} events).any (fun s => decide (s.Live 0 ∧ s.Live 1)) = true) :
      ∃ s, Machine.run Client.step {} events = some s ∧ s.Live 0 ∧ s.Live 1 := by
    obtain ⟨s, hrun, hs⟩ := (Option.any_eq_true _ _).mp h
    exact ⟨s, hrun, of_decide_eq_true hs⟩
  have hregistered := hlive [.initializeWith sampleConfig, .onOpen 0, .initializeWith sampleConfig] (by decide)
  have hconnecting := hlive [.initializeWith sampleConfig, .destroy, .initializeWith sampleConfig] (by decide)
  refine ⟨hregistered, hconnecting, fun hall => ?_⟩
  obtain ⟨s, hrun, hfirst, hsecond⟩ := hregistered
  exact absurd (hall _ s hrun 0 1 hfirst hsecond) (by decide)

end SmartSocks.Rtc
