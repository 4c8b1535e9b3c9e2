import SmartSocks.Rtc.Ownership

/-!
# The ICE servers of a connection

The list of ICE servers is static like the factory, and the configured servers
are appended to it whenever a factory is created. `destroy` of the last agent
disposes the factory and leaves the list, so it is the configuration for the
first factory only.
-/

namespace SmartSocks.Rtc

open Jvm OrgJson

-- ---------------------------------------------------------------------------
-- What `createPeerConnection` is given
-- ---------------------------------------------------------------------------

/-- The factory can be created. -/
def AgentCalls.FactoryOk (calls : AgentCalls) : Prop :=
  calls.initializeFactory = .ok () ∧ calls.createFactory = .ok ()

instance (calls : AgentCalls) : Decidable calls.FactoryOk := inferInstanceAs (Decidable (_ ∧ _))

/-- The configuration that an event brings. -/
def ContainerEvent.Brings {J : OrgJson} (configs : List RtcIceConfig) : ContainerEvent J → Prop
  | .processMessage _ _ mIceConfigs _ => mIceConfigs = configs
  | .createChannel _ mIceConfigs _ => mIceConfigs = configs
  | .delPeer _ => True

namespace RtcAgentContainer

variable {J : OrgJson}

/-- The configuration and the calls of the agent that the event creates, if it
creates one. -/
def creates (c : RtcAgentContainer) : ContainerEvent J → Option (List RtcIceConfig × AgentCalls)
  | .processMessage me json mIceConfigs calls =>
    match addressedElsewhere me json, rtcMessage json, getString json "sourceid" with
    | .ok false, .ok _, .ok id =>
      if has json "sourceid" = true ∧ id ∉ c.mRtcAgentMap then some (mIceConfigs, calls) else none
    | _, _, _ => none
  | .createChannel peerID mIceConfigs calls =>
    if peerID ∈ c.mRtcAgentMap then none else some (mIceConfigs, calls)
  | .delPeer _ => none

/-- What the calls of `createPeerConnection` in a step were given. -/
def given (c : RtcAgentContainer) (e : ContainerEvent J) : List (List IceServer) :=
  (c.step e).elim [] fun t => t.webrtc.given.drop c.webrtc.given.length

/-- It is the configuration, in order. -/
def GivenConfigured (configs : List RtcIceConfig) (c : RtcAgentContainer) (e : ContainerEvent J) : Prop :=
  ∀ servers ∈ c.given e, servers = configs.map (·.iceConfigToIceServer)

/-- An agent whose factory is created finds the list empty. -/
def FactoryFirst (c : RtcAgentContainer) (e : ContainerEvent J) : Prop :=
  c.webrtc.mPeerConnectionInited = false → ∀ p ∈ c.creates e, p.2.FactoryOk → c.webrtc.mIceServers = []

instance (c : RtcAgentContainer) (e : ContainerEvent J) : Decidable (c.FactoryFirst e) :=
  inferInstanceAs (Decidable (_ → ∀ p ∈ c.creates e, _ → _))

end RtcAgentContainer

-- ---------------------------------------------------------------------------
-- Programs that leave the list
-- ---------------------------------------------------------------------------

/-- The list, and whether there is a factory, are as before, and whatever was
created in between was given the list. -/
structure SameServers (s t : AgentState) : Prop where
  mIceServers : t.webrtc.mIceServers = s.webrtc.mIceServers
  mPeerConnectionInited : t.webrtc.mPeerConnectionInited = s.webrtc.mPeerConnectionInited
  given : ∃ n, t.webrtc.given = s.webrtc.given ++ List.replicate n s.webrtc.mIceServers

instance : IsPreorder AgentState SameServers where
  refl _ := ⟨rfl, rfl, 0, (List.append_nil _).symm⟩
  trans _ _ _ h h' := by
    obtain ⟨n, hn⟩ := h.given
    obtain ⟨n', hn'⟩ := h'.given
    refine ⟨h'.mIceServers.trans h.mIceServers, h'.mPeerConnectionInited.trans h.mPeerConnectionInited, n + n', ?_⟩
    rw [hn', hn, h.mIceServers, List.append_assoc, List.replicate_append_replicate]

theorem SameHeap.sameServers {s t : AgentState} (h : SameHeap s t) : SameServers s t := by
  obtain ⟨asked, hasked⟩ := h.webrtc
  refine ⟨?_, ?_, 0, ?_⟩ <;> rw [hasked]
  exact (List.append_nil _).symm

namespace RtcAgent

section
variable {J : OrgJson} {s : AgentState} {label : JString} {role : RtcRole} {sdpParam : Option J.JSONObject}
  {mIceConfigs : List RtcIceConfig} {calls : AgentCalls}

theorem sameServers_newConnection (call : Except Throwable Bool) : (newConnection call).Within SameServers := by
  intro s
  cases hfactory : s.webrtc.mPeerConnectionFactory with
  | none => simpa [newConnection, Prog.exec_bind, hfactory] using refl_of SameServers s
  | some factory =>
    rcases call with e | made
    · simp only [newConnection, Prog.exec_bind, Prog.exec_get, hfactory, Prog.exec_set, Prog.exec_lift]
      exact ⟨rfl, rfl, 1, rfl⟩
    · cases made with
      | false =>
        simp only [newConnection, Prog.exec_bind, Prog.exec_get, hfactory, Prog.exec_set, Prog.exec_lift,
          Bool.false_eq_true, if_false, Prog.exec_pure]
        exact ⟨rfl, rfl, 1, rfl⟩
      | true =>
        simp only [newConnection, Prog.exec_bind, Prog.exec_get, hfactory, Prog.exec_lift, if_true,
          Prog.exec_set, Prog.exec_pure]
        exact ⟨rfl, rfl, 1, rfl⟩

/-- Behind the local connection. -/
theorem sameServers_createRemote (calls : AgentCalls) (connection : Option Nat) :
    (do
      modify fun s => { s with agent := { s.agent with mLocalPeerConnection := connection } }
      createRemote calls : AgentProg Unit).Within SameServers := by
  refine (Prog.within_modify fun s => ⟨rfl, rfl, 0, (List.append_nil _).symm⟩).bind fun _ => ?_
  refine (sameServers_newConnection _).bind fun connection => ?_
  exact Prog.within_modify fun s => ⟨rfl, rfl, 0, (List.append_nil _).symm⟩

theorem sameServers_createPeerConnection (calls : AgentCalls) :
    (createPeerConnection calls).Within SameServers := by
  rw [createPeerConnection_eq]
  exact (sameServers_newConnection _).bind (sameServers_createRemote calls)

theorem sameServers_describe : (describe label role sdpParam calls).Within SameServers :=
  fun s => (sameHeap_describe s).sameServers

-- ---------------------------------------------------------------------------
-- The first step of `initialize`
-- ---------------------------------------------------------------------------

theorem exec_prepare_inited (mIceConfigs : List RtcIceConfig) (h : s.webrtc.mPeerConnectionInited = true) :
    (prepare mIceConfigs calls).exec s = (.ok (), s) := by
  simp [prepare, Prog.exec_bind, h]

theorem exec_prepare_new (mIceConfigs : List RtcIceConfig) (h : s.webrtc.mPeerConnectionInited = false)
    (hok : calls.FactoryOk) :
    ∃ w, (prepare mIceConfigs calls).exec s = (.ok (), { s with webrtc := w }) ∧
      w.mIceServers = s.webrtc.mIceServers ++ mIceConfigs.map (·.iceConfigToIceServer) ∧
      w.given = s.webrtc.given ∧ w.mPeerConnectionFactory.isSome = true := by
  simp [prepare, initFactory, Prog.exec_bind, h, hok.1, hok.2]

/-- The servers stay appended when the factory fails. -/
theorem exec_prepare_failed (mIceConfigs : List RtcIceConfig) (h : s.webrtc.mPeerConnectionInited = false)
    (hnot : ¬ calls.FactoryOk) :
    (∃ e, ((prepare mIceConfigs calls).exec s).1 = .error e) ∧
      ((prepare mIceConfigs calls).exec s).2.webrtc.mPeerConnectionInited = false ∧
      ((prepare mIceConfigs calls).exec s).2.webrtc.given = s.webrtc.given := by
  cases hfirst : calls.initializeFactory with
  | error e => simp [prepare, initFactory, Prog.exec_bind, h, hfirst]
  | ok =>
    cases hsecond : calls.createFactory with
    | error e => simp [prepare, initFactory, Prog.exec_bind, h, hfirst, hsecond]
    | ok => exact absurd ⟨hfirst, hsecond⟩ hnot

/-- Behind the first step the list is left alone. -/
theorem initializeAgent_servers (s : AgentState) (label : JString) (role : RtcRole)
    (sdpParam : Option J.JSONObject) (mIceConfigs : List RtcIceConfig) (calls : AgentCalls) :
    SameServers ((prepare mIceConfigs calls).exec s).2
      ((initializeAgent label role sdpParam mIceConfigs calls).exec s).2 := by
  rw [initializeAgent_eq, Prog.exec_bind]
  generalize (prepare mIceConfigs calls).exec s = result
  obtain ⟨r, t⟩ := result
  have hdescribe : (describe label role sdpParam calls).Within SameServers := sameServers_describe
  cases r with
  | error e => exact refl_of SameServers t
  | ok => exact ((sameServers_createPeerConnection calls).bind fun _ => hdescribe) t

theorem initializeAgent_failed (h : ∃ e, ((prepare mIceConfigs calls).exec s).1 = .error e) :
    ((initializeAgent label role sdpParam mIceConfigs calls).exec s).2 = ((prepare mIceConfigs calls).exec s).2 := by
  obtain ⟨e, he⟩ := h
  rw [initializeAgent_eq, Prog.exec_bind]
  generalize (prepare mIceConfigs calls).exec s = result at he ⊢
  obtain ⟨r, t⟩ := result
  cases he
  rfl

theorem newConnection_given (hfactory : s.webrtc.mPeerConnectionFactory.isSome = true) (call : Except Throwable Bool) :
    ((newConnection call).exec s).2.webrtc.given = s.webrtc.given ++ [s.webrtc.mIceServers] := by
  obtain ⟨factory, hfactory⟩ := Option.isSome_iff_exists.mp hfactory
  rcases call with e | made
  · simp [newConnection, Prog.exec_bind, hfactory]
  · cases made <;> simp [newConnection, Prog.exec_bind, Prog.exec_map, hfactory]

/-- With a factory there is at least the call for the local connection. -/
theorem initializeAgent_given (label : JString) (role : RtcRole) (sdpParam : Option J.JSONObject) {t : AgentState}
    (hprepare : (prepare mIceConfigs calls).exec s = (.ok (), t))
    (hfactory : t.webrtc.mPeerConnectionFactory.isSome = true) :
    ∃ n, ((initializeAgent label role sdpParam mIceConfigs calls).exec s).2.webrtc.given =
      t.webrtc.given ++ List.replicate (n + 1) t.webrtc.mIceServers := by
  have hlocal := newConnection_given hfactory calls.createLocal
  have hsame := sameServers_newConnection calls.createLocal t
  rw [initializeAgent_eq, Prog.exec_bind, hprepare, createPeerConnection_eq]
  dsimp only
  rw [bind_assoc, Prog.exec_bind]
  generalize (newConnection calls.createLocal).exec t = result at hlocal hsame ⊢
  obtain ⟨r, u⟩ := result
  cases r with
  | error e => exact ⟨0, hlocal⟩
  | ok connection =>
    have hdescribe : (describe label role sdpParam calls).Within SameServers := sameServers_describe
    obtain ⟨n, hn⟩ := (((sameServers_createRemote calls connection).bind fun _ => hdescribe) u).given
    refine ⟨n, hn.trans ?_⟩
    rw [hlocal, hsame.mIceServers, List.append_assoc]
    rfl

end

end RtcAgent

-- ---------------------------------------------------------------------------
-- The invariant
-- ---------------------------------------------------------------------------

/-- While there is a factory, the list is the configuration. -/
def ServersConfigured (configs : List RtcIceConfig) (w : Webrtc) : Prop :=
  w.mPeerConnectionInited = true → w.mIceServers = configs.map (·.iceConfigToIceServer)

namespace RtcAgentContainer

section
variable {J : OrgJson} {c t : RtcAgentContainer} {e : ContainerEvent J} {id : JString} {role : RtcRole}
  {sdpParam : Option J.JSONObject} {configs mIceConfigs : List RtcIceConfig} {calls : AgentCalls}

theorem addAgent_webrtc :
    ((addAgent id role sdpParam mIceConfigs calls).exec c).2.webrtc =
      ((RtcAgent.initializeAgent id role sdpParam mIceConfigs calls).exec
        ⟨{ mRemotePeerId := id }, c.webrtc⟩).2.webrtc := by
  simp only [addAgent, Prog.exec_bind, Prog.exec_on, Prog.exec_get, Prog.exec_pure]
  generalize (RtcAgent.initializeAgent id role sdpParam mIceConfigs calls).exec
    ⟨{ mRemotePeerId := id }, c.webrtc⟩ = result
  obtain ⟨r, s⟩ := result
  cases r with
  | error e => rfl
  | ok =>
    simp only [Prog.exec_lift]
    cases calls.onRtcAgentCreateChannel with
    | error e => rfl
    | ok => rfl

/-- A new agent keeps the list, or creates a factory for an empty one. -/
theorem configured_addAgent (hc : ServersConfigured configs c.webrtc)
    (hguard : c.webrtc.mPeerConnectionInited = false → calls.FactoryOk → c.webrtc.mIceServers = []) :
    ServersConfigured configs ((addAgent id role sdpParam configs calls).exec c).2.webrtc := by
  have hsame := RtcAgent.initializeAgent_servers ⟨{ mRemotePeerId := id }, c.webrtc⟩ id role sdpParam
    configs calls
  rw [addAgent_webrtc]
  intro hinited
  rw [hsame.mPeerConnectionInited] at hinited
  rw [hsame.mIceServers]
  cases hbefore : c.webrtc.mPeerConnectionInited with
  | true =>
    rw [RtcAgent.exec_prepare_inited configs hbefore]
    exact hc hbefore
  | false =>
    by_cases hok : calls.FactoryOk
    · obtain ⟨w, hexec, hservers, -⟩ := RtcAgent.exec_prepare_new (s := ⟨{ mRemotePeerId := id }, c.webrtc⟩)
        configs hbefore hok
      rw [hexec]
      dsimp only
      rw [hservers, hguard hbefore hok, List.nil_append]
    · obtain ⟨-, hfailed, -⟩ := RtcAgent.exec_prepare_failed (s := ⟨{ mRemotePeerId := id }, c.webrtc⟩)
        configs hbefore hok
      rw [hfailed] at hinited
      cases hinited

/-- A factory that is there is given the list, whatever it is. -/
theorem addAgent_given_inited (id : JString) (role : RtcRole) (sdpParam : Option J.JSONObject)
    (h : c.webrtc.mPeerConnectionInited = true) :
    ∃ n, ((addAgent id role sdpParam mIceConfigs calls).exec c).2.webrtc.given =
      c.webrtc.given ++ List.replicate n c.webrtc.mIceServers := by
  have hsame := RtcAgent.initializeAgent_servers ⟨{ mRemotePeerId := id }, c.webrtc⟩ id role sdpParam
    mIceConfigs calls
  rw [addAgent_webrtc]
  rw [RtcAgent.exec_prepare_inited mIceConfigs h] at hsame
  exact hsame.given

theorem addAgent_given_new (id : JString) (role : RtcRole) (sdpParam : Option J.JSONObject)
    (h : c.webrtc.mPeerConnectionInited = false) (hok : calls.FactoryOk) :
    ∃ n, ((addAgent id role sdpParam mIceConfigs calls).exec c).2.webrtc.given = c.webrtc.given ++
      List.replicate (n + 1) (c.webrtc.mIceServers ++ mIceConfigs.map (·.iceConfigToIceServer)) := by
  obtain ⟨w, hexec, hservers, hgiven, hfactory⟩ := RtcAgent.exec_prepare_new
    (s := ⟨{ mRemotePeerId := id }, c.webrtc⟩) mIceConfigs h hok
  obtain ⟨n, hn⟩ := RtcAgent.initializeAgent_given id role sdpParam hexec hfactory
  refine ⟨n, ?_⟩
  rw [addAgent_webrtc, hn, ← hservers, ← hgiven]

theorem addAgent_given_failed (id : JString) (role : RtcRole) (sdpParam : Option J.JSONObject)
    (h : c.webrtc.mPeerConnectionInited = false) (hnot : ¬ calls.FactoryOk) :
    ((addAgent id role sdpParam mIceConfigs calls).exec c).2.webrtc.given = c.webrtc.given := by
  obtain ⟨hthrows, -, hgiven⟩ := RtcAgent.exec_prepare_failed (s := ⟨{ mRemotePeerId := id }, c.webrtc⟩)
    mIceConfigs h hnot
  rw [addAgent_webrtc, RtcAgent.initializeAgent_failed hthrows, hgiven]

/-- The events that create an agent. -/
theorem creates_eq_some {me : Option JString} {json : J.JSONObject} {p : List RtcIceConfig × AgentCalls} :
    c.creates (.processMessage me json mIceConfigs calls) = some p ↔
      p = (mIceConfigs, calls) ∧ ∃ id sdpParam, c.Addresses me json id sdpParam := by
  rw [creates]
  constructor
  · intro h
    split at h
    next sdpParam id helsewhere hmessage hid =>
      obtain ⟨hnew, heq⟩ := Option.ite_none_right_eq_some.mp h
      exact ⟨(Option.some.inj heq).symm, id, sdpParam, helsewhere, hmessage, hnew.1, hid, hnew.2⟩
    next => cases h
  · rintro ⟨rfl, id, sdpParam, helsewhere, hmessage, hsource, hid, hnew⟩
    rw [helsewhere, hmessage, hid]
    exact if_pos ⟨hsource, hnew⟩

theorem creates_brings {p : List RtcIceConfig × AgentCalls} (hcreates : c.creates e = some p)
    (hbrings : e.Brings configs) : p.1 = configs := by
  cases e with
  | delPeer peerID => cases hcreates
  | createChannel peerID mIceConfigs calls =>
    obtain ⟨-, heq⟩ := Option.ite_none_left_eq_some.mp hcreates
    exact Option.some.inj heq ▸ hbrings
  | processMessage me json mIceConfigs calls =>
    obtain ⟨rfl, -⟩ := creates_eq_some.mp hcreates
    exact hbrings

/-- The agent that an event creates is added with its configuration. -/
theorem step_creates (hcreates : c.creates e = some (mIceConfigs, calls)) (hstep : c.step e = some t) :
    ∃ id role, ∃ sdpParam : Option J.JSONObject,
      t.webrtc = ((addAgent id role sdpParam mIceConfigs calls).exec c).2.webrtc := by
  cases e with
  | delPeer peerID => cases hcreates
  | createChannel peerID mIceConfigs calls =>
    cases hstep
    obtain ⟨hid, heq⟩ := Option.ite_none_left_eq_some.mp hcreates
    cases heq
    refine ⟨peerID, .rtcInitiator, none, ?_⟩
    simp only [createChannel, Prog.exec_bind, Prog.exec_get, hid, if_false]
  | processMessage me json mIceConfigs calls =>
    cases hstep
    obtain ⟨heq, id, sdpParam, haddresses⟩ := creates_eq_some.mp hcreates
    cases heq
    exact ⟨id, .rtcAcceptor, sdpParam, by rw [exec_processMessage haddresses]⟩

/-- Without a new agent a step only resets the factory. -/
theorem step_keeps (hcreates : c.creates e = none) (hstep : c.step e = some t) :
    t.webrtc.mIceServers = c.webrtc.mIceServers ∧ t.webrtc.given = c.webrtc.given ∧
      (t.webrtc.mPeerConnectionInited = true → c.webrtc.mPeerConnectionInited = true) := by
  cases e with
  | delPeer peerID =>
    cases hstep
    unfold RtcAgentContainer.delPeer
    cases c.mRtcAgentMap.lookup peerID with
    | none => exact ⟨rfl, rfl, id⟩
    | some agent =>
      dsimp only [RtcAgent.destroy]
      split
      · exact ⟨rfl, rfl, fun h => absurd h Bool.false_ne_true⟩
      · exact ⟨rfl, rfl, id⟩
  | createChannel peerID mIceConfigs calls =>
    cases hstep
    have hid : peerID ∈ c.mRtcAgentMap := by
      by_contra hid
      cases (if_neg hid).symm.trans hcreates
    simp only [createChannel, Prog.exec_bind, Prog.exec_get, hid, if_true, Prog.exec_pure]
    exact ⟨trivial, trivial, id⟩
  | processMessage me json mIceConfigs calls =>
    cases hstep
    have hknown (id : JString) (sdpParam : Option J.JSONObject) : ¬ c.Addresses me json id sdpParam :=
      fun haddresses => Option.some_ne_none _
        ((creates_eq_some.mpr ⟨rfl, id, sdpParam, haddresses⟩).symm.trans hcreates)
    obtain heq | ⟨peer, agent, rtcMsgJsonObject, -, heq⟩ := exec_processMessage_known hknown
    · rw [heq]
      exact ⟨rfl, rfl, id⟩
    · obtain ⟨asked, hasked⟩ :=
        (RtcAgent.sameHeap_processMessage rtcMsgJsonObject peer calls ⟨agent, c.webrtc⟩).webrtc
      rw [heq, onAgent, Prog.exec_on]
      dsimp only
      rw [hasked]
      exact ⟨rfl, rfl, id⟩

theorem configured_step (hc : ServersConfigured configs c.webrtc) (hguard : c.FactoryFirst e)
    (hbrings : e.Brings configs) (hstep : c.step e = some t) : ServersConfigured configs t.webrtc := by
  cases hcreates : c.creates e with
  | none =>
    obtain ⟨hservers, -, hinited⟩ := step_keeps hcreates hstep
    exact fun h => hservers.trans (hc (hinited h))
  | some p =>
    obtain ⟨mIceConfigs, calls⟩ := p
    have hconfigs : mIceConfigs = configs := creates_brings hcreates hbrings
    subst hconfigs
    obtain ⟨id, role, sdpParam, hwebrtc⟩ := step_creates hcreates hstep
    rw [hwebrtc]
    exact configured_addAgent hc fun hinited => hguard hinited _ hcreates

/-- What is given is what a step adds. -/
theorem given_eq {servers : List (List IceServer)} (hstep : c.step e = some t)
    (h : t.webrtc.given = c.webrtc.given ++ servers) : c.given e = servers := by
  rw [given, hstep, Option.elim_some, h, List.drop_left]

/-- The list that a step gives is the configuration just when it meets the
condition. -/
theorem factoryFirst_iff (hc : ServersConfigured configs c.webrtc) (hbrings : e.Brings configs) :
    c.FactoryFirst e ↔ GivenConfigured configs c e := by
  obtain ⟨t, hstep⟩ := step_total c e
  cases hcreates : c.creates e with
  | none =>
    obtain ⟨-, hgiven, -⟩ := step_keeps hcreates hstep
    rw [GivenConfigured, given_eq hstep (hgiven.trans (List.append_nil _).symm), FactoryFirst, hcreates]
    exact iff_of_true (fun _ _ hp => absurd hp (Option.not_mem_none _)) fun _ h => absurd h List.not_mem_nil
  | some p =>
    obtain ⟨mIceConfigs, calls⟩ := p
    have hconfigs : mIceConfigs = configs := creates_brings hcreates hbrings
    subst hconfigs
    obtain ⟨id, role, sdpParam, hwebrtc⟩ := step_creates hcreates hstep
    rw [FactoryFirst, GivenConfigured, hcreates]
    simp only [Option.mem_some_iff, forall_eq']
    cases hinited : c.webrtc.mPeerConnectionInited with
    | true =>
      obtain ⟨n, hn⟩ := addAgent_given_inited id role sdpParam hinited
      rw [given_eq hstep (hwebrtc ▸ hn)]
      exact iff_of_true nofun fun servers hservers => (List.eq_of_mem_replicate hservers).trans (hc hinited)
    | false =>
      by_cases hok : calls.FactoryOk
      · obtain ⟨n, hn⟩ := addAgent_given_new id role sdpParam hinited hok
        rw [given_eq hstep (hwebrtc ▸ hn)]
        simp [hok]
      · have hn : t.webrtc.given = c.webrtc.given :=
          hwebrtc ▸ addAgent_given_failed id role sdpParam hinited hok
        rw [given_eq hstep (hn.trans (List.append_nil _).symm)]
        exact iff_of_true (fun _ h => absurd h hok) fun _ h => absurd h List.not_mem_nil

end

end RtcAgentContainer

open RtcAgentContainer

/-- In a run with one configuration all connections are created with it just when
those that need a new factory find the list empty. -/
theorem given_configured_iff {J : OrgJson} (configs : List RtcIceConfig) (events : List (ContainerEvent J))
    (hbrings : ∀ e ∈ events, e.Brings configs) :
    Machine.Guarded RtcAgentContainer.step (GivenConfigured configs) {} events ↔
      Machine.Guarded RtcAgentContainer.step FactoryFirst {} events := by
  obtain ⟨c, hrun⟩ : ∃ c, Machine.run (step (J := J)) {} events = some c :=
    Machine.run_total step_total {} events
  have hinitial : ServersConfigured configs ({} : RtcAgentContainer).webrtc := nofun
  have hkeep (c : RtcAgentContainer) (e : ContainerEvent J) (t : RtcAgentContainer)
      (hc : ServersConfigured configs c.webrtc) (hguard : c.FactoryFirst e ∧ e.Brings configs)
      (hstep : c.step e = some t) : ServersConfigured configs t.webrtc :=
    configured_step hc hguard.1 hguard.2 hstep
  have hfirst : Machine.Guarded step (fun c e => FactoryFirst c e ∧ e.Brings configs) {} events ↔
      Machine.Guarded step FactoryFirst {} events := Machine.guarded_and_iff hbrings
  rw [← Machine.guarded_and_iff hbrings, ← hfirst]
  refine (Machine.guarded_congr hkeep (fun c e t hc _ => ?_) hinitial hrun).symm
  exact and_congr_left fun he => factoryFirst_iff hc he

def stunConfig : RtcIceConfig where
  mType := .rtcIceStun
  mHost := lit "host"
  mPort := 3478
  mHostname := []
  mUsername := []
  mPassword := []
  mProto := .rtcIceProtoUdp

/-- Two peers join, and both leave. -/
def joinAndLeave : List (ContainerEvent byeJson) :=
  [.createChannel (lit "peer") [stunConfig] {}, .createChannel (lit "other") [stunConfig] {},
    .delPeer (lit "peer"), .delPeer (lit "other")]

theorem joinAndLeave_brings : ∀ e ∈ joinAndLeave, e.Brings [stunConfig] := by
  intro e he
  simp only [joinAndLeave, List.mem_cons, List.not_mem_nil, or_false] at he
  obtain rfl | rfl | rfl | rfl := he
  all_goals trivial

theorem joinAndLeave_configured :
    Machine.Guarded RtcAgentContainer.step (GivenConfigured [stunConfig]) {} joinAndLeave :=
  (given_configured_iff [stunConfig] joinAndLeave joinAndLeave_brings).mpr (by decide)

/-- The peer that joins when all have left has its connections created with the
server twice. -/
theorem servers_doubled :
    (∃ c, Machine.run step {} joinAndLeave = some c ∧
      c.given (.createChannel (J := byeJson) (lit "peer") [stunConfig] {}) = List.replicate 2
        [stunConfig.iceConfigToIceServer, stunConfig.iceConfigToIceServer]) ∧
    ¬ ∀ (configs : List RtcIceConfig) (events : List (ContainerEvent byeJson)),
      (∀ e ∈ events, e.Brings configs) →
        Machine.Guarded RtcAgentContainer.step (GivenConfigured configs) {} events := by
  have hgiven : ∃ c, Machine.run step {} joinAndLeave = some c ∧
      c.given (.createChannel (J := byeJson) (lit "peer") [stunConfig] {}) = List.replicate 2
        [stunConfig.iceConfigToIceServer, stunConfig.iceConfigToIceServer] := ⟨_, rfl, rfl⟩
  refine ⟨hgiven, fun hall => ?_⟩
  obtain ⟨c, hrun, hservers⟩ := hgiven
  have hbrings : ∀ e ∈ joinAndLeave ++ [.createChannel (lit "peer") [stunConfig] {}],
      e.Brings [stunConfig] := List.forall_mem_append.mpr ⟨joinAndLeave_brings, List.forall_mem_singleton.mpr rfl⟩
  obtain ⟨-, hlast, -⟩ := (Machine.guarded_append hrun).mp (hall [stunConfig] _ hbrings)
  have hdouble : [stunConfig.iceConfigToIceServer, stunConfig.iceConfigToIceServer] ∈
      c.given (.createChannel (J := byeJson) (lit "peer") [stunConfig] {}) :=
    hservers ▸ List.mem_cons_self ..
  exact absurd (congrArg List.length (hlast _ hdouble)) (by decide)

end SmartSocks.Rtc
