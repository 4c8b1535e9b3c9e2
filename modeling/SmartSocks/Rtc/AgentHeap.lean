import SmartSocks.Rtc.RtcAgent

/-!
# The connections of an agent

What `initialize` makes of the connections that are alive. It leaves them held
by the agents that are stored already and by its own, or it throws; then the
connections of its own are held by nobody, if it has created any.
-/

namespace SmartSocks.Rtc

open Jvm OrgJson

def RtcAgent.Holds (agent : RtcAgent) (connection : Nat) : Prop :=
  agent.mLocalPeerConnection = some connection ∨ agent.mRemotePeerConnection = some connection

/-- Nothing throws any more once a connection is created. -/
def StoredOk {J : OrgJson} (w : Webrtc) (role : RtcRole) (sdpParam : Option J.JSONObject)
    (calls : AgentCalls) : Prop :=
  w.mPeerConnectionInited = true ∨ calls.initializeFactory = .ok () ∧ calls.createFactory = .ok () →
    ∀ createdLocal, calls.createLocal = .ok createdLocal →
      match calls.createRemote with
      | .error _ => createdLocal = false
      | .ok createdRemote => createdLocal = true ∨ createdRemote = true →
        DescribeOk createdLocal role sdpParam calls ∧ calls.onRtcAgentCreateChannel = .ok ()

-- ---------------------------------------------------------------------------
-- What an agent does with connections that it has
-- ---------------------------------------------------------------------------

/-- The connections are as before. -/
structure SameHeap (s t : AgentState) : Prop where
  mLocalPeerConnection : t.agent.mLocalPeerConnection = s.agent.mLocalPeerConnection
  mRemotePeerConnection : t.agent.mRemotePeerConnection = s.agent.mRemotePeerConnection
  webrtc : ∃ asked, t.webrtc = { s.webrtc with asked }

instance : IsPreorder AgentState SameHeap where
  refl s := ⟨rfl, rfl, s.webrtc.asked, rfl⟩
  trans _ _ _ h h' := by
    obtain ⟨asked, hasked⟩ := h.webrtc
    obtain ⟨asked', hasked'⟩ := h'.webrtc
    refine ⟨h'.mLocalPeerConnection.trans h.mLocalPeerConnection,
      h'.mRemotePeerConnection.trans h.mRemotePeerConnection, asked', ?_⟩
    rw [hasked', hasked]

theorem SameHeap.holds {s t : AgentState} (h : SameHeap s t) (connection : Nat) :
    t.agent.Holds connection ↔ s.agent.Holds connection := by
  rw [RtcAgent.Holds, RtcAgent.Holds, h.mLocalPeerConnection, h.mRemotePeerConnection]

namespace RtcAgent

variable {J : OrgJson}

theorem sameHeap_ask (call : NativeCall) : (ask call).Within SameHeap :=
  Prog.within_modify fun s => ⟨rfl, rfl, s.webrtc.asked ++ [call], rfl⟩

theorem sameHeap_createDataChannel (label : JString) (needAnswer needOffer : Bool) (calls : AgentCalls) :
    (createDataChannel label needAnswer needOffer calls).Within SameHeap :=
  within_createDataChannel sameHeap_ask
    (fun _ => Prog.within_modify fun s => ⟨rfl, rfl, s.webrtc.asked, rfl⟩) label needAnswer needOffer calls

theorem sameHeap_setDescription (json : J.JSONObject) (label : JString) (calls : AgentCalls) :
    (setDescription json label calls).Within SameHeap := by
  refine (Prog.within_lift _).bind fun typeStr => (Prog.within_lift _).bind fun sdpType => ?_
  refine .ite ((Prog.within_lift _).bind fun sdpStr => ?_) (Prog.within_pure ())
  exact (within_call sameHeap_ask _ _).bind fun _ => sameHeap_createDataChannel _ _ _ _

theorem sameHeap_processMessage (json : J.JSONObject) (peerId : JString) (calls : AgentCalls) :
    (processMessage json peerId calls).Within SameHeap :=
  .ite (sameHeap_setDescription _ _ _) (within_processIceCandidate sameHeap_ask json calls)

end RtcAgent

-- ---------------------------------------------------------------------------
-- The invariant
-- ---------------------------------------------------------------------------

/-- The factory that is there is live, all connections that are held belong to
it, and all that are alive are held. -/
structure HeapOk (w : Webrtc) (held : Nat → Prop) : Prop where
  alive : ∀ connection, w.connections.Live connection → held connection
  created : ∀ connection, held connection → connection < w.connections.created
  current : ∀ connection, held connection →
    w.mPeerConnectionInited = true ∧ w.mPeerConnectionFactory = some (w.factoryOf connection)
  ready : w.mPeerConnectionInited = true →
    ∃ factory, w.mPeerConnectionFactory = some factory ∧ w.factories.Live factory

section
variable {w : Webrtc} {held held' : Nat → Prop} {s : AgentState}

theorem HeapOk.congr (h : HeapOk w held) (hheld : ∀ connection, held connection ↔ held' connection) :
    HeapOk w held' :=
  ⟨fun connection hlive => (hheld connection).mp (h.alive connection hlive),
    fun connection hconnection => h.created connection ((hheld connection).mpr hconnection),
    fun connection hconnection => h.current connection ((hheld connection).mpr hconnection), h.ready⟩

theorem HeapOk.asked (h : HeapOk w held) (asked : List NativeCall) : HeapOk { w with asked } held :=
  ⟨h.alive, h.created, h.current, h.ready⟩

theorem HeapOk.given (h : HeapOk w held) (given : List (List IceServer)) : HeapOk { w with given } held :=
  ⟨h.alive, h.created, h.current, h.ready⟩

theorem HeapOk.factoryLive (h : HeapOk w held) {connection : Nat} (hconnection : held connection) :
    w.factories.Live (w.factoryOf connection) := by
  obtain ⟨hinited, hcurrent⟩ := h.current connection hconnection
  obtain ⟨factory, hfactory, hlive⟩ := h.ready hinited
  cases hcurrent.symm.trans hfactory
  exact hlive

end

-- ---------------------------------------------------------------------------
-- Creating the connections
-- ---------------------------------------------------------------------------

namespace RtcAgent

section
variable {held : Nat → Prop} {s : AgentState} {calls : AgentCalls}

/-- A factory that is created while there is none holds no connection. -/
theorem heapOk_newFactory {mIceServers : List IceServer} (h : HeapOk s.webrtc held)
    (hinited : s.webrtc.mPeerConnectionInited = false) :
    HeapOk { s.webrtc with
      mIceServers
      mPeerConnectionFactory := some s.webrtc.factories.created
      factories := s.webrtc.factories.create
      mPeerConnectionInited := true } held := by
  have hnone : ∀ connection, ¬ held connection := fun connection hconnection => by
    rw [(h.current connection hconnection).1] at hinited
    cases hinited
  refine ⟨h.alive, h.created, fun connection hconnection => absurd hconnection (hnone connection), ?_⟩
  exact fun _ => ⟨_, rfl, Pool.live_create.mpr (.inl rfl)⟩

theorem heapOk_newConnection {factory : Nat} (h : HeapOk s.webrtc held)
    (hinited : s.webrtc.mPeerConnectionInited = true)
    (hfactory : s.webrtc.mPeerConnectionFactory = some factory) :
    HeapOk { s.webrtc with
        connections := s.webrtc.connections.create
        factoryOf := Function.update s.webrtc.factoryOf s.webrtc.connections.created factory }
      fun connection => held connection ∨ connection = s.webrtc.connections.created where
  alive connection hlive := (Pool.live_create.mp hlive).elim .inr fun h' => .inl (h.alive connection h')
  created := by
    rintro connection (hconnection | rfl)
    · exact Nat.lt_succ_of_lt (h.created connection hconnection)
    · exact Nat.lt_succ_self _
  current := by
    rintro connection (hconnection | rfl)
    · have hne := Nat.ne_of_lt (h.created connection hconnection)
      refine ⟨hinited, ?_⟩
      simpa only [Function.update_of_ne hne] using (h.current connection hconnection).2
    · exact ⟨hinited, by simp only [Function.update_self, hfactory]⟩
  ready := h.ready

/-- What `newConnection` can do while there is a factory. -/
inductive NewConnection (s : AgentState) (held : Nat → Prop) (call : Except Throwable Bool) :
    Except Throwable (Option Nat) → AgentState → Prop
  | failed (e : Throwable) (hcall : call = .error e) (given : List (List IceServer)) :
      NewConnection s held call (.error e) { s with webrtc := { s.webrtc with given } }
  | null (hcall : call = .ok false) (given : List (List IceServer)) :
      NewConnection s held call (.ok none) { s with webrtc := { s.webrtc with given } }
  | created (hcall : call = .ok true) {w : Webrtc}
      (heap : HeapOk w fun connection => held connection ∨ connection = s.webrtc.connections.created)
      (hinited : w.mPeerConnectionInited = true)
      (hkept : ∀ connection, s.webrtc.connections.Live connection → w.connections.Live connection)
      (hnew : w.connections.Live s.webrtc.connections.created ∧ ¬ held s.webrtc.connections.created) :
      NewConnection s held call (.ok (some s.webrtc.connections.created)) { s with webrtc := w }

theorem exec_newConnection (call : Except Throwable Bool) (h : HeapOk s.webrtc held)
    (hinited : s.webrtc.mPeerConnectionInited = true) :
    NewConnection s held call ((newConnection call).exec s).1 ((newConnection call).exec s).2 := by
  obtain ⟨factory, hfactory, -⟩ := h.ready hinited
  rcases hcall : call with e | created
  · simp only [newConnection, Prog.exec_bind, Prog.exec_get, hfactory, Prog.exec_set, Prog.exec_lift]
    have hfailed : NewConnection s held (.error e) (.error e) { s with webrtc := { s.webrtc with
        given := s.webrtc.given ++ [s.webrtc.mIceServers] } } := .failed e rfl _
    simpa only [hfactory] using hfailed
  · cases created with
    | false =>
      simp only [newConnection, Prog.exec_bind, Prog.exec_get, hfactory, Prog.exec_set, Prog.exec_lift,
        Bool.false_eq_true, if_false, Prog.exec_pure]
      have hnull : NewConnection s held (.ok false) (.ok none) { s with webrtc := { s.webrtc with
          given := s.webrtc.given ++ [s.webrtc.mIceServers] } } := .null rfl _
      simpa only [hfactory] using hnull
    | true =>
      simp only [newConnection, Prog.exec_bind, Prog.exec_get, hfactory, Prog.exec_lift, if_true,
        Prog.exec_set, Prog.exec_pure]
      have heap := (heapOk_newConnection h hinited hfactory).given (s.webrtc.given ++ [s.webrtc.mIceServers])
      simp only [hfactory] at heap
      refine .created rfl heap hinited (fun _ h => Pool.live_create.mpr (.inr h)) ⟨?_, fun hheld => ?_⟩
      · exact Pool.live_create.mpr (.inl rfl)
      · exact Nat.lt_irrefl _ (h.created _ hheld)

/-- The second half of `createPeerConnection`. -/
def createRemote (calls : AgentCalls) : AgentProg Unit := do
  let connection ← newConnection calls.createRemote
  modify fun s => { s with agent := { s.agent with mRemotePeerConnection := connection } }

theorem createPeerConnection_eq (calls : AgentCalls) :
    createPeerConnection calls = (do
      let connection ← newConnection calls.createLocal
      modify fun s => { s with agent := { s.agent with mLocalPeerConnection := connection } }
      createRemote calls) := rfl

/-- What `createPeerConnection` can do. Only if the remote connection fails behind
the local one there is a connection that nobody holds. -/
inductive Created (held : Nat → Prop) (calls : AgentCalls) :
    Except Throwable Unit → AgentState → Prop
  | early {t : AgentState} (e : Throwable)
      (hthrows : calls.createLocal = .error e ∨
        calls.createLocal = .ok false ∧ calls.createRemote = .error e)
      (hinited : t.webrtc.mPeerConnectionInited = true) (heap : HeapOk t.webrtc held) :
      Created held calls (.error e) t
  | half {t : AgentState} (e : Throwable) (hlocal : calls.createLocal = .ok true)
      (hremote : calls.createRemote = .error e)
      (hleft : ∃ connection, t.webrtc.connections.Live connection ∧ ¬ held connection) :
      Created held calls (.error e) t
  | both {t : AgentState} (hlocal : calls.createLocal = .ok t.agent.mLocalPeerConnection.isSome)
      (hremote : calls.createRemote = .ok t.agent.mRemotePeerConnection.isSome)
      (hinited : t.webrtc.mPeerConnectionInited = true)
      (heap : HeapOk t.webrtc fun connection => held connection ∨ t.agent.Holds connection)
      (hnew : ∀ connection, t.agent.Holds connection →
        t.webrtc.connections.Live connection ∧ ¬ held connection) :
      Created held calls (.ok ()) t

/-- The remote connection is created behind the local one. -/
theorem created_remote
    (heap : HeapOk s.webrtc fun connection =>
      held connection ∨ s.agent.mLocalPeerConnection = some connection)
    (hinited : s.webrtc.mPeerConnectionInited = true)
    (hlocal : calls.createLocal = .ok s.agent.mLocalPeerConnection.isSome)
    (hnew : ∀ connection, s.agent.mLocalPeerConnection = some connection →
      s.webrtc.connections.Live connection ∧ ¬ held connection) :
    Created held calls ((createRemote calls).exec s).1 ((createRemote calls).exec s).2 := by
  have hremote := exec_newConnection calls.createRemote heap hinited
  rw [createRemote, Prog.exec_bind]
  generalize (newConnection calls.createRemote).exec s = result at hremote ⊢
  obtain ⟨r, t⟩ := result
  dsimp only at hremote
  cases hremote with
  | failed e hcall given =>
    cases hconnection : s.agent.mLocalPeerConnection with
    | none =>
      rw [hconnection] at hlocal
      refine .early e (.inr ⟨hlocal, hcall⟩) hinited ((heap.given given).congr fun connection => ?_)
      simp [hconnection]
    | some connection =>
      rw [hconnection] at hlocal
      exact .half e hlocal hcall ⟨connection, hnew connection hconnection⟩
  | null hcall given =>
    refine .both hlocal hcall hinited ((heap.given given).congr fun connection => ?_) ?_
    · simp [Holds]
    · rintro connection (hconnection | ⟨⟨⟩⟩)
      exact hnew connection hconnection
  | created hcall heap' hinited' hkept hfresh =>
    refine .both hlocal hcall hinited' (heap'.congr fun connection => ?_) ?_
    · simp [Holds, or_assoc, eq_comm]
    · rintro connection (hconnection | ⟨⟨⟩⟩)
      · obtain ⟨hlive, hnot⟩ := hnew connection hconnection
        exact ⟨hkept connection hlive, hnot⟩
      · exact ⟨hfresh.1, fun hheld => hfresh.2 (.inl hheld)⟩

theorem exec_createPeerConnection (calls : AgentCalls) (h : HeapOk s.webrtc held)
    (hinited : s.webrtc.mPeerConnectionInited = true) :
    Created held calls ((createPeerConnection calls).exec s).1 ((createPeerConnection calls).exec s).2 := by
  have hlocal := exec_newConnection calls.createLocal h hinited
  rw [createPeerConnection_eq, Prog.exec_bind]
  generalize (newConnection calls.createLocal).exec s = result at hlocal ⊢
  obtain ⟨r, t⟩ := result
  dsimp only at hlocal
  cases hlocal with
  | failed e hcall given => exact .early e (.inl hcall) hinited (h.given given)
  | null hcall given =>
    simp only [Prog.exec_bind, Prog.exec_modify]
    refine created_remote ((h.given given).congr fun connection => ?_) hinited hcall ?_
    · simp
    · rintro connection ⟨⟩
  | created hcall heap hinited' hkept hnew =>
    simp only [Prog.exec_bind, Prog.exec_modify]
    refine created_remote (heap.congr fun connection => ?_) hinited' hcall ?_
    · simp [eq_comm]
    · rintro connection ⟨⟩
      exact hnew

-- ---------------------------------------------------------------------------
-- Initializing an agent
-- ---------------------------------------------------------------------------

variable {J : OrgJson} {label : JString} {role : RtcRole} {sdpParam : Option J.JSONObject}
  {mIceConfigs : List RtcIceConfig}

theorem sameHeap_describe : (describe label role sdpParam calls).Within SameHeap := by
  cases role with
  | rtcInitiator => exact sameHeap_createDataChannel _ _ _ _
  | rtcAcceptor =>
    cases sdpParam with
    | none => exact Prog.within_pure ()
    | some json => exact .ite (sameHeap_setDescription _ _ _) (Prog.within_pure ())

/-- What the first step can do. -/
inductive Prepared (w : Webrtc) (held : Nat → Prop) (calls : AgentCalls) :
    Except Throwable Unit → AgentState → Prop
  | failed {t : AgentState} (e : Throwable)
      (hfails : ¬ (w.mPeerConnectionInited = true ∨
        calls.initializeFactory = .ok () ∧ calls.createFactory = .ok ()))
      (heap : HeapOk t.webrtc held) : Prepared w held calls (.error e) t
  | ready {t : AgentState}
      (hready : w.mPeerConnectionInited = true ∨
        calls.initializeFactory = .ok () ∧ calls.createFactory = .ok ())
      (heap : HeapOk t.webrtc held) (hinited : t.webrtc.mPeerConnectionInited = true) :
      Prepared w held calls (.ok ()) t

theorem exec_prepare (mIceConfigs : List RtcIceConfig) (calls : AgentCalls)
    (h : HeapOk s.webrtc held) :
    Prepared s.webrtc held calls ((prepare mIceConfigs calls).exec s).1
      ((prepare mIceConfigs calls).exec s).2 := by
  cases hinited : s.webrtc.mPeerConnectionInited with
  | true =>
    simp only [prepare, Prog.exec_bind, Prog.exec_get, hinited, Bool.not_true, Bool.false_eq_true,
      if_false, Prog.exec_pure]
    exact .ready (.inl hinited) h hinited
  | false =>
    have hprepare : (prepare mIceConfigs calls).exec s = (initFactory mIceConfigs calls).exec s := by
      simp [prepare, Prog.exec_bind, hinited]
    rw [hprepare]
    cases hfirst : calls.initializeFactory with
    | error e =>
      simp only [initFactory, Prog.exec_bind, Prog.exec_modify, hfirst, Prog.exec_lift]
      exact .failed e (by simp [hinited, hfirst]) ⟨h.alive, h.created, h.current, h.ready⟩
    | ok =>
      cases hsecond : calls.createFactory with
      | error e =>
        simp only [initFactory, Prog.exec_bind, Prog.exec_modify, hfirst, hsecond, Prog.exec_lift]
        exact .failed e (by simp [hinited, hsecond]) ⟨h.alive, h.created, h.current, h.ready⟩
      | ok =>
        simp only [initFactory, Prog.exec_bind, Prog.exec_modify, hfirst, hsecond, Prog.exec_lift]
        exact .ready (.inr ⟨hfirst, hsecond⟩) (heapOk_newFactory h hinited) rfl

/-- What `initialize` can do. -/
inductive Initialized (w : Webrtc) (held : Nat → Prop) (role : RtcRole) (sdpParam : Option J.JSONObject)
    (calls : AgentCalls) : Except Throwable Unit → AgentState → Prop
  | failed {t : AgentState} (e : Throwable) (hstored : StoredOk w role sdpParam calls)
      (hinited : w.mPeerConnectionInited = true → t.webrtc.mPeerConnectionInited = true)
      (heap : HeapOk t.webrtc held) : Initialized w held role sdpParam calls (.error e) t
  | left {t : AgentState} (e : Throwable) (hstored : ¬ StoredOk w role sdpParam calls)
      (hleft : ∃ connection, t.webrtc.connections.Live connection ∧ ¬ held connection) :
      Initialized w held role sdpParam calls (.error e) t
  | done {t : AgentState}
      (hstored : StoredOk w role sdpParam calls ↔
        ((∃ connection, t.agent.Holds connection) → calls.onRtcAgentCreateChannel = .ok ()))
      (hinited : t.webrtc.mPeerConnectionInited = true)
      (heap : HeapOk t.webrtc fun connection => held connection ∨ t.agent.Holds connection)
      (hnew : ∀ connection, t.agent.Holds connection →
        t.webrtc.connections.Live connection ∧ ¬ held connection) :
      Initialized w held role sdpParam calls (.ok ()) t

theorem holds_iff {agent : RtcAgent} : (∃ connection, agent.Holds connection) ↔
    agent.mLocalPeerConnection.isSome = true ∨ agent.mRemotePeerConnection.isSome = true := by
  simp only [Holds, Option.isSome_iff_exists, exists_or]

/-- The condition, when both connections have been tried. -/
theorem storedOk_of_both {w : Webrtc} {agent : RtcAgent}
    (hready : w.mPeerConnectionInited = true ∨
      calls.initializeFactory = .ok () ∧ calls.createFactory = .ok ())
    (hlocal : calls.createLocal = .ok agent.mLocalPeerConnection.isSome)
    (hremote : calls.createRemote = .ok agent.mRemotePeerConnection.isSome) :
    StoredOk w role sdpParam calls ↔ ((∃ connection, agent.Holds connection) →
      DescribeOk agent.mLocalPeerConnection.isSome role sdpParam calls ∧
        calls.onRtcAgentCreateChannel = .ok ()) := by
  simp only [StoredOk, hready, hlocal, hremote, Except.ok.injEq, forall_eq', forall_const, holds_iff]

theorem exec_initializeAgent (label : JString) (role : RtcRole) (sdpParam : Option J.JSONObject)
    (mIceConfigs : List RtcIceConfig) (calls : AgentCalls) (h : HeapOk s.webrtc held) :
    Initialized s.webrtc held role sdpParam calls
      ((initializeAgent label role sdpParam mIceConfigs calls).exec s).1
      ((initializeAgent label role sdpParam mIceConfigs calls).exec s).2 := by
  have hprepare := exec_prepare mIceConfigs calls h
  rw [initializeAgent_eq, Prog.exec_bind]
  generalize (prepare mIceConfigs calls).exec s = result at hprepare ⊢
  obtain ⟨r, t⟩ := result
  dsimp only at hprepare
  cases hprepare with
  | failed e hfails heap =>
    exact .failed e (fun hready => absurd hready hfails) (fun h => absurd (.inl h) hfails) heap
  | ready hready heap hinited =>
    have hcreate := exec_createPeerConnection calls heap hinited
    simp only [Prog.exec_bind]
    generalize (createPeerConnection calls).exec t = result at hcreate ⊢
    obtain ⟨r, u⟩ := result
    dsimp only at hcreate
    cases hcreate with
    | early e hthrows hinited heap =>
      refine .failed e (fun _ createdLocal hcreated => ?_) (fun _ => hinited) heap
      rcases hthrows with hthrows | ⟨hlocal, hremote⟩
      · cases hthrows.symm.trans hcreated
      · cases hlocal.symm.trans hcreated
        rw [hremote]
    | half e hlocal hremote hleft =>
      refine .left e (fun hstored => ?_) hleft
      have hfalse := hstored hready true hlocal
      rw [hremote] at hfalse
      cases hfalse
    | both hlocal hremote hinited heap hnew =>
      have hsame : SameHeap u ((describe label role sdpParam calls).exec u).2 := sameHeap_describe u
      have hreturns : (describe label role sdpParam calls).Returns u ↔
          DescribeOk u.agent.mLocalPeerConnection.isSome role sdpParam calls := returns_describe
      have hstored : StoredOk s.webrtc role sdpParam calls ↔ _ := storedOk_of_both hready hlocal hremote
      unfold Prog.Returns at hreturns
      dsimp only
      generalize (describe label role sdpParam calls).exec u = result at hsame hreturns ⊢
      obtain ⟨r, v⟩ := result
      dsimp only at hsame hreturns ⊢
      obtain ⟨asked, hasked⟩ := hsame.webrtc
      have hinited' : v.webrtc.mPeerConnectionInited = true := by
        rw [hasked]
        exact hinited
      have heap' : HeapOk v.webrtc fun connection => held connection ∨ v.agent.Holds connection := by
        rw [hasked]
        exact (heap.asked asked).congr fun connection => or_congr_right (hsame.holds connection).symm
      have hnew' : ∀ connection, v.agent.Holds connection →
          v.webrtc.connections.Live connection ∧ ¬ held connection := by
        rw [hasked]
        exact fun connection hholds => hnew connection ((hsame.holds connection).mp hholds)
      have hholds : (∃ connection, v.agent.Holds connection) ↔ ∃ connection, u.agent.Holds connection :=
        exists_congr hsame.holds
      cases r with
      | ok =>
        have hdescribe := hreturns.mp ⟨(), rfl⟩
        refine .done (hstored.trans ?_) hinited' heap' hnew'
        rw [hholds]
        exact forall_congr' fun _ => and_iff_right hdescribe
      | error e =>
        have hdescribe := mt hreturns.mpr (fun ⟨_, hok⟩ => nomatch hok)
        by_cases hany : ∃ connection, v.agent.Holds connection
        · refine .left e (fun h => hdescribe (hstored.mp h (hholds.mp hany)).1) ?_
          obtain ⟨connection, hconnection⟩ := hany
          exact ⟨connection, hnew' connection hconnection⟩
        · refine .failed e (hstored.mpr fun h => absurd (hholds.mpr h) hany) (fun _ => hinited')
            (heap'.congr fun connection => ?_)
          exact or_iff_left fun hconnection => hany ⟨connection, hconnection⟩

end

end RtcAgent

end SmartSocks.Rtc
