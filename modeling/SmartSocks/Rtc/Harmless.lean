import SmartSocks.Jvm.JsonText
import SmartSocks.Rtc.RtcEngine

/-!
# Messages that do no harm

A text message does no harm if it is processed without an exception and, unless
it is one of the messages of the protocol, leaves the peers, the agents and the
state of the signalling as they were. The getters behind the envelope throw, and
a message from an unknown peer creates an agent whatever it says.
-/

namespace SmartSocks.Rtc

open Jvm OrgJson

-- ---------------------------------------------------------------------------
-- What a message does to an agent that it finds
-- ---------------------------------------------------------------------------

namespace RtcAgent

section
variable {J : OrgJson} {s : AgentState} {json : J.JSONObject} {label peerId : JString}
  {calls : AgentCalls}

/-- The agent is as before. -/
structure SameAgent (s t : AgentState) : Prop where
  agent : t.agent = s.agent

instance : IsPreorder AgentState SameAgent where
  refl _ := ⟨rfl⟩
  trans _ _ _ h h' := ⟨h'.agent.trans h.agent⟩

theorem sameAgent_ask (call : NativeCall) : (ask call).Within SameAgent :=
  Prog.within_modify fun _ => ⟨rfl⟩

theorem exec_newChannel (s : AgentState) (label : JString) (calls : AgentCalls) :
    ((newChannel label calls).exec s).1 =
        created s.agent.mLocalPeerConnection.isSome calls.createDataChannel ∧
      ((newChannel label calls).exec s).2.agent = s.agent := by
  cases hlocal : s.agent.mLocalPeerConnection with
  | none => simp [newChannel, Prog.exec_bind, hlocal, created]
  | some connection => simp [newChannel, ask, Prog.exec_bind, hlocal, created]

/-- The channel that is created is stored, unless that throws. -/
theorem exec_createDataChannel_agent (s : AgentState) (label : JString) (needAnswer needOffer : Bool)
    (calls : AgentCalls) :
    ((createDataChannel label needAnswer needOffer calls).exec s).2.agent =
      match created s.agent.mLocalPeerConnection.isSome calls.createDataChannel with
      | .error _ => s.agent
      | .ok channel => { s.agent with mSendDataChannel := channel } := by
  obtain ⟨hcreated, hagent⟩ := exec_newChannel s label calls
  rw [createDataChannel, Prog.exec_bind, ← hcreated]
  generalize (newChannel label calls).exec s = result at hagent ⊢
  obtain ⟨r, t⟩ := result
  dsimp only at hagent ⊢
  rw [← hagent]
  cases r with
  | error e => rfl
  | ok channel => exact (within_useChannel sameAgent_ask channel needAnswer needOffer calls _).agent

theorem agent_createDataChannel {needAnswer needOffer : Bool}
    (h : (createDataChannel label needAnswer needOffer calls).Returns s) :
    ∃ channel, created s.agent.mLocalPeerConnection.isSome calls.createDataChannel = .ok channel ∧
      ((createDataChannel label needAnswer needOffer calls).exec s).2.agent =
        { s.agent with mSendDataChannel := channel } := by
  obtain ⟨channel, hchannel, -⟩ := Prog.returns_bind.mp h
  have hcreated := (exec_newChannel s label calls).1.symm.trans hchannel
  refine ⟨channel, hcreated, ?_⟩
  rw [exec_createDataChannel_agent, hcreated]

/-- Only a description with an `sdp` changes the agent, and only its channel. -/
theorem agent_processMessage (h : (processMessage json peerId calls).Returns s) :
    (has json "type" = true ∧ has json "sdp" = true →
      ∃ channel, created s.agent.mLocalPeerConnection.isSome calls.createDataChannel = .ok channel ∧
        ((processMessage json peerId calls).exec s).2.agent = { s.agent with mSendDataChannel := channel }) ∧
    (¬ (has json "type" = true ∧ has json "sdp" = true) →
      ((processMessage json peerId calls).exec s).2.agent = s.agent) := by
  cases htype : has json "type" with
  | false =>
    simp only [processMessage, htype, Bool.false_eq_true, if_false, false_and, not_false_eq_true,
      IsEmpty.forall_iff, forall_const, true_and]
    exact ((within_processIceCandidate sameAgent_ask json calls) s).agent
  | true =>
    simp only [processMessage, htype, if_true, true_and, processSessionDescription, setDescription,
      Prog.returns_lift_bind] at h ⊢
    obtain ⟨typeStr, htypeStr, sdpType, hsdpType, h⟩ := h
    simp only [Prog.exec_bind, htypeStr, hsdpType, Prog.exec_lift]
    cases hsdp : has json "sdp" with
    | false =>
      simp
    | true =>
      simp only [hsdp, if_true, Prog.returns_lift_bind] at h
      obtain ⟨sdpStr, hsdpStr, h⟩ := h
      simp only [if_true, Prog.exec_bind, hsdpStr, Prog.exec_lift, forall_const, not_true_eq_false,
        IsEmpty.forall_iff, and_true]
      obtain ⟨⟨⟩, hset, h⟩ := Prog.returns_bind.mp h
      have hagent := (within_call sameAgent_ask (fun connection =>
        .setRemoteDescription connection sdpType sdpStr) calls.setRemoteDescription s).agent
      generalize (onLocal fun connection => do
        ask (.setRemoteDescription connection sdpType sdpStr)
        Prog.lift calls.setRemoteDescription).exec s = result at hset hagent h ⊢
      obtain ⟨r, t⟩ := result
      dsimp only at hset hagent h
      subst hset
      rw [← hagent]
      exact agent_createDataChannel h

end

end RtcAgent

-- ---------------------------------------------------------------------------
-- The messages of the protocol
-- ---------------------------------------------------------------------------

section
variable {J : OrgJson}

/-- A session description as a peer sends it. -/
def IsDescription (json : J.JSONObject) : Prop :=
  ∃ typeStr sdp, getString json "type" = .ok typeStr ∧
    typeStr ∈ [lit "offer", lit "pranswer", lit "answer"] ∧ getString json "sdp" = .ok sdp

/-- An ICE candidate as a peer sends it. -/
def IsCandidate (json : J.JSONObject) : Prop :=
  has json "type" = false ∧ (∃ sdpMid, getString json "sdpMid" = .ok sdpMid) ∧
    (∃ sdpMLineIndex, getInt json "sdpMLineIndex" = .ok sdpMLineIndex) ∧
    ∃ candidate, getString json "candidate" = .ok candidate

/-- A message that a peer has sent, by a command that there is. -/
structure Relayed (m : J.JSONObject) : Prop where
  cmd : has m "cmd" = false ∨ getString m "cmd" = .ok (lit "send")
  sourceid : ∃ id, getString m "sourceid" = .ok id
  targetid : has m "targetid" = true → ∃ id, getString m "targetid" = .ok id
  msg : ∃ text json, getString m "msg" = .ok text ∧ J.ofText text = .ok json ∧
    (IsDescription json ∨ IsCandidate json)

inductive Known (m : J.JSONObject) : Prop
  | peerList {text : JString} {peers : List JString} (hcmd : getString m "cmd" = .ok (lit "peer_list"))
      (htext : getString m "peers" = .ok text) (hpeers : text.ArrayText peers)
  | update {id : JString}
      (hcmd : getString m "cmd" = .ok (lit "add_peer") ∨ getString m "cmd" = .ok (lit "del_peer"))
      (hid : getString m "id" = .ok id)
  | relayed (h : Relayed m)

/-- The text is well formed, and its type is known. -/
def Recognised (J : OrgJson) (payload : JString) : Prop :=
  ∃ m, RtcEngine.getSignallingMessage J payload.trim = .ok (some m) ∧ Known m

end

namespace RtcEngine

structure Unchanged (s t : RtcEngine) : Prop where
  mPeerMap : t.mPeerMap = s.mPeerMap
  mRtcAgentMap : t.agents.mRtcAgentMap = s.agents.mRtcAgentMap
  mSignallingState : t.signalling.mSignallingState = s.signalling.mSignallingState

/-- The message is processed without an exception, and changes nothing unless it
is one of the protocol. -/
structure Harmless (J : OrgJson) (payload : JString) (calls : AgentCalls) (s : RtcEngine) : Prop where
  returns : (onTextMessage J payload calls).Returns s
  unchanged : ¬ Recognised J payload → Unchanged s ((onTextMessage J payload calls).exec s).2

end RtcEngine

-- ---------------------------------------------------------------------------
-- The condition
-- ---------------------------------------------------------------------------

section
variable {J : OrgJson}

/-- The message can be given to an agent that is there. Only a message of the
protocol may change its channel. -/
def KnownAgentOk (agent : RtcAgent) (m json : J.JSONObject) (calls : AgentCalls) : Prop :=
  (if has json "type" then DescriptionOk agent.mLocalPeerConnection.isSome json calls
    else CandidateOk agent.mLocalPeerConnection.isSome json calls) ∧
  (has json "type" = true ∧ has json "sdp" = true → Relayed m ∨
    RtcAgent.created agent.mLocalPeerConnection.isSome calls.createDataChannel =
      .ok agent.mSendDataChannel)

/-- A new agent is created by a message of the protocol only. -/
def NewAgentOk (w : Webrtc) (m : J.JSONObject) (sdpParam : Option J.JSONObject) (calls : AgentCalls) :
    Prop :=
  Relayed m ∧ RtcAgent.InitializeOk w .rtcAcceptor sdpParam calls ∧
    calls.onRtcAgentCreateChannel = .ok ()

/-- The fields that the agents are asked for are there. -/
def MiscOk (c : RtcAgentContainer) (me : Option JString) (m : J.JSONObject) (calls : AgentCalls) : Prop :=
  ∃ elsewhere, RtcAgentContainer.addressedElsewhere me m = .ok elsewhere ∧ (elsewhere = false →
    ∃ sdpParam, RtcAgentContainer.rtcMessage m = .ok sdpParam ∧ (has m "sourceid" = true →
      ∃ id, getString m "sourceid" = .ok id ∧
        match c.mRtcAgentMap.lookup id with
        | none => NewAgentOk c.webrtc m sdpParam calls
        | some agent => ∀ json, sdpParam = some json → KnownAgentOk agent m json calls))

end

namespace RtcEngine

/-- The list names nobody else, or all that are known and no others. -/
def NoNews (s : RtcEngine) (peerList : List RtcPeer) : Prop :=
  peerList = [] ∨ ∀ id, s.mPeerMap.lookup id = if ⟨id⟩ ∈ peerList then some ⟨id⟩ else none

/-- The text has brackets to be taken away. If it is no list, there must be no
news in it. -/
def PeersOk (s : RtcEngine) (text : JString) : Prop :=
  2 ≤ text.length ∧ ((∃ peers, text.ArrayText peers) ∨ s.NoNews (peersOf s.me text.inner))

/-- The message has the fields that its command is carried out with. -/
def MessageOk (J : OrgJson) (payload : JString) (calls : AgentCalls) (s : RtcEngine) : Prop :=
  ∀ m, getSignallingMessage J payload.trim = .ok (some m) →
    if has m "cmd" then
      ∃ cmd, getString m "cmd" = .ok cmd ∧
        if cmd = lit "peer_list" then ∃ text, getString m "peers" = .ok text ∧ s.PeersOk text
        else if cmd = lit "add_peer" ∨ cmd = lit "del_peer" then ∃ id, getString m "id" = .ok id
        else MiscOk s.agents s.me m calls
    else MiscOk s.agents s.me m calls

end RtcEngine

namespace RtcAgentContainer

section
variable {J : OrgJson} {c : RtcAgentContainer} {id : JString} {role : RtcRole} {me : Option JString}
  {m : J.JSONObject} {sdpParam : Option J.JSONObject} {mIceConfigs : List RtcIceConfig}
  {calls : AgentCalls}

theorem returns_addAgent : (addAgent id role sdpParam mIceConfigs calls).Returns c ↔
    RtcAgent.InitializeOk c.webrtc role sdpParam calls ∧ calls.onRtcAgentCreateChannel = .ok () := by
  have hinitialize := RtcAgent.returns_initializeAgent ⟨{ mRemotePeerId := id }, c.webrtc⟩ id role
    sdpParam mIceConfigs calls
  rw [← hinitialize]
  simp only [addAgent, Prog.Returns, Prog.exec_bind, Prog.exec_on, Prog.exec_get, Prog.exec_pure]
  generalize (RtcAgent.initializeAgent id role sdpParam mIceConfigs calls).exec
    ⟨{ mRemotePeerId := id }, c.webrtc⟩ = result
  obtain ⟨r, t⟩ := result
  cases r with
  | error e => simp
  | ok => cases calls.onRtcAgentCreateChannel <;> simp

/-- A new agent is in the map. -/
theorem mem_addAgent (h : (addAgent id role sdpParam mIceConfigs calls).Returns c) :
    id ∈ ((addAgent id role sdpParam mIceConfigs calls).exec c).2.mRtcAgentMap := by
  simp only [addAgent, Prog.Returns, Prog.exec_bind, Prog.exec_on, Prog.exec_get, Prog.exec_pure] at h ⊢
  generalize (RtcAgent.initializeAgent id role sdpParam mIceConfigs calls).exec
    ⟨{ mRemotePeerId := id }, c.webrtc⟩ = result at h ⊢
  obtain ⟨r, t⟩ := result
  cases r with
  | error e => simp at h
  | ok =>
    cases hcall : calls.onRtcAgentCreateChannel with
    | error e => simp [hcall] at h
    | ok => exact Finmap.mem_insert.mpr (.inl rfl)

/-- An agent that is there takes a message. -/
theorem onAgent_harmless {agent : RtcAgent} {json : J.JSONObject}
    (hlookup : c.mRtcAgentMap.lookup id = some agent) :
    ((onAgent id agent (RtcAgent.processMessage json id calls)).Returns c ∧
      (¬ Relayed m → ((onAgent id agent (RtcAgent.processMessage json id calls)).exec c).2.mRtcAgentMap =
        c.mRtcAgentMap)) ↔ KnownAgentOk agent m json calls := by
  have hreturns : (RtcAgent.processMessage json id calls).Returns ⟨agent, c.webrtc⟩ ↔ _ :=
    RtcAgent.returns_processMessage
  have hmap (agent' : RtcAgent) : c.mRtcAgentMap.insert id agent' = c.mRtcAgentMap ↔ agent' = agent := by
    constructor
    · intro h
      have hlookup' := congrArg (Finmap.lookup id) h
      rw [Finmap.lookup_insert, hlookup] at hlookup'
      exact Option.some.inj hlookup'
    · rintro rfl
      refine Finmap.ext_lookup fun other => ?_
      by_cases heq : other = id
      · rw [heq, Finmap.lookup_insert, hlookup]
      · exact Finmap.lookup_insert_of_ne _ heq
  unfold KnownAgentOk
  rw [← hreturns]
  simp only [onAgent, Prog.exec_on, hmap]
  refine and_congr_right fun h => ?_
  obtain ⟨hchannel, hsame⟩ := RtcAgent.agent_processMessage h
  by_cases hsdp : has json "type" = true ∧ has json "sdp" = true
  · obtain ⟨channel, hcreated, hagent⟩ := hchannel hsdp
    simp only [hagent, hsdp, hcreated, Except.ok.injEq, and_self, forall_const]
    rw [← or_iff_not_imp_left]
    refine or_congr_right ⟨fun h => ?_, fun h => ?_⟩
    · rw [← h]
    · rw [h]
  · rw [hsame hsdp]
    exact iff_of_true (fun _ => rfl) fun h => absurd h hsdp

theorem processMessage_harmless (mIceConfigs : List RtcIceConfig) :
    ((processMessage me m mIceConfigs calls).Returns c ∧
      (¬ Relayed m →
        ((processMessage me m mIceConfigs calls).exec c).2.mRtcAgentMap = c.mRtcAgentMap)) ↔
      MiscOk c me m calls := by
  unfold MiscOk processMessage
  simp only [Prog.Returns, Prog.exec_bind, Prog.exec_lift]
  rcases helsewhere : addressedElsewhere me m with e | elsewhere
  · simp
  cases elsewhere with
  | true => simp
  | false =>
    simp only [Bool.false_eq_true, if_false, Prog.exec_bind, Prog.exec_lift, Except.ok.injEq,
      exists_eq_left', forall_const]
    rcases hmessage : rtcMessage m with e | sdpParam
    · simp
    simp only [Except.ok.injEq, exists_eq_left']
    cases hsource : has m "sourceid" with
    | false => simp
    | true =>
      simp only [if_true, Prog.exec_bind, Prog.exec_lift, forall_const]
      rcases hid : getString m "sourceid" with e | id
      · simp
      simp only [Prog.exec_get, Except.ok.injEq, exists_eq_left']
      cases hlookup : c.mRtcAgentMap.lookup id with
      | none =>
        have hreturns : (addAgent id .rtcAcceptor sdpParam mIceConfigs calls).Returns c ↔ _ :=
          returns_addAgent
        unfold NewAgentOk
        rw [← hreturns, and_comm]
        refine and_congr_left fun h => ⟨fun hunchanged => ?_, fun hrelayed hnot => absurd hrelayed hnot⟩
        by_contra hnot
        refine Finmap.lookup_eq_none.mp hlookup ?_
        rw [← hunchanged hnot]
        exact mem_addAgent h
      | some agent =>
        cases sdpParam with
        | none => simp
        | some json =>
          simp only [Option.some.injEq, forall_eq']
          exact onAgent_harmless hlookup

end

end RtcAgentContainer

namespace RtcEngine

section
variable {J : OrgJson} {s : RtcEngine} {payload text : JString} {m : J.JSONObject} {calls : AgentCalls}

/-- The `catch` lets nothing through. -/
theorem getSignallingMessage_ok (J : OrgJson) (payload : JString) :
    ∃ message, getSignallingMessage J payload = .ok message := by
  have hfield {α : Type} (take : J.Value → Option α) (json : J.JSONObject) (name : String) {e : Throwable}
      (h : getField take json name = .error e) : e = .json := by
    unfold getField at h
    split at h <;> cases h
    rfl
  have htext (text : JString) {e : Throwable} (h : J.ofText text = .error e) : e = .json := by
    unfold ofText at h
    split at h <;> cases h
    rfl
  have hjson {e : Throwable} (h : openEnvelope J payload = .error e) : e = .json := by
    unfold openEnvelope at h
    rcases bind_eq_error.mp h with h | ⟨json, -, h⟩
    · exact htext _ h
    split at h
    · rcases bind_eq_error.mp h with h | ⟨error, -, h⟩
      · exact hfield _ _ _ h
      split at h
      · rcases bind_eq_error.mp h with h | ⟨msg, -, h⟩
        · exact hfield _ _ _ h
        · rcases bind_eq_error.mp h with h | ⟨json, -, h⟩
          · exact htext _ h
          · cases h
      · cases h
    · cases h
  unfold getSignallingMessage
  rcases h : openEnvelope J payload with e | message
  · rw [hjson h]
    exact ⟨none, rfl⟩
  · exact ⟨message, rfl⟩

theorem noNews_iff {peerList : List RtcPeer} : s.NoNews peerList ↔
    (if 0 < peerList.length then s.onPeerList peerList else s).mPeerMap = s.mPeerMap := by
  unfold NoNews
  cases peerList with
  | nil => simp
  | cons peer peerList =>
    simp only [List.length_cons, Nat.zero_lt_succ, if_true, reduceCtorEq, false_or]
    constructor
    · exact fun h => Finmap.ext_lookup fun id => lookup_onPeerList.trans (h id).symm
    · intro h id
      rw [← h]
      exact lookup_onPeerList

theorem misc_harmless :
    ((onMiscMsg m calls).Returns s ∧
      (¬ Relayed m → Unchanged s ((onMiscMsg m calls).exec s).2)) ↔ MiscOk s.agents s.me m calls := by
  rw [← RtcAgentContainer.processMessage_harmless s.mRtcIceConfigs]
  unfold onMiscMsg
  simp only [Prog.Returns, Prog.exec_bind, Prog.exec_get, Prog.exec_on]
  refine and_congr_right fun _ => forall_congr' fun _ => ⟨fun h => h.mRtcAgentMap, fun h => ⟨rfl, h, rfl⟩⟩

theorem peerList_harmless :
    ((processPeerList text).Returns s ∧
      ((∃ peers, text.ArrayText peers) ∨ Unchanged s ((processPeerList text).exec s).2)) ↔
      s.PeersOk text := by
  unfold processPeerList PeersOk
  rw [JString.substring_inner, noNews_iff]
  by_cases hlength : 2 ≤ text.length
  · simp only [hlength, if_true, Prog.returns_lift_bind, Prog.returns_modify, Prog.exec_bind,
      Prog.exec_lift, Prog.exec_modify, true_and, Except.ok.injEq, exists_eq', and_true]
    refine or_congr_right ⟨fun h => h.mPeerMap, fun h => ⟨h, ?_, ?_⟩⟩
    · split <;> rfl
    · split <;> rfl
  · simp [hlength]

/-- A message without a command, or with another one. -/
theorem known_iff_relayed (h : has m "cmd" = false ∨ ∃ cmd, getString m "cmd" = .ok cmd ∧
    cmd ≠ lit "peer_list" ∧ cmd ≠ lit "add_peer" ∧ cmd ≠ lit "del_peer") : Known m ↔ Relayed m := by
  refine ⟨fun hknown => ?_, .relayed⟩
  have hcommand (cmd : JString) (hcmd : getString m "cmd" = .ok cmd) :
      cmd ≠ lit "peer_list" ∧ cmd ≠ lit "add_peer" ∧ cmd ≠ lit "del_peer" := by
    rcases h with h | ⟨cmd', hcmd', h⟩
    · cases h.symm.trans (has_of_getField hcmd)
    · cases hcmd.symm.trans hcmd'
      exact h
  cases hknown with
  | peerList hcmd => exact absurd rfl (hcommand _ hcmd).1
  | update hcmd =>
    rcases hcmd with hcmd | hcmd
    · exact absurd rfl (hcommand _ hcmd).2.1
    · exact absurd rfl (hcommand _ hcmd).2.2
  | relayed h => exact h

theorem known_iff_peerList (hcmd : getString m "cmd" = .ok (lit "peer_list")) :
    Known m ↔ ∃ text, getString m "peers" = .ok text ∧ ∃ peers, text.ArrayText peers := by
  constructor
  · intro hknown
    cases hknown with
    | peerList _ htext hpeers => exact ⟨_, htext, _, hpeers⟩
    | update hcmd' =>
      rw [hcmd] at hcmd'
      exact absurd hcmd' (by decide)
    | relayed h =>
      rcases h.cmd with h | h
      · cases h.symm.trans (has_of_getField hcmd)
      · rw [hcmd] at h
        exact absurd h (by decide)
  · rintro ⟨text, htext, peers, hpeers⟩
    exact .peerList hcmd htext hpeers

/-- An update is a message of the protocol as soon as it has an `id`. -/
theorem update_harmless {cmd : JString} (hcmd : getString m "cmd" = .ok cmd)
    (hname : cmd = lit "add_peer" ∨ cmd = lit "del_peer") {f : JString → RtcEngine → RtcEngine}
    {prog : EngineProg Unit} (hprog : prog = do
      let id ← Prog.lift (getString m "id")
      modify (f id)) :
    (prog.Returns s ∧ (¬ Known m → Unchanged s (prog.exec s).2)) ↔ ∃ id, getString m "id" = .ok id := by
  subst hprog
  simp only [Prog.returns_lift_bind, Prog.returns_modify, and_true]
  refine and_iff_left_of_imp ?_
  rintro ⟨id, hid⟩ hunknown
  refine absurd (.update ?_ hid) hunknown
  rw [hcmd]
  exact hname.imp (congrArg _) (congrArg _)

theorem dispatch_harmless :
    ((dispatch m calls).Returns s ∧ (¬ Known m → Unchanged s ((dispatch m calls).exec s).2)) ↔
      if has m "cmd" then
        ∃ cmd, getString m "cmd" = .ok cmd ∧
          if cmd = lit "peer_list" then ∃ text, getString m "peers" = .ok text ∧ s.PeersOk text
          else if cmd = lit "add_peer" ∨ cmd = lit "del_peer" then ∃ id, getString m "id" = .ok id
          else MiscOk s.agents s.me m calls
      else MiscOk s.agents s.me m calls := by
  unfold dispatch
  cases hhas : has m "cmd" with
  | false =>
    simp only [Bool.false_eq_true, if_false, known_iff_relayed (.inl hhas)]
    exact misc_harmless
  | true =>
    simp only [if_true, Prog.returns_lift_bind, Prog.exec_bind, Prog.exec_lift]
    rcases hcmd : getString m "cmd" with e | cmd
    · simp
    simp only [Except.ok.injEq, exists_eq_left']
    by_cases hpeers : cmd = lit "peer_list"
    · subst hpeers
      simp only [if_true, Prog.returns_lift_bind, Prog.exec_bind, Prog.exec_lift,
        known_iff_peerList hcmd]
      rcases getString m "peers" with e | text
      · simp
      simp only [Except.ok.injEq, exists_eq_left']
      rw [← or_iff_not_imp_left]
      exact peerList_harmless
    by_cases hadd : cmd = lit "add_peer"
    · simp only [if_neg hpeers, if_pos hadd, if_pos (.inl hadd : cmd = lit "add_peer" ∨ _)]
      exact update_harmless hcmd (.inl hadd) rfl
    by_cases hdel : cmd = lit "del_peer"
    · simp only [if_neg hpeers, if_neg hadd, if_pos hdel, if_pos (.inr hdel : _ ∨ cmd = lit "del_peer")]
      exact update_harmless hcmd (.inr hdel) rfl
    · simp only [hpeers, hadd, hdel, if_false, or_self,
        known_iff_relayed (.inr ⟨cmd, hcmd, hpeers, hadd, hdel⟩)]
      exact misc_harmless

end

/-- A message does no harm just when it meets the condition. -/
theorem harmless_iff (J : OrgJson) (payload : JString) (calls : AgentCalls) (s : RtcEngine) :
    Harmless J payload calls s ↔ MessageOk J payload calls s := by
  have hiff : Harmless J payload calls s ↔ (onTextMessage J payload calls).Returns s ∧
      (¬ Recognised J payload → Unchanged s ((onTextMessage J payload calls).exec s).2) :=
    ⟨fun h => ⟨h.returns, h.unchanged⟩, fun h => ⟨h.1, h.2⟩⟩
  rw [hiff]
  obtain ⟨message, hmessage⟩ := getSignallingMessage_ok J payload.trim
  cases message with
  | none =>
    simp [onTextMessage, processSignallingCommand, Prog.Returns, Prog.exec_bind, hmessage, MessageOk,
      Unchanged.mk]
  | some m =>
    have hrecognised : Recognised J payload ↔ Known m := by
      simp [Recognised, hmessage]
    simp only [hrecognised, MessageOk, hmessage, Except.ok.injEq, Option.some.injEq, forall_eq',
      Prog.Returns, exec_onTextMessage hmessage]
    exact dispatch_harmless

/-- A goodbye from a peer, as the server sends it. -/
def goodbye : List (JString × JString) := [(lit "sourceid", lit "peer"), (lit "msg", RtcSignalling.bye)]

def goodbyePayload : JString := objectText (envelope goodbye)

/-- A message that says only where it comes from. -/
def nothing : List (JString × JString) := [(lit "sourceid", lit "peer")]

def nothingPayload : JString := objectText (envelope nothing)

def goodbyeJson : OrgJson := jsonOf [goodbye, nothing]

/-- The goodbye of a peer without an agent throws; without a message it creates an
agent. -/
theorem goodbye_harmful :
    ((onTextMessage goodbyeJson goodbyePayload {}).exec {}).1 = .error .illegalArgument ∧
      ((onTextMessage goodbyeJson nothingPayload {}).exec {}).2.agents.mRtcAgentMap.keys = {lit "peer"} ∧
      ¬ Harmless goodbyeJson goodbyePayload {} {} ∧ ¬ Harmless goodbyeJson nothingPayload {} {} := by
  have hthrows : ((onTextMessage goodbyeJson goodbyePayload {}).exec {}).1 = .error .illegalArgument := rfl
  have hcreates : ((onTextMessage goodbyeJson nothingPayload {}).exec {}).2.agents.mRtcAgentMap.keys =
      {lit "peer"} := rfl
  have hmessage : getSignallingMessage goodbyeJson nothingPayload.trim =
      .ok (some (ofFields nothing)) := rfl
  refine ⟨hthrows, hcreates, fun h => ?_, fun h => ?_⟩
  · obtain ⟨_, hreturns⟩ := h.returns
    cases hthrows.symm.trans hreturns
  · have hunchanged := (h.unchanged ?_).mRtcAgentMap
    · rw [hunchanged] at hcreates
      exact absurd hcreates (by decide)
    · rintro ⟨m, hm, hknown⟩
      cases hmessage.symm.trans hm
      cases hknown with
      | peerList hcmd => cases hcmd
      | update hcmd => rcases hcmd with hcmd | hcmd <;> cases hcmd
      | relayed h =>
        obtain ⟨text, json, htext, -⟩ := h.msg
        cases htext

end RtcEngine

end SmartSocks.Rtc
