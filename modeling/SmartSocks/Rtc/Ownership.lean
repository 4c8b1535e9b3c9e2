import SmartSocks.Library.Machine
import SmartSocks.Rtc.AgentHeap
import SmartSocks.Rtc.RtcAgentContainer
import SmartSocks.Rtc.RtcSignalling

/-!
# Who owns the peer connections

A connection belongs to its agent, and an agent that is initialized is put into
the map. An exception between these two leaves connections behind that nobody
holds, and the factory is disposed by the size of the map with such connections
alive. Apart from that the accounting is right: a run keeps it just when nothing
throws any more once an agent has created a connection.
-/

namespace SmartSocks.Rtc

open Jvm OrgJson

/-- An agent in the map holds the connection. -/
def RtcAgentContainer.Held (c : RtcAgentContainer) (connection : Nat) : Prop :=
  ∃ id agent, c.mRtcAgentMap.lookup id = some agent ∧ agent.Holds connection

/-- The accounting of the connections. -/
structure Owned (c : RtcAgentContainer) : Prop where
  held : ∀ connection, c.webrtc.connections.Live connection → c.Held connection
  disposed : ∀ factory, c.webrtc.factories.disposed factory = true →
    ∀ connection, c.webrtc.connections.Live connection → c.webrtc.factoryOf connection ≠ factory
  belongs : ∀ id agent, c.mRtcAgentMap.lookup id = some agent →
    ∃ factory, c.webrtc.factories.Live factory ∧
      ∀ connection, agent.Holds connection → c.webrtc.factoryOf connection = factory

inductive ContainerEvent (J : OrgJson)
  | processMessage (me : Option JString) (json : J.JSONObject) (mIceConfigs : List RtcIceConfig)
    (calls : AgentCalls)
  | createChannel (peerID : JString) (mIceConfigs : List RtcIceConfig) (calls : AgentCalls)
  | delPeer (peerID : JString)

namespace RtcAgentContainer

variable {J : OrgJson}

/-- A call; one that throws leaves what it has done. -/
def step (c : RtcAgentContainer) : ContainerEvent J → Option RtcAgentContainer
  | .processMessage me json mIceConfigs calls => some ((processMessage me json mIceConfigs calls).exec c).2
  | .createChannel peerID mIceConfigs calls => some ((createChannel J peerID mIceConfigs calls).exec c).2
  | .delPeer peerID => some (c.delPeer peerID)

theorem step_total (c : RtcAgentContainer) (e : ContainerEvent J) : ∃ t, c.step e = some t := by
  cases e <;> exact ⟨_, rfl⟩

/-- The message goes to a peer that has no agent yet. -/
def Addresses (c : RtcAgentContainer) (me : Option JString) (json : J.JSONObject) (id : JString)
    (sdpParam : Option J.JSONObject) : Prop :=
  addressedElsewhere me json = .ok false ∧ rtcMessage json = .ok sdpParam ∧
    has json "sourceid" = true ∧ getString json "sourceid" = .ok id ∧ id ∉ c.mRtcAgentMap

/-- The condition on a call. -/
def CallOk (c : RtcAgentContainer) : ContainerEvent J → Prop
  | .processMessage me json _ calls => ∀ id sdpParam, c.Addresses me json id sdpParam →
    StoredOk c.webrtc .rtcAcceptor sdpParam calls
  | .createChannel peerID _ calls => peerID ∉ c.mRtcAgentMap →
    StoredOk (J := J) c.webrtc .rtcInitiator none calls
  | .delPeer _ => True

end RtcAgentContainer

/-- The invariant of the accounting. -/
structure Accounted (c : RtcAgentContainer) : Prop where
  heap : HeapOk c.webrtc c.Held
  stored : ∀ id ∈ c.mRtcAgentMap, c.webrtc.mPeerConnectionInited = true

theorem Accounted.owned {c : RtcAgentContainer} (h : Accounted c) : Owned c where
  held := h.heap.alive
  disposed := by
    rintro factory hdisposed connection hlive rfl
    have hfactory := h.heap.factoryLive (h.heap.alive connection hlive)
    rw [hfactory.2] at hdisposed
    cases hdisposed
  belongs := by
    intro id agent hlookup
    obtain ⟨factory, hfactory, hlive⟩ := h.heap.ready (h.stored id (Finmap.mem_of_lookup_eq_some hlookup))
    refine ⟨factory, hlive, fun connection hholds => ?_⟩
    obtain ⟨-, hcurrent⟩ := h.heap.current connection ⟨id, agent, hlookup, hholds⟩
    exact Option.some.inj (hcurrent.symm.trans hfactory)

theorem accounted_initial : Accounted {} where
  heap := {
    alive := fun connection h => absurd h.1 (Nat.not_lt_zero connection)
    created := by
      rintro connection ⟨id, agent, hlookup, -⟩
      cases hlookup
    current := by
      rintro connection ⟨id, agent, hlookup, -⟩
      cases hlookup
    ready := nofun }
  stored := fun _ hid => absurd hid (Finmap.notMem_empty)

-- ---------------------------------------------------------------------------
-- The steps
-- ---------------------------------------------------------------------------

namespace RtcAgentContainer

section
variable {J : OrgJson} {c : RtcAgentContainer} {id : JString} {agent agent' : RtcAgent} {w : Webrtc}
  {role : RtcRole} {me : Option JString} {json : J.JSONObject} {sdpParam : Option J.JSONObject}
  {mIceConfigs : List RtcIceConfig} {calls : AgentCalls}

/-- An agent that is put into the map adds what it holds. -/
theorem held_insert (hid : id ∉ c.mRtcAgentMap) (connection : Nat) :
    Held ⟨c.mRtcAgentMap.insert id agent, w⟩ connection ↔ c.Held connection ∨ agent.Holds connection := by
  constructor
  · rintro ⟨other, holder, hlookup, hholds⟩
    by_cases hother : other = id
    · rw [hother, Finmap.lookup_insert] at hlookup
      cases hlookup
      exact .inr hholds
    · rw [Finmap.lookup_insert_of_ne _ hother] at hlookup
      exact .inl ⟨other, holder, hlookup, hholds⟩
  · rintro (⟨other, holder, hlookup, hholds⟩ | hholds)
    · have hother : other ≠ id := by
        rintro rfl
        exact hid (Finmap.mem_of_lookup_eq_some hlookup)
      exact ⟨other, holder, (Finmap.lookup_insert_of_ne _ hother).trans hlookup, hholds⟩
    · exact ⟨id, agent, Finmap.lookup_insert _, hholds⟩

/-- An agent that holds what it held before adds nothing. -/
theorem held_replace (hlookup : c.mRtcAgentMap.lookup id = some agent)
    (hsame : ∀ connection, agent'.Holds connection ↔ agent.Holds connection) (connection : Nat) :
    Held ⟨c.mRtcAgentMap.insert id agent', w⟩ connection ↔ c.Held connection := by
  constructor
  · rintro ⟨other, holder, hother, hholds⟩
    by_cases heq : other = id
    · rw [heq, Finmap.lookup_insert] at hother
      cases hother
      exact ⟨id, agent, hlookup, (hsame connection).mp hholds⟩
    · rw [Finmap.lookup_insert_of_ne _ heq] at hother
      exact ⟨other, holder, hother, hholds⟩
  · rintro ⟨other, holder, hother, hholds⟩
    by_cases heq : other = id
    · subst heq
      cases hlookup.symm.trans hother
      exact ⟨other, agent', Finmap.lookup_insert _, (hsame connection).mpr hholds⟩
    · exact ⟨other, holder, (Finmap.lookup_insert_of_ne _ heq).trans hother, hholds⟩

/-- A new agent is stored with all that it has created, or it leaves a connection
that nobody holds. -/
theorem exec_addAgent (role : RtcRole) (sdpParam : Option J.JSONObject) (mIceConfigs : List RtcIceConfig)
    (calls : AgentCalls) (h : Accounted c) (hid : id ∉ c.mRtcAgentMap) :
    (StoredOk c.webrtc role sdpParam calls →
      Accounted ((addAgent id role sdpParam mIceConfigs calls).exec c).2) ∧
    (¬ StoredOk c.webrtc role sdpParam calls →
      ¬ Owned ((addAgent id role sdpParam mIceConfigs calls).exec c).2) := by
  have hinitialize := RtcAgent.exec_initializeAgent (s := ⟨{ mRemotePeerId := id }, c.webrtc⟩) id role
    sdpParam mIceConfigs calls h.heap
  simp only [addAgent, Prog.exec_bind, Prog.exec_on, Prog.exec_get, Prog.exec_pure]
  generalize (RtcAgent.initializeAgent id role sdpParam mIceConfigs calls).exec
    ⟨{ mRemotePeerId := id }, c.webrtc⟩ = result at hinitialize ⊢
  obtain ⟨r, t⟩ := result
  dsimp only at hinitialize
  cases hinitialize with
  | failed e hstored hinited heap =>
    exact ⟨fun _ => ⟨heap, fun other hother => hinited (h.stored other hother)⟩,
      fun hnot => absurd hstored hnot⟩
  | left e hstored hleft =>
    obtain ⟨connection, hlive, hnot⟩ := hleft
    exact ⟨fun h => absurd h hstored, fun _ howned => hnot (howned.held connection hlive)⟩
  | done hstored hinited heap hnew =>
    simp only [Prog.exec_lift]
    cases hcall : calls.onRtcAgentCreateChannel with
    | ok =>
      refine ⟨fun _ => ⟨heap.congr fun connection => (held_insert hid connection).symm, ?_⟩, ?_⟩
      · exact fun _ _ => hinited
      · exact fun hnot => absurd (hstored.mpr fun _ => hcall) hnot
    | error e =>
      have hnone : StoredOk c.webrtc role sdpParam calls ↔ ¬ ∃ connection, t.agent.Holds connection := by
        rw [hstored, hcall]
        simp
      rw [hnone]
      refine ⟨fun hnot => ⟨heap.congr fun connection => ?_, fun _ _ => hinited⟩, fun hany howned => ?_⟩
      · exact or_iff_left fun hconnection => hnot ⟨connection, hconnection⟩
      · obtain ⟨connection, hconnection⟩ := not_not.mp hany
        obtain ⟨hlive, hnot⟩ := hnew connection hconnection
        exact hnot (howned.held connection hlive)

/-- An agent that is there already keeps its connections. -/
theorem accounted_onAgent {m : AgentProg Unit} (h : Accounted c)
    (hlookup : c.mRtcAgentMap.lookup id = some agent) (hm : m.Within SameHeap) :
    Accounted ((onAgent id agent m).exec c).2 := by
  have hsame := hm ⟨agent, c.webrtc⟩
  obtain ⟨asked, hasked⟩ := hsame.webrtc
  simp only [RtcAgentContainer.onAgent, Prog.exec_on]
  constructor
  · rw [hasked]
    exact (h.heap.asked asked).congr fun connection => (held_replace hlookup hsame.holds connection).symm
  · intro other hother
    rw [hasked]
    rcases Finmap.mem_insert.mp hother with heq | hmem
    · exact h.stored id (Finmap.mem_of_lookup_eq_some hlookup)
    · exact h.stored other hmem

theorem exec_processMessage (haddresses : c.Addresses me json id sdpParam) :
    (processMessage me json mIceConfigs calls).exec c =
      (addAgent id .rtcAcceptor sdpParam mIceConfigs calls).exec c := by
  obtain ⟨helsewhere, hmessage, hsource, hid, hnew⟩ := haddresses
  have hnone := Finmap.lookup_eq_none.mpr hnew
  simp [processMessage, Prog.exec_bind, helsewhere, hmessage, hsource, hid, hnone]

/-- A message that addresses no new peer is for an agent that is there, or does
nothing. -/
theorem exec_processMessage_known (hknown : ∀ id sdpParam, ¬ c.Addresses me json id sdpParam) :
    ((processMessage me json mIceConfigs calls).exec c).2 = c ∨
      ∃ id agent rtcMsgJsonObject, c.mRtcAgentMap.lookup id = some agent ∧
        ((processMessage me json mIceConfigs calls).exec c).2 =
          ((onAgent id agent (RtcAgent.processMessage (J := J) rtcMsgJsonObject id calls)).exec c).2 := by
  unfold RtcAgentContainer.processMessage
  simp only [Prog.exec_bind, Prog.exec_lift]
  rcases helsewhere : addressedElsewhere me json with e | elsewhere
  · exact .inl rfl
  cases elsewhere with
  | true => exact .inl rfl
  | false =>
    simp only [Bool.false_eq_true, if_false, Prog.exec_bind, Prog.exec_lift]
    rcases hmessage : rtcMessage json with e | sdpParam
    · exact .inl rfl
    cases hsource : has json "sourceid" with
    | false => exact .inl rfl
    | true =>
      simp only [if_true, Prog.exec_bind, Prog.exec_lift]
      rcases hid : getString json "sourceid" with e | id
      · exact .inl rfl
      simp only [Prog.exec_get]
      cases hlookup : c.mRtcAgentMap.lookup id with
      | none =>
        exact absurd ⟨helsewhere, hmessage, hsource, hid, Finmap.lookup_eq_none.mp hlookup⟩
          (hknown id sdpParam)
      | some agent =>
        cases sdpParam with
        | none => exact .inl rfl
        | some rtcMsgJsonObject => exact .inr ⟨id, agent, rtcMsgJsonObject, hlookup, rfl⟩

theorem accounted_processMessage (h : Accounted c)
    (hknown : ∀ id sdpParam, ¬ c.Addresses me json id sdpParam) :
    Accounted ((processMessage me json mIceConfigs calls).exec c).2 := by
  obtain heq | ⟨id, agent, rtcMsgJsonObject, hlookup, heq⟩ := exec_processMessage_known hknown
  · rwa [heq]
  · rw [heq]
    exact accounted_onAgent h hlookup (RtcAgent.sameHeap_processMessage rtcMsgJsonObject id calls)

/-- The factory is disposed with the last agent, whose connections are the last. -/
theorem accounted_delPeer (h : Accounted c) (peerID : JString) : Accounted (c.delPeer peerID) := by
  unfold RtcAgentContainer.delPeer
  cases hlookup : c.mRtcAgentMap.lookup peerID with
  | none =>
    have herase : c.mRtcAgentMap.erase peerID = c.mRtcAgentMap := by
      refine Finmap.ext_lookup fun other => ?_
      by_cases heq : other = peerID
      · rw [heq, Finmap.lookup_erase, hlookup]
      · exact Finmap.lookup_erase_ne heq
    dsimp only
    rw [herase]
    exact h
  | some agent =>
    have hmem {other : JString} {holder : RtcAgent}
        (hother : (c.mRtcAgentMap.erase peerID).lookup other = some holder) :
        c.mRtcAgentMap.lookup other = some holder := by
      have hne : other ≠ peerID := by
        rintro rfl
        simp [Finmap.lookup_erase] at hother
      rwa [Finmap.lookup_erase_ne hne] at hother
    have halive (connection : Nat)
        (hlive : ((c.webrtc.connections.disposeOption agent.mRemotePeerConnection).disposeOption
          agent.mLocalPeerConnection).Live connection) :
        ∃ other holder, (c.mRtcAgentMap.erase peerID).lookup other = some holder ∧
          holder.Holds connection := by
      obtain ⟨hlocal, hlive⟩ := Pool.live_disposeOption.mp hlive
      obtain ⟨hremote, hlive⟩ := Pool.live_disposeOption.mp hlive
      obtain ⟨other, holder, hother, hholds⟩ := h.heap.alive connection hlive
      have hne : other ≠ peerID := by
        rintro rfl
        cases hlookup.symm.trans hother
        exact hholds.elim hlocal hremote
      exact ⟨other, holder, (Finmap.lookup_erase_ne hne).trans hother, hholds⟩
    by_cases hempty : (c.mRtcAgentMap.erase peerID).keys.card = 0
    · have hnone (other : JString) : other ∉ c.mRtcAgentMap.erase peerID := by
        rw [← Finmap.mem_keys, Finset.card_eq_zero.mp hempty]
        exact Finset.notMem_empty other
      simp only [RtcAgent.destroy, hempty, decide_true, if_true]
      refine ⟨⟨halive, ?_, ?_, nofun⟩, fun other hother => absurd hother (hnone other)⟩
      · rintro connection ⟨other, holder, hother, -⟩
        exact absurd (Finmap.mem_of_lookup_eq_some hother) (hnone other)
      · rintro connection ⟨other, holder, hother, -⟩
        exact absurd (Finmap.mem_of_lookup_eq_some hother) (hnone other)
    · simp only [RtcAgent.destroy, hempty, decide_false, Bool.false_eq_true, if_false]
      refine ⟨⟨halive, ?_, ?_, h.heap.ready⟩, fun other hother => ?_⟩
      · rintro connection ⟨other, holder, hother, hholds⟩
        simpa using h.heap.created connection ⟨other, holder, hmem hother, hholds⟩
      · rintro connection ⟨other, holder, hother, hholds⟩
        exact h.heap.current connection ⟨other, holder, hmem hother, hholds⟩
      · exact h.stored other (Finmap.mem_erase.mp hother).2

/-- What a step makes of the accounting. -/
theorem accounted_step {t : RtcAgentContainer} {e : ContainerEvent J} (h : Accounted c)
    (hstep : c.step e = some t) : (c.CallOk e → Accounted t) ∧ (¬ c.CallOk e → ¬ Owned t) := by
  cases e with
  | delPeer peerID =>
    cases hstep
    exact ⟨fun _ => accounted_delPeer h peerID, fun hnot => absurd trivial hnot⟩
  | createChannel peerID mIceConfigs calls =>
    cases hstep
    by_cases hid : peerID ∈ c.mRtcAgentMap
    · simp only [createChannel, Prog.exec_bind, Prog.exec_get, hid, if_true, Prog.exec_pure]
      exact ⟨fun _ => h, fun hnot => absurd (fun hnew => absurd hid hnew) hnot⟩
    · simp only [createChannel, Prog.exec_bind, Prog.exec_get, hid, if_false, CallOk, not_false_eq_true,
        forall_const]
      exact exec_addAgent _ _ mIceConfigs calls h hid
  | processMessage me json mIceConfigs calls =>
    cases hstep
    by_cases haddresses : ∃ id sdpParam, c.Addresses me json id sdpParam
    · obtain ⟨id, sdpParam, haddresses⟩ := haddresses
      rw [exec_processMessage haddresses]
      obtain ⟨hstored, hleft⟩ := exec_addAgent .rtcAcceptor sdpParam mIceConfigs calls h
        haddresses.2.2.2.2
      refine ⟨fun hok => hstored (hok id sdpParam haddresses), fun hnot => hleft fun hok => hnot ?_⟩
      intro id' sdpParam' haddresses'
      cases haddresses.2.1.symm.trans haddresses'.2.1
      exact hok
    · have hknown : ∀ id sdpParam, ¬ c.Addresses me json id sdpParam := fun id sdpParam h =>
        haddresses ⟨id, sdpParam, h⟩
      refine ⟨fun _ => accounted_processMessage h hknown, fun hnot => absurd ?_ hnot⟩
      exact fun id sdpParam h => absurd h (hknown id sdpParam)

end

end RtcAgentContainer

open RtcAgentContainer

/-- The accounting holds all through a run just when all of its calls meet the
condition. -/
theorem ownership_iff {J : OrgJson} (events : List (ContainerEvent J)) :
    (∀ fs t, fs <+: events → Machine.run RtcAgentContainer.step {} fs = some t → Owned t) ↔
      Machine.Guarded RtcAgentContainer.step CallOk {} events := by
  obtain ⟨c, hrun⟩ : ∃ c, Machine.run (step (J := J)) {} events = some c :=
    Machine.run_total step_total {} events
  exact (Machine.guarded_iff (fun _ _ _ h hok hstep => (accounted_step h hstep).1 hok)
    (fun _ => Accounted.owned) (fun _ _ _ h hnot hstep => (accounted_step h hstep).2 hnot)
    accounted_initial hrun).symm

/-- The message that `destroy` sends is read as an object. -/
def byeJson : OrgJson := .ofTable [(RtcSignalling.bye, [(lit "type", lit "bye")])]

/-- The message as it arrives from a peer. -/
def byeMessage : byeJson.JSONObject :=
  OrgJson.ofFields [(lit "sourceid", lit "peer"), (lit "msg", RtcSignalling.bye)]

/-- A peer that says goodbye before anything else leaves a connection behind. The
factory goes with the next agent. -/
theorem ownership_lost :
    (∃ c, Machine.run step {} [.processMessage (some (lit "me")) byeMessage [] {}] = some c ∧
      c.webrtc.connections.Live 0 ∧ ¬ c.Held 0) ∧
    (∃ c, Machine.run step {} [.processMessage (some (lit "me")) byeMessage [] {},
        .createChannel (lit "other") [] {}, .delPeer (lit "other")] = some c ∧
      c.webrtc.connections.Live 0 ∧ c.webrtc.factories.disposed (c.webrtc.factoryOf 0) = true) := by
  refine ⟨⟨_, rfl, by decide, ?_⟩, _, rfl, by decide, by decide⟩
  rintro ⟨id, agent, hlookup, -⟩
  cases hlookup

end SmartSocks.Rtc
