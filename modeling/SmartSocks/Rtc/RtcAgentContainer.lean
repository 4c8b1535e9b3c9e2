import SmartSocks.Rtc.RtcAgent
import Mathlib.Data.Finmap

/-!
# `RtcAgentContainer`

The agents of all remote peers. An agent is created by a message from a peer
that has none, or by the user, and is put into the map when it is initialized.
-/

namespace SmartSocks.Rtc

open Jvm OrgJson

structure RtcAgentContainer where
  mRtcAgentMap : Finmap fun _ : JString => RtcAgent := ∅
  webrtc : Webrtc := {}

namespace RtcAgentContainer

variable {J : OrgJson}

/-- An agent in the map does something; what it changes is seen there. -/
def onAgent {α : Type} (id : JString) (agent : RtcAgent) (m : AgentProg α) : Prog RtcAgentContainer α :=
  Prog.on (fun c => ⟨agent, c.webrtc⟩)
    (fun s c => { mRtcAgentMap := c.mRtcAgentMap.insert id s.agent, webrtc := s.webrtc }) m

/-- A new agent is initialized, and then put into the map. -/
def addAgent (id : JString) (role : RtcRole) (sdpParam : Option J.JSONObject)
    (mIceConfigs : List RtcIceConfig) (calls : AgentCalls) : Prog RtcAgentContainer Unit := do
  let agent ← Prog.on (fun c => (⟨{ mRemotePeerId := id }, c.webrtc⟩ : AgentState))
    (fun s c => { c with webrtc := s.webrtc }) do
      RtcAgent.initializeAgent id role sdpParam mIceConfigs calls
      return (← get).agent
  Prog.lift calls.onRtcAgentCreateChannel
  modify fun c => { c with mRtcAgentMap := c.mRtcAgentMap.insert id agent }

/-- The message is for another peer. -/
def addressedElsewhere (me : Option JString) (json : J.JSONObject) : Except Throwable Bool :=
  if has json "targetid" && has json "sourceid" then do
    let targetId ← getString json "targetid"
    return some targetId ≠ me
  else .ok false

/-- `JSONObject(msgJSONObject.getString("msg"))`, if there is such a field. -/
def rtcMessage (json : J.JSONObject) : Except Throwable (Option J.JSONObject) :=
  if has json "msg" then do
    let text ← getString json "msg"
    let rtcMsgJsonObject ← J.ofText text
    return some rtcMsgJsonObject
  else .ok none

/-- A message without a source is only logged, by every agent. -/
def processMessage (me : Option JString) (json : J.JSONObject) (mIceConfigs : List RtcIceConfig)
    (calls : AgentCalls) : Prog RtcAgentContainer Unit := do
  if ← Prog.lift (addressedElsewhere me json) then
    return ()
  let rtcMsgJsonObject ← Prog.lift (rtcMessage json)
  if has json "sourceid" then
    let sourceid ← Prog.lift (getString json "sourceid")
    match (← get).mRtcAgentMap.lookup sourceid with
    | none => addAgent sourceid .rtcAcceptor rtcMsgJsonObject mIceConfigs calls
    | some rtcAgent =>
      match rtcMsgJsonObject with
      | none => return ()
      | some rtcMsgJsonObject =>
        onAgent sourceid rtcAgent (RtcAgent.processMessage rtcMsgJsonObject sourceid calls)

def delPeer (peerID : JString) (c : RtcAgentContainer) : RtcAgentContainer :=
  let mRtcAgentMap := c.mRtcAgentMap.erase peerID
  match c.mRtcAgentMap.lookup peerID with
  | none => { c with mRtcAgentMap }
  | some rtcAgent =>
    { mRtcAgentMap
      webrtc := (RtcAgent.destroy (mRtcAgentMap.keys.card = 0) ⟨rtcAgent, c.webrtc⟩).webrtc }

def createChannel (J : OrgJson) (peerID : JString) (mIceConfigs : List RtcIceConfig) (calls : AgentCalls) :
    Prog RtcAgentContainer Unit := do
  if peerID ∈ (← get).mRtcAgentMap then
    return ()
  addAgent (J := J) peerID .rtcInitiator none mIceConfigs calls

end RtcAgentContainer

end SmartSocks.Rtc
