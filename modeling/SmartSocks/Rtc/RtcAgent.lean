import SmartSocks.Jvm.OrgJson
import SmartSocks.Library.Pool

/-!
# `RtcAgent`

The two peer connections of a remote peer. They are created by a factory that
all agents share: the first `initialize` creates it, and `destroy` of the last
agent disposes it. A call into WebRTC returns or throws; `AgentCalls` says which.
-/

namespace SmartSocks.Rtc

open Jvm OrgJson

inductive RtcIceServerType
  | rtcIceStun
  | rtcIceTurn

inductive RtcIceServerProto
  | rtcIceProtoUdp
  | rtcIceProtoTcp

inductive RtcRole
  | rtcInitiator
  | rtcAcceptor
  deriving DecidableEq

structure RtcIceConfig where
  mType : RtcIceServerType
  mHost : JString
  mPort : Int
  mHostname : JString
  mUsername : JString
  mPassword : JString
  mProto : RtcIceServerProto

/-- `PeerConnection.IceServer`, with the builder's defaults. -/
structure IceServer where
  uri : JString
  username : JString := []
  password : JString := []
  hostname : JString := []

namespace RtcIceConfig

def appendUriCommon (c : RtcIceConfig) (uri : JString) : JString :=
  uri ++ lit ":" ++ c.mHost ++ lit ":" ++ lit (toString c.mPort) ++ lit "?transport=" ++
    match c.mProto with
    | .rtcIceProtoUdp => lit "udp"
    | .rtcIceProtoTcp => lit "tcp"

def iceConfigToIceServer (c : RtcIceConfig) : IceServer :=
  match c.mType with
  | .rtcIceTurn => {
      uri := c.appendUriCommon (lit "turn")
      username := c.mUsername
      password := c.mPassword
      hostname := c.mHostname }
  | .rtcIceStun => { uri := c.appendUriCommon (lit "stun") }

end RtcIceConfig

inductive SdpType
  | offer
  | pranswer
  | answer
  deriving DecidableEq

/-- `SessionDescription.Type`, as WebRTC has it. -/
structure SdpTypes where
  canonicalForm : SdpType → JString
  fromCanonicalForm : JString → Except Throwable SdpType

namespace SdpTypes

/-- `toUpperCase`, as far as ASCII goes. -/
def upperCase (s : JString) : JString := s.map fun c => if 0x61 ≤ c.toNat ∧ c.toNat ≤ 0x7A then c - 0x20 else c

/-- The names in lower case, and `valueOf` of a name in upper case. -/
def webrtc : SdpTypes where
  canonicalForm
    | .offer => lit "offer"
    | .pranswer => lit "pranswer"
    | .answer => lit "answer"
  fromCanonicalForm canonical :=
    if upperCase canonical = lit "OFFER" then .ok .offer
    else if upperCase canonical = lit "PRANSWER" then .ok .pranswer
    else if upperCase canonical = lit "ANSWER" then .ok .answer
    else .error .illegalArgument

end SdpTypes

/-- What a peer connection was asked for. -/
inductive NativeCall
  | setRemoteDescription (connection : Nat) (type : SdpType) (description : JString)
  | createDataChannel (connection : Nat) (label : JString)
  | createAnswer (connection : Nat)
  | createOffer (connection : Nat)
  | addIceCandidate (connection : Nat) (sdpMid : Option JString) (sdpMLineIndex : Int)
    (sdp : Option JString)

/-- What the calls return; `false` is `null`. -/
structure AgentCalls where
  types : SdpTypes := .webrtc
  initializeFactory : Except Throwable Unit := .ok ()
  createFactory : Except Throwable Unit := .ok ()
  createLocal : Except Throwable Bool := .ok true
  createRemote : Except Throwable Bool := .ok true
  setRemoteDescription : Except Throwable Unit := .ok ()
  createDataChannel : Except Throwable Bool := .ok true
  registerObserver : Except Throwable Unit := .ok ()
  createDescription : Except Throwable Unit := .ok ()
  addIceCandidate : Except Throwable Unit := .ok ()
  onRtcAgentCreateChannel : Except Throwable Unit := .ok ()

/-- The companion object, and all that was created with its factories. -/
structure Webrtc where
  mPeerConnectionInited : Bool := false
  mIceServers : List IceServer := []
  mPeerConnectionFactory : Option Nat := none
  factories : Pool := {}
  connections : Pool := {}
  /-- The factory of a connection. -/
  factoryOf : Nat → Nat := fun _ => 0
  /-- The servers that each call of `createPeerConnection` was given. -/
  given : List (List IceServer) := []
  asked : List NativeCall := []

structure RtcAgent where
  mRemotePeerId : JString
  /-- Whether there is a channel. -/
  mSendDataChannel : Bool := false
  mLocalPeerConnection : Option Nat := none
  mRemotePeerConnection : Option Nat := none

/-- An agent in a method of its own. -/
structure AgentState where
  agent : RtcAgent
  webrtc : Webrtc

abbrev AgentProg (α : Type) := Prog AgentState α

namespace RtcAgent

def ask (call : NativeCall) : AgentProg Unit :=
  modify fun s => { s with webrtc := { s.webrtc with asked := s.webrtc.asked ++ [call] } }

/-- `PeerConnectionFactory` is created with the ICE servers added. -/
def initFactory (mIceConfigs : List RtcIceConfig) (calls : AgentCalls) : AgentProg Unit := do
  modify fun s => { s with webrtc := { s.webrtc with
    mIceServers := s.webrtc.mIceServers ++ mIceConfigs.map (·.iceConfigToIceServer) } }
  Prog.lift calls.initializeFactory
  Prog.lift calls.createFactory
  modify fun s => { s with webrtc := { s.webrtc with
    mPeerConnectionFactory := some s.webrtc.factories.created
    factories := s.webrtc.factories.create
    mPeerConnectionInited := true } }

/-- `mPeerConnectionFactory?.createPeerConnection` -/
def newConnection (call : Except Throwable Bool) : AgentProg (Option Nat) := do
  let s ← get
  match s.webrtc.mPeerConnectionFactory with
  | none => return none
  | some factory =>
    let webrtc := { s.webrtc with given := s.webrtc.given ++ [s.webrtc.mIceServers] }
    set { s with webrtc }
    if ← Prog.lift call then
      set { s with webrtc := { webrtc with
        connections := s.webrtc.connections.create
        factoryOf := Function.update s.webrtc.factoryOf s.webrtc.connections.created factory } }
      return some s.webrtc.connections.created
    else return none

def createPeerConnection (calls : AgentCalls) : AgentProg Unit := do
  let connection ← newConnection calls.createLocal
  modify fun s => { s with agent := { s.agent with mLocalPeerConnection := connection } }
  let connection ← newConnection calls.createRemote
  modify fun s => { s with agent := { s.agent with mRemotePeerConnection := connection } }

/-- A call of the local connection, if there is one. -/
def onLocal (m : Nat → AgentProg Unit) : AgentProg Unit := do
  match (← get).agent.mLocalPeerConnection with
  | none => return ()
  | some connection => m connection

/-- `mLocalPeerConnection?.createDataChannel` -/
def newChannel (label : JString) (calls : AgentCalls) : AgentProg Bool := do
  match (← get).agent.mLocalPeerConnection with
  | none => return false
  | some connection =>
    ask (.createDataChannel connection label)
    Prog.lift calls.createDataChannel

def createDataChannel (label : JString) (needAnswer needOffer : Bool) (calls : AgentCalls) :
    AgentProg Unit := do
  let channel ← newChannel label calls
  modify fun s => { s with agent := { s.agent with mSendDataChannel := channel } }
  if channel then
    Prog.lift calls.registerObserver
  if needAnswer then
    onLocal fun connection => do
      ask (.createAnswer connection)
      Prog.lift calls.createDescription
  else if needOffer then
    onLocal fun connection => do
      ask (.createOffer connection)
      Prog.lift calls.createDescription

variable {J : OrgJson}

/-- The session description in a message, and the channel for it. -/
def setDescription (json : J.JSONObject) (label : JString) (calls : AgentCalls) : AgentProg Unit := do
  let typeStr ← Prog.lift (getString json "type")
  let sdpType ← Prog.lift (calls.types.fromCanonicalForm typeStr)
  if has json "sdp" then
    let sdpStr ← Prog.lift (getString json "sdp")
    onLocal fun connection => do
      ask (.setRemoteDescription connection sdpType sdpStr)
      Prog.lift calls.setRemoteDescription
    createDataChannel label (sdpType = .offer) false calls

def initializeAgent (label : JString) (role : RtcRole) (sdpParam : Option J.JSONObject)
    (mIceConfigs : List RtcIceConfig) (calls : AgentCalls) : AgentProg Unit := do
  if !(← get).webrtc.mPeerConnectionInited then
    initFactory mIceConfigs calls
  createPeerConnection calls
  match role, sdpParam with
  | .rtcAcceptor, some sdpParam =>
    if has sdpParam "type" then
      setDescription sdpParam label calls
  | .rtcAcceptor, none => return ()
  | .rtcInitiator, _ => createDataChannel label false true calls

def destroy (destroyPeerConnection : Bool) (s : AgentState) : AgentState where
  agent := { s.agent with
    mSendDataChannel := false
    mRemotePeerConnection := none
    mLocalPeerConnection := none }
  webrtc :=
    let connections := (s.webrtc.connections.disposeOption s.agent.mRemotePeerConnection).disposeOption
      s.agent.mLocalPeerConnection
    if destroyPeerConnection then
      { s.webrtc with
        connections
        factories := s.webrtc.factories.disposeOption s.webrtc.mPeerConnectionFactory
        mPeerConnectionInited := false }
    else { s.webrtc with connections }

/-- A field that may be left out. -/
def getOptional {α : Type} (get : J.JSONObject → String → Except Throwable α) (json : J.JSONObject)
    (name : String) : Except Throwable (Option α) :=
  if has json name then some <$> get json name else .ok none

def processIceCandidate (json : J.JSONObject) (calls : AgentCalls) : AgentProg Unit := do
  let sdpMid ← Prog.lift (getOptional getString json "sdpMid")
  let sdpMLineIndex ← Prog.lift (getOptional getInt json "sdpMLineIndex")
  let sdpStr ← Prog.lift (getOptional getString json "candidate")
  match sdpMLineIndex with
  | none => throw .nullPointer
  | some sdpMLineIndex =>
    onLocal fun connection => do
      ask (.addIceCandidate connection sdpMid sdpMLineIndex sdpStr)
      Prog.lift calls.addIceCandidate

def processSessionDescription (json : J.JSONObject) (peerId : JString) (calls : AgentCalls) :
    AgentProg Unit :=
  setDescription json (lit "Response-To-" ++ peerId) calls

def processMessage (json : J.JSONObject) (peerId : JString) (calls : AgentCalls) : AgentProg Unit :=
  if has json "type" then processSessionDescription json peerId calls
  else processIceCandidate json calls

end RtcAgent

-- ---------------------------------------------------------------------------
-- When the calls return
-- ---------------------------------------------------------------------------

/-- A channel can be created, if there is a local connection to create it. -/
def ChannelOk (hasLocal needAnswer needOffer : Bool) (calls : AgentCalls) : Prop :=
  hasLocal = true → ∃ channel, calls.createDataChannel = .ok channel ∧
    (channel = true → calls.registerObserver = .ok ()) ∧
    (needAnswer = true ∨ needOffer = true → calls.createDescription = .ok ())

section
variable {J : OrgJson}

/-- The message has a description that can be set. -/
def DescriptionOk (hasLocal : Bool) (json : J.JSONObject) (calls : AgentCalls) : Prop :=
  ∃ typeStr sdpType, getString json "type" = .ok typeStr ∧ calls.types.fromCanonicalForm typeStr = .ok sdpType ∧
    (has json "sdp" = true → ∃ sdpStr, getString json "sdp" = .ok sdpStr ∧
      (hasLocal = true → calls.setRemoteDescription = .ok ()) ∧
      ChannelOk hasLocal (sdpType = .offer) false calls)

/-- The message has a candidate that can be added. -/
def CandidateOk (hasLocal : Bool) (json : J.JSONObject) (calls : AgentCalls) : Prop :=
  (has json "sdpMid" = true → ∃ sdpMid, getString json "sdpMid" = .ok sdpMid) ∧
    (∃ sdpMLineIndex, getInt json "sdpMLineIndex" = .ok sdpMLineIndex) ∧
    (has json "candidate" = true → ∃ sdpStr, getString json "candidate" = .ok sdpStr) ∧
    (hasLocal = true → calls.addIceCandidate = .ok ())

/-- What is left of `initialize` when the connections are created. -/
def DescribeOk (hasLocal : Bool) (role : RtcRole) (sdpParam : Option J.JSONObject)
    (calls : AgentCalls) : Prop :=
  match role with
  | .rtcAcceptor => ∀ json, sdpParam = some json → has json "type" = true →
    DescriptionOk hasLocal json calls
  | .rtcInitiator => ChannelOk hasLocal false true calls

end

namespace RtcAgent

section
variable {J : OrgJson} {s : AgentState} {json : J.JSONObject} {label peerId : JString}
  {calls : AgentCalls}

theorem returns_createDataChannel {needAnswer needOffer : Bool} :
    (createDataChannel label needAnswer needOffer calls).Returns s ↔
      ChannelOk s.agent.mLocalPeerConnection.isSome needAnswer needOffer calls := by
  cases hlocal : s.agent.mLocalPeerConnection with
  | none =>
    cases needAnswer <;> cases needOffer <;>
      simp [createDataChannel, newChannel, onLocal, Prog.returns_bind, hlocal, ChannelOk]
  | some connection =>
    cases hchannel : calls.createDataChannel with
    | error e =>
      simp [createDataChannel, newChannel, ask, Prog.returns_bind, Prog.exec_bind, hlocal, hchannel,
        ChannelOk]
    | ok channel =>
      cases channel <;> cases needAnswer <;> cases needOffer <;>
        simp [createDataChannel, newChannel, onLocal, ask, Prog.returns_bind, Prog.exec_bind, hlocal,
          hchannel, ChannelOk]

theorem returns_onLocal {m : Nat → AgentProg Unit} :
    (onLocal m).Returns s ↔
      ∀ connection, s.agent.mLocalPeerConnection = some connection → (m connection).Returns s := by
  cases hlocal : s.agent.mLocalPeerConnection <;> simp [onLocal, hlocal]

/-- A call of the local connection, and then something that asks for it only. -/
theorem returns_onLocal_bind {call : Nat → NativeCall} {x : Except Throwable Unit} {m : AgentProg Unit}
    {p : Bool → Prop} (hm : ∀ s, m.Returns s ↔ p s.agent.mLocalPeerConnection.isSome) :
    ((onLocal fun connection => do ask (call connection); Prog.lift x) >>= fun _ => m).Returns s ↔
      (s.agent.mLocalPeerConnection.isSome = true → x = .ok ()) ∧
        p s.agent.mLocalPeerConnection.isSome := by
  cases hlocal : s.agent.mLocalPeerConnection with
  | none => simp [onLocal, Prog.returns_bind, hm, hlocal]
  | some connection =>
    cases hx : x with
    | error e => simp [onLocal, ask, Prog.returns_bind, Prog.exec_bind, hlocal]
    | ok => simp [onLocal, ask, Prog.returns_bind, Prog.exec_bind, hm, hlocal]

theorem returns_setDescription :
    (setDescription json label calls).Returns s ↔
      DescriptionOk s.agent.mLocalPeerConnection.isSome json calls := by
  unfold setDescription DescriptionOk
  simp only [Prog.returns_lift_bind, ← exists_and_left]
  refine exists_congr fun typeStr => exists_congr fun sdpType => ?_
  refine and_congr_right fun _ => and_congr_right fun _ => ?_
  cases hsdp : has json "sdp" with
  | false => simp
  | true =>
    simp only [if_true, Prog.returns_lift_bind, forall_const]
    refine exists_congr fun sdpStr => and_congr_right fun _ => ?_
    exact returns_onLocal_bind (p := fun hasLocal => ChannelOk hasLocal (sdpType = .offer) false calls)
      fun _ => returns_createDataChannel

theorem getOptional_returns {α : Type} {get : J.JSONObject → String → Except Throwable α}
    {name : String} : (∃ value, getOptional get json name = .ok value) ↔
      (has json name = true → ∃ value, get json name = .ok value) := by
  unfold getOptional
  cases has json name with
  | false => simp
  | true =>
    cases hget : get json name with
    | error e => exact iff_of_false (fun ⟨_, h⟩ => nomatch h) (by simp)
    | ok value => exact iff_of_true ⟨some value, rfl⟩ fun _ => ⟨value, rfl⟩

theorem getOptional_some {α : Type} {get : J.JSONObject → String → Except Throwable α} {name : String}
    {value : α} (hget : get json name = .ok value → has json name = true) :
    getOptional get json name = .ok (some value) ↔ get json name = .ok value := by
  unfold getOptional
  cases hhas : has json name with
  | false =>
    refine iff_of_false (by simp) fun h => ?_
    cases hhas.symm.trans (hget h)
  | true =>
    simp only [if_true]
    cases get json name with
    | error e => exact iff_of_false (fun h => nomatch h) (fun h => nomatch h)
    | ok value =>
      constructor
      · rintro ⟨⟩
        rfl
      · rintro ⟨⟩
        rfl

theorem getOptional_getInt {name : String} {i : Int} :
    getOptional getInt json name = .ok (some i) ↔ getInt json name = .ok i :=
  getOptional_some has_of_getField

theorem getOptional_getString {name : String} {value : JString} :
    getOptional getString json name = .ok (some value) ↔ getString json name = .ok value :=
  getOptional_some has_of_getField

theorem returns_processIceCandidate :
    (processIceCandidate json calls).Returns s ↔
      CandidateOk s.agent.mLocalPeerConnection.isSome json calls := by
  have hadd (sdpMid sdpStr : Option JString) (i : Int) : (onLocal fun connection => do
        ask (.addIceCandidate connection sdpMid i sdpStr)
        Prog.lift calls.addIceCandidate).Returns s ↔
      (s.agent.mLocalPeerConnection.isSome = true → calls.addIceCandidate = .ok ()) := by
    cases hlocal : s.agent.mLocalPeerConnection <;> simp [returns_onLocal, ask, hlocal]
  unfold processIceCandidate CandidateOk
  simp only [Prog.returns_lift_bind]
  constructor
  · rintro ⟨sdpMid, hmid, sdpMLineIndex, hindex, sdpStr, hsdp, h⟩
    cases sdpMLineIndex with
    | none => exact absurd h (Prog.not_returns_throw _)
    | some i =>
      exact ⟨getOptional_returns.mp ⟨_, hmid⟩, ⟨i, getOptional_getInt.mp hindex⟩,
        getOptional_returns.mp ⟨_, hsdp⟩, (hadd _ _ _).mp h⟩
  · rintro ⟨hmid, ⟨i, hindex⟩, hsdp, h⟩
    obtain ⟨sdpMid, hmid⟩ := getOptional_returns.mpr hmid
    obtain ⟨sdpStr, hsdp⟩ := getOptional_returns.mpr hsdp
    exact ⟨sdpMid, hmid, some i, getOptional_getInt.mpr hindex, sdpStr, hsdp, (hadd _ _ _).mpr h⟩

/-- `processMessage` returns for a description or a candidate. -/
theorem returns_processMessage :
    (processMessage json peerId calls).Returns s ↔
      if has json "type" then DescriptionOk s.agent.mLocalPeerConnection.isSome json calls
      else CandidateOk s.agent.mLocalPeerConnection.isSome json calls := by
  unfold processMessage
  split
  · exact returns_setDescription
  · exact returns_processIceCandidate

end

-- ---------------------------------------------------------------------------
-- Programs that only ask
-- ---------------------------------------------------------------------------

section
variable {J : OrgJson} {R : AgentState → AgentState → Prop} [IsPreorder AgentState R]

theorem within_onLocal {m : Nat → AgentProg Unit} (hm : ∀ connection, (m connection).Within R) :
    (onLocal m).Within R := by
  refine Prog.within_get.bind fun s => ?_
  cases s.agent.mLocalPeerConnection with
  | none => exact Prog.within_pure ()
  | some connection => exact hm connection

/-- A call of the local connection. -/
theorem within_call (hask : ∀ call, (ask call).Within R) (call : Nat → NativeCall)
    (x : Except Throwable Unit) :
    (onLocal fun connection => do ask (call connection); Prog.lift x).Within R :=
  within_onLocal fun _ => (hask _).bind fun _ => Prog.within_lift x

theorem within_processIceCandidate (hask : ∀ call, (ask call).Within R) (json : J.JSONObject)
    (calls : AgentCalls) : (processIceCandidate json calls).Within R := by
  refine (Prog.within_lift _).bind fun sdpMid => (Prog.within_lift _).bind fun sdpMLineIndex =>
    (Prog.within_lift _).bind fun sdpStr => ?_
  cases sdpMLineIndex with
  | none => exact Prog.within_throw _
  | some i => exact within_call hask _ _

/-- What is done once the channel is set. -/
theorem within_useChannel (hask : ∀ call, (ask call).Within R) (channel needAnswer needOffer : Bool)
    (calls : AgentCalls) :
    (do
      if channel then
        Prog.lift calls.registerObserver
      if needAnswer then
        onLocal fun connection => do
          ask (.createAnswer connection)
          Prog.lift calls.createDescription
      else if needOffer then
        onLocal fun connection => do
          ask (.createOffer connection)
          Prog.lift calls.createDescription : AgentProg Unit).Within R := by
  have hanswer : (if needAnswer then onLocal fun connection => do
        ask (.createAnswer connection)
        Prog.lift calls.createDescription
      else if needOffer then onLocal fun connection => do
        ask (.createOffer connection)
        Prog.lift calls.createDescription
      else pure () : AgentProg Unit).Within R :=
    .ite (within_call hask _ _) (.ite (within_call hask _ _) (Prog.within_pure ()))
  exact .ite ((Prog.within_lift _).bind fun _ => hanswer) hanswer

theorem within_createDataChannel (hask : ∀ call, (ask call).Within R)
    (hset : ∀ channel, (modify fun s => { s with agent := { s.agent with
      mSendDataChannel := channel } } : AgentProg Unit).Within R)
    (label : JString) (needAnswer needOffer : Bool) (calls : AgentCalls) :
    (createDataChannel label needAnswer needOffer calls).Within R := by
  have hnew : (newChannel label calls).Within R := by
    refine Prog.within_get.bind fun s => ?_
    cases s.agent.mLocalPeerConnection with
    | none => exact Prog.within_pure false
    | some connection => exact (hask _).bind fun _ => Prog.within_lift _
  exact hnew.bind fun channel => (hset channel).bind fun _ =>
    within_useChannel hask channel needAnswer needOffer calls

end

-- ---------------------------------------------------------------------------
-- The steps of `initialize`
-- ---------------------------------------------------------------------------

/-- The first step of `initialize`. -/
def prepare (mIceConfigs : List RtcIceConfig) (calls : AgentCalls) : AgentProg Unit := do
  if !(← get).webrtc.mPeerConnectionInited then
    initFactory mIceConfigs calls

/-- The last step of `initialize`. -/
def describe {J : OrgJson} (label : JString) (role : RtcRole) (sdpParam : Option J.JSONObject)
    (calls : AgentCalls) : AgentProg Unit :=
  match role, sdpParam with
  | .rtcAcceptor, some sdpParam => if has sdpParam "type" then setDescription sdpParam label calls else pure ()
  | .rtcAcceptor, none => pure ()
  | .rtcInitiator, _ => createDataChannel label false true calls

section
variable {J : OrgJson} {s : AgentState} {label : JString} {role : RtcRole}
  {sdpParam : Option J.JSONObject} {mIceConfigs : List RtcIceConfig} {calls : AgentCalls}

theorem initializeAgent_eq :
    initializeAgent label role sdpParam mIceConfigs calls = (do
      prepare mIceConfigs calls
      createPeerConnection calls
      describe label role sdpParam calls) := by
  unfold initializeAgent prepare
  rw [bind_assoc]
  refine bind_congr fun s => ?_
  cases role <;> cases sdpParam <;> cases s.webrtc.mPeerConnectionInited <;> rfl

theorem returns_describe :
    (describe label role sdpParam calls).Returns s ↔
      DescribeOk s.agent.mLocalPeerConnection.isSome role sdpParam calls := by
  cases role with
  | rtcInitiator => exact returns_createDataChannel
  | rtcAcceptor =>
    cases sdpParam with
    | none => simp [describe, DescribeOk]
    | some json =>
      cases htype : has json "type" with
      | false => simp [describe, DescribeOk, htype]
      | true => simp [describe, DescribeOk, htype, returns_setDescription]

/-- Whether there is a factory behind the first step. -/
def HasFactory (w : Webrtc) : Bool := !w.mPeerConnectionInited || w.mPeerConnectionFactory.isSome

/-- What a creation yields. -/
def created (factory : Bool) (call : Except Throwable Bool) : Except Throwable Bool :=
  if factory then call else .ok false

/-- `initialize` returns for a new agent. -/
def InitializeOk (w : Webrtc) (role : RtcRole) (sdpParam : Option J.JSONObject) (calls : AgentCalls) :
    Prop :=
  (w.mPeerConnectionInited = false →
    calls.initializeFactory = .ok () ∧ calls.createFactory = .ok ()) ∧
  ∃ createdLocal createdRemote, created (HasFactory w) calls.createLocal = .ok createdLocal ∧
    created (HasFactory w) calls.createRemote = .ok createdRemote ∧
    DescribeOk createdLocal role sdpParam calls

theorem exec_newConnection_eq (call : Except Throwable Bool) :
    (∃ e w, created s.webrtc.mPeerConnectionFactory.isSome call = .error e ∧
      (newConnection call).exec s = (.error e, { s with webrtc := w })) ∨
    ∃ connection w, created s.webrtc.mPeerConnectionFactory.isSome call = .ok connection.isSome ∧
      w.mPeerConnectionFactory = s.webrtc.mPeerConnectionFactory ∧
      (newConnection call).exec s = (.ok connection, { s with webrtc := w }) := by
  cases hfactory : s.webrtc.mPeerConnectionFactory with
  | none =>
    refine .inr ⟨none, s.webrtc, rfl, hfactory, ?_⟩
    simp [newConnection, Prog.exec_bind, hfactory]
  | some factory =>
    rcases hcall : call with e | made
    · refine .inl ⟨e, { s.webrtc with given := s.webrtc.given ++ [s.webrtc.mIceServers] }, rfl, ?_⟩
      simp [newConnection, Prog.exec_bind, hfactory]
    · cases made with
      | false =>
        refine .inr ⟨none, { s.webrtc with given := s.webrtc.given ++ [s.webrtc.mIceServers] }, rfl, hfactory, ?_⟩
        simp [newConnection, Prog.exec_bind, hfactory]
      | true =>
        refine .inr ⟨some s.webrtc.connections.created, { s.webrtc with
          given := s.webrtc.given ++ [s.webrtc.mIceServers]
          connections := s.webrtc.connections.create
          factoryOf := Function.update s.webrtc.factoryOf s.webrtc.connections.created factory },
          rfl, hfactory, ?_⟩
        simp [newConnection, Prog.exec_bind, Prog.exec_map, hfactory]

/-- Both connections are created, and then something asks for the local one only. -/
theorem returns_createPeerConnection_bind {m : AgentProg Unit} {p : Bool → Prop}
    (hm : ∀ s, m.Returns s ↔ p s.agent.mLocalPeerConnection.isSome) :
    (createPeerConnection calls >>= fun _ => m).Returns s ↔
      ∃ createdLocal createdRemote,
        created s.webrtc.mPeerConnectionFactory.isSome calls.createLocal = .ok createdLocal ∧
        created s.webrtc.mPeerConnectionFactory.isSome calls.createRemote = .ok createdRemote ∧
        p createdLocal := by
  rcases exec_newConnection_eq (s := s) calls.createLocal with ⟨e, w, hlocal, hexec⟩ |
    ⟨connection, w, hlocal, hfactory, hexec⟩
  · simp [createPeerConnection, Prog.returns_bind, hexec, hlocal]
  · rcases exec_newConnection_eq
      (s := ⟨{ s.agent with mLocalPeerConnection := connection }, w⟩) calls.createRemote with
      ⟨e, w', hremote, hexec'⟩ | ⟨connection', w', hremote, -, hexec'⟩
    · rw [← hfactory] at hlocal ⊢
      simp [createPeerConnection, Prog.returns_bind, hexec, hexec', hremote]
    · rw [← hfactory] at hlocal ⊢
      simp [createPeerConnection, Prog.returns_bind, hexec, hexec', hlocal, hremote, hm]

theorem returns_initializeAgent (s : AgentState) (label : JString) (role : RtcRole)
    (sdpParam : Option J.JSONObject) (mIceConfigs : List RtcIceConfig) (calls : AgentCalls) :
    (initializeAgent label role sdpParam mIceConfigs calls).Returns s ↔
      InitializeOk s.webrtc role sdpParam calls := by
  have hrest (s : AgentState) : (createPeerConnection calls >>= fun _ =>
      describe label role sdpParam calls).Returns s ↔ ∃ createdLocal createdRemote,
        created s.webrtc.mPeerConnectionFactory.isSome calls.createLocal = .ok createdLocal ∧
        created s.webrtc.mPeerConnectionFactory.isSome calls.createRemote = .ok createdRemote ∧
        DescribeOk createdLocal role sdpParam calls :=
    returns_createPeerConnection_bind (p := fun hasLocal => DescribeOk hasLocal role sdpParam calls)
      fun _ => returns_describe
  rw [initializeAgent_eq]
  cases hinited : s.webrtc.mPeerConnectionInited with
  | true => simp [prepare, Prog.returns_bind, hinited, hrest, InitializeOk, HasFactory]
  | false =>
    cases hfirst : calls.initializeFactory with
    | error e =>
      simp [prepare, initFactory, Prog.returns_bind, Prog.exec_bind, hinited, InitializeOk, hfirst]
    | ok =>
      cases hsecond : calls.createFactory with
      | error e =>
        simp [prepare, initFactory, Prog.returns_bind, Prog.exec_bind, hinited, InitializeOk, hfirst, hsecond]
      | ok =>
        simp [prepare, initFactory, Prog.returns_bind, Prog.exec_bind, hinited, hrest, InitializeOk,
          HasFactory, hfirst, hsecond]

end

end RtcAgent

end SmartSocks.Rtc
