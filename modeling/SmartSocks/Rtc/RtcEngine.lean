import SmartSocks.Rtc.RtcAgentContainer
import SmartSocks.Rtc.RtcSignalling

/-!
# `RtcEngine`

The text messages of the signalling server. A command changes the map of the
peers, and any other message is for the agents. Only the envelope is read under
a `catch`; what it holds is read with getters that throw.
-/

namespace SmartSocks.Rtc

open Jvm OrgJson

structure RtcPeer where
  mPeerID : JString
  deriving DecidableEq

/-- The three companion objects. -/
structure RtcEngine where
  signalling : RtcSignalling := {}
  mPeerMap : Finmap fun _ : JString => RtcPeer := ∅
  mRtcIceConfigs : List RtcIceConfig := []
  agents : RtcAgentContainer := {}

abbrev EngineProg (α : Type) := Prog RtcEngine α

namespace RtcEngine

/-- `mRtcSignallingConfig?.mMyPeerName` -/
def me (s : RtcEngine) : Option JString := s.signalling.mRtcSignallingConfig.map (·.mMyPeerName)

-- ---------------------------------------------------------------------------
-- The listener
-- ---------------------------------------------------------------------------

def onPeerList (peerList : List RtcPeer) (s : RtcEngine) : RtcEngine :=
  { s with mPeerMap := peerList.foldl (fun mPeerMap peer => mPeerMap.insert peer.mPeerID peer) ∅ }

def onAddPeer (peer : RtcPeer) (s : RtcEngine) : RtcEngine :=
  if peer.mPeerID ∈ s.mPeerMap then s
  else { s with mPeerMap := s.mPeerMap.insert peer.mPeerID peer }

def onDelPeer (peer : RtcPeer) (s : RtcEngine) : RtcEngine :=
  { s with
    mPeerMap := s.mPeerMap.erase peer.mPeerID
    agents := s.agents.delPeer peer.mPeerID }

variable {J : OrgJson}

def onMiscMsg (msgJSONObject : J.JSONObject) (calls : AgentCalls) : EngineProg Unit := do
  let s ← get
  Prog.on (·.agents) (fun agents s => { s with agents })
    (RtcAgentContainer.processMessage s.me msgJSONObject s.mRtcIceConfigs calls)

-- ---------------------------------------------------------------------------
-- The messages
-- ---------------------------------------------------------------------------

/-- `replace("\"", "")` -/
def unquote (peerID : JString) : JString := peerID.remove JString.quotation

/-- The list without its brackets, split and unquoted, without the own name. -/
def peersOf (me : Option JString) (str : JString) : List RtcPeer :=
  ((str.splitOn JString.comma).filter fun it => some (unquote it) ≠ me).map
    fun it => ⟨unquote it⟩

def processPeerList (peerListStr : JString) : EngineProg Unit := do
  let str ← Prog.lift (peerListStr.substring 1 (peerListStr.length - 1))
  modify fun s =>
    let rtcPeerList := peersOf s.me str
    if 0 < rtcPeerList.length then s.onPeerList rtcPeerList else s

def processAddPeer (peerID : JString) (s : RtcEngine) : RtcEngine :=
  if some (unquote peerID) ≠ s.me then s.onAddPeer ⟨unquote peerID⟩ else s

def processDelPeer (peerID : JString) (s : RtcEngine) : RtcEngine :=
  if some (unquote peerID) ≠ s.me then s.onDelPeer ⟨unquote peerID⟩ else s

/-- The `try` of `getSignallingMessage`. -/
def openEnvelope (J : OrgJson) (payload : JString) : Except Throwable (Option J.JSONObject) := do
  let jsonObject ← J.ofText payload
  if has jsonObject "msg" && has jsonObject "error" then
    if (← getString jsonObject "error") = [] then
      return some (← J.ofText (← getString jsonObject "msg"))
  return none

/-- What is inside the envelope; a `JSONException` is caught. -/
def getSignallingMessage (J : OrgJson) (payload : JString) : Except Throwable (Option J.JSONObject) :=
  match openEnvelope J payload with
  | .error .json => .ok none
  | message => message

/-- `true` says that the message was a command. -/
def processSignallingCommand (J : OrgJson) (cmdJson : JString) :
    EngineProg (Bool × Option J.JSONObject) := do
  match ← Prog.lift (getSignallingMessage J cmdJson) with
  | none => return (false, none)
  | some msgJSONObject =>
    if has msgJSONObject "cmd" then
      let cmd ← Prog.lift (getString msgJSONObject "cmd")
      if cmd = lit "peer_list" then
        processPeerList (← Prog.lift (getString msgJSONObject "peers"))
        return (true, none)
      else if cmd = lit "add_peer" then
        let id ← Prog.lift (getString msgJSONObject "id")
        modify (processAddPeer id)
        return (true, none)
      else if cmd = lit "del_peer" then
        let id ← Prog.lift (getString msgJSONObject "id")
        modify (processDelPeer id)
        return (true, none)
      else return (false, some msgJSONObject)
    else return (false, some msgJSONObject)

def onTextMessage (J : OrgJson) (payload : JString) (calls : AgentCalls) : EngineProg Unit := do
  let (consumed, msgJsonObject) ← processSignallingCommand J payload.trim
  if !consumed then
    match msgJsonObject with
    | none => return ()
    | some msgJsonObject => onMiscMsg msgJsonObject calls

section
variable {payload : JString} {m : J.JSONObject} {calls : AgentCalls} {s : RtcEngine}

/-- What is done with a message from the envelope. -/
def dispatch (m : J.JSONObject) (calls : AgentCalls) : EngineProg Unit :=
  if has m "cmd" then do
    let cmd ← Prog.lift (getString m "cmd")
    if cmd = lit "peer_list" then
      processPeerList (← Prog.lift (getString m "peers"))
    else if cmd = lit "add_peer" then
      let id ← Prog.lift (getString m "id")
      modify (processAddPeer id)
    else if cmd = lit "del_peer" then
      let id ← Prog.lift (getString m "id")
      modify (processDelPeer id)
    else onMiscMsg m calls
  else onMiscMsg m calls

theorem exec_onTextMessage (hmessage : getSignallingMessage J payload.trim = .ok (some m)) :
    (onTextMessage J payload calls).exec s = (dispatch m calls).exec s := by
  unfold onTextMessage processSignallingCommand dispatch
  simp only [Prog.exec_bind, hmessage, Prog.exec_lift]
  cases hcmd : has m "cmd" with
  | false => simp
  | true =>
    simp only [if_true, Prog.exec_bind, Prog.exec_lift]
    rcases getString m "cmd" with e | cmd
    · rfl
    dsimp only
    by_cases hpeers : cmd = lit "peer_list"
    · rw [if_pos hpeers, if_pos hpeers]
      simp only [Prog.exec_bind, Prog.exec_lift]
      rcases getString m "peers" with e | text
      · rfl
      · dsimp only
        rcases (processPeerList text).exec s with ⟨e | ⟨⟩, t⟩ <;> rfl
    rw [if_neg hpeers, if_neg hpeers]
    by_cases hadd : cmd = lit "add_peer"
    · rw [if_pos hadd, if_pos hadd]
      simp only [Prog.exec_bind, Prog.exec_lift]
      rcases getString m "id" with e | id <;> rfl
    rw [if_neg hadd, if_neg hadd]
    by_cases hdel : cmd = lit "del_peer"
    · rw [if_pos hdel, if_pos hdel]
      simp only [Prog.exec_bind, Prog.exec_lift]
      rcases getString m "id" with e | id <;> rfl
    · rw [if_neg hdel, if_neg hdel]
      rfl

end

-- ---------------------------------------------------------------------------
-- What becomes of the peers
-- ---------------------------------------------------------------------------

section
variable {s : RtcEngine} {id : JString} {peerList : List RtcPeer}

theorem lookup_onPeerList : (s.onPeerList peerList).mPeerMap.lookup id =
    if ⟨id⟩ ∈ peerList then some ⟨id⟩ else none := by
  have hfold (m : Finmap fun _ : JString => RtcPeer) :
      (peerList.foldl (fun m peer => m.insert peer.mPeerID peer) m).lookup id =
        if ⟨id⟩ ∈ peerList then some ⟨id⟩ else m.lookup id := by
    induction peerList generalizing m with
    | nil => rfl
    | cons peer peerList ih =>
      rw [List.foldl_cons, ih]
      by_cases hmem : ⟨id⟩ ∈ peerList
      · simp [hmem]
      · obtain ⟨mPeerID⟩ := peer
        by_cases heq : id = mPeerID
        · subst heq
          simp [hmem]
        · simp [hmem, heq, Finmap.lookup_insert_of_ne]
  exact hfold ∅

theorem keys_onPeerList : (s.onPeerList peerList).mPeerMap.keys =
    (peerList.map (·.mPeerID)).toFinset := by
  ext id
  rw [Finmap.mem_keys, ← Finmap.lookup_isSome, lookup_onPeerList, List.mem_toFinset, List.mem_map]
  constructor
  · intro h
    by_cases hmem : ⟨id⟩ ∈ peerList
    · exact ⟨⟨id⟩, hmem, rfl⟩
    · simp [hmem] at h
  · rintro ⟨peer, hmem, rfl⟩
    simp [hmem]

theorem keys_onAddPeer : (s.onAddPeer ⟨id⟩).mPeerMap.keys = insert id s.mPeerMap.keys := by
  unfold onAddPeer
  split
  · next h => exact (Finset.insert_eq_of_mem (Finmap.mem_keys.mpr h)).symm
  · ext other
    simp only [Finmap.mem_keys, Finmap.mem_insert, Finset.mem_insert]

theorem keys_onDelPeer : (s.onDelPeer ⟨id⟩).mPeerMap.keys = s.mPeerMap.keys.erase id :=
  Finmap.keys_erase id s.mPeerMap

end

-- ---------------------------------------------------------------------------
-- Payloads
-- ---------------------------------------------------------------------------

/-- A message in its envelope. -/
def envelope (message : List (JString × JString)) : List (JString × JString) :=
  [(lit "error", []), (lit "msg", objectText message)]

/-- The library on the payloads of some messages. -/
def jsonOf (messages : List (List (JString × JString))) : OrgJson :=
  .ofTable ((RtcSignalling.bye, [(lit "type", lit "bye")]) :: messages.flatMap fun message =>
    [(objectText (envelope message), envelope message), (objectText message, message)])

end RtcEngine

end SmartSocks.Rtc
