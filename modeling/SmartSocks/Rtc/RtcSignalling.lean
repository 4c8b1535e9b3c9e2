import SmartSocks.Jvm.JString
import SmartSocks.Library.Machine
import Mathlib.Logic.Function.Basic

/-!
# `RtcSignalling`

The connection to the signalling server. The observer of a connection does not
say which connection it observes: `onOpen` and `onClose` change the one state,
and `register` sends on the connection that is the current one by then. The
state tells the truth as long as these callbacks come from the current
connection, or find the state they would set, and none opens it behind
`destroy`.
-/

namespace SmartSocks.Rtc

open Jvm

structure RtcSignallingConfig where
  mRtcSignallingHost : JString
  mRtcSignallingPort : Int
  mRoomId : JString := lit "smartsocks"
  mMyPeerName : JString

inductive RtcSignallingState
  | idle
  | connecting
  | connected
  | registered
  | disconnected
  | closed
  deriving DecidableEq, Repr

/-- The fields of a message to the server. -/
abbrev Fields := List (String × JString)

/-- `JSONObject.put` of a new field; `null` is not put. -/
def Fields.put (json : Fields) (name : String) (value : Option JString) : Fields :=
  match value with
  | none => json
  | some value => json ++ [(name, value)]

/-- The companion object, with what it has asked of its connections. -/
structure RtcSignalling where
  mRtcSignallingConfig : Option RtcSignallingConfig := none
  mWebSocketConnection : Option Nat := none
  mSignallingState : RtcSignallingState := .idle
  /-- The messages that were sent, each on its connection. -/
  sent : List (Nat × Fields) := []
  /-- The calls of `disconnect`. -/
  disconnected : List Nat := []
  /-- The URLs of the `DELETE` requests. -/
  deleted : List JString := []

namespace RtcSignalling

/-- `mWebSocketConnection?.sendTextMessage` -/
def sendTextMessage (json : Fields) (s : RtcSignalling) : RtcSignalling :=
  match s.mWebSocketConnection with
  | none => s
  | some connection => { s with sent := s.sent ++ [(connection, json)] }

/-- `mWebSocketConnection?.disconnect()` -/
def disconnect (s : RtcSignalling) : RtcSignalling :=
  match s.mWebSocketConnection with
  | none => s
  | some connection => { s with disconnected := s.disconnected ++ [connection] }

/-- The message that joins the room. -/
def registration (s : RtcSignalling) : Fields :=
  (Fields.put [("cmd", lit "register")] "roomid" (s.mRtcSignallingConfig.map (·.mRoomId))).put
    "clientid" (s.mRtcSignallingConfig.map (·.mMyPeerName))

def register (s : RtcSignalling) : RtcSignalling :=
  { s.sendTextMessage s.registration with mSignallingState := .registered }

/-- The observer's `onOpen`, of whatever connection. -/
def onOpen (s : RtcSignalling) : RtcSignalling :=
  register { s with mSignallingState := .connected }

def onClose (s : RtcSignalling) : RtcSignalling := { s with mSignallingState := .closed }

/-- The call of `initialize` goes past its first test. -/
def Effective (s : RtcSignalling) : Prop :=
  ¬ (s.mSignallingState = .connected ∨ s.mSignallingState = .connecting)

instance (s : RtcSignalling) : Decidable s.Effective := inferInstanceAs (Decidable (¬ (_ ∨ _)))

/-- `initialize`, where `connection` is the new `WebSocketConnection`. -/
def initializeWith (config : RtcSignallingConfig) (connection : Nat) (s : RtcSignalling) : RtcSignalling :=
  if s.Effective then
    { s with
      mRtcSignallingConfig := some config
      mWebSocketConnection := some connection
      mSignallingState := .connecting }
  else s

/-- A field of the configuration in a string. -/
def shown (field : RtcSignallingConfig → JString) (s : RtcSignalling) : JString :=
  (s.mRtcSignallingConfig.map field).getD (lit "null")

/-- The URL of the session in the room. -/
def deleteUrl (s : RtcSignalling) : JString :=
  lit "http://" ++ s.shown (·.mRtcSignallingHost) ++ lit ":" ++
    s.shown (fun config => lit (toString config.mRtcSignallingPort)) ++ lit "/" ++
    s.shown (·.mRoomId) ++ lit "/" ++ s.shown (·.mMyPeerName)

def bye : JString := lit "\x7b\"type\": \"bye\"\x7d"

/-- `destroy` of a registered client, up to the `DELETE` request. -/
def leave (s : RtcSignalling) : RtcSignalling :=
  let s := sendTextMessage [("cmd", lit "send"), ("msg", bye)] { s with mSignallingState := .connected }
  { s with deleted := s.deleted ++ [s.deleteUrl] }

def destroy (s : RtcSignalling) : RtcSignalling :=
  if s.mSignallingState = .disconnected ∨ s.mSignallingState = .idle then s
  else
    let s := if s.mSignallingState = .registered then s.leave else s
    let s := if s.mSignallingState = .connected then
      { s.disconnect with mSignallingState := .disconnected } else s
    if s.mSignallingState ≠ .closed then { s with mSignallingState := .closed } else s

def sendToPeer (peerID msg : Option JString) (s : RtcSignalling) : RtcSignalling :=
  if s.mSignallingState ≠ .registered then s
  else
    s.sendTextMessage
      ((Fields.put [("cmd", lit "send")] "targetid" peerID).put "msg" msg)

def sendToAll (msg : Option JString) (s : RtcSignalling) : RtcSignalling :=
  if s.mSignallingState ≠ .registered then s
  else s.sendTextMessage (Fields.put [("cmd", lit "send")] "msg" msg)

end RtcSignalling

-- ---------------------------------------------------------------------------
-- The connections
-- ---------------------------------------------------------------------------

/-- What has become of a connection. -/
inductive Link
  | connecting
  | opened
  | closed
  deriving DecidableEq

inductive SignallingEvent
  | initializeWith (config : RtcSignallingConfig)
  | destroy
  | onOpen (connection : Nat)
  | onClose (connection : Nat)
  | sendToPeer (peerID msg : Option JString)
  | sendToAll (msg : Option JString)

/-- The connection of a callback. -/
def SignallingEvent.connection : SignallingEvent → Option Nat
  | .onOpen connection => some connection
  | .onClose connection => some connection
  | _ => none

/-- The client, and all the connections it has ever created. -/
structure Client where
  signalling : RtcSignalling := {}
  created : Nat := 0
  link : Nat → Link := fun _ => .connecting
  /-- `destroy` was called since the last effective `initialize`. -/
  destroyed : Bool := false

namespace Client

/-- A connection opens at most once, and not after it has closed. -/
def step (s : Client) : SignallingEvent → Option Client
  | .initializeWith config =>
    if s.signalling.Effective then
      some {
        signalling := s.signalling.initializeWith config s.created
        created := s.created + 1
        link := Function.update s.link s.created .connecting
        destroyed := false }
    else some { s with signalling := s.signalling.initializeWith config s.created }
  | .destroy => some { s with signalling := s.signalling.destroy, destroyed := true }
  | .onOpen connection =>
    if connection < s.created ∧ s.link connection = .connecting then
      some { s with
        signalling := s.signalling.onOpen
        link := Function.update s.link connection .opened }
    else none
  | .onClose connection =>
    if connection < s.created ∧ s.link connection ≠ .closed then
      some { s with
        signalling := s.signalling.onClose
        link := Function.update s.link connection .closed }
    else none
  | .sendToPeer peerID msg => some { s with signalling := s.signalling.sendToPeer peerID msg }
  | .sendToAll msg => some { s with signalling := s.signalling.sendToAll msg }

/-- The connection of the last effective `initialize` is open, and the client was
not destroyed since. -/
def Serving (s : Client) : Prop :=
  ∃ connection, s.signalling.mWebSocketConnection = some connection ∧
    s.link connection = .opened ∧ s.destroyed = false

/-- A step that keeps the state true: a callback of a superseded connection
changes nothing, and a client that was destroyed sends nothing. -/
structure Truthful (s : Client) (e : SignallingEvent) (t : Client) : Prop where
  truth : t.signalling.mSignallingState = .registered ↔ t.Serving
  superseded : ∀ connection, e.connection = some connection →
    s.signalling.mWebSocketConnection ≠ some connection →
      t.signalling.mSignallingState = s.signalling.mSignallingState
  silent : s.destroyed = true → t.destroyed = true → t.signalling.sent = s.signalling.sent

/-- The condition on a step. -/
def OwnCallback (s : Client) : SignallingEvent → Prop
  | .onOpen connection => s.signalling.mSignallingState = .registered ∨
    s.signalling.mWebSocketConnection = some connection ∧ s.destroyed = false
  | .onClose connection => s.signalling.mWebSocketConnection = some connection ∨
    s.signalling.mSignallingState = .closed
  | _ => True

instance (s : Client) : DecidablePred s.OwnCallback
  | .onOpen _ => inferInstanceAs (Decidable (_ ∨ _ ∧ _))
  | .onClose _ => inferInstanceAs (Decidable (_ ∨ _))
  | .initializeWith _ | .destroy | .sendToPeer .. | .sendToAll _ => inferInstanceAs (Decidable True)

end Client

-- ---------------------------------------------------------------------------
-- What the calls leave as it was
-- ---------------------------------------------------------------------------

namespace RtcSignalling

variable (s : RtcSignalling)

@[simp] theorem sendTextMessage_connection (json : Fields) :
    (s.sendTextMessage json).mWebSocketConnection = s.mWebSocketConnection := by
  unfold sendTextMessage
  split <;> rfl

@[simp] theorem sendTextMessage_state (json : Fields) :
    (s.sendTextMessage json).mSignallingState = s.mSignallingState := by
  unfold sendTextMessage
  split <;> rfl

@[simp] theorem disconnect_connection : s.disconnect.mWebSocketConnection = s.mWebSocketConnection := by
  unfold disconnect
  split <;> rfl

@[simp] theorem onOpen_connection : s.onOpen.mWebSocketConnection = s.mWebSocketConnection := by
  simp [onOpen, register]

@[simp] theorem onOpen_state : s.onOpen.mSignallingState = .registered := rfl

@[simp] theorem leave_connection : s.leave.mWebSocketConnection = s.mWebSocketConnection := by
  simp [leave]

@[simp] theorem leave_state : s.leave.mSignallingState = .connected := by
  simp [leave]

@[simp] theorem destroy_connection : s.destroy.mWebSocketConnection = s.mWebSocketConnection := by
  cases hstate : s.mSignallingState <;> simp [destroy, hstate]

/-- `destroy` ends in `CLOSED`, whatever it goes through. -/
theorem destroy_state (hidle : s.mSignallingState ≠ .idle)
    (hdisconnected : s.mSignallingState ≠ .disconnected) :
    s.destroy.mSignallingState = .closed := by
  cases hstate : s.mSignallingState with
  | idle => exact absurd hstate hidle
  | disconnected => exact absurd hstate hdisconnected
  | connecting => simp [destroy, hstate]
  | connected => simp [destroy, hstate]
  | registered => simp [destroy, hstate]
  | closed => simp [destroy, hstate]

/-- A client that is not registered says nothing in `destroy`. -/
theorem destroy_sent (h : s.mSignallingState = .closed ∨ s.mSignallingState = .idle) :
    s.destroy.sent = s.sent := by
  rcases h with h | h <;> simp [destroy, h]

@[simp] theorem sendToPeer_connection (peerID msg : Option JString) :
    (s.sendToPeer peerID msg).mWebSocketConnection = s.mWebSocketConnection := by
  simp [sendToPeer, apply_ite mWebSocketConnection]

@[simp] theorem sendToPeer_state (peerID msg : Option JString) :
    (s.sendToPeer peerID msg).mSignallingState = s.mSignallingState := by
  simp [sendToPeer, apply_ite mSignallingState]

@[simp] theorem sendToAll_connection (msg : Option JString) :
    (s.sendToAll msg).mWebSocketConnection = s.mWebSocketConnection := by
  simp [sendToAll, apply_ite mWebSocketConnection]

@[simp] theorem sendToAll_state (msg : Option JString) :
    (s.sendToAll msg).mSignallingState = s.mSignallingState := by
  simp [sendToAll, apply_ite mSignallingState]

end RtcSignalling

-- ---------------------------------------------------------------------------
-- The invariant
-- ---------------------------------------------------------------------------

namespace Client

/-- The state that tells the truth about the current connection. -/
def expected (s : Client) : RtcSignallingState :=
  match s.signalling.mWebSocketConnection with
  | none => .idle
  | some connection =>
    if s.destroyed then .closed
    else
      match s.link connection with
      | .connecting => .connecting
      | .opened => .registered
      | .closed => .closed

structure Honest (s : Client) : Prop where
  state : s.signalling.mSignallingState = s.expected
  created : ∀ connection, s.signalling.mWebSocketConnection = some connection → connection < s.created

section
variable {s t : Client} {e : SignallingEvent}

theorem expected_eq_registered : s.expected = .registered ↔ s.Serving := by
  unfold expected Serving
  cases hconnection : s.signalling.mWebSocketConnection with
  | none => simp
  | some connection =>
    cases hdestroyed : s.destroyed with
    | true => simp
    | false => cases hlink : s.link connection <;> simp [hlink]

theorem Honest.truth (hs : s.Honest) :
    s.signalling.mSignallingState = .registered ↔ s.Serving :=
  hs.state ▸ expected_eq_registered

/-- A client that was destroyed is closed, or was never connected. -/
theorem Honest.destroyed (hs : s.Honest) (h : s.destroyed = true) :
    s.signalling.mSignallingState = .closed ∨ s.signalling.mSignallingState = .idle := by
  rw [hs.state, expected]
  split
  · exact .inr rfl
  · exact .inl (if_pos h)

theorem Honest.ne_disconnected (hs : s.Honest) : s.signalling.mSignallingState ≠ .disconnected := by
  rw [hs.state, expected]
  split
  · nofun
  · split
    · nofun
    · split <;> nofun

theorem expected_update_ne {connection : Nat} (link : Link)
    (h : s.signalling.mWebSocketConnection ≠ some connection) :
    expected { s with link := Function.update s.link connection link } = s.expected := by
  cases hcurrent : s.signalling.mWebSocketConnection with
  | none => simp [expected, hcurrent]
  | some current =>
    have hne : current ≠ connection := fun heq => h (heq ▸ hcurrent)
    simp [expected, hcurrent, Function.update_of_ne hne]

theorem honest_initial : Honest {} := ⟨rfl, nofun⟩

-- ---------------------------------------------------------------------------
-- Steps
-- ---------------------------------------------------------------------------

theorem Honest.initializeWith (config : RtcSignallingConfig) (hs : s.Honest)
    (h : s.step (.initializeWith config) = some t) : t.Honest := by
  simp only [Client.step] at h
  split at h
  case isTrue heffective =>
    cases h
    have hnew : s.signalling.initializeWith config s.created = { s.signalling with
        mRtcSignallingConfig := some config
        mWebSocketConnection := some s.created
        mSignallingState := .connecting } := if_pos heffective
    refine ⟨?_, ?_⟩
    · simp [expected, hnew]
    · rw [hnew]
      rintro connection ⟨⟩
      exact Nat.lt_succ_self _
  case isFalse heffective =>
    cases h
    rw [RtcSignalling.initializeWith, if_neg heffective]
    exact hs

theorem Honest.destroy (hs : s.Honest) :
    Honest { s with signalling := s.signalling.destroy, destroyed := true } where
  state := by
    simp only [expected, RtcSignalling.destroy_connection]
    cases hconnection : s.signalling.mWebSocketConnection with
    | none =>
      have hidle : s.signalling.mSignallingState = .idle := by
        rw [hs.state, expected, hconnection]
      rw [RtcSignalling.destroy, if_pos (.inr hidle)]
      exact hidle
    | some connection =>
      refine RtcSignalling.destroy_state _ ?_ hs.ne_disconnected
      rw [hs.state, expected, hconnection]
      simp only
      split
      · nofun
      · split <;> nofun
  created := by
    rw [RtcSignalling.destroy_connection]
    exact hs.created

theorem Honest.onOpen {connection : Nat} (hs : s.Honest)
    (hown : s.OwnCallback (.onOpen connection)) :
    Honest { s with
      signalling := s.signalling.onOpen
      link := Function.update s.link connection .opened } where
  state := by
    by_cases hcurrent : s.signalling.mWebSocketConnection = some connection
    · have halive : s.destroyed = false := by
        rcases hown with hregistered | ⟨-, halive⟩
        · obtain ⟨-, -, -, halive⟩ := hs.truth.mp hregistered
          exact halive
        · exact halive
      simp [expected, hcurrent, halive]
    · rcases hown with hregistered | ⟨hown, -⟩
      · have hkept := expected_update_ne .opened hcurrent
        rw [← hs.state, hregistered] at hkept
        simpa [expected] using hkept.symm
      · exact absurd hown hcurrent
  created := by
    rw [RtcSignalling.onOpen_connection]
    exact hs.created

theorem Honest.onClose {connection : Nat} (hs : s.Honest)
    (hown : s.OwnCallback (.onClose connection)) :
    Honest { s with
      signalling := s.signalling.onClose
      link := Function.update s.link connection .closed } where
  state := by
    by_cases hcurrent : s.signalling.mWebSocketConnection = some connection
    · simp [expected, RtcSignalling.onClose, hcurrent]
    · rcases hown with hown | hclosed
      · exact absurd hown hcurrent
      · have hkept := expected_update_ne .closed hcurrent
        rw [← hs.state, hclosed] at hkept
        simpa [expected, RtcSignalling.onClose] using hkept.symm
  created := hs.created

/-- Calls that change neither the state nor the connection. -/
theorem Honest.of_eq {signalling : RtcSignalling} (hs : s.Honest)
    (hstate : signalling.mSignallingState = s.signalling.mSignallingState)
    (hconnection : signalling.mWebSocketConnection = s.signalling.mWebSocketConnection) :
    Honest { s with signalling } where
  state := by
    rw [hstate, hs.state, expected, expected, hconnection]
  created := by
    rw [hconnection]
    exact hs.created

theorem honest_step (hs : s.Honest) (hown : s.OwnCallback e) (h : s.step e = some t) : t.Honest := by
  cases e with
  | initializeWith config => exact hs.initializeWith config h
  | destroy =>
    cases h
    exact hs.destroy
  | onOpen connection =>
    simp only [Client.step] at h
    split at h
    · cases h
      exact hs.onOpen hown
    · cases h
  | onClose connection =>
    simp only [Client.step] at h
    split at h
    · cases h
      exact hs.onClose hown
    · cases h
  | sendToPeer peerID msg =>
    cases h
    exact hs.of_eq (by simp) (by simp)
  | sendToAll msg =>
    cases h
    exact hs.of_eq (by simp) (by simp)

theorem Honest.truthful (hs : s.Honest) (hown : s.OwnCallback e) (h : s.step e = some t) :
    s.Truthful e t where
  truth := (honest_step hs hown h).truth
  superseded := by
    intro connection hconnection hcurrent
    cases e with
    | onOpen _ =>
      cases hconnection
      simp only [Client.step, Option.ite_none_right_eq_some, Option.some.injEq] at h
      obtain ⟨-, rfl⟩ := h
      rcases hown with hregistered | ⟨hown, -⟩
      · exact hregistered.symm
      · exact absurd hown hcurrent
    | onClose _ =>
      cases hconnection
      simp only [Client.step, Option.ite_none_right_eq_some, Option.some.injEq] at h
      obtain ⟨-, rfl⟩ := h
      rcases hown with hown | hclosed
      · exact absurd hown hcurrent
      · exact hclosed.symm
    | _ => cases hconnection
  silent := by
    intro hdestroyed hstill
    have hquiet := hs.destroyed hdestroyed
    have hregistered : s.signalling.mSignallingState ≠ .registered := by
      rcases hquiet with hstate | hstate <;> simp [hstate]
    cases e with
    | initializeWith config =>
      simp only [Client.step] at h
      split at h
      · cases h
        cases hstill
      · next heffective =>
        cases h
        simp [RtcSignalling.initializeWith, heffective]
    | destroy =>
      cases h
      exact s.signalling.destroy_sent hquiet
    | onOpen connection =>
      rcases hown with hopen | ⟨-, halive⟩
      · exact absurd hopen hregistered
      · cases hdestroyed.symm.trans halive
    | onClose connection =>
      simp only [Client.step, Option.ite_none_right_eq_some, Option.some.injEq] at h
      obtain ⟨-, rfl⟩ := h
      rfl
    | sendToPeer peerID msg =>
      cases h
      simp [RtcSignalling.sendToPeer, hregistered]
    | sendToAll msg =>
      cases h
      simp [RtcSignalling.sendToAll, hregistered]

/-- Only these steps are truthful. -/
theorem Truthful.own (h : s.step e = some t) (htruthful : s.Truthful e t) : s.OwnCallback e := by
  cases e with
  | onOpen connection =>
    simp only [Client.step, Option.ite_none_right_eq_some, Option.some.injEq] at h
    obtain ⟨-, rfl⟩ := h
    by_cases hcurrent : s.signalling.mWebSocketConnection = some connection
    · obtain ⟨-, -, -, halive⟩ := htruthful.truth.mp rfl
      exact .inr ⟨hcurrent, halive⟩
    · exact .inl (htruthful.superseded connection rfl hcurrent).symm
  | onClose connection =>
    simp only [Client.step, Option.ite_none_right_eq_some, Option.some.injEq] at h
    obtain ⟨-, rfl⟩ := h
    by_cases hcurrent : s.signalling.mWebSocketConnection = some connection
    · exact .inl hcurrent
    · exact .inr (htruthful.superseded connection rfl hcurrent).symm
  | _ => trivial

theorem ownCallback_iff (hs : s.Honest) (h : s.step e = some t) :
    s.OwnCallback e ↔ ∀ t, s.step e = some t → s.Truthful e t := by
  constructor
  · exact fun hown t ht => hs.truthful hown ht
  · exact fun htruthful => (htruthful t h).own h

end

end Client

open Client

/-- The steps of a run keep the state true just when all callbacks meet the
condition. -/
theorem signalling_truthful_iff (events : List SignallingEvent) (s : Client)
    (hrun : Machine.run Client.step {} events = some s) :
    Machine.Guarded Client.step (fun s e => ∀ t, s.step e = some t → s.Truthful e t) {} events ↔
      Machine.Guarded Client.step OwnCallback {} events :=
  (Machine.guarded_congr (fun _ _ _ => honest_step) (fun _ _ _ => ownCallback_iff) honest_initial
    hrun).symm

def sampleConfig : RtcSignallingConfig where
  mRtcSignallingHost := lit "host"
  mRtcSignallingPort := 8089
  mMyPeerName := lit "me"

/-- A client that joins, leaves and joins again. -/
def sampleSession : List SignallingEvent :=
  [.initializeWith sampleConfig, .onOpen 0, .sendToAll (some (lit "hello")), .destroy, .onClose 0,
    .initializeWith sampleConfig, .onOpen 1]

theorem sampleSession_truthful :
    (Machine.run Client.step {} sampleSession).map (·.signalling.mSignallingState) = some .registered ∧
      Machine.Guarded Client.step (fun s e => ∀ t, s.step e = some t → s.Truthful e t) {}
        sampleSession := by
  have hstate : (Machine.run Client.step {} sampleSession).map (·.signalling.mSignallingState) =
      some .registered := by decide
  obtain ⟨s, hrun, -⟩ := Option.map_eq_some_iff.mp hstate
  exact ⟨hstate, (signalling_truthful_iff sampleSession s hrun).mpr (by decide)⟩

/-- A client that is destroyed while it connects is registered by the late
`onOpen`, and says so; the late `onClose` of the connection before takes the state
of the current one away. -/
theorem signalling_untruthful :
    (Machine.run Client.step {} [.initializeWith sampleConfig, .destroy, .onOpen 0]).map
      (fun s => (s.signalling.mSignallingState, s.destroyed)) = some (.registered, true) ∧
    (Machine.run Client.step {} [.initializeWith sampleConfig, .destroy, .onOpen 0]).map
      (·.signalling.sent) = some [(0, [("cmd", lit "register"), ("roomid", lit "smartsocks"),
        ("clientid", lit "me")])] ∧
    (Machine.run Client.step {} [.initializeWith sampleConfig, .onOpen 0,
        .initializeWith sampleConfig, .onOpen 1, .onClose 0]).map
      (fun s => (s.signalling.mSignallingState, s.signalling.mWebSocketConnection, s.link 1)) =
      some (.closed, some 1, .opened) := by
  refine ⟨?_, ?_, ?_⟩
  · decide
  · decide
  · decide

end SmartSocks.Rtc
