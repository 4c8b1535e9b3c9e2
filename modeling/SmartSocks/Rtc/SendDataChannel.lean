import SmartSocks.Library.Machine
import SmartSocks.Rtc.Harmless

/-!
# The channel that an agent sends on

Every session description replaces `mSendDataChannel`, and every observer asks the
channel that is stored by then. The flag for `send` is set by the first observer
that finds it open, and nothing takes it back: from then on the agent sends on
whatever is stored. It sends on open channels only, as long as the stored one stays
open and no other takes its place before it is open itself.
-/

namespace SmartSocks.Rtc

open Jvm

/-- `DataChannel.State` -/
inductive ChannelState
  | connecting
  | opened
  | closing
  | closed
  deriving DecidableEq, Repr

/-- The fields of an agent for the channel it sends on, with all channels that it
has created. -/
structure SendAgent where
  /-- Whether there is a connection. -/
  mLocalPeerConnection : Bool := true
  mSendDataChannel : Option Nat := none
  mSendDataChannelReady : Bool := false
  created : Nat := 0
  state : Nat → ChannelState := fun _ => .connecting
  /-- The state of its channel that each buffer was handed to. -/
  handed : List ChannelState := []

/-- `createDataChannel` of the connection throws, returns `null`, or a channel. -/
inductive ChannelEvent
  | createDataChannel (result : Except Throwable (Option ChannelState))
  | changes (channel : Nat) (state : ChannelState)
  | onStateChange (channel : Nat)
  | destroy
  | send

namespace SendAgent

/-- The channel of `mLocalPeerConnection?.createDataChannel` is stored. -/
def createDataChannel (result : Except Throwable (Option ChannelState)) (s : SendAgent) : SendAgent :=
  if s.mLocalPeerConnection then
    match result with
    | .error _ => s
    | .ok none => { s with mSendDataChannel := none }
    | .ok (some state) =>
      { s with
        mSendDataChannel := some s.created
        created := s.created + 1
        state := Function.update s.state s.created state }
  else { s with mSendDataChannel := none }

/-- The observer of any channel asks the one that is stored. -/
def onStateChange (s : SendAgent) : SendAgent :=
  if s.mSendDataChannel.map s.state = some .opened then { s with mSendDataChannelReady := true } else s

def destroy (s : SendAgent) : SendAgent :=
  { s with mSendDataChannel := none, mLocalPeerConnection := false }

/-- `mSendDataChannel?.send`, once the agent is ready. -/
def send (s : SendAgent) : SendAgent :=
  if s.mSendDataChannelReady then
    match s.mSendDataChannel with
    | none => s
    | some channel => { s with handed := s.handed ++ [s.state channel] }
  else s

/-- Channels change, and call their observer, once they are created. -/
def step (s : SendAgent) : ChannelEvent → Option SendAgent
  | .createDataChannel result => some (s.createDataChannel result)
  | .changes channel state =>
    if channel < s.created then some { s with state := Function.update s.state channel state } else none
  | .onStateChange channel => if channel < s.created then some s.onStateChange else none
  | .destroy => some s.destroy
  | .send => some s.send

/-- An agent that is ready has an open channel, if it has one, and buffers went to
open channels only. -/
structure SendsOpen (s : SendAgent) : Prop where
  ready : s.mSendDataChannelReady = true → ∀ channel ∈ s.mSendDataChannel, s.state channel = .opened
  handed : ∀ state ∈ s.handed, state = .opened

/-- While the agent is ready, it stores no new channel that is not open, and the
stored one stays open. -/
def StaysOpen (s : SendAgent) : ChannelEvent → Prop
  | .createDataChannel result => s.mSendDataChannelReady = true → s.mLocalPeerConnection = true →
    ∀ state, result = .ok (some state) → state = .opened
  | .changes channel state =>
    s.mSendDataChannelReady = true → s.mSendDataChannel = some channel → state = .opened
  | _ => True

instance (s : SendAgent) : DecidablePred s.StaysOpen
  | .createDataChannel (.error _) => .isTrue fun _ _ _ h => nomatch h
  | .createDataChannel (.ok none) => .isTrue fun _ _ _ h => nomatch h
  | .createDataChannel (.ok (some state)) =>
    decidable_of_iff (s.mSendDataChannelReady = true → s.mLocalPeerConnection = true → state = .opened)
      (by simp [StaysOpen])
  | .changes _ _ => inferInstanceAs (Decidable (_ → _ → _))
  | .onStateChange _ | .destroy | .send => inferInstanceAs (Decidable True)

-- ---------------------------------------------------------------------------
-- Steps
-- ---------------------------------------------------------------------------

section
variable {s t : SendAgent} {e : ChannelEvent}

theorem sendsOpen_initial (connected : Bool) : SendsOpen { mLocalPeerConnection := connected } :=
  ⟨nofun, nofun⟩

theorem SendsOpen.createDataChannel {result : Except Throwable (Option ChannelState)} (hs : s.SendsOpen)
    (hguard : s.StaysOpen (.createDataChannel result)) : (s.createDataChannel result).SendsOpen := by
  unfold SendAgent.createDataChannel
  split
  next hlocal =>
    cases result with
    | error e => exact hs
    | ok channel =>
      cases channel with
      | none => exact ⟨nofun, hs.handed⟩
      | some state =>
        refine ⟨?_, hs.handed⟩
        rintro hready channel ⟨⟩
        exact (Function.update_self ..).trans (hguard hready hlocal state rfl)
  next => exact ⟨nofun, hs.handed⟩

theorem SendsOpen.onStateChange (hs : s.SendsOpen) : s.onStateChange.SendsOpen := by
  unfold SendAgent.onStateChange
  split
  next hopened =>
    refine ⟨fun _ channel hchannel => ?_, hs.handed⟩
    rw [Option.mem_def.mp hchannel] at hopened
    exact Option.some.inj hopened
  next => exact hs

theorem SendsOpen.send (hs : s.SendsOpen) : s.send.SendsOpen := by
  unfold SendAgent.send
  split
  next hready =>
    cases hchannel : s.mSendDataChannel with
    | none => exact hs
    | some channel =>
      have hopened := hs.ready hready channel hchannel
      refine ⟨fun _ other hother => ?_, ?_⟩
      · cases hother
        exact hopened
      · exact List.forall_mem_append.mpr ⟨hs.handed, List.forall_mem_singleton.mpr hopened⟩
  next => exact hs

theorem sendsOpen_step (hs : s.SendsOpen) (hguard : s.StaysOpen e) (h : s.step e = some t) : t.SendsOpen := by
  cases e with
  | createDataChannel result =>
    cases h
    exact hs.createDataChannel hguard
  | changes changed state =>
    obtain ⟨-, heq⟩ := Option.ite_none_right_eq_some.mp h
    cases heq
    refine ⟨fun hready channel hchannel => ?_, hs.handed⟩
    by_cases hother : channel = changed
    · subst hother
      exact (Function.update_self ..).trans (hguard hready hchannel)
    · exact (Function.update_of_ne hother ..).trans (hs.ready hready channel hchannel)
  | onStateChange channel =>
    obtain ⟨-, heq⟩ := Option.ite_none_right_eq_some.mp h
    cases heq
    exact hs.onStateChange
  | destroy =>
    cases h
    exact ⟨nofun, hs.handed⟩
  | send =>
    cases h
    exact hs.send

/-- A ready agent is left with a channel that is not open. -/
theorem not_sendsOpen_step (hguard : ¬ s.StaysOpen e) (h : s.step e = some t) : ¬ t.SendsOpen := by
  cases e with
  | createDataChannel result =>
    simp only [StaysOpen, not_forall] at hguard
    obtain ⟨hready, hlocal, state, rfl, hstate⟩ := hguard
    cases h
    rw [SendAgent.createDataChannel, if_pos hlocal]
    exact fun ht => hstate ((Function.update_self ..).symm.trans (ht.ready hready s.created rfl))
  | changes channel state =>
    simp only [StaysOpen, not_forall] at hguard
    obtain ⟨hready, hchannel, hstate⟩ := hguard
    obtain ⟨-, heq⟩ := Option.ite_none_right_eq_some.mp h
    cases heq
    exact fun ht => hstate ((Function.update_self ..).symm.trans (ht.ready hready channel hchannel))
  | _ => exact absurd trivial hguard

end

-- ---------------------------------------------------------------------------
-- The agent of the peer connections
-- ---------------------------------------------------------------------------

/-- The agent has a channel, and a connection, when its fields say so. -/
structure Describes (s : SendAgent) (agent : RtcAgent) : Prop where
  channel : agent.mSendDataChannel = s.mSendDataChannel.isSome
  connection : agent.mLocalPeerConnection.isSome = s.mLocalPeerConnection

section
variable {s : SendAgent} {a : AgentState} {calls : AgentCalls}

/-- `RtcAgent.createDataChannel`, with the channel that the call returns. -/
theorem Describes.createDataChannel {result : Except Throwable (Option ChannelState)} (hs : s.Describes a.agent)
    (hcalls : calls.createDataChannel = result.map Option.isSome) (label : JString)
    (needAnswer needOffer : Bool) :
    (s.createDataChannel result).Describes
      ((RtcAgent.createDataChannel label needAnswer needOffer calls).exec a).2.agent := by
  rw [RtcAgent.exec_createDataChannel_agent, hs.connection, hcalls, RtcAgent.created]
  unfold SendAgent.createDataChannel
  cases hlocal : s.mLocalPeerConnection with
  | false => exact ⟨rfl, hs.connection.trans hlocal⟩
  | true =>
    rcases result with e | _ | state
    · exact ⟨hs.channel, hs.connection⟩
    · exact ⟨rfl, hs.connection.trans hlocal⟩
    · exact ⟨rfl, hs.connection.trans hlocal⟩

theorem describes_destroy (destroyPeerConnection : Bool) :
    s.destroy.Describes (RtcAgent.destroy destroyPeerConnection a).agent :=
  ⟨rfl, rfl⟩

end

end SendAgent

open SendAgent

/-- A ready agent has an open channel, and sends on open ones, all through a run
just when all its steps meet the condition. -/
theorem sends_open_iff (connected : Bool) (events : List ChannelEvent) (s : SendAgent)
    (hrun : Machine.run SendAgent.step { mLocalPeerConnection := connected } events = some s) :
    (∀ before t, before <+: events →
      Machine.run SendAgent.step { mLocalPeerConnection := connected } before = some t → t.SendsOpen) ↔
      Machine.Guarded SendAgent.step StaysOpen { mLocalPeerConnection := connected } events :=
  (Machine.guarded_iff (fun _ _ _ => sendsOpen_step) (fun _ => id)
    (fun _ _ _ _ => not_sendsOpen_step) (sendsOpen_initial connected) hrun).symm

/-- The channel opens, and the agent sends on it. -/
def sampleChannel : List ChannelEvent :=
  [.createDataChannel (.ok (some .connecting)), .send, .changes 0 .opened, .onStateChange 0, .send, .destroy, .send]

theorem sampleChannel_open : ∃ s, Machine.run SendAgent.step {} sampleChannel = some s ∧
    ∀ before t, before <+: sampleChannel → Machine.run SendAgent.step {} before = some t → t.SendsOpen := by
  have hstate : (Machine.run SendAgent.step {} sampleChannel).isSome = true := by decide
  obtain ⟨s, hrun⟩ := Option.isSome_iff_exists.mp hstate
  exact ⟨s, hrun, (sends_open_iff true sampleChannel s hrun).mpr (by decide)⟩

/-- A channel that has closed is sent on, and so is a new one that an answer
brings before it is open. -/
theorem sends_not_open :
    (Machine.run SendAgent.step {} [.createDataChannel (.ok (some .connecting)), .changes 0 .opened,
      .onStateChange 0, .changes 0 .closed, .onStateChange 0, .send]).map (·.handed) = some [.closed] ∧
    (Machine.run SendAgent.step {} [.createDataChannel (.ok (some .connecting)), .changes 0 .opened,
      .onStateChange 0, .createDataChannel (.ok (some .connecting)), .send]).map (·.handed) =
      some [.connecting] ∧
    ¬ ∀ events s, Machine.run SendAgent.step {} events = some s → s.SendsOpen := by
  refine ⟨by decide, by decide, fun hall => ?_⟩
  have hhanded : (Machine.run SendAgent.step {} [.createDataChannel (.ok (some .connecting)), .changes 0 .opened,
      .onStateChange 0, .changes 0 .closed, .send]).map (·.handed) = some [.closed] := by decide
  obtain ⟨s, hrun, hs⟩ := Option.map_eq_some_iff.mp hhanded
  have hopened := (hall _ s hrun).handed .closed (hs ▸ List.mem_singleton_self _)
  cases hopened

end SmartSocks.Rtc
