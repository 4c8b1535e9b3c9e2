import SmartSocks.Sslocal.UDPProxyServer

/-!
# Where a datagram comes from

A datagram answers the query that is pending under the id it carries. The address
that it comes from takes no part in this (`datagram_effect`).
-/

namespace SmartSocks.Sslocal

open Jvm EasyValue TcpIp Dns UDPProxyServer

-- ---------------------------------------------------------------------------
-- One query and one datagram
-- ---------------------------------------------------------------------------

/-- The packet of a query without questions, from 10.8.0.2:1000 to 8.8.8.8:53. -/
def samplePacket : IPPacket :=
  .ofData
    { size := 20000
      cell := (Bytes.ofList 0 ([0x45, 0, 0, 40, 0, 0, 0, 0, 64, 17, 0, 0, 10, 8, 0, 2, 8, 8, 8, 8] ++
        [3, 232, 0, 53, 0, 20, 0, 0] ++ [0, 7, 1, 0, 0, 0, 0, 0, 0, 0, 0, 0])).cell }
    IPPacket.size_le_mtu

def sampleHeader (id : Short) : DNSHeader where
  mOffset := 28
  mID := id
  mDNSFlags := DNSFlags.parse 0x100
  mQuestionCount := 0
  mResourceCount := 0
  mAResourceCount := 0
  mEResourceCount := 0

def sampleQuery : Query where
  ipPacket := samplePacket
  packet := ⟨sampleHeader 7, [], [], [], [], 12⟩
  accepted := ⟨1, _, dif_pos (by decide), rfl⟩
  port_eq := by decide

/-- A header with the id that the first query is forwarded under. -/
def sampleResponse : List Byte := [0, 1, 1, 0, 0, 0, 0, 0, 0, 0, 0, 0]

/-- The proxy once the query is forwarded. -/
def afterQuery : Proxy where
  queries := ⟨1, Function.update (fun _ => none) 1 (some sampleQuery.state)⟩
  ipPacket := initial.ipPacket
  sent := [sampleQuery.packet.forwarded 1 sampleQuery.ipPacket]
  written := []

theorem step_sampleQuery : step 1 initial (.request sampleQuery) = some afterQuery :=
  step_request sampleQuery

theorem carries_sampleResponse (source : Word × Short) :
    Carries 1 1 afterQuery (.datagram source sampleResponse) :=
  ⟨⟨sampleHeader 1, [], [], [], [], 12⟩, rfl, rfl⟩

-- ---------------------------------------------------------------------------
-- The sender
-- ---------------------------------------------------------------------------

/-- What a datagram does depends on the id it carries and not on the address it
comes from: it answers the pending query of the id and completes it, or changes
nothing. -/
theorem datagram_effect {depth : Nat} {s t : Proxy} {source : Word × Short} {payload : List Byte}
    (hs : Reachable depth s) (h : step depth s (.datagram source payload) = some t) :
    (∀ source', step depth s (.datagram source' payload) = some t) ∧
      ((∃ x state w, Carries depth x s (.datagram source payload) ∧
          s.queries.mQueryMap x = some state ∧ IsAnswer state w ∧ t.written = s.written ++ [w] ∧
          t.queries.mQueryMap = Function.update s.queries.mQueryMap x none) ∨
        ((∀ x, Carries depth x s (.datagram source payload) → s.queries.mQueryMap x = none) ∧
          t.written = s.written ∧ t.queries.mQueryMap = s.queries.mQueryMap)) := by
  refine ⟨fun _ => h, ?_⟩
  obtain ⟨-, ⟨packet, state, w, hparse, hstate, hw, hwritten, hqueries⟩ |
    ⟨hnone, hwritten, hqueries⟩⟩ := step_datagram hs.plain h
  · left
    refine ⟨packet.Header.mID, state, w, ⟨packet, hparse, rfl⟩, hstate, hw, hwritten, ?_⟩
    rw [hqueries]
  · right
    refine ⟨?_, hwritten, ?_⟩
    · rintro x ⟨packet, hparse, rfl⟩
      exact hnone packet hparse
    · rw [hqueries]

theorem reachable_afterQuery : Reachable 1 afterQuery :=
  ⟨[.request sampleQuery], by rw [Machine.run, step_sampleQuery]; rfl⟩

theorem sampleResponse_effect : ∃ t,
    step 1 afterQuery (.datagram (0x08080808, 53) sampleResponse) = some t ∧
      (∀ source', step 1 afterQuery (.datagram source' sampleResponse) = some t) := by
  obtain ⟨t, ht⟩ := step_of_carries reachable_afterQuery.plain (carries_sampleResponse (0x08080808, 53))
  exact ⟨t, ht, (datagram_effect reachable_afterQuery ht).1⟩

/-- A datagram from an address that was never asked is passed on, and the query
is gone. -/
theorem forged_answer :
    ¬ ∀ depth s t x state source payload, Reachable depth s →
      Carries depth x s (.datagram source payload) → s.queries.mQueryMap x = some state →
      source ≠ (state.RemoteIP, state.RemotePort) →
      step depth s (.datagram source payload) = some t →
      t.written = s.written ∧ t.queries.mQueryMap = s.queries.mQueryMap := by
  intro h
  have hcarries := carries_sampleResponse (0x06060606, 53)
  obtain ⟨t, ht⟩ := step_of_carries reachable_afterQuery.plain hcarries
  have hstate : afterQuery.queries.mQueryMap 1 = some sampleQuery.state := by
    simp [afterQuery]
  obtain ⟨hwritten, -⟩ := h 1 afterQuery t 1 sampleQuery.state _ _ reachable_afterQuery hcarries hstate
    (by decide) ht
  obtain ⟨packet, hparse, hid⟩ := hcarries
  obtain ⟨-, ⟨_, _, w, _, _, _, hone, _⟩ | ⟨hnone, -⟩⟩ := step_datagram reachable_afterQuery.plain ht
  · rw [hwritten] at hone
    exact absurd hone (by simp)
  · have := hnone packet hparse
    rw [hid, hstate] at this
    cases this

end SmartSocks.Sslocal
