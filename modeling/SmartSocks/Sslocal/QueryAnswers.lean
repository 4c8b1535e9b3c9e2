import SmartSocks.Sslocal.AnswerPackets

/-!
# Which datagram answers which query

A query is answered by the first accepted datagram that carries its id, unless
65536 further queries have come round to the id before (`query_answered`). The
client gets that datagram under its own id, and nothing for later ones.
-/

namespace SmartSocks.Sslocal

open Jvm EasyValue TcpIp Dns UDPProxyServer

section
variable {depth : Nat} {s s₁ s₂ s₃ : Proxy} {q : Query} {between later : List Event} {x : Short} {e : Event}

/-- A datagram that carries an id without a query writes nothing. -/
theorem step_unassigned (hs : Preset s.ipPacket) (hcarries : Carries depth x s e)
    (hnone : s.queries.mQueryMap x = none) :
    ∃ t, UDPProxyServer.step depth s e = some t ∧ t.written = s.written := by
  obtain ⟨t, ht⟩ := step_of_carries hs.plain hcarries
  refine ⟨t, ht, ?_⟩
  cases e with
  | request q => cases hcarries
  | datagram source payload =>
    obtain ⟨packet, hparse, rfl⟩ := hcarries
    obtain ⟨-, ⟨_, _, _, hparse', hstate, -⟩ | ⟨-, hwritten, -⟩⟩ := step_datagram hs.plain ht
    · cases hparse.symm.trans hparse'
      cases hnone.symm.trans hstate
    · exact hwritten

/-- The entry of a query stays while no datagram carries its id and the counter
does not come round to it. -/
theorem entry_kept (hp : Preset s₁.ipPacket) (hbetween : Machine.run (UDPProxyServer.step depth) s₁ between = some s₂)
    (hfirst : Machine.Guarded (UDPProxyServer.step depth) (fun s e => ¬ Carries depth s₁.queries.mQueryID s e) s₁
      between)
    (hcount : requests between ≤ 65535) :
    s₂.queries.mQueryMap s₁.queries.mQueryID = s₁.queries.mQueryMap s₁.queries.mQueryID ∧
      s₂.queries.mQueryID = s₁.queries.mQueryID + BitVec.ofNat 16 (requests between) := by
  obtain ⟨ops, htable, hassigns, hcomplete⟩ := run_ops hp.plain hbetween
  have hlast : s₁.queries.table.last = s₁.queries.mQueryID + BitVec.ofNat 16 0 := (BitVec.add_zero _).symm
  have hlast₂ : s₂.queries.table.last = s₁.queries.mQueryID + BitVec.ofNat 16 (requests between) := by
    rw [htable, IdTable.last_foldl _ ops hlast, hassigns, Nat.zero_add]
  obtain ⟨-, hkeep⟩ := IdTable.entry_foldl s₁.queries.table ops hlast (by omega)
  rw [← htable] at hkeep
  exact ⟨hkeep (hcomplete _ hfirst), hlast₂⟩

/-- An entry that is gone stays gone until the counter comes round to it. -/
theorem entry_gone (hp : Preset s.ipPacket) (hlater : Machine.run (UDPProxyServer.step depth) s later = some s₃) {n : Nat}
    (hlast : s.queries.mQueryID = x + BitVec.ofNat 16 n) (hcount : n + requests later ≤ 65535)
    (hnone : s.queries.mQueryMap x = none) : s₃.queries.mQueryMap x = none := by
  obtain ⟨ops, htable, hassigns, -⟩ := run_ops hp.plain hlater
  have hgone := IdTable.entry_foldl_none s.queries.table ops hlast (by omega) hnone
  rwa [← htable] at hgone

/-- The first response to a query goes to its client as a whole, and further ones
nowhere, while the id is not assigned again. -/
theorem query_answered {source : Word × Short} {payload : List Byte} (hs : Reachable depth s)
    (hq : UDPProxyServer.step depth s (.request q) = some s₁)
    (hbetween : Machine.run (UDPProxyServer.step depth) s₁ between = some s₂)
    (hfirst : Machine.Guarded (UDPProxyServer.step depth)
      (fun s e => ¬ Carries depth s₁.queries.mQueryID s e) s₁ between)
    (hcount : requests between ≤ 65535)
    (hresponse : Carries depth s₁.queries.mQueryID s₂ (.datagram source payload)) :
    ∃ s₃, UDPProxyServer.step depth s₂ (.datagram source payload) = some s₃ ∧
      (∃ w, s₃.written = s₂.written ++ [w] ∧ IsAnswer q.state w ∧ ValidAnswer q.state payload w ∧
        short (Bytes.ofList 0 w) 28 = short q.ipPacket.mData 28) ∧
      ∀ later s₄ further, Machine.run (UDPProxyServer.step depth) s₃ later = some s₄ →
        requests between + requests later ≤ 65535 → Carries depth s₁.queries.mQueryID s₄ further →
        ∃ s₅, UDPProxyServer.step depth s₄ further = some s₅ ∧ s₅.written = s₄.written := by
  have hp₁ : Preset s₁.ipPacket := preset_step hs.preset hq
  have hp₂ : Preset s₂.ipPacket := Machine.run_keeps (fun _ _ _ => preset_step) hp₁ hbetween
  -- the entry is the one that was stored for `q`
  have hentry : s₁.queries.mQueryMap s₁.queries.mQueryID = some q.state := by
    rw [step_request] at hq
    cases hq
    exact Function.update_self ..
  obtain ⟨hkept, hlast⟩ := entry_kept hp₁ hbetween hfirst hcount
  obtain ⟨packet, hparse, hid⟩ := hresponse
  obtain ⟨p, w, hp₃, hanswer, hvalid, hstep⟩ :=
    step_datagram_answer hp₂ hparse (hid ▸ hkept.trans hentry)
  refine ⟨_, hstep, ⟨w, rfl, hanswer, hvalid, hanswer.id.trans q.id_eq⟩, fun later s₄ further hlater hcount' hcarries => ?_⟩
  have hp₄ : Preset s₄.ipPacket := Machine.run_keeps (fun _ _ _ => preset_step) hp₃ hlater
  have hnone : Function.update s₂.queries.mQueryMap packet.Header.mID none s₁.queries.mQueryID = none := by
    rw [hid, Function.update_self]
  exact step_unassigned hp₄ hcarries (entry_gone hp₃ hlater hlast hcount' hnone)

end

instance (depth : Nat) (x : Short) (s : Proxy) : (e : Event) → Decidable (Carries depth x s e)
  | .request _ => .isFalse id
  | .datagram _ payload =>
    match hparse : parse depth payload s.ipPacket with
    | .ok (some packet) => decidable_of_iff (packet.Header.mID = x) (by simp [Carries, hparse])
    | .ok none => .isFalse (by simp [Carries, hparse])
    | .error _ => .isFalse (by simp [Carries, hparse])

/-- A query from another port of the client, under the id 9. -/
def otherQuery : Query where
  ipPacket := .ofData
    { size := 20000
      cell := (Bytes.ofList 0 ([0x45, 0, 0, 40, 0, 0, 0, 0, 64, 17, 0, 0, 10, 8, 0, 2, 8, 8, 8, 8] ++
        [3, 233, 0, 53, 0, 20, 0, 0] ++ [0, 9, 1, 0, 0, 0, 0, 0, 0, 0, 0, 0])).cell }
    IPPacket.size_le_mtu
  packet := ⟨sampleHeader 9, [], [], [], [], 12⟩
  accepted := ⟨1, _, dif_pos (by decide), rfl⟩
  port_eq := by decide

/-- Two other queries, the answer to the first of them, and a datagram that is no answer. -/
def otherEvents : List Event :=
  [.request otherQuery, .request otherQuery,
    .datagram (0x08080808, 53) [0, 2, 0x81, 0x80, 0, 0, 0, 0, 0, 0, 0, 0], .datagram (0x06060606, 53) [0, 1, 2]]

/-- The proxy behind them. -/
def afterOthers : Proxy := (Machine.run (UDPProxyServer.step 1) afterQuery otherEvents).getD afterQuery

theorem run_otherEvents : Machine.run (UDPProxyServer.step 1) afterQuery otherEvents = some afterOthers :=
  Machine.run_getD (by decide +kernel)

theorem sampleQuery_answered : ∃ s₃,
    UDPProxyServer.step 1 afterOthers (.datagram (0x08080808, 53) sampleResponse) = some s₃ ∧
      (∃ w, s₃.written = afterOthers.written ++ [w] ∧ IsAnswer sampleQuery.state w ∧
        ValidAnswer sampleQuery.state sampleResponse w ∧
        short (Bytes.ofList 0 w) 28 = short sampleQuery.ipPacket.mData 28) ∧
      ∀ later s₄ further, Machine.run (UDPProxyServer.step 1) s₃ later = some s₄ →
        requests otherEvents + requests later ≤ 65535 → Carries 1 afterQuery.queries.mQueryID s₄ further →
        ∃ s₅, UDPProxyServer.step 1 s₄ further = some s₅ ∧ s₅.written = s₄.written := by
  have hfirst : Machine.Guarded (UDPProxyServer.step 1)
      (fun s e => ¬ Carries 1 afterQuery.queries.mQueryID s e) afterQuery otherEvents := by
    decide +kernel
  have hcarries : Carries 1 afterQuery.queries.mQueryID afterOthers
      (.datagram (0x08080808, 53) sampleResponse) := by
    decide +kernel
  exact query_answered ⟨[], rfl⟩ step_sampleQuery run_otherEvents hfirst (by decide) hcarries

end SmartSocks.Sslocal
