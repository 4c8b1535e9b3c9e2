import SmartSocks.Dns.NameDecoding
import SmartSocks.Sslocal.AnswerPackets

/-!
# Genuine answers

An answer that is well formed is passed on to the client and completes its query
if it has at most 512 bytes. A larger one is dropped, also when the query that
was forwarded allows it, and the query stays pending.
-/

namespace SmartSocks.Sslocal

open Jvm EasyValue TcpIp Dns UDPProxyServer

/-- The datagram in the array of the DNS thread. -/
def datagram (payload : List Byte) (p : IPPacket) : Message where
  array := (receive payload p).mData
  offset := 28
  length := min payload.length (p.mData.size - 28)
  position := 0
  length_le := by
    have hroom := p.size_ge
    show 28 + min payload.length (p.mData.size - 28) ≤ p.mData.size
    omega
  position_le := Nat.zero_le _

/-- The client gets the answer under its own id, and the query is completed. -/
def Delivers (depth : Nat) (s : Proxy) (state : QueryState) (payload : List Byte) : Prop :=
  ∃ t w, UDPProxyServer.step depth s (.datagram (state.RemoteIP, state.RemotePort) payload) = some t ∧
    t.written = s.written ++ [w] ∧ IsAnswer state w ∧
    w.drop 28 = shortBytes state.ClientQueryID ++ payload.drop 2 ∧
    t.queries.mQueryMap = Function.update s.queries.mQueryMap (short (Bytes.ofList 0 payload) 0) none

section
variable {depth : Nat} {s t : Proxy} {e : Event} {payload : List Byte} {state : QueryState} {c : Contents}

theorem size_step (hp : Preset s.ipPacket) (h : UDPProxyServer.step depth s e = some t) :
    t.ipPacket.mData.size = s.ipPacket.mData.size := by
  cases e with
  | request q =>
    rw [step_request] at h
    cases h
    rfl
  | datagram source payload => exact (step_datagram_valid hp h).2.1

/-- The array keeps its size. -/
theorem Reachable.size (h : Reachable depth s) : s.ipPacket.mData.size = 2000 := by
  obtain ⟨es, hes⟩ := h
  have hkeep (s : Proxy) (e : Event) (t : Proxy) (hp : Preset s.ipPacket ∧ s.ipPacket.mData.size = 2000)
      (hstep : UDPProxyServer.step depth s e = some t) : Preset t.ipPacket ∧ t.ipPacket.mData.size = 2000 :=
    ⟨preset_step hp.1 hstep, (size_step hp.1 hstep).trans hp.2⟩
  exact (Machine.run_keeps hkeep ⟨preset_initial, rfl⟩ hes).2

theorem parse_eq (payload : List Byte) (p : IPPacket) :
    parse depth payload p = DNSPacket.fromBytes depth (datagram payload p).buffer := by
  have hlimit : (0 : Int) ≤ (min payload.length (p.mData.size - 28) : Nat) ∧
      ((min payload.length (p.mData.size - 28) : Nat) : Int) ≤ (receive payload p).mDNSBuffer.capacity :=
    ⟨Int.natCast_nonneg _, Int.ofNat_le.mpr (Nat.min_le_right _ _)⟩
  have hbuffer : dnsBuffer payload (receive payload p) = .ok (datagram payload p).buffer := by
    refine (dif_pos hlimit).trans (congrArg Except.ok ?_)
    rfl
  rw [parse, hbuffer, ok_bind]

/-- Each hop takes the 56 bytes of two offsets. -/
theorem hops_le_growth (m : Message) (x : EncodedName) : x.hops.length * (2 * m.offset) ≤ x.growth m := by
  unfold EncodedName.growth
  induction x.hops with
  | nil => simp
  | cons hop hops ih =>
    rw [List.length_cons, List.map_cons, List.sum_cons, Nat.succ_mul]
    omega

/-- No more than 35 hops fit in the array. -/
theorem followed_of_room {x : EncodedName} (hsize : s.ipPacket.mData.size = 2000) (hdepth : 36 ≤ depth)
    (hmin : 12 ≤ (datagram payload s.ipPacket).length) (hroom : x.Room (datagram payload s.ipPacket)) :
    Followed depth (datagram payload s.ipPacket) x := by
  have hhops := hops_le_growth (datagram payload s.ipPacket) x
  have hbound : (datagram payload s.ipPacket).length + x.growth (datagram payload s.ipPacket) ≤ 2000 :=
    hsize ▸ hroom
  have hoffset : (datagram payload s.ipPacket).offset = 28 := rfl
  rw [hoffset] at hhops
  exact ⟨hroom, by omega⟩

/-- A datagram of more than 512 bytes is only received. -/
theorem step_large (depth : Nat) (hlarge : 512 < (datagram payload s.ipPacket).length)
    (source : Word × Short) :
    UDPProxyServer.step depth s (.datagram source payload) = some { s with ipPacket := receive payload s.ipPacket } := by
  have hlimit : 512 < (datagram payload s.ipPacket).buffer.limit := hlarge
  have hnone : parse depth payload s.ipPacket = .ok none := by
    rw [parse_eq, DNSPacket.fromBytes, if_neg (by omega), if_pos hlimit]
  simp only [UDPProxyServer.step, exec_onDatagram, hnone]

/-- Behind the headers there is the datagram, with the id of the client. -/
theorem drop_of_valid {w : List Byte} (h : ValidAnswer state payload w) :
    w.drop 28 = shortBytes state.ClientQueryID ++ payload.drop 2 := by
  obtain ⟨-, crc, udpCrc, rfl, -⟩ := h
  have hlength : (ipHeader state payload.length crc ++ udpHeader state payload.length udpCrc).length = 28 := by
    simp [ipHeader, udpHeader]
  rw [List.append_assoc, ← hlength, List.drop_left]

/-- An answer of at most 512 bytes is delivered. -/
theorem delivers_of_length_le (hs : Reachable depth s) (hdepth : 36 ≤ depth)
    (hwf : WellFormed (datagram payload s.ipPacket) c) (hhandled : c.Handled)
    (hroom : ∀ x ∈ c.names, x.Room (datagram payload s.ipPacket))
    (hstate : s.queries.mQueryMap (short (Bytes.ofList 0 payload) 0) = some state)
    (hmax : (datagram payload s.ipPacket).length ≤ 512) : Delivers depth s state payload := by
  obtain ⟨packet, hpacket, -⟩ := packet_of_followed hwf hhandled hmax
    fun x hx => followed_of_room hs.size hdepth hwf.header (hroom x hx)
  rw [← parse_eq] at hpacket
  have hkey := parse_key hpacket
  rw [← hkey] at hstate
  obtain ⟨p, w, -, hanswer, hvalid, hstep⟩ := step_datagram_answer hs.preset hpacket hstate
  exact ⟨_, w, hstep, rfl, hanswer, drop_of_valid hvalid, congrArg (Function.update _ · none) hkey⟩

/-- A well-formed answer to a pending query is delivered if and only if it has at
most 512 bytes. A larger one changes no query. -/
theorem answer_delivered_iff (hs : Reachable depth s) (hdepth : 36 ≤ depth)
    (hlength : payload.length ≤ 1972) (hwf : WellFormed (datagram payload s.ipPacket) c)
    (hhandled : c.Handled) (hroom : ∀ x ∈ c.names, x.Room (datagram payload s.ipPacket))
    (hstate : s.queries.mQueryMap (short (Bytes.ofList 0 payload) 0) = some state) :
    (Delivers depth s state payload ↔ payload.length ≤ 512) ∧
      (512 < payload.length → ∃ t, UDPProxyServer.step depth s (.datagram (state.RemoteIP, state.RemotePort) payload) =
        some t ∧ t.written = s.written ∧ t.queries = s.queries) := by
  have hwhole : (datagram payload s.ipPacket).length = payload.length := by
    show min payload.length (s.ipPacket.mData.size - 28) = payload.length
    rw [hs.size]
    exact Nat.min_eq_left hlength
  have hlarge (h : 512 < payload.length) := step_large depth (hwhole.symm ▸ h)
    (state.RemoteIP, state.RemotePort)
  refine ⟨⟨fun ⟨t, w, hstep, hone, _⟩ => ?_, fun h => ?_⟩, fun h => ⟨_, hlarge h, rfl, rfl⟩⟩
  · by_contra hmax
    rw [hlarge (Nat.not_le.mp hmax)] at hstep
    cases hstep
    exact absurd hone (by simp)
  · exact delivers_of_length_le hs hdepth hwf hhandled hroom hstate (hwhole.symm ▸ h)

end

theorem reachable_deep : Reachable 36 afterQuery :=
  ⟨[.request sampleQuery], by rw [Machine.run, step_request sampleQuery]; rfl⟩

/-- The question is `a`, and the answer is its address, under a pointer to the name. -/
def pointedResponse : List Byte :=
  [0, 1, 0x81, 0x80, 0, 1, 0, 1, 0, 0, 0, 0, 1, 0x61, 0, 0, 1, 0, 1,
    0xC0, 12, 0, 1, 0, 1, 0, 0, 0, 60, 0, 4, 1, 2, 3, 4]

def pointedContents : Contents :=
  ⟨[⟨12, [], [[0x61]], 15⟩], [⟨19, [([], 12)], [[0x61]], 21⟩], [], []⟩

theorem wellFormed_pointedResponse :
    WellFormed (datagram pointedResponse afterQuery.ipPacket) pointedContents := by
  have hname : NameAt (datagram pointedResponse afterQuery.ipPacket) ⟨12, [], [[0x61]], 15⟩ :=
    .root (.label (by decide) (by decide) (by decide) (.stop 14)) (by decide) (by decide)
  have hpointer : NameAt (datagram pointedResponse afterQuery.ipPacket) ⟨19, [([], 12)], [[0x61]], 21⟩ :=
    .pointer (.stop 19) (by decide) (by decide) (by decide) (by decide) hname
  refine ⟨rfl, by decide, by decide, by decide, by decide, by decide, 19, 35, 35, 35, ?_, ?_, .nil 35, .nil 35⟩
  · exact .cons hname (by decide) (.nil 19)
  · exact .cons hpointer (by decide) (.nil 35)

theorem pointedResponse_delivered : Delivers 36 afterQuery sampleQuery.state pointedResponse := by
  have hroom : ∀ x ∈ pointedContents.names, x.Room (datagram pointedResponse afterQuery.ipPacket) :=
    List.forall_mem_cons.mpr ⟨by decide, List.forall_mem_singleton.mpr (by decide)⟩
  exact (answer_delivered_iff reachable_deep (Nat.le_refl 36) (by decide) wellFormed_pointedResponse
    ⟨by decide, by decide, by decide, by decide⟩ hroom rfl).1.mpr (by decide)

/-- An answer of 513 bytes: 490 of them are the data of its only resource. -/
def largeResponse : List Byte :=
  [0, 1, 0x81, 0x80, 0, 0, 0, 1, 0, 0, 0, 0, 0, 0, 16, 0, 1, 0, 0, 0, 0, 1, 0xEA] ++ List.replicate 490 0

theorem length_largeResponse : (datagram largeResponse afterQuery.ipPacket).length = 513 := by decide +kernel

theorem wellFormed_largeResponse :
    WellFormed (datagram largeResponse afterQuery.ipPacket) ⟨[], [⟨12, [], [], 13⟩], [], []⟩ := by
  have hname : NameAt (datagram largeResponse afterQuery.ipPacket) ⟨12, [], [], 13⟩ :=
    .root (.stop 12) (by rw [length_largeResponse]; decide) (by decide)
  have hend : 13 + resourceRest (datagram largeResponse afterQuery.ipPacket) 13 = 513 := by decide
  have hrecord := RecordsAt.cons hname (hend.trans length_largeResponse.symm).le (.nil _)
  exact ⟨rfl, by rw [length_largeResponse]; decide, by decide, by decide, by decide, by decide, 12, _, _, _,
    .nil 12, hrecord, .nil _, .nil _⟩

/-- The large answer is dropped. -/
theorem largeResponse_not_delivered : ¬ ∀ depth s payload state c, Reachable depth s → 36 ≤ depth →
    payload.length ≤ 1972 → WellFormed (datagram payload s.ipPacket) c → c.Handled →
    s.queries.mQueryMap (short (Bytes.ofList 0 payload) 0) = some state → Delivers depth s state payload := by
  intro hall
  have hlength : largeResponse.length ≤ 1972 := by decide +kernel
  obtain ⟨t, w, hstep, hone, -⟩ := hall 36 afterQuery largeResponse sampleQuery.state _ reachable_deep
    (Nat.le_refl 36) hlength wellFormed_largeResponse ⟨by decide, by decide, by decide, by decide⟩ rfl
  rw [step_large 36 (by rw [length_largeResponse]; decide)] at hstep
  cases hstep
  exact absurd hone (by simp)

end SmartSocks.Sslocal
