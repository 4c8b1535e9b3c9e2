import SmartSocks.Jvm.JsonObjects
import SmartSocks.Rtc.RtcAgent

/-!
# `PeerObserver`

The messages for the other side are put together from strings, and nothing is
escaped. A description arrives if and only if it has no quotation mark and no
backslash, and a candidate if and only if its two strings have none: otherwise
whatever the other side reads from the text, it is something else.
-/

namespace SmartSocks.Rtc

open Jvm OrgJson JString

/-- The names are those of the types, and each is read back. -/
structure SdpTypes.Usual (types : SdpTypes) : Prop where
  offer : types.canonicalForm .offer = lit "offer"
  pranswer : types.canonicalForm .pranswer = lit "pranswer"
  answer : types.canonicalForm .answer = lit "answer"
  read : ∀ type, types.fromCanonicalForm (types.canonicalForm type) = .ok type

theorem SdpTypes.webrtc_usual : SdpTypes.webrtc.Usual where
  offer := rfl
  pranswer := rfl
  answer := rfl
  read type := by cases type <;> rfl

theorem SdpTypes.Usual.verbatim {types : SdpTypes} (h : types.Usual) (type : SdpType) :
    Verbatim (types.canonicalForm type) := by
  cases type with
  | offer => exact h.offer ▸ by decide
  | pranswer => exact h.pranswer ▸ by decide
  | answer => exact h.answer ▸ by decide

structure SessionDescription where
  type : SdpType
  description : JString

structure IceCandidate where
  sdpMid : JString
  sdpMLineIndex : BitVec 32
  sdp : JString

namespace PeerObserver

/-- A string that may be `null`, in a concatenation. -/
def text (s : Option JString) : JString := s.getD (lit "null")

/-- The message for `sendToPeer`. -/
def onCreateSuccess (types : SdpTypes) (p0 : Option SessionDescription) : JString :=
  lit "\x7b\"sdp\":\"" ++ text (p0.map (·.description)) ++
    lit "\",\"type\":\"" ++ text (p0.map (types.canonicalForm ·.type)) ++ lit "\"\x7d"

def onIceCandidate (p0 : Option IceCandidate) : JString :=
  lit "\x7b\"candidate\":\"" ++ text (p0.map (·.sdp)) ++ lit "\"," ++
    lit "\"sdpMLineIndex\":\"" ++ text (p0.map fun p0 => lit (toString p0.sdpMLineIndex.toInt)) ++ lit "\"," ++
    lit "\"sdpMid\":\"" ++ text (p0.map (·.sdpMid)) ++ lit "\"\x7d"

end PeerObserver

-- ---------------------------------------------------------------------------
-- What the other side asks for first
-- ---------------------------------------------------------------------------

namespace RtcAgent

variable {J : OrgJson} {types : SdpTypes} {s : AgentState} {json : J.JSONObject} {connection : Nat}

/-- The first call of the local connection in `processMessage`. -/
def firstCall (types : SdpTypes) (json : J.JSONObject) (connection : Nat) : Except Throwable NativeCall :=
  if has json "type" then do
    let typeStr ← getString json "type"
    let sdpType ← types.fromCanonicalForm typeStr
    let sdpStr ← getString json "sdp"
    return .setRemoteDescription connection sdpType sdpStr
  else do
    let sdpMid ← getOptional getString json "sdpMid"
    let sdpMLineIndex ← getOptional getInt json "sdpMLineIndex"
    let sdpStr ← getOptional getString json "candidate"
    match sdpMLineIndex with
    | none => throw .nullPointer
    | some sdpMLineIndex => return .addIceCandidate connection sdpMid sdpMLineIndex sdpStr

/-- More calls are asked for. -/
def Asks (s t : AgentState) : Prop := ∃ more, t.webrtc.asked = s.webrtc.asked ++ more

instance : IsPreorder AgentState Asks where
  refl s := ⟨[], (List.append_nil _).symm⟩
  trans _ _ _ h h' := by
    obtain ⟨more, hmore⟩ := h
    obtain ⟨more', hmore'⟩ := h'
    exact ⟨more ++ more', by rw [hmore', hmore, List.append_assoc]⟩

/-- A run from `s` asks for this call before any other, or for none. -/
def AsksFirst (s : AgentState) (first : Except Throwable NativeCall) (m : AgentProg Unit) : Prop :=
  match first with
  | .ok call => ∃ more, (m.exec s).2.webrtc.asked = s.webrtc.asked ++ call :: more
  | .error _ => (m.exec s).2.webrtc.asked = s.webrtc.asked

theorem asks_ask (call : NativeCall) : (ask call).Within Asks := Prog.within_modify fun _ => ⟨[call], rfl⟩

theorem asks_createDataChannel (label : JString) (needAnswer needOffer : Bool) (calls : AgentCalls) :
    (createDataChannel label needAnswer needOffer calls).Within Asks :=
  within_createDataChannel asks_ask (fun _ => Prog.within_modify fun _ => ⟨[], (List.append_nil _).symm⟩)
    label needAnswer needOffer calls

theorem asksFirst_bind {α : Type} {x : Except Throwable α} {first : α → Except Throwable NativeCall}
    {m : α → AgentProg Unit} (h : ∀ a, x = .ok a → AsksFirst s (first a) (m a)) :
    AsksFirst s (x >>= first) (Prog.lift x >>= m) := by
  cases x with
  | error e => rfl
  | ok a => exact h a rfl

/-- A call of the local connection, whatever it returns and whatever is done then. -/
theorem asksFirst_call (hlocal : s.agent.mLocalPeerConnection = some connection) (call : Nat → NativeCall)
    (x : Except Throwable Unit) {m : AgentProg Unit} (hm : m.Within Asks) :
    AsksFirst s (.ok (call connection))
      ((onLocal fun connection => do ask (call connection); Prog.lift x) >>= fun _ => m) := by
  have hrest : (Prog.lift x >>= fun _ => m).Within Asks := (Prog.within_lift x).bind fun _ => hm
  obtain ⟨more, hmore⟩ := hrest { s with webrtc := { s.webrtc with
    asked := s.webrtc.asked ++ [call connection] } }
  refine ⟨more, ?_⟩
  rw [List.append_cons, ← hmore]
  simp [onLocal, ask, Prog.exec_bind, hlocal]

theorem asksFirst_processMessage (hlocal : s.agent.mLocalPeerConnection = some connection)
    (json : J.JSONObject) (peerId : JString) (calls : AgentCalls) :
    AsksFirst s (firstCall calls.types json connection) (processMessage json peerId calls) := by
  unfold firstCall processMessage
  split
  · refine asksFirst_bind fun typeStr _ => asksFirst_bind fun sdpType _ => ?_
    split
    · refine asksFirst_bind fun sdpStr _ => ?_
      exact asksFirst_call hlocal (fun connection => .setRemoteDescription connection sdpType sdpStr) _
        (asks_createDataChannel _ _ _ _)
    · next hsdp =>
      cases hstr : getString json "sdp" with
      | error e => rfl
      | ok sdpStr => exact absurd (has_of_getField hstr) hsdp
  · refine asksFirst_bind fun sdpMid _ => asksFirst_bind fun sdpMLineIndex _ =>
      asksFirst_bind fun sdpStr _ => ?_
    cases sdpMLineIndex with
    | none => rfl
    | some sdpMLineIndex =>
      have hcall := asksFirst_call hlocal
        (fun connection => .addIceCandidate connection sdpMid sdpMLineIndex sdpStr) calls.addIceCandidate
        (Prog.within_pure ())
      rwa [bind_pure_unit] at hcall

-- ---------------------------------------------------------------------------
-- A message that arrives
-- ---------------------------------------------------------------------------

/-- The other side takes the text, and this is what it asks the local connection
for. -/
def Arrives (J : OrgJson) (types : SdpTypes) (text : JString) (call : Nat → NativeCall) : Prop :=
  ∃ json, J.ofText text = .ok json ∧
    (∀ s peerId, (processMessage json peerId { types }).Returns s) ∧
    ∀ s peerId calls connection, calls.types = types → s.agent.mLocalPeerConnection = some connection →
      ∃ more, ((processMessage json peerId calls).exec s).2.webrtc.asked =
        s.webrtc.asked ++ call connection :: more

/-- Some agent with a local connection. -/
def dialled : AgentState := ⟨{ mRemotePeerId := [], mLocalPeerConnection := some 0 }, {}⟩

theorem ofText_ok {text : JString} : J.ofText text = .ok json ↔ J.parse text = some json := by
  unfold ofText
  cases J.parse text with
  | none => exact ⟨nofun, nofun⟩
  | some got => exact ⟨fun h => congrArg some (Except.ok.inj h), fun h => congrArg Except.ok (Option.some.inj h)⟩

/-- What arrives was read from the text. -/
theorem firstCall_of_arrives {text : JString} {call : Nat → NativeCall} (h : Arrives J types text call) :
    ∃ json, J.parse text = some json ∧ firstCall types json 0 = .ok (call 0) := by
  obtain ⟨json, htext, -, hasked⟩ := h
  refine ⟨json, ofText_ok.mp htext, ?_⟩
  obtain ⟨more, hmore⟩ := hasked dialled [] { types } 0 rfl rfl
  have hfirst := asksFirst_processMessage (s := dialled) rfl json [] { types }
  cases hcall : firstCall types json 0 with
  | error e =>
    rw [hcall, AsksFirst, hmore] at hfirst
    cases hfirst
  | ok first =>
    rw [hcall, AsksFirst, hmore] at hfirst
    obtain ⟨more', hmore'⟩ := hfirst
    cases hmore'
    rfl

theorem channelOk_default (hasLocal needAnswer needOffer : Bool) :
    ChannelOk hasLocal needAnswer needOffer { types } :=
  fun _ => ⟨true, rfl, fun _ => rfl, fun _ => rfl⟩

theorem firstCall_description {type : SdpType} {description : JString} :
    firstCall types json connection = .ok (.setRemoteDescription connection type description) ↔
      (∃ typeStr, getString json "type" = .ok typeStr ∧ types.fromCanonicalForm typeStr = .ok type) ∧
        getString json "sdp" = .ok description := by
  unfold firstCall
  split
  · simp only [bind_eq_ok]
    constructor
    · rintro ⟨typeStr, htype, sdpType, hcanonical, sdpStr, hsdp, heq⟩
      cases heq
      exact ⟨⟨typeStr, htype, hcanonical⟩, hsdp⟩
    · rintro ⟨⟨typeStr, htype, hcanonical⟩, hsdp⟩
      exact ⟨typeStr, htype, type, hcanonical, description, hsdp, rfl⟩
  · next hnone =>
    refine iff_of_false ?_ ?_
    · simp only [bind_eq_ok]
      rintro ⟨sdpMid, -, sdpMLineIndex, -, sdpStr, -, h⟩
      cases sdpMLineIndex with
      | none => cases h
      | some i => cases h
    · rintro ⟨⟨typeStr, htype, -⟩, -⟩
      exact hnone (has_of_getField htype)

theorem firstCall_candidate {sdpMid sdp : JString} {i : Int} :
    firstCall types json connection = .ok (.addIceCandidate connection (some sdpMid) i (some sdp)) ↔
      has json "type" = false ∧ getString json "sdpMid" = .ok sdpMid ∧
        getInt json "sdpMLineIndex" = .ok i ∧ getString json "candidate" = .ok sdp := by
  unfold firstCall
  split
  · next htype =>
    refine iff_of_false ?_ fun h => absurd htype (by rw [h.1]; exact Bool.false_ne_true)
    simp only [bind_eq_ok]
    rintro ⟨typeStr, -, sdpType, -, sdpStr, -, h⟩
    cases h
  · next htype =>
    rw [Bool.not_eq_true] at htype
    simp only [bind_eq_ok, ← getOptional_getString, ← getOptional_getInt]
    constructor
    · rintro ⟨mid, hmid, index, hindex, str, hstr, h⟩
      cases index with
      | none => cases h
      | some index =>
        cases h
        exact ⟨htype, hmid, hindex, hstr⟩
    · rintro ⟨-, hmid, hindex, hstr⟩
      exact ⟨_, hmid, _, hindex, _, hstr, rfl⟩

/-- Nothing throws but WebRTC, once a call can be made. -/
theorem returns_of_firstCall {call : NativeCall} (h : firstCall types json connection = .ok call)
    (s : AgentState) (peerId : JString) : (processMessage json peerId { types }).Returns s := by
  rw [returns_processMessage]
  unfold firstCall at h
  split at h
  · next htype =>
    simp only [bind_eq_ok] at h
    obtain ⟨typeStr, hstr, sdpType, hcanonical, sdpStr, hsdp, -⟩ := h
    rw [if_pos htype]
    exact ⟨typeStr, sdpType, hstr, hcanonical, fun _ => ⟨sdpStr, hsdp, fun _ => rfl, channelOk_default _ _ _⟩⟩
  · next htype =>
    simp only [bind_eq_ok] at h
    obtain ⟨sdpMid, hmid, sdpMLineIndex, hindex, sdpStr, hstr, h⟩ := h
    rw [if_neg htype]
    cases sdpMLineIndex with
    | none => cases h
    | some i =>
      exact ⟨getOptional_returns.mp ⟨_, hmid⟩, ⟨i, getOptional_getInt.mp hindex⟩,
        getOptional_returns.mp ⟨_, hstr⟩, fun _ => rfl⟩

theorem arrives_of_firstCall {text : JString} {call : Nat → NativeCall} (htext : J.parse text = some json)
    (h : ∀ connection, firstCall types json connection = .ok (call connection)) : Arrives J types text call := by
  refine ⟨json, ofText_ok.mpr htext, returns_of_firstCall (h 0), fun s peerId calls connection htypes hlocal => ?_⟩
  have hfirst := asksFirst_processMessage hlocal json peerId calls
  rwa [htypes, h connection] at hfirst

end RtcAgent

namespace PeerObserver

open RtcAgent

variable {J : OrgJson} {types : SdpTypes}

-- ---------------------------------------------------------------------------
-- Messages without special characters
-- ---------------------------------------------------------------------------

def descriptionFields (types : SdpTypes) (type : SdpType) (description : JString) : List (JString × JString) :=
  [(lit "sdp", description), (lit "type", types.canonicalForm type)]

def candidateFields (sdpMid : JString) (i : Int) (sdp : JString) : List (JString × JString) :=
  [(lit "candidate", sdp), (lit "sdpMLineIndex", lit (toString i)), (lit "sdpMid", sdpMid)]

theorem onCreateSuccess_eq (type : SdpType) (description : JString) :
    onCreateSuccess types (some ⟨type, description⟩) = objectOf (descriptionFields types type description) := by
  simp [onCreateSuccess, text, descriptionFields, objectOf, OrgJson.member, quote, lit]
  decide

theorem onIceCandidate_eq (sdpMid : JString) (i : BitVec 32) (sdp : JString) :
    onIceCandidate (some ⟨sdpMid, i, sdp⟩) = objectOf (candidateFields sdpMid i.toInt sdp) := by
  simp [onIceCandidate, text, candidateFields, objectOf, OrgJson.member, quote, lit]
  decide

theorem verbatim_descriptionFields (htypes : types.Usual) {type : SdpType} {description : JString}
    (h : Verbatim description) : VerbatimFields (descriptionFields types type description) where
  nodup := by
    have hnames : (descriptionFields types type description).map Prod.fst = [lit "sdp", lit "type"] := rfl
    rw [hnames]
    decide
  verbatim := by
    have hnames : Verbatim (lit "sdp") ∧ Verbatim (lit "type") := by decide
    exact List.forall_mem_cons.mpr ⟨⟨hnames.1, h⟩,
      List.forall_mem_singleton.mpr ⟨hnames.2, htypes.verbatim type⟩⟩

theorem verbatim_candidateFields {sdpMid : JString} {i : Int} {sdp : JString} (hmid : Verbatim sdpMid)
    (hsdp : Verbatim sdp) : VerbatimFields (candidateFields sdpMid i sdp) where
  nodup := by
    have hnames : (candidateFields sdpMid i sdp).map Prod.fst =
      [lit "candidate", lit "sdpMLineIndex", lit "sdpMid"] := rfl
    rw [hnames]
    decide
  verbatim := by
    have hnames : Verbatim (lit "candidate") ∧ Verbatim (lit "sdpMLineIndex") ∧ Verbatim (lit "sdpMid") := by
      decide
    exact List.forall_mem_cons.mpr ⟨⟨hnames.1, hsdp⟩, List.forall_mem_cons.mpr
      ⟨⟨hnames.2.1, verbatim_toString i⟩, List.forall_mem_singleton.mpr ⟨hnames.2.2, hmid⟩⟩⟩

theorem getString_of_holds {json : J.JSONObject} {name : String} {s : JString}
    (h : J.Holds (json (lit name)) (some s)) : getString json name = .ok s := by
  refine getField_ok.mpr ?_
  cases hvalue : json (lit name) with
  | none =>
    rw [hvalue] at h
    exact h.elim
  | some v =>
    rw [hvalue] at h
    exact h.1

theorem getInt_of_holds {json : J.JSONObject} {name : String} (i : BitVec 32)
    (h : J.Holds (json (lit name)) (some (lit (toString i.toInt)))) : getInt json name = .ok i.toInt := by
  refine getField_ok.mpr ?_
  cases hvalue : json (lit name) with
  | none =>
    rw [hvalue] at h
    exact h.elim
  | some v =>
    rw [hvalue] at h
    exact h.2 i.toInt (BitVec.le_toInt i) BitVec.toInt_lt rfl

theorem not_has_of_holds {json : J.JSONObject} {name : String} (h : J.Holds (json (lit name)) none) :
    has json name = false := by
  unfold has
  cases hvalue : json (lit name) with
  | none => rfl
  | some v =>
    rw [hvalue] at h
    exact h.elim

theorem arrives_description (hJ : UsualStrings J) (htypes : types.Usual) (type : SdpType) {description : JString}
    (h : Verbatim description) : Arrives J types (onCreateSuccess types (some ⟨type, description⟩))
      (.setRemoteDescription · type description) := by
  obtain ⟨json, hparse, hfields⟩ := hJ.object (descriptionFields types type description) (List.cons_ne_nil _ _)
    (verbatim_descriptionFields htypes h)
  rw [onCreateSuccess_eq]
  refine arrives_of_firstCall hparse fun connection => firstCall_description.mpr ⟨?_, ?_⟩
  · exact ⟨types.canonicalForm type, getString_of_holds (hfields (lit "type")), htypes.read type⟩
  · exact getString_of_holds (hfields (lit "sdp"))

theorem arrives_candidate (hJ : UsualStrings J) (i : BitVec 32) {sdpMid sdp : JString}
    (hmid : Verbatim sdpMid) (hsdp : Verbatim sdp) : Arrives J types (onIceCandidate (some ⟨sdpMid, i, sdp⟩))
      (.addIceCandidate · (some sdpMid) i.toInt (some sdp)) := by
  obtain ⟨json, hparse, hfields⟩ := hJ.object (candidateFields sdpMid i.toInt sdp) (List.cons_ne_nil _ _)
    (verbatim_candidateFields hmid hsdp)
  rw [onIceCandidate_eq]
  refine arrives_of_firstCall hparse fun connection => firstCall_candidate.mpr ⟨?_, ?_, ?_, ?_⟩
  · exact not_has_of_holds (hfields (lit "type"))
  · exact getString_of_holds (hfields (lit "sdpMid"))
  · exact getInt_of_holds i (hfields (lit "sdpMLineIndex"))
  · exact getString_of_holds (hfields (lit "candidate"))

-- ---------------------------------------------------------------------------
-- Messages with special characters
-- ---------------------------------------------------------------------------

section
variable {body s : JString}

theorem backslash_notMem {t : JString} (h : Verbatim t) : backslash ∉ t := fun hmem => (h _ hmem).2 rfl

/-- A body with a backslash is in the part of the text around the description. -/
theorem token_description (htypes : types.Usual) {type : SdpType} {description : JString}
    (h : Token (onCreateSuccess types (some ⟨type, description⟩)) body) (hbody : StringBody body s)
    (hback : backslash ∈ body) : Token (quotation :: (description ++ [quotation, comma, quotation])) body := by
  have htext : onCreateSuccess types (some ⟨type, description⟩) = lit "\x7b\"sdp\"" ++ colon :: quotation ::
      (description ++ quotation :: comma :: quotation :: (lit "type\":\"" ++
        (types.canonicalForm type ++ lit "\"\x7d"))) := by
    simp [onCreateSuccess, text, lit]
    decide
  rw [htext] at h
  obtain h | h := h.split_behind hbody (by decide)
  · exact absurd (h.mem hback) (by decide)
  have hrest : Token ((quotation :: (description ++ [quotation])) ++ comma :: quotation :: (lit "type\":\"" ++
      (types.canonicalForm type ++ lit "\"\x7d"))) body := by simpa using h
  obtain h | h := hrest.split_behind hbody (by decide)
  · simpa using h
  · have hmem : backslash ∈ (quotation :: lit "type\":\"") ++ (types.canonicalForm type ++ lit "\"\x7d") :=
      h.mem hback
    simp only [List.mem_append, backslash_notMem (htypes.verbatim type), false_or] at hmem
    exact absurd hmem (by decide)

/-- A body with a backslash is in the part around `sdp` or in the part around
`sdpMid`. -/
theorem token_candidate {sdpMid sdp : JString} {i : BitVec 32}
    (h : Token (onIceCandidate (some ⟨sdpMid, i, sdp⟩)) body) (hbody : StringBody body s)
    (hback : backslash ∈ body) : Token (quotation :: (sdp ++ [quotation, comma, quotation])) body ∨
      Token (quotation :: (sdpMid ++ [quotation, closeBrace])) body := by
  have htext : onIceCandidate (some ⟨sdpMid, i, sdp⟩) = lit "\x7b\"candidate\"" ++ colon :: quotation ::
      (sdp ++ quotation :: comma :: quotation :: (lit "sdpMLineIndex\":\"" ++
        (lit (toString i.toInt) ++ (lit "\",\"sdpMid\"" ++ colon :: quotation ::
          (sdpMid ++ [quotation, closeBrace]))))) := by
    simp [onIceCandidate, text, lit]
    decide
  rw [htext] at h
  obtain h | h := h.split_behind hbody (by decide)
  · exact absurd (h.mem hback) (by decide)
  have hrest : Token ((quotation :: (sdp ++ [quotation])) ++ comma :: quotation ::
      (lit "sdpMLineIndex\":\"" ++ (lit (toString i.toInt) ++ (lit "\",\"sdpMid\"" ++ colon :: quotation ::
        (sdpMid ++ [quotation, closeBrace]))))) body := by simpa using h
  obtain h | h := hrest.split_behind hbody (by decide)
  · left
    simpa using h
  have hlast : Token (((quotation :: lit "sdpMLineIndex\":\"") ++ (lit (toString i.toInt) ++
      lit "\",\"sdpMid\"")) ++ colon :: quotation :: (sdpMid ++ [quotation, closeBrace])) body := by
    simpa using h
  obtain h | h := hlast.split_behind hbody (by decide)
  · have hmem := h.mem hback
    simp only [List.mem_append, backslash_notMem (verbatim_toString i.toInt), false_or, or_assoc] at hmem
    exact absurd hmem (by decide)
  · exact .inr h

theorem verbatim_of_description (htypes : types.Usual) {type : SdpType} {description : JString}
    (h : Token (onCreateSuccess types (some ⟨type, description⟩)) body) (hbody : StringBody body description) :
    Verbatim description := by
  by_contra hspecial
  have hlength := hbody.length_le
  have hpos := countP_special_pos hspecial
  have hne : description ≠ [] := by
    rintro rfl
    exact hspecial (List.forall_mem_nil _)
  obtain hle | ⟨⟨x, hx⟩, y, hy⟩ :=
    (token_description htypes h hbody (hbody.backslash_mem hspecial)).length_le_or hbody hne
  · omega
  · -- the description would end with a backslash and with a comma
    obtain ⟨z, hz⟩ := hbody.comma_last (hy.trans (List.append_cons ..))
    cases (List.append_singleton_inj.mp (hx.symm.trans hz)).2

theorem length_le_sdpMid {sdpMid : JString} (h : Token (quotation :: (sdpMid ++ [quotation, closeBrace])) body) :
    body.length ≤ sdpMid.length := by
  have hzone : Token ((quotation :: (sdpMid ++ [quotation])) ++ [closeBrace]) body := by simpa using h
  obtain h | ⟨hmark, -⟩ := hzone.append_singleton
  · exact h.length_le
  · cases hmark

/-- A string that needs a backslash can only be read from the part around `sdp`,
if that part has one. -/
theorem token_around_sdpMid {sdpMid sdp : JString} {i : BitVec 32}
    (h : Token (onIceCandidate (some ⟨sdpMid, i, sdp⟩)) body) (hbody : StringBody body s)
    (hspecial : ¬ Verbatim s) (hsdp : Verbatim sdp) :
    Token (quotation :: (sdpMid ++ [quotation, closeBrace])) body := by
  have hback := hbody.backslash_mem hspecial
  obtain h | h := token_candidate h hbody hback
  · have hmem := h.mem hback
    simp only [List.mem_cons, List.mem_append, backslash_notMem hsdp, false_or] at hmem
    exact absurd hmem (by decide)
  · exact h

/-- `sdpMid` is not read from the part around a longer `sdp`. -/
theorem verbatim_sdpMid {sdpMid sdp : JString} {i : BitVec 32} (hsdp : Verbatim sdp)
    (h : Token (onIceCandidate (some ⟨sdpMid, i, sdp⟩)) body) (hbody : StringBody body sdpMid) :
    Verbatim sdpMid := by
  by_contra hspecial
  have hlength := hbody.length_le
  have hpos := countP_special_pos hspecial
  have hle := length_le_sdpMid (token_around_sdpMid h hbody hspecial hsdp)
  omega

/-- `sdp` is only read from the part around a longer `sdpMid`. -/
theorem sdp_shorter {sdpMid sdp : JString} {i : BitVec 32} (hspecial : ¬ Verbatim sdp)
    (h : Token (onIceCandidate (some ⟨sdpMid, i, sdp⟩)) body) (hbody : StringBody body sdp) :
    sdp.length < sdpMid.length ∧ backslash ∈ sdpMid := by
  have hlength := hbody.length_le
  have hpos := countP_special_pos hspecial
  have hback := hbody.backslash_mem hspecial
  have hne : sdp ≠ [] := by
    rintro rfl
    exact hspecial (List.forall_mem_nil _)
  obtain h | h := token_candidate h hbody hback
  · obtain hle | ⟨⟨x, hx⟩, y, hy⟩ := h.length_le_or hbody hne
    · omega
    · obtain ⟨z, hz⟩ := hbody.comma_last (hy.trans (List.append_cons ..))
      cases (List.append_singleton_inj.mp (hx.symm.trans hz)).2
  · have hle := length_le_sdpMid h
    have hmem : backslash ∈ quotation :: (sdpMid ++ [quotation, closeBrace]) := h.mem hback
    simp only [List.mem_cons, List.mem_append] at hmem
    refine ⟨by omega, ?_⟩
    obtain hmem | hmem | hmem := hmem
    · cases hmem
    · exact hmem
    · exact absurd hmem (by decide)

theorem verbatim_of_candidate {sdpMid sdp : JString} {i : BitVec 32}
    (hsdp : ¬ Verbatim sdp → ∃ body, Token (onIceCandidate (some ⟨sdpMid, i, sdp⟩)) body ∧ StringBody body sdp)
    (hmid : ¬ Verbatim sdpMid →
      ∃ body, Token (onIceCandidate (some ⟨sdpMid, i, sdp⟩)) body ∧ StringBody body sdpMid) :
    Verbatim sdpMid ∧ Verbatim sdp := by
  have hverbatim : Verbatim sdp := by
    by_contra hspecial
    obtain ⟨body, htoken, hbody⟩ := hsdp hspecial
    obtain ⟨hlt, hback⟩ := sdp_shorter hspecial htoken hbody
    -- the longer `sdpMid` has nowhere to be read from
    have hspecialMid : ¬ Verbatim sdpMid := fun hraw => backslash_notMem hraw hback
    obtain ⟨body', htoken', hbody'⟩ := hmid hspecialMid
    have hlength := hbody'.length_le
    obtain hzone | hzone := token_candidate htoken' hbody' (hbody'.backslash_mem hspecialMid)
    · have hne : sdp ≠ [] := by
        rintro rfl
        exact hspecial (List.forall_mem_nil _)
      have hzoneLength := hzone.length_add_two_le
      simp only [List.length_cons, List.length_append, List.length_nil] at hzoneLength
      obtain hle | ⟨-, y, rfl⟩ := hzone.length_le_or hbody' hne
      · omega
      · have hquotation := hbody'.quotation_mem (List.mem_append_right y (List.mem_cons_self ..))
        have htwo := two_le_countP_special hquotation hback
        omega
    · have hle := length_le_sdpMid hzone
      have hpos := countP_special_pos hspecialMid
      omega
  refine ⟨by_contra fun hspecial => ?_, hverbatim⟩
  obtain ⟨body, htoken, hbody⟩ := hmid hspecial
  exact hspecial (verbatim_sdpMid hverbatim htoken hbody)

end

theorem verbatim_of_arrives_description (hJ : UsualStrings J) (htypes : types.Usual) {type : SdpType}
    {description : JString} (h : Arrives J types (onCreateSuccess types (some ⟨type, description⟩)) (.setRemoteDescription · type description)) :
    Verbatim description := by
  obtain ⟨json, hparse, hcall⟩ := firstCall_of_arrives h
  have hget := (firstCall_description.mp hcall).2
  by_contra hspecial
  obtain ⟨body, htoken, hbody⟩ := hJ.string _ _ _ _ hparse hget hspecial
  exact hspecial (verbatim_of_description htypes htoken hbody)

theorem verbatim_of_arrives_candidate (hJ : UsualStrings J) {sdpMid sdp : JString} {i : BitVec 32}
    (h : Arrives J types (onIceCandidate (some ⟨sdpMid, i, sdp⟩))
      (.addIceCandidate · (some sdpMid) i.toInt (some sdp))) : Verbatim sdpMid ∧ Verbatim sdp := by
  obtain ⟨json, hparse, hcall⟩ := firstCall_of_arrives h
  obtain ⟨-, hmid, -, hsdp⟩ := firstCall_candidate.mp hcall
  exact verbatim_of_candidate (hJ.string _ _ _ _ hparse hsdp) (hJ.string _ _ _ _ hparse hmid)

/-- Descriptions and candidates arrive if and only if no string in them needs a
backslash. -/
theorem arrives_iff (hJ : UsualStrings J) (htypes : types.Usual) :
    (∀ type description, Arrives J types (onCreateSuccess types (some ⟨type, description⟩))
      (.setRemoteDescription · type description) ↔ Verbatim description) ∧
    ∀ sdpMid i sdp, Arrives J types (onIceCandidate (some ⟨sdpMid, i, sdp⟩))
      (.addIceCandidate · (some sdpMid) i.toInt (some sdp)) ↔ Verbatim sdpMid ∧ Verbatim sdp :=
  ⟨fun type _ => ⟨verbatim_of_arrives_description hJ htypes, arrives_description hJ htypes type⟩, fun _ i _ =>
    ⟨verbatim_of_arrives_candidate hJ, fun h => arrives_candidate hJ i h.1 h.2⟩⟩

theorem offer_arrives : Arrives verbatimJson .webrtc (onCreateSuccess .webrtc (some ⟨.offer, lit "v=0"⟩))
    (.setRemoteDescription · .offer (lit "v=0")) :=
  ((arrives_iff verbatimJson_usual SdpTypes.webrtc_usual).1 .offer (lit "v=0")).mpr (by decide)

/-- No such library reads a description with a quotation mark. -/
theorem quoted_not_arrives : ¬ ∃ J types, UsualStrings J ∧ types.Usual ∧
    Arrives J types (onCreateSuccess types (some ⟨.offer, lit "s=\"call\""⟩))
      (.setRemoteDescription · .offer (lit "s=\"call\"")) := by
  rintro ⟨J, types, hJ, htypes, h⟩
  have hverbatim := verbatim_of_arrives_description hJ htypes h
  exact absurd hverbatim (by decide)

end PeerObserver

end SmartSocks.Rtc
