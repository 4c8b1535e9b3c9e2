import SmartSocks.Jvm.JsonText
import SmartSocks.Library.Machine
import SmartSocks.Rtc.RtcEngine

/-!
# The peer map and the view of the server

The server announces the members of the room: all of them, or one that comes or
goes. The map follows the announcements as long as the list has somebody else in
it and is written the shortest way, with names that have neither quotation marks
nor commas. An empty list is decoded to one peer without a name, and a list of
nobody else is not taken over.
-/

namespace SmartSocks.Rtc

open Jvm OrgJson

/-- An announcement; a list comes as a text. -/
inductive PeerMessage
  | peerList (text : JString) (peers : List JString)
  | addPeer (id : JString)
  | delPeer (id : JString)

/-- The payload is the announcement. -/
def PeerMessage.CarriedBy (J : OrgJson) (payload : JString) (message : PeerMessage) : Prop :=
  ∃ m, RtcEngine.getSignallingMessage J payload.trim = .ok (some m) ∧
    match message with
    | .peerList text peers => getString m "cmd" = .ok (lit "peer_list") ∧ getString m "peers" = .ok text ∧
      text.ArrayText peers
    | .addPeer id => getString m "cmd" = .ok (lit "add_peer") ∧ getString m "id" = .ok id
    | .delPeer id => getString m "cmd" = .ok (lit "del_peer") ∧ getString m "id" = .ok id

structure PeerEvent (J : OrgJson) where
  payload : JString
  message : PeerMessage
  carried : message.CarriedBy J payload
  calls : AgentCalls := {}

/-- The client beside the members that the server has announced. -/
structure Mirror where
  engine : RtcEngine
  members : Finset JString := ∅

namespace Mirror

variable {J : OrgJson} {me : JString}

/-- The members after an announcement, the client itself apart. -/
def announced (me : JString) (members : Finset JString) : PeerMessage → Finset JString
  | .peerList _ peers => peers.toFinset.erase me
  | .addPeer id => if id ≠ me then insert id members else members
  | .delPeer id => members.erase id

def step (J : OrgJson) (me : JString) (s : Mirror) (e : PeerEvent J) : Option Mirror :=
  some {
    engine := ((RtcEngine.onTextMessage J e.payload e.calls).exec s.engine).2
    members := announced me s.members e.message }

/-- The condition on an announcement. -/
def Followed (me : JString) (s : Mirror) (e : PeerEvent J) : Prop :=
  match e.message with
  | .peerList text peers =>
    text = JString.serialise peers ∧ (∀ id ∈ peers, JString.quotation ∉ id ∧ JString.comma ∉ id) ∧
      (peers = [] → me = []) ∧ ((∃ id ∈ peers, id ≠ me) ∨ s.members = ∅)
  | .addPeer id => JString.quotation ∉ id
  | .delPeer id => JString.quotation ∉ id ∨ RtcEngine.unquote id ∉ s.members

/-- The map has the members for its keys. -/
structure Synchronised (me : JString) (s : Mirror) : Prop where
  own : s.engine.me = some me
  keys : s.engine.mPeerMap.keys = s.members
  others : me ∉ s.members
  plain : ∀ id ∈ s.members, JString.quotation ∉ id

end Mirror

namespace RtcEngine

section
variable {J : OrgJson} {s : RtcEngine} {payload text id : JString} {peers : List JString} {me : JString}
  {calls : AgentCalls}

theorem exec_peerList (h : (PeerMessage.peerList text peers).CarriedBy J payload) :
    (onTextMessage J payload calls).exec s = (processPeerList text).exec s := by
  obtain ⟨m, hmessage, hcmd, htext, -⟩ := h
  rw [exec_onTextMessage hmessage]
  simp [dispatch, has_of_getField hcmd, Prog.exec_bind, hcmd, htext]

theorem exec_addPeer (h : (PeerMessage.addPeer id).CarriedBy J payload) :
    (onTextMessage J payload calls).exec s = (.ok (), processAddPeer id s) := by
  obtain ⟨m, hmessage, hcmd, hid⟩ := h
  rw [exec_onTextMessage hmessage]
  have hne : lit "add_peer" ≠ lit "peer_list" := by decide
  simp [dispatch, has_of_getField hcmd, Prog.exec_bind, hcmd, hid, hne]

theorem exec_delPeer (h : (PeerMessage.delPeer id).CarriedBy J payload) :
    (onTextMessage J payload calls).exec s = (.ok (), processDelPeer id s) := by
  obtain ⟨m, hmessage, hcmd, hid⟩ := h
  rw [exec_onTextMessage hmessage]
  have hne : lit "del_peer" ≠ lit "peer_list" := by decide
  have hne' : lit "del_peer" ≠ lit "add_peer" := by decide
  simp [dispatch, has_of_getField hcmd, Prog.exec_bind, hcmd, hid, hne, hne']

theorem unquote_of_notMem (h : JString.quotation ∉ id) : unquote id = id :=
  List.filter_eq_self.mpr fun _ hc => decide_eq_true fun heq => h (heq ▸ hc)

theorem unquote_quote (h : JString.quotation ∉ id) : unquote id.quote = id := by
  have hquote : unquote id.quote = unquote id := by
    simp [unquote, JString.remove, JString.quote]
  rw [hquote, unquote_of_notMem h]

theorem inner_serialise : (JString.serialise peers).inner =
    [JString.comma].intercalate (peers.map JString.quote) := by
  simp [JString.serialise, JString.inner]

/-- The shortest text of names without special characters is decoded to them. -/
theorem peersOf_serialise (hplain : ∀ id ∈ peers, JString.quotation ∉ id ∧ JString.comma ∉ id)
    (hempty : peers = [] → me = []) :
    peersOf (some me) (JString.serialise peers).inner = (peers.filter (· ≠ me)).map RtcPeer.mk := by
  rw [inner_serialise]
  by_cases hpeers : peers = []
  · cases hempty hpeers
    subst hpeers
    decide
  · have hcomma : ∀ text ∈ peers.map JString.quote, JString.comma ∉ text := by
      rintro text htext
      obtain ⟨id, hid, rfl⟩ := List.mem_map.mp htext
      have hne : JString.comma ≠ JString.quotation := by decide
      simp [JString.quote, hne, (hplain id hid).2]
    unfold peersOf
    rw [List.splitOn_intercalate _ hcomma (by simpa using hpeers), List.filter_map, List.map_map]
    have hunquote : ∀ id ∈ peers, unquote id.quote = id := fun id hid => unquote_quote (hplain id hid).1
    have hfilter : peers.filter ((fun it => decide (some (unquote it) ≠ some me)) ∘ JString.quote) =
        peers.filter (· ≠ me) := by
      refine List.filter_congr fun id hid => ?_
      simp [hunquote id hid]
    rw [hfilter]
    refine List.map_congr_left fun id hid => ?_
    simp [hunquote id (List.mem_of_mem_filter hid)]

end

end RtcEngine

-- ---------------------------------------------------------------------------
-- The steps
-- ---------------------------------------------------------------------------

namespace Mirror

section
variable {J : OrgJson} {me : JString} {s t : Mirror}

theorem synchronised_peerList {text : JString} {peers : List JString} (hs : s.Synchronised me)
    (hplain : ∀ id ∈ peers, JString.quotation ∉ id ∧ JString.comma ∉ id) (hempty : peers = [] → me = [])
    (hothers : (∃ id ∈ peers, id ≠ me) ∨ s.members = ∅) :
    Synchronised me ⟨((RtcEngine.processPeerList (JString.serialise peers)).exec s.engine).2,
      announced me s.members (.peerList text peers)⟩ := by
  have hlength : 2 ≤ (JString.serialise peers).length := by
    simp [JString.serialise]
  have hmembers : (peers.filter (· ≠ me)).toFinset = peers.toFinset.erase me := by
    ext id
    simp [and_comm]
  have hdecoded : (((peers.filter (· ≠ me)).map RtcPeer.mk).map (·.mPeerID)).toFinset =
      peers.toFinset.erase me := by
    rw [List.map_map, ← hmembers]
    exact congrArg _ (List.map_id _)
  simp only [RtcEngine.processPeerList, JString.substring_inner, hlength, if_true, Prog.exec_bind,
    Prog.exec_lift, Prog.exec_modify, hs.own, RtcEngine.peersOf_serialise hplain hempty, announced]
  by_cases hnews : 0 < ((peers.filter (· ≠ me)).map RtcPeer.mk).length
  · rw [if_pos hnews]
    refine ⟨hs.own, RtcEngine.keys_onPeerList.trans hdecoded, Finset.notMem_erase me _, fun id hid => ?_⟩
    exact (hplain id (List.mem_toFinset.mp (Finset.mem_of_mem_erase hid))).1
  · have hnone : peers.filter (· ≠ me) = [] := by
      simpa using hnews
    have hmembers' : s.members = ∅ := by
      refine hothers.resolve_left ?_
      rintro ⟨id, hid, hne⟩
      have hmem : id ∈ peers.filter (· ≠ me) := List.mem_filter.mpr ⟨hid, decide_eq_true hne⟩
      rw [hnone] at hmem
      cases hmem
    rw [if_neg hnews, ← hmembers, hnone]
    exact ⟨hs.own, hs.keys.trans hmembers', Finset.notMem_empty me,
      fun id hid => absurd hid (Finset.notMem_empty id)⟩

theorem synchronised_addPeer {id : JString} (hs : s.Synchronised me) (hid : JString.quotation ∉ id) :
    Synchronised me ⟨RtcEngine.processAddPeer id s.engine, announced me s.members (.addPeer id)⟩ := by
  simp only [RtcEngine.processAddPeer, RtcEngine.unquote_of_notMem hid, hs.own, announced, ne_eq,
    Option.some.injEq]
  by_cases hme : id = me
  · simp only [hme, not_true_eq_false, if_false]
    exact hs
  · simp only [hme, not_false_eq_true, if_true]
    refine ⟨?_, RtcEngine.keys_onAddPeer.trans (congrArg _ hs.keys), fun h => ?_, fun other hother => ?_⟩
    · rw [← hs.own]
      unfold RtcEngine.onAddPeer
      split <;> rfl
    · exact (Finset.mem_insert.mp h).elim (fun heq => hme heq.symm) hs.others
    · rcases Finset.mem_insert.mp hother with rfl | hother
      · exact hid
      · exact hs.plain other hother

theorem synchronised_delPeer {id : JString} (hs : s.Synchronised me)
    (hid : JString.quotation ∉ id ∨ RtcEngine.unquote id ∉ s.members) :
    Synchronised me ⟨RtcEngine.processDelPeer id s.engine, announced me s.members (.delPeer id)⟩ := by
  have hmembers : s.members.erase (RtcEngine.unquote id) = s.members.erase id := by
    by_cases hquotation : JString.quotation ∈ id
    · have hnot : id ∉ s.members := fun hmem => hs.plain id hmem hquotation
      have hnot' : RtcEngine.unquote id ∉ s.members := hid.resolve_left (not_not.mpr hquotation)
      rw [Finset.erase_eq_of_notMem hnot, Finset.erase_eq_of_notMem hnot']
    · rw [RtcEngine.unquote_of_notMem hquotation]
  have hplain : ∀ other ∈ s.members.erase id, JString.quotation ∉ other := fun other hother =>
    hs.plain other (Finset.mem_of_mem_erase hother)
  have hothers : me ∉ s.members.erase id := fun h => hs.others (Finset.mem_of_mem_erase h)
  simp only [RtcEngine.processDelPeer, hs.own, announced, ne_eq, Option.some.injEq]
  by_cases hme : RtcEngine.unquote id = me
  · simp only [hme, not_true_eq_false, if_false]
    rw [hme, Finset.erase_eq_of_notMem hs.others] at hmembers
    exact ⟨hs.own, hs.keys.trans hmembers, hothers, hplain⟩
  · simp only [hme, not_false_eq_true, if_true]
    refine ⟨hs.own, RtcEngine.keys_onDelPeer.trans ?_, hothers, hplain⟩
    rw [hs.keys, hmembers]

theorem synchronised_step {e : PeerEvent J} (hs : s.Synchronised me) (hfollowed : Followed me s e)
    (hstep : step J me s e = some t) : t.Synchronised me := by
  cases hstep
  obtain ⟨payload, message, carried, calls⟩ := e
  cases message with
  | peerList text peers =>
    obtain ⟨rfl, hplain, hempty, hothers⟩ := hfollowed
    rw [RtcEngine.exec_peerList carried]
    exact synchronised_peerList hs hplain hempty hothers
  | addPeer id =>
    rw [RtcEngine.exec_addPeer carried]
    exact synchronised_addPeer hs hfollowed
  | delPeer id =>
    rw [RtcEngine.exec_delPeer carried]
    exact synchronised_delPeer hs hfollowed

end

end Mirror

open Mirror

/-- The map follows the announcements through every run of such. -/
theorem mPeerMap_follows {J : OrgJson} {me : JString} {engine : RtcEngine} (hme : engine.me = some me)
    (hempty : engine.mPeerMap = ∅) {events : List (PeerEvent J)}
    (hfollowed : Machine.Guarded (Mirror.step J me) (Followed me) { engine } events) {fs : List (PeerEvent J)}
    {s : Mirror} (hfs : fs <+: events) (hrun : Machine.run (Mirror.step J me) { engine } fs = some s) :
    s.engine.mPeerMap.keys = s.members := by
  have hinitial : Synchronised me { engine } :=
    ⟨hme, by rw [hempty]; rfl, Finset.notMem_empty me, fun id hid => absurd hid (Finset.notMem_empty id)⟩
  obtain ⟨rest, rfl⟩ := hfs
  have hguarded := ((Machine.guarded_append hrun).mp hfollowed).1
  exact (Machine.run_invariant (fun _ _ _ hs hg hstep => synchronised_step hs hg hstep) hinitial hguarded
    hrun).keys

def listMessage (peers : List JString) : List (JString × JString) :=
  [(lit "cmd", lit "peer_list"), (lit "peers", JString.serialise peers)]

def updateMessage (cmd : String) (id : JString) : List (JString × JString) :=
  [(lit "cmd", lit cmd), (lit "id", id)]

/-- The library on the payloads of the samples. -/
def roomJson : OrgJson :=
  RtcEngine.jsonOf [listMessage [lit "a", lit "me"], listMessage [], listMessage [lit "me"],
    updateMessage "add_peer" (lit "b"), updateMessage "del_peer" (lit "a")]

/-- What the library makes of a payload. -/
def fieldOf (payload : JString) (name : String) : Option JString :=
  match RtcEngine.getSignallingMessage roomJson payload.trim with
  | .ok (some m) => (getString m name).toOption
  | _ => none

theorem eq_ok_of_toOption {x : Except Throwable JString} {value : JString}
    (h : x.toOption = some value) : x = .ok value := by
  cases x with
  | error e => cases h
  | ok value' => exact congrArg _ (Option.some.inj h)

theorem exists_of_fieldOf {payload cmd value : JString} {name : String}
    (hcmd : fieldOf payload "cmd" = some cmd) (hvalue : fieldOf payload name = some value) :
    ∃ m, RtcEngine.getSignallingMessage roomJson payload.trim = .ok (some m) ∧
      getString m "cmd" = .ok cmd ∧ getString m name = .ok value := by
  unfold fieldOf at hcmd hvalue
  split at hcmd
  · next m hm =>
    simp only [hm] at hvalue
    exact ⟨m, hm, eq_ok_of_toOption hcmd, eq_ok_of_toOption hvalue⟩
  · cases hcmd

/-- The payload is read as the message, and has a field with the value. -/
def Reads (message : List (JString × JString)) (cmd name : String) (value : JString) : Prop :=
  fieldOf (objectText (RtcEngine.envelope message)) "cmd" = some (lit cmd) ∧
    fieldOf (objectText (RtcEngine.envelope message)) name = some value

instance (message : List (JString × JString)) (cmd name : String) (value : JString) :
    Decidable (Reads message cmd name value) := inferInstanceAs (Decidable (_ ∧ _))

/-- The announcement of a list. -/
def listEvent (peers : List JString) (hplain : peers.all (·.all (JString.Unescaped ·)) = true)
    (hreads : Reads (listMessage peers) "peer_list" "peers" (JString.serialise peers)) :
    PeerEvent roomJson where
  payload := objectText (RtcEngine.envelope (listMessage peers))
  message := .peerList (JString.serialise peers) peers
  carried := by
    obtain ⟨m, hm, hcmd, htext⟩ := exists_of_fieldOf hreads.1 hreads.2
    exact ⟨m, hm, hcmd, htext, JString.arrayText_serialise (by simpa using hplain)⟩

def addEvent (id : JString) (hreads : Reads (updateMessage "add_peer" id) "add_peer" "id" id) :
    PeerEvent roomJson where
  payload := objectText (RtcEngine.envelope (updateMessage "add_peer" id))
  message := .addPeer id
  carried := by
    obtain ⟨m, hm, hcmd, hid⟩ := exists_of_fieldOf hreads.1 hreads.2
    exact ⟨m, hm, hcmd, hid⟩

def delEvent (id : JString) (hreads : Reads (updateMessage "del_peer" id) "del_peer" "id" id) :
    PeerEvent roomJson where
  payload := objectText (RtcEngine.envelope (updateMessage "del_peer" id))
  message := .delPeer id
  carried := by
    obtain ⟨m, hm, hcmd, hid⟩ := exists_of_fieldOf hreads.1 hreads.2
    exact ⟨m, hm, hcmd, hid⟩

theorem reads_roomList : Reads (listMessage [lit "a", lit "me"]) "peer_list" "peers"
    (JString.serialise [lit "a", lit "me"]) := by decide +kernel

theorem reads_roomEmpty : Reads (listMessage []) "peer_list" "peers" (JString.serialise []) := by
  decide +kernel

theorem reads_roomAlone : Reads (listMessage [lit "me"]) "peer_list" "peers"
    (JString.serialise [lit "me"]) := by decide +kernel

theorem reads_roomAdd : Reads (updateMessage "add_peer" (lit "b")) "add_peer" "id" (lit "b") := by
  decide +kernel

theorem reads_roomDel : Reads (updateMessage "del_peer" (lit "a")) "del_peer" "id" (lit "a") := by
  decide +kernel

def roomList : PeerEvent roomJson := listEvent [lit "a", lit "me"] rfl reads_roomList

def roomEmpty : PeerEvent roomJson := listEvent [] rfl reads_roomEmpty

def roomAlone : PeerEvent roomJson := listEvent [lit "me"] rfl reads_roomAlone

def roomAdd : PeerEvent roomJson := addEvent (lit "b") reads_roomAdd

def roomDel : PeerEvent roomJson := delEvent (lit "a") reads_roomDel

/-- A client in the room, with its own name. -/
def roomEngine : RtcEngine where
  signalling := {
    mRtcSignallingConfig := some {
      mRtcSignallingHost := lit "host"
      mRtcSignallingPort := 8089
      mMyPeerName := lit "me" } }

theorem room_follows :
    ∃ s, Machine.run (Mirror.step roomJson (lit "me")) { engine := roomEngine }
        [roomList, roomAdd, roomDel] = some s ∧
      s.members = {lit "b"} ∧ s.engine.mPeerMap.keys = s.members := by
  have hfollowed : Machine.Guarded (Mirror.step roomJson (lit "me")) (Followed (lit "me"))
      { engine := roomEngine } [roomList, roomAdd, roomDel] := by
    refine ⟨⟨rfl, by decide, by decide, .inl ⟨lit "a", by decide⟩⟩, fun t ht => ?_⟩
    cases ht
    have hadd : JString.quotation ∉ lit "b" := by decide
    refine ⟨hadd, fun t ht => ?_⟩
    cases ht
    have hdel : JString.quotation ∉ lit "a" := by decide
    exact ⟨.inl hdel, fun _ _ => trivial⟩
  exact ⟨_, rfl, by decide, mPeerMap_follows rfl rfl hfollowed (List.prefix_refl _) rfl⟩

/-- An empty list leaves a peer without a name, and a list of nobody else leaves
those of the list before. -/
theorem room_strays :
    (Machine.run (Mirror.step roomJson (lit "me")) { engine := roomEngine } [roomEmpty]).map
      (fun s => (s.engine.mPeerMap.keys, s.members)) = some ({[]}, ∅) ∧
    (Machine.run (Mirror.step roomJson (lit "me")) { engine := roomEngine } [roomList, roomAlone]).map
      (fun s => (s.engine.mPeerMap.keys, s.members)) = some ({lit "a"}, ∅) := by
  constructor
  · decide +kernel
  · decide +kernel

end SmartSocks.Rtc
