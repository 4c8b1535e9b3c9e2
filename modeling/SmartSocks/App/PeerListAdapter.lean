import SmartSocks.Library.Machine
import SmartSocks.Library.View
import SmartSocks.Rtc.RtcEngine

/-!
# `PeerListAdapter`

The list of peers on the screen. The signalling changes the map of the engine and
posts a task for the UI thread, which does the tasks in order, later. The task for
a new list reads the map when it is done, and the tasks behind it are then done on
top of a list that knows of them already.
-/

namespace SmartSocks.App

open Jvm Rtc

/-- The entries of the map, in the order of its iterator. -/
abbrev Entries := List (Σ _ : JString, RtcPeer)

/-- What is posted by `runOnUiThread`. -/
inductive UiTask
  | updatePeerList
  | addPeer (peer : RtcPeer)
  | delPeer (peer : RtcPeer)

/-- The list of the adapter. -/
abbrev PeerList := List RtcPeer

namespace PeerList

def peerMapToList (entries : Entries) : PeerList := entries.map (·.2)

def addPeer (peer : RtcPeer) (mPeerList : PeerList) : PeerList :=
  if mPeerList.any (·.mPeerID = peer.mPeerID) then mPeerList else mPeerList ++ [peer]

def delPeer (peer : RtcPeer) (mPeerList : PeerList) : PeerList :=
  mPeerList.filter (·.mPeerID ≠ peer.mPeerID)

/-- The ids that the list shows. -/
def shown (mPeerList : PeerList) : List JString := mPeerList.map (·.mPeerID)

end PeerList

/-- The engine, the adapter, and the tasks that were not done yet. -/
structure MainActivity where
  engine : RtcEngine
  mPeerList : PeerList := []
  tasks : List UiTask := []

inductive UiEvent
  | onPeerList (peerList : List RtcPeer)
  | onAddPeer (peer : RtcPeer)
  | onDelPeer (peer : RtcPeer)
  | runTask (entries : Entries)

namespace MainActivity

/-- The listener of the engine posts a task. -/
def post (task : UiTask) (s : MainActivity) : MainActivity := { s with tasks := s.tasks ++ [task] }

/-- The list after a task. The map is read now, and its iterator has all entries in
some order. -/
def runTask (mPeerMap : Finmap fun _ : JString => RtcPeer) (entries : Entries) (mPeerList : PeerList) :
    UiTask → Option PeerList
  | .updatePeerList =>
    if (entries : Multiset (Σ _ : JString, RtcPeer)) = mPeerMap.entries then some (.peerMapToList entries) else none
  | .addPeer peer => some (mPeerList.addPeer peer)
  | .delPeer peer => some (mPeerList.delPeer peer)

def step (s : MainActivity) : UiEvent → Option MainActivity
  | .onPeerList peerList => some (post .updatePeerList { s with engine := s.engine.onPeerList peerList })
  | .onAddPeer peer =>
    if peer.mPeerID ∈ s.engine.mPeerMap then some s
    else some (post (.addPeer peer) { s with engine := s.engine.onAddPeer peer })
  | .onDelPeer peer => some (post (.delPeer peer) { s with engine := s.engine.onDelPeer peer })
  | .runTask entries =>
    match s.tasks with
    | [] => none
    | task :: tasks =>
      (runTask s.engine.mPeerMap entries s.mPeerList task).map fun mPeerList => { s with mPeerList, tasks }

end MainActivity

-- ---------------------------------------------------------------------------
-- The list as a view of the map
-- ---------------------------------------------------------------------------

def MainActivity.liveIds (s : MainActivity) : Set JString := { id | id ∈ s.engine.mPeerMap }

def MainActivity.shownIds (s : MainActivity) : Set JString := { id | id ∈ s.mPeerList.shown }

def UiTask.toView : UiTask → View.Task JString
  | .updatePeerList => .refresh
  | .addPeer peer => .add peer.mPeerID
  | .delPeer peer => .remove peer.mPeerID

/-- The list shows no id twice, and is the map once the tasks are done. The map has
its peers under their own ids. -/
structure Converging (s : MainActivity) : Prop where
  keyed : ∀ id peer, s.engine.mPeerMap.lookup id = some peer → peer.mPeerID = id
  nodup : s.mPeerList.shown.Nodup
  catches : View.Catches s.liveIds s.shownIds (s.tasks.map UiTask.toView)

section
variable {s t : MainActivity} {e : UiEvent} {mPeerList : PeerList} {entries : Entries} {peer : RtcPeer}
  {id : JString}

namespace PeerList

theorem mem_shown_addPeer : id ∈ (mPeerList.addPeer peer).shown ↔ id = peer.mPeerID ∨ id ∈ mPeerList.shown := by
  unfold addPeer
  split
  next hany =>
    have hmem : peer.mPeerID ∈ mPeerList.shown := by simpa [shown] using hany
    refine (or_iff_right_of_imp ?_).symm
    rintro rfl
    exact hmem
  next => simp [shown, or_comm, eq_comm]

theorem nodup_addPeer (h : mPeerList.shown.Nodup) : (mPeerList.addPeer peer).shown.Nodup := by
  unfold addPeer
  split
  next => exact h
  next hany =>
    have hnew : peer.mPeerID ∉ mPeerList.shown := by simpa [shown] using hany
    rw [shown, List.map_append]
    refine List.nodup_append.mpr ⟨h, List.nodup_singleton _, ?_⟩
    intro id hid other hother heq
    have hpeer : other = peer.mPeerID := List.mem_singleton.mp hother
    exact hnew (hpeer ▸ heq ▸ hid)

theorem mem_shown_delPeer : id ∈ (mPeerList.delPeer peer).shown ↔ id ∈ mPeerList.shown ∧ id ≠ peer.mPeerID := by
  simp only [shown, delPeer, List.mem_map, List.mem_filter, decide_eq_true_eq]
  constructor
  · rintro ⟨other, ⟨hmem, hne⟩, rfl⟩
    exact ⟨⟨other, hmem, rfl⟩, hne⟩
  · rintro ⟨⟨other, hmem, rfl⟩, hne⟩
    exact ⟨other, ⟨hmem, hne⟩, rfl⟩

theorem nodup_delPeer (h : mPeerList.shown.Nodup) : (mPeerList.delPeer peer).shown.Nodup :=
  h.sublist (List.filter_sublist.map _)

/-- The list that is made of the map shows its ids, each once. -/
theorem shown_peerMapToList {m : Finmap fun _ : JString => RtcPeer}
    (hkeyed : ∀ id peer, m.lookup id = some peer → peer.mPeerID = id)
    (hentries : (entries : Multiset (Σ _ : JString, RtcPeer)) = m.entries) :
    (peerMapToList entries).shown.Nodup ∧ ∀ id, id ∈ (peerMapToList entries).shown ↔ id ∈ m := by
  have hids : (peerMapToList entries).shown = entries.keys := by
    rw [shown, peerMapToList, List.map_map]
    refine List.map_congr_left fun entry hentry => hkeyed entry.1 entry.2 (Finmap.mem_lookup_iff.mpr ?_)
    rw [← hentries]
    exact hentry
  have hnodup : entries.keys.Nodup := by
    have hkeys := m.nodupKeys
    rw [← hentries] at hkeys
    exact Multiset.coe_nodupKeys.mp hkeys
  rw [hids]
  refine ⟨hnodup, fun id => ?_⟩
  rw [Finmap.mem_def, ← hentries]
  exact Iff.rfl

end PeerList

-- ---------------------------------------------------------------------------
-- Steps
-- ---------------------------------------------------------------------------

/-- The engine changes and a task is posted. -/
theorem Converging.post {task : UiTask} {engine : RtcEngine} (hs : Converging s)
    (hkeyed : ∀ id peer, engine.mPeerMap.lookup id = some peer → peer.mPeerID = id)
    (hcatches : View.Catches { id | id ∈ engine.mPeerMap } s.shownIds
      (s.tasks.map UiTask.toView ++ [task.toView])) :
    Converging (MainActivity.post task { s with engine }) := by
  refine ⟨hkeyed, hs.nodup, ?_⟩
  rw [MainActivity.post, List.map_append]
  exact hcatches

theorem Converging.onPeerList (hs : Converging s) (peerList : List RtcPeer) :
    Converging (MainActivity.post .updatePeerList { s with engine := s.engine.onPeerList peerList }) := by
  refine hs.post (fun id peer hlookup => ?_) (View.catches_refresh ..)
  rw [RtcEngine.lookup_onPeerList] at hlookup
  obtain ⟨-, heq⟩ := Option.ite_none_right_eq_some.mp hlookup
  cases heq
  rfl

theorem Converging.onAddPeer (hs : Converging s) (hnew : peer.mPeerID ∉ s.engine.mPeerMap) :
    Converging (MainActivity.post (.addPeer peer) { s with engine := s.engine.onAddPeer peer }) := by
  have hmap : (s.engine.onAddPeer peer).mPeerMap = s.engine.mPeerMap.insert peer.mPeerID peer := by
    rw [RtcEngine.onAddPeer, if_neg hnew]
  have hids : { id | id ∈ (s.engine.onAddPeer peer).mPeerMap } = insert peer.mPeerID s.liveIds := by
    ext id
    rw [Set.mem_ofPred_eq, hmap]
    exact Finmap.mem_insert
  refine hs.post (fun id other hlookup => ?_) (hids ▸ hs.catches.add peer.mPeerID)
  rw [hmap] at hlookup
  by_cases hid : id = peer.mPeerID
  · rw [hid, Finmap.lookup_insert] at hlookup
    cases hlookup
    exact hid.symm
  · rw [Finmap.lookup_insert_of_ne _ hid] at hlookup
    exact hs.keyed id other hlookup

theorem Converging.onDelPeer (hs : Converging s) (peer : RtcPeer) :
    Converging (MainActivity.post (.delPeer peer) { s with engine := s.engine.onDelPeer peer }) := by
  have hids : { id | id ∈ (s.engine.onDelPeer peer).mPeerMap } = s.liveIds \ {peer.mPeerID} := by
    ext id
    exact Finmap.mem_erase.trans and_comm
  refine hs.post (fun id other hlookup => ?_) (hids ▸ hs.catches.remove peer.mPeerID)
  by_cases hid : id = peer.mPeerID
  · rw [RtcEngine.onDelPeer, hid, Finmap.lookup_erase] at hlookup
    cases hlookup
  · exact hs.keyed id other ((Finmap.lookup_erase_ne hid).symm.trans hlookup)

/-- A task leaves the view that it is for. -/
theorem Converging.runTask {task : UiTask} {tasks : List UiTask} (hs : Converging s)
    (htasks : s.tasks = task :: tasks)
    (hrun : MainActivity.runTask s.engine.mPeerMap entries s.mPeerList task = some mPeerList) :
    Converging { s with mPeerList, tasks } := by
  have hcatches := hs.catches
  rw [htasks] at hcatches
  have hshown : mPeerList.shown.Nodup ∧ { id | id ∈ mPeerList.shown } = task.toView.view s.liveIds s.shownIds := by
    cases task with
    | updatePeerList =>
      obtain ⟨hentries, heq⟩ := Option.ite_none_right_eq_some.mp hrun
      cases heq
      obtain ⟨hnodup, hmem⟩ := PeerList.shown_peerMapToList hs.keyed hentries
      exact ⟨hnodup, Set.ext hmem⟩
    | addPeer peer =>
      cases hrun
      exact ⟨PeerList.nodup_addPeer hs.nodup, Set.ext fun id => PeerList.mem_shown_addPeer⟩
    | delPeer peer =>
      cases hrun
      exact ⟨PeerList.nodup_delPeer hs.nodup, Set.ext fun id => PeerList.mem_shown_delPeer⟩
  refine ⟨hs.keyed, hshown.1, ?_⟩
  have hview : View.Catches s.liveIds { id | id ∈ mPeerList.shown } (tasks.map UiTask.toView) := by
    rw [hshown.2]
    exact hcatches
  exact hview

theorem converging_step (hs : Converging s) (h : s.step e = some t) : Converging t := by
  cases e with
  | onPeerList peerList =>
    cases h
    exact hs.onPeerList peerList
  | onAddPeer peer =>
    by_cases hknown : peer.mPeerID ∈ s.engine.mPeerMap
    · rw [MainActivity.step, if_pos hknown] at h
      cases h
      exact hs
    · rw [MainActivity.step, if_neg hknown] at h
      cases h
      exact hs.onAddPeer hknown
  | onDelPeer peer =>
    cases h
    exact hs.onDelPeer peer
  | runTask entries =>
    rw [MainActivity.step] at h
    split at h
    next => cases h
    next task tasks htasks =>
      obtain ⟨mPeerList, hrun, rfl⟩ := Option.map_eq_some_iff.mp h
      exact hs.runTask htasks hrun

theorem converging_initial (engine : RtcEngine) (hempty : engine.mPeerMap = ∅) :
    Converging { engine } where
  keyed := by
    rw [hempty]
    exact nofun
  nodup := List.nodup_nil
  catches := by
    refine View.catches_nil.mpr ?_
    ext id
    simp [MainActivity.liveIds, MainActivity.shownIds, PeerList.shown, hempty, Finmap.notMem_empty]

/-- The task that comes next can be done, whatever the map is by then. -/
theorem runTask_enabled {task : UiTask} {tasks : List UiTask} (htasks : s.tasks = task :: tasks) :
    ∃ entries t, s.step (.runTask entries) = some t ∧ t.tasks = tasks := by
  obtain ⟨entries, hentries⟩ := Quotient.exists_rep s.engine.mPeerMap.entries
  have hrun : ∃ mPeerList, MainActivity.runTask s.engine.mPeerMap entries s.mPeerList task = some mPeerList := by
    cases task with
    | updatePeerList => exact ⟨_, if_pos hentries⟩
    | addPeer peer => exact ⟨_, rfl⟩
    | delPeer peer => exact ⟨_, rfl⟩
  obtain ⟨mPeerList, hrun⟩ := hrun
  refine ⟨entries, { s with mPeerList, tasks }, ?_, rfl⟩
  rw [MainActivity.step, htasks]
  exact Option.map_eq_some_iff.mpr ⟨mPeerList, hrun, rfl⟩

/-- So the tasks come to an end when nothing else happens. -/
theorem tasks_end (s : MainActivity) : ∃ events t, Machine.run MainActivity.step s events = some t ∧ t.tasks = [] := by
  generalize htasks : s.tasks = tasks
  induction tasks generalizing s with
  | nil => exact ⟨[], s, rfl, htasks⟩
  | cons task tasks ih =>
    obtain ⟨entries, t, hstep, hrest⟩ := runTask_enabled htasks
    obtain ⟨events, u, hrun, hidle⟩ := ih t hrest
    exact ⟨.runTask entries :: events, u, Machine.run_cons.mpr ⟨t, hstep, hrun⟩, hidle⟩

end

/-- Whenever all tasks are done, the list shows the ids of the map, each once. -/
theorem peer_list_converges (engine : RtcEngine) (hempty : engine.mPeerMap = ∅) (events : List UiEvent)
    (s : MainActivity) (hrun : Machine.run MainActivity.step { engine } events = some s)
    (hidle : s.tasks = []) :
    s.mPeerList.shown.Nodup ∧ ∀ id, id ∈ s.mPeerList.shown ↔ id ∈ s.engine.mPeerMap := by
  have hs : Converging s := Machine.run_keeps (fun _ _ _ => converging_step) (converging_initial engine hempty) hrun
  refine ⟨hs.nodup, fun id => ?_⟩
  have hcatches := hs.catches
  rw [hidle] at hcatches
  exact Set.ext_iff.mp (View.catches_nil.mp hcatches) id

/-- A list is posted, and its task is done when one peer has come and another has
gone. -/
def lateList : List UiEvent :=
  [.onPeerList [⟨lit "a"⟩, ⟨lit "b"⟩], .onAddPeer ⟨lit "c"⟩, .onDelPeer ⟨lit "a"⟩,
    .runTask [⟨lit "c", ⟨lit "c"⟩⟩, ⟨lit "b", ⟨lit "b"⟩⟩], .runTask [], .runTask []]

theorem lateList_converges : ∃ s, Machine.run MainActivity.step { engine := {} } lateList = some s ∧
    s.mPeerList.shown.Nodup ∧ ∀ id, id ∈ s.mPeerList.shown ↔ id ∈ s.engine.mPeerMap := by
  have hidle : (Machine.run MainActivity.step { engine := {} } lateList).map (·.tasks.length) = some 0 := by decide
  obtain ⟨s, hrun, htasks⟩ := Option.map_eq_some_iff.mp hidle
  exact ⟨s, hrun, peer_list_converges {} rfl lateList s hrun (List.length_eq_zero_iff.mp htasks)⟩

end SmartSocks.App
