import Mathlib.Data.Set.Insert

/-!
# A view that lags behind a set

A set changes at once, and its view by tasks that are done later, in the order in
which they were posted. A task adds an element, removes one, or makes the view
what the set is by then. `Catches` says that the view is the set once the tasks
are done, if nothing else happens. Every change that posts its own task keeps it,
and so does the task that is done, whatever was posted before.
-/

namespace View

variable {α : Type}

inductive Task (α : Type)
  | refresh
  | add (a : α)
  | remove (a : α)

/-- The view after a task. -/
def Task.view (live view : Set α) : Task α → Set α
  | .refresh => live
  | .add a => insert a view
  | .remove a => view \ {a}

/-- The view is the set once the tasks are done. -/
def Catches (live view : Set α) (tasks : List (Task α)) : Prop := tasks.foldl (Task.view live) view = live

section
variable {live live' view view' : Set α} {tasks : List (Task α)} {a b : α}

theorem catches_nil : Catches live view [] ↔ view = live := Iff.rfl

theorem foldl_view_append (task : Task α) :
    (tasks ++ [task]).foldl (Task.view live) view = task.view live (tasks.foldl (Task.view live) view) := by
  rw [List.foldl_append]
  rfl

/-- An element is not affected by changes of others. -/
theorem mem_foldl_view_congr (hlive : a ∈ live ↔ a ∈ live') (hview : a ∈ view ↔ a ∈ view') :
    a ∈ tasks.foldl (Task.view live) view ↔ a ∈ tasks.foldl (Task.view live') view' := by
  induction tasks generalizing view view' with
  | nil => exact hview
  | cons task tasks ih =>
    refine ih ?_
    cases task with
    | refresh => exact hlive
    | add b => exact or_congr_right hview
    | remove b => exact and_congr_left fun _ => hview

/-- A set that changes at one element only, which the task posted behind brings
up to date. -/
theorem Catches.post (h : Catches live view tasks) (task : Task α)
    (hothers : ∀ b, b ≠ a → (b ∈ live' ↔ b ∈ live))
    (htask : ∀ view, a ∈ task.view live' view ↔ a ∈ live')
    (hkeeps : ∀ view b, b ≠ a → (b ∈ task.view live' view ↔ b ∈ view)) :
    Catches live' view (tasks ++ [task]) := by
  unfold Catches at h ⊢
  rw [foldl_view_append]
  ext b
  by_cases hb : b = a
  · subst hb
    exact htask _
  · rw [hkeeps _ b hb, mem_foldl_view_congr (hothers b hb) Iff.rfl, h, hothers b hb]

theorem Catches.add (h : Catches live view tasks) (a : α) :
    Catches (insert a live) view (tasks ++ [.add a]) :=
  h.post (.add a) (fun _ hb => Set.mem_insert_iff.trans (or_iff_right hb))
    (fun _ => iff_of_true (Set.mem_insert ..) (Set.mem_insert ..))
    fun _ _ hb => Set.mem_insert_iff.trans (or_iff_right hb)

theorem Catches.remove (h : Catches live view tasks) (a : α) :
    Catches (live \ {a}) view (tasks ++ [.remove a]) :=
  h.post (.remove a) (fun _ hb => and_iff_left hb)
    (fun _ => iff_of_false (fun hmem => hmem.2 rfl) (fun hmem => hmem.2 rfl))
    fun _ _ hb => and_iff_left hb

/-- The set changes in any way. -/
theorem catches_refresh (live view : Set α) (tasks : List (Task α)) :
    Catches live view (tasks ++ [.refresh]) :=
  foldl_view_append .refresh

end

end View
