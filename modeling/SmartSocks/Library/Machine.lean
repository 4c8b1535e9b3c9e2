import Mathlib.Data.Option.Basic

/-!
# Runs of a machine

A machine is a partial step function: `none` says that the event is not
enabled in the state. `run` folds it over a list of events. `Guarded` says
that every event of a run met a guard in the state it was taken in, and
`run_invariant` is the induction behind every result about runs.
-/

namespace Machine

variable {State Event State' Event' : Type}

def run (step : State → Event → Option State) : State → List Event → Option State
  | s, [] => some s
  | s, e :: es => (step s e).bind fun t => run step t es

/-- Every event met `guard` in the state it was taken in. -/
def Guarded (step : State → Event → Option State) (guard : State → Event → Prop) :
    State → List Event → Prop
  | _, [] => True
  | s, e :: es => guard s e ∧ ∀ t, step s e = some t → Guarded step guard t es

instance decidableGuarded (step : State → Event → Option State) (guard : State → Event → Prop)
    [∀ s e, Decidable (guard s e)] : ∀ s es, Decidable (Guarded step guard s es)
  | _, [] => .isTrue trivial
  | s, e :: es =>
    have : Decidable (∀ t, step s e = some t → Guarded step guard t es) :=
      match h : step s e with
      | none => .isTrue fun _ ht => by cases ht
      | some t => @decidable_of_iff _ (Guarded step guard t es) (by simp)
          (decidableGuarded step guard t es)
    inferInstanceAs (Decidable (_ ∧ _))

variable {step : State → Event → Option State} {guard : State → Event → Prop}

attribute [local simp] run Guarded

@[simp] theorem run_nil (s : State) : run step s [] = some s := rfl

theorem run_cons {s u : State} {e : Event} {es : List Event} :
    run step s (e :: es) = some u ↔ ∃ t, step s e = some t ∧ run step t es = some u := by
  simp [run, Option.bind_eq_some_iff]

theorem run_append {s u : State} {es fs : List Event} :
    run step s (es ++ fs) = some u ↔ ∃ t, run step s es = some t ∧ run step t fs = some u := by
  induction es generalizing s with
  | nil => simp
  | cons e es ih =>
    simp only [List.cons_append, run_cons, ih]
    constructor
    · rintro ⟨t, ht, v, hv, hu⟩
      exact ⟨v, ⟨t, ht, hv⟩, hu⟩
    · rintro ⟨v, ⟨t, ht, hv⟩, hu⟩
      exact ⟨t, ht, v, hv, hu⟩

/-- The end of a run that comes to one. -/
theorem run_getD {s fallback : State} {es : List Event} (h : (run step s es).isSome = true) :
    run step s es = some ((run step s es).getD fallback) := by
  obtain ⟨t, ht⟩ := Option.isSome_iff_exists.mp h
  rw [ht, Option.getD_some]

theorem guarded_append {s t : State} {es fs : List Event} (hr : run step s es = some t) :
    Guarded step guard s (es ++ fs) ↔ Guarded step guard s es ∧ Guarded step guard t fs := by
  induction es generalizing s with
  | nil =>
    cases hr
    simp [Guarded]
  | cons e es ih =>
    obtain ⟨v, hv, hr⟩ := run_cons.mp hr
    simp only [List.cons_append, Guarded, hv, Option.some.injEq, forall_eq', ih hr, and_assoc]

/-- The induction over a run: what the guarded steps keep holds at its end. -/
theorem run_invariant {Inv : State → Prop}
    (keep : ∀ s e t, Inv s → guard s e → step s e = some t → Inv t)
    {s t : State} {es : List Event} (hs : Inv s) (hg : Guarded step guard s es)
    (hr : run step s es = some t) : Inv t := by
  induction es generalizing s with
  | nil => cases hr; exact hs
  | cons e es ih =>
    obtain ⟨u, hu, hr⟩ := run_cons.mp hr
    exact ih (keep s e u hs hg.1 hu) (hg.2 u hu) hr

/-- A machine whose events are always enabled. -/
theorem run_total (h : ∀ s e, ∃ t, step s e = some t) (s : State) (es : List Event) :
    ∃ t, run step s es = some t := by
  induction es generalizing s with
  | nil => exact ⟨s, rfl⟩
  | cons e es ih =>
    obtain ⟨t, ht⟩ := h s e
    obtain ⟨u, hu⟩ := ih t
    exact ⟨u, run_cons.mpr ⟨t, ht, hu⟩⟩

/-- The guard may also say of an event what all events of the run satisfy. -/
theorem Guarded.and_of_mem {p : Event → Prop} {s : State} {es : List Event}
    (hg : Guarded step guard s es) (hp : ∀ e ∈ es, p e) :
    Guarded step (fun s e => guard s e ∧ p e) s es := by
  induction es generalizing s with
  | nil => trivial
  | cons e es ih =>
    obtain ⟨he, hes⟩ := List.forall_mem_cons.mp hp
    exact ⟨⟨hg.1, he⟩, fun t ht => ih (hg.2 t ht) hes⟩

theorem Guarded.mono {guard' : State → Event → Prop} (h : ∀ s e, guard s e → guard' s e) {s : State}
    {es : List Event} (hg : Guarded step guard s es) : Guarded step guard' s es := by
  induction es generalizing s with
  | nil => trivial
  | cons e es ih => exact ⟨h s e hg.1, fun t ht => ih (hg.2 t ht)⟩

theorem guarded_and_iff {p : Event → Prop} {s : State} {es : List Event} (hp : ∀ e ∈ es, p e) :
    Guarded step (fun s e => guard s e ∧ p e) s es ↔ Guarded step guard s es :=
  ⟨Guarded.mono fun _ _ => And.left, fun hg => hg.and_of_mem hp⟩

/-- A guard that never excludes an event. -/
theorem guarded_of_forall (h : ∀ s e, guard s e) (s : State) (es : List Event) :
    Guarded step guard s es := by
  induction es generalizing s with
  | nil => trivial
  | cons e es ih => exact ⟨h s e, fun t _ => ih t⟩

/-- An invariant of all steps, without a guard. -/
theorem run_keeps {Inv : State → Prop} (keep : ∀ s e t, Inv s → step s e = some t → Inv t)
    {s t : State} {es : List Event} (hs : Inv s) (hr : run step s es = some t) : Inv t :=
  have hg : Guarded step (fun _ _ => True) s es := guarded_of_forall (fun _ _ => trivial) s es
  run_invariant (fun s e t h _ => keep s e t h) hs hg hr

/-- A property that each step keeps just when it met the guard. -/
theorem run_iff {P : State → Prop} (keep : ∀ s e t, step s e = some t → (P t ↔ P s ∧ guard s e))
    {s u : State} {es : List Event} (hr : run step s es = some u) :
    P u ↔ P s ∧ Guarded step guard s es := by
  induction es generalizing s with
  | nil =>
    cases hr
    exact (and_iff_left trivial).symm
  | cons e es ih =>
    obtain ⟨t, ht, hr⟩ := run_cons.mp hr
    simp only [Guarded, ht, Option.some.injEq, forall_eq', ih hr, keep s e t ht, and_assoc]

/-- A machine that stops for good in a state that is not alive: a run is alive at
its end just when each of its steps met the guard under which a step stays
alive. -/
theorem run_alive_iff {Inv Alive : State → Prop}
    (running : ∀ s e t, step s e = some t → Alive s)
    (alive : ∀ s e t, Inv s → step s e = some t → (Alive t ↔ guard s e))
    (keep : ∀ s e t, Inv s → step s e = some t → Alive t → Inv t)
    {s u : State} {es : List Event} (hs : Inv s) (ha : Alive s) (hr : run step s es = some u) :
    Alive u ↔ Guarded step guard s es := by
  induction es generalizing s with
  | nil =>
    cases hr
    exact iff_of_true ha trivial
  | cons e es ih =>
    obtain ⟨t, ht, hr⟩ := run_cons.mp hr
    simp only [Guarded, ht, Option.some.injEq, forall_eq', ← alive s e t hs ht]
    by_cases hat : Alive t
    · rw [ih (keep s e t hs ht hat) hat hr]
      exact (and_iff_right hat).symm
    · cases es with
      | nil =>
        cases hr
        exact iff_of_false hat fun h => hat h.1
      | cons e' es =>
        obtain ⟨v, hv, -⟩ := run_cons.mp hr
        exact absurd (running t e' v hv) hat

/-- A run meets the guard just when all states on its way are good, if an event
that does not meet it leads to a bad one. -/
theorem guarded_iff {Inv Good : State → Prop}
    (keep : ∀ s e t, Inv s → guard s e → step s e = some t → Inv t)
    (good : ∀ s, Inv s → Good s)
    (bad : ∀ s e t, Inv s → ¬ guard s e → step s e = some t → ¬ Good t)
    {s u : State} {es : List Event} (hs : Inv s) (hr : run step s es = some u) :
    Guarded step guard s es ↔ ∀ fs t, fs <+: es → run step s fs = some t → Good t := by
  constructor
  · rintro hg fs t ⟨rest, rfl⟩ ht
    exact good t (run_invariant keep hs ((guarded_append ht).mp hg).1 ht)
  · intro hgood
    induction es generalizing s with
    | nil => trivial
    | cons e es ih =>
      obtain ⟨t, ht, hr⟩ := run_cons.mp hr
      have hguard : guard s e := by
        by_contra hnot
        refine bad s e t hs hnot ht (hgood [e] t ⟨es, rfl⟩ ?_)
        exact run_cons.mpr ⟨t, ht, rfl⟩
      refine ⟨hguard, fun t' ht' => ?_⟩
      cases ht.symm.trans ht'
      refine ih (keep s e t hs hguard ht) hr fun fs v hfs hv => ?_
      exact hgood (e :: fs) v (List.cons_prefix_cons.mpr ⟨rfl, hfs⟩) (run_cons.mpr ⟨t, ht, hv⟩)

/-- Two guards that agree on the steps of a run, as long as it meets the first. -/
theorem guarded_congr {Inv : State → Prop} {guard' : State → Event → Prop}
    (keep : ∀ s e t, Inv s → guard s e → step s e = some t → Inv t)
    (agree : ∀ s e t, Inv s → step s e = some t → (guard s e ↔ guard' s e))
    {s u : State} {es : List Event} (hs : Inv s) (hr : run step s es = some u) :
    Guarded step guard s es ↔ Guarded step guard' s es := by
  induction es generalizing s with
  | nil => exact Iff.rfl
  | cons e es ih =>
    obtain ⟨t, ht, hr⟩ := run_cons.mp hr
    simp only [Guarded, ht, Option.some.injEq, forall_eq', ← agree s e t hs ht]
    exact and_congr_right fun hg => ih (keep s e t hs hg ht) hr

/-- A guard that a smaller machine decides, which only sees the events. -/
theorem guarded_track {Shadow : Type} {track : Shadow → Event → Shadow} {J : Shadow → State → Prop}
    {seen : Shadow → Event → Prop}
    (keep : ∀ x s e t, J x s → step s e = some t → J (track x e) t)
    (agree : ∀ x s e, J x s → (guard s e ↔ seen x e))
    {x : Shadow} {s u : State} {es : List Event} (hs : J x s) (hr : run step s es = some u) :
    Guarded step guard s es ↔ Guarded (fun x e => some (track x e)) seen x es := by
  induction es generalizing x s with
  | nil => exact Iff.rfl
  | cons e es ih =>
    obtain ⟨t, ht, hr⟩ := run_cons.mp hr
    simp only [Guarded, ht, Option.some.injEq, forall_eq', agree x s e hs, ih (keep x s e t hs ht) hr]

end Machine
