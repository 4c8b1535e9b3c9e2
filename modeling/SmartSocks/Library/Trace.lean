import Mathlib.Data.List.Basic

/-!
# Programs that leave a trace

A program emits effects, and ends with a value or stops short of it. `Meets` is the
rule of a program whose checks report their failure and go on: either all of them
pass, and the program has one value and one trace, or the trace has a bad effect,
whatever the program has done with the failed value.
-/

structure Trace (ε α : Type) where
  /-- `none` if the program has stopped before its end. -/
  value : Option α
  effects : List ε

namespace Trace

variable {ε α β : Type}

protected def pure (a : α) : Trace ε α := ⟨some a, []⟩

protected def bind (m : Trace ε α) (f : α → Trace ε β) : Trace ε β :=
  match m.value with
  | none => ⟨none, m.effects⟩
  | some a => ⟨(f a).value, m.effects ++ (f a).effects⟩

instance : Monad (Trace ε) where
  pure := Trace.pure
  bind := Trace.bind

def emit (e : ε) : Trace ε Unit := ⟨some (), [e]⟩

def stop : Trace ε α := ⟨none, []⟩

/-- A check that reports its failure and goes on. -/
def check (failed : Prop) [Decidable failed] (e : ε) : Trace ε Unit := if failed then emit e else pure ()

/-- A part of a program that may be left out. -/
def whenever (c : Prop) [Decidable c] (m : Trace ε Unit) : Trace ε Unit := if c then m else pure ()

variable {bad : ε → Prop} {m n : Trace ε α} {f : α → Trace ε β} {ok ok' : Prop} {a : α} {b : β} {es fs : List ε}

theorem effects_subset_bind : m.effects ⊆ (m >>= f).effects := by
  change m.effects ⊆ (Trace.bind m f).effects
  unfold Trace.bind
  split
  · exact List.Subset.refl _
  · exact List.subset_append_left _ _

theorem mk_bind : ((⟨some a, es⟩ : Trace ε α) >>= f) = ⟨(f a).value, es ++ (f a).effects⟩ := rfl

theorem pure_bind (a : α) (f : α → Trace ε β) : ((Pure.pure a : Trace ε α) >>= f) = f a := rfl

theorem value_bind {b : β} (h : (m >>= f).value = some b) : ∃ a, m.value = some a ∧ (f a).value = some b := by
  change (Trace.bind m f).value = some b at h
  unfold Trace.bind at h
  split at h
  next => cases h
  next a ha => exact ⟨a, ha, h⟩

/-- If its checks pass, the program ends with `a` and leaves `es`; if not, it reports it. -/
structure Meets (bad : ε → Prop) (m : Trace ε α) (ok : Prop) (a : α) (es : List ε) : Prop where
  clean : ok → ∀ e ∈ es, ¬ bad e
  pass : ok → m = ⟨some a, es⟩
  fail : ¬ ok → ∃ e ∈ m.effects, bad e

namespace Meets

theorem exists_bad_iff (h : Meets bad m ok a es) : (∃ e ∈ m.effects, bad e) ↔ ¬ ok := by
  refine ⟨?_, h.fail⟩
  rintro ⟨e, he, hbad⟩ hok
  rw [h.pass hok] at he
  exact h.clean hok e he hbad

theorem congr (h : Meets bad m ok a es) (hiff : ok ↔ ok') : Meets bad m ok' a es :=
  ⟨fun hok => h.clean (hiff.mpr hok), fun hok => h.pass (hiff.mpr hok), fun hnot => h.fail (mt hiff.mp hnot)⟩

theorem pure (a : α) : Meets bad (Pure.pure a : Trace ε α) True a [] where
  clean _ := List.forall_mem_nil _
  pass _ := rfl
  fail hnot := absurd trivial hnot

theorem emit {e : ε} (he : ¬ bad e) : Meets bad (Trace.emit e) True () [e] where
  clean _ := List.forall_mem_singleton.mpr he
  pass _ := rfl
  fail hnot := absurd trivial hnot

/-- A program that reports a failure in any case. -/
theorem never {e : ε} (he : bad e) (hmem : e ∈ m.effects) (a : α) (es : List ε) : Meets bad m False a es :=
  ⟨False.elim, False.elim, fun _ => ⟨e, hmem, he⟩⟩

theorem check {failed : Prop} [Decidable failed] {e : ε} (he : bad e) :
    Meets bad (Trace.check failed e) (¬ failed) () [] := by
  unfold Trace.check
  by_cases hfailed : failed
  · rw [if_pos hfailed]
    exact (never he (List.mem_singleton_self e) () []).congr (by simp [hfailed])
  · rw [if_neg hfailed]
    exact (pure ()).congr (by simp [hfailed])

theorem whenever {c : Prop} [Decidable c] {m : Trace ε Unit} (h : Meets bad m ok () es) :
    Meets bad (whenever c m) (c → ok) () (if c then es else []) := by
  unfold Trace.whenever
  by_cases hc : c
  · simpa [hc] using h
  · simpa [hc] using pure ()

/-- What comes next is looked at only if the checks have passed so far. -/
theorem bind (h : Meets bad m ok a es) (hf : ok → Meets bad (f a) ok' b fs) :
    Meets bad (m >>= f) (ok ∧ ok') b (es ++ fs) where
  clean := by
    rintro ⟨hok, hok'⟩ e he
    rcases List.mem_append.mp he with he | he
    · exact h.clean hok e he
    · exact (hf hok).clean hok' e he
  pass := by
    rintro ⟨hok, hok'⟩
    rw [h.pass hok, mk_bind, (hf hok).pass hok']
  fail := by
    intro hnot
    by_cases hok : ok
    · obtain ⟨e, he, hbad⟩ := (hf hok).fail fun hok' => hnot ⟨hok, hok'⟩
      refine ⟨e, ?_, hbad⟩
      rw [h.pass hok, mk_bind]
      exact List.mem_append_right es he
    · obtain ⟨e, he, hbad⟩ := h.fail hok
      exact ⟨e, effects_subset_bind he, hbad⟩

theorem map (h : Meets bad m ok a es) (g : α → β) :
    Meets bad (m >>= fun a => Pure.pure (g a)) ok (g a) es := by
  have hbind := h.bind (f := fun a => Pure.pure (g a)) fun _ => pure (g a)
  rw [List.append_nil] at hbind
  exact hbind.congr (and_iff_left trivial)

/-- Checks at the end. -/
theorem bind_check (h : Meets bad m ok a es) (hf : ok → Meets bad (f a) ok' b []) :
    Meets bad (m >>= f) (ok ∧ ok') b es := by
  simpa using h.bind hf

/-- What comes after a failure does not take it back. -/
theorem bind_failed (h : Meets bad m False a es) (b : β) (fs : List ε) : Meets bad (m >>= f) False b fs := by
  obtain ⟨e, he, hbad⟩ := h.fail id
  exact never hbad (effects_subset_bind he) b fs

theorem foldlM {f : β → α → Trace ε β} {next : β → α → β} {ok : α → Prop}
    (h : ∀ b a, Meets bad (f b a) (ok a) (next b a) []) (as : List α) (b : β) :
    Meets bad (as.foldlM f b) (∀ a ∈ as, ok a) (as.foldl next b) [] := by
  induction as generalizing b with
  | nil => exact (pure b).congr (by simp)
  | cons a as ih =>
    rw [List.foldlM_cons]
    exact ((h b a).bind fun _ => ih (next b a)).congr List.forall_mem_cons.symm

theorem forM {f : α → Trace ε PUnit} {ok : α → Prop} {g : α → List ε}
    (h : ∀ a, Meets bad (f a) (ok a) () (g a)) (as : List α) :
    Meets bad (ForM.forM as f) (∀ a ∈ as, ok a) () (as.flatMap g) := by
  induction as with
  | nil => exact (pure ()).congr (by simp)
  | cons a as ih =>
    rw [List.forM_cons]
    exact ((h a).bind fun _ => ih).congr List.forall_mem_cons.symm

/-- The same, of checks only. -/
theorem forM_check {f : α → Trace ε PUnit} {ok : α → Prop} (h : ∀ a, Meets bad (f a) (ok a) () [])
    (as : List α) : Meets bad (ForM.forM as f) (∀ a ∈ as, ok a) () [] := by
  have hnone : as.flatMap (fun _ => ([] : List ε)) = [] := List.flatMap_eq_nil_iff.mpr fun _ _ => rfl
  exact hnone ▸ forM (g := fun _ => []) h as

end Meets

end Trace
