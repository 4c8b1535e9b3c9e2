import Mathlib.Data.List.Basic

/-!
# Synchronous transducers

A transducer reads one letter, emits one letter and moves to its next state.
Its output on a word is determined prefix by prefix, so cutting the word into
pieces and carrying the state over gives the same output (`output_append`,
`flatten_outputs`). A decoder that inverts every step inverts every word
(`Inverts.output`).
-/

structure Transducer (σ α β : Type) where
  step : σ → α → σ × β

namespace Transducer

variable {σ α β τ : Type}

/-- The state after a word. -/
def next (T : Transducer σ α β) : σ → List α → σ
  | s, [] => s
  | s, a :: as => T.next (T.step s a).1 as

/-- The letters emitted on a word. -/
def output (T : Transducer σ α β) : σ → List α → List β
  | _, [] => []
  | s, a :: as => (T.step s a).2 :: T.output (T.step s a).1 as

/-- One output for each piece of a word fed piece by piece. -/
def outputs (T : Transducer σ α β) : σ → List (List α) → List (List β)
  | _, [] => []
  | s, p :: ps => T.output s p :: T.outputs (T.next s p) ps

variable (T : Transducer σ α β)

@[simp] theorem next_nil (s : σ) : T.next s [] = s := rfl
@[simp] theorem next_cons (s : σ) (a : α) (as : List α) :
    T.next s (a :: as) = T.next (T.step s a).1 as := rfl
@[simp] theorem output_nil (s : σ) : T.output s [] = [] := rfl
@[simp] theorem output_cons (s : σ) (a : α) (as : List α) :
    T.output s (a :: as) = (T.step s a).2 :: T.output (T.step s a).1 as := rfl

@[simp] theorem length_output (s : σ) (as : List α) : (T.output s as).length = as.length := by
  induction as generalizing s with
  | nil => rfl
  | cons a as ih => simp [ih]

theorem next_append (s : σ) (as bs : List α) : T.next s (as ++ bs) = T.next (T.next s as) bs := by
  induction as generalizing s with
  | nil => rfl
  | cons a as ih => exact ih _

theorem output_append (s : σ) (as bs : List α) :
    T.output s (as ++ bs) = T.output s as ++ T.output (T.next s as) bs := by
  induction as generalizing s with
  | nil => rfl
  | cons a as ih => simp [ih]

/-- More input only extends the output. -/
theorem output_prefix {as bs : List α} (s : σ) (h : as <+: bs) :
    T.output s as <+: T.output s bs := by
  obtain ⟨rest, rfl⟩ := h
  rw [output_append]
  exact List.prefix_append _ _

/-- The pieces do not show in the concatenated output. -/
theorem flatten_outputs (s : σ) (ps : List (List α)) :
    (T.outputs s ps).flatten = T.output s ps.flatten := by
  induction ps generalizing s with
  | nil => rfl
  | cons p ps ih => simp [outputs, output_append, ih]

/-- `D` reads back every letter `E` emits and follows its states. -/
def Inverts (D : Transducer σ β α) (E : Transducer σ α β) : Prop :=
  ∀ s a, D.step s (E.step s a).2 = ((E.step s a).1, a)

theorem Inverts.output {D : Transducer σ β α} {E : Transducer σ α β} (h : D.Inverts E)
    (s : σ) (as : List α) : D.output s (E.output s as) = as := by
  induction as generalizing s with
  | nil => rfl
  | cons a as ih => simp [h s a, ih]

/-- One transducer of a family; the index stays. -/
def indexed {ι : Type} (T : ι → Transducer σ α β) : Transducer (ι × σ) α β where
  step s a := ((s.1, ((T s.1).step s.2 a).1), ((T s.1).step s.2 a).2)

theorem run_indexed {ι : Type} (T : ι → Transducer σ α β) (i : ι) (s : σ) (as : List α) :
    (indexed T).output (i, s) as = (T i).output s as ∧ (indexed T).next (i, s) as = (i, (T i).next s as) := by
  induction as generalizing s with
  | nil => exact ⟨rfl, rfl⟩
  | cons a as ih =>
    obtain ⟨houtput, hnext⟩ := ih ((T i).step s a).1
    exact ⟨congrArg (((T i).step s a).2 :: ·) houtput, hnext⟩

/-- One of two transducers; the state says which one. -/
def sum (T : Transducer σ α β) (U : Transducer τ α β) : Transducer (σ ⊕ τ) α β where
  step
    | .inl s, a => (.inl (T.step s a).1, (T.step s a).2)
    | .inr t, a => (.inr (U.step t a).1, (U.step t a).2)

section
variable (T : Transducer σ α β) (U : Transducer τ α β)

theorem run_inl (s : σ) (as : List α) :
    (T.sum U).output (.inl s) as = T.output s as ∧ (T.sum U).next (.inl s) as = .inl (T.next s as) := by
  induction as generalizing s with
  | nil => exact ⟨rfl, rfl⟩
  | cons a as ih =>
    obtain ⟨houtput, hnext⟩ := ih (T.step s a).1
    exact ⟨congrArg ((T.step s a).2 :: ·) houtput, hnext⟩

theorem run_inr (t : τ) (as : List α) :
    (T.sum U).output (.inr t) as = U.output t as ∧ (T.sum U).next (.inr t) as = .inr (U.next t as) := by
  induction as generalizing t with
  | nil => exact ⟨rfl, rfl⟩
  | cons a as ih =>
    obtain ⟨houtput, hnext⟩ := ih (U.step t a).1
    exact ⟨congrArg ((U.step t a).2 :: ·) houtput, hnext⟩

end

theorem Inverts.indexed {ι : Type} {D : ι → Transducer σ β α} {E : ι → Transducer σ α β}
    (h : ∀ i, (D i).Inverts (E i)) : (Transducer.indexed D).Inverts (Transducer.indexed E) := by
  rintro ⟨i, s⟩ a
  simp [Transducer.indexed, h i s a]

theorem Inverts.sum {D : Transducer σ β α} {E : Transducer σ α β} {D' : Transducer τ β α}
    {E' : Transducer τ α β} (h : D.Inverts E) (h' : D'.Inverts E') : (D.sum D').Inverts (E.sum E') := by
  rintro (s | t) a
  · simp [Transducer.sum, h s a]
  · simp [Transducer.sum, h' t a]

/-- The transducer on labelled letters: it works on the letters and leaves each
label in place. -/
def labelled (T : Transducer σ α β) (τ : Type) : Transducer σ (α × τ) (β × τ) where
  step s a := ((T.step s a.1).1, ((T.step s a.1).2, a.2))

theorem map_snd_output_labelled (s : σ) (as : List (α × τ)) :
    ((T.labelled τ).output s as).map Prod.snd = as.map Prod.snd := by
  induction as generalizing s with
  | nil => rfl
  | cons a as ih => simpa [labelled] using ih _

end Transducer
