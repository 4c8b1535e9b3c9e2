import Mathlib.Order.Defs.Unbundled

/-!
# Throwables and programs that may throw

A program over a state either returns or throws, and the state it has reached
is kept in both cases: a Java handler that throws half way leaves its writes
behind. `exec` runs a program, and its equations execute one symbolically.
-/

namespace SmartSocks.Jvm

inductive Throwable
  | arrayIndexOutOfBounds
  | bufferOverflow
  | bufferUnderflow
  | cancelledKey
  | illegalArgument
  | indexOutOfBounds
  | io
  | json
  | negativeArraySize
  | nullPointer
  | stackOverflow
  | unresolvedAddress
  deriving DecidableEq, Repr

/-- What `catch (e: Exception)` catches: `StackOverflowError` is an `Error`. -/
def Throwable.isException : Throwable → Bool
  | .stackOverflow => false
  | _ => true

theorem bind_eq_ok {m : Except ε α} {k : α → Except ε β} {b : β} :
    (m >>= k) = .ok b ↔ ∃ a, m = .ok a ∧ k a = .ok b := by
  cases m with
  | ok a => simp [bind, Except.bind]
  | error e => simp [bind, Except.bind]

theorem bind_eq_error {m : Except ε α} {k : α → Except ε β} {e : ε} :
    (m >>= k) = .error e ↔ m = .error e ∨ ∃ a, m = .ok a ∧ k a = .error e := by
  cases m with
  | ok a => simp [bind, Except.bind]
  | error e => simp [bind, Except.bind]

@[simp] theorem exists_ok_unit {x : Except ε Unit} : (∃ a, x = .ok a) ↔ x = .ok () :=
  ⟨fun ⟨_, h⟩ => h, fun h => ⟨(), h⟩⟩

@[simp] theorem ok_bind (a : α) (f : α → Except ε β) : (Except.ok a >>= f) = f a := rfl
@[simp] theorem error_bind (e : ε) (f : α → Except ε β) :
    (Except.error e >>= f) = .error e := rfl

abbrev Prog (σ α : Type) := ExceptT Throwable (StateM σ) α

namespace Prog

variable {σ α β : Type}

def exec (m : Prog σ α) (s : σ) : Except Throwable α × σ := (ExceptT.run m).run s

@[simp] theorem exec_pure (a : α) (s : σ) : exec (pure a : Prog σ α) s = (.ok a, s) := rfl

theorem exec_bind (m : Prog σ α) (f : α → Prog σ β) (s : σ) :
    exec (m >>= f) s =
      match exec m s with
      | (.ok a, t) => exec (f a) t
      | (.error e, t) => (.error e, t) := by
  rcases hm : (ExceptT.run m).run s with ⟨_ | _, t⟩ <;>
    simp only [exec, ExceptT.run_bind, StateT.run_bind, hm] <;> rfl

theorem exec_map (f : α → β) (m : Prog σ α) (s : σ) :
    exec (f <$> m) s =
      match exec m s with
      | (.ok a, t) => (.ok (f a), t)
      | (.error e, t) => (.error e, t) := by
  rw [map_eq_pure_bind, exec_bind]
  rfl

@[simp] theorem exec_throw (e : Throwable) (s : σ) :
    exec (throw e : Prog σ α) s = (.error e, s) := rfl

@[simp] theorem exec_get (s : σ) : exec (get : Prog σ σ) s = (.ok s, s) := rfl

@[simp] theorem exec_modify (f : σ → σ) (s : σ) :
    exec (modify f : Prog σ Unit) s = (.ok (), f s) := rfl

@[simp] theorem exec_set (t s : σ) : exec (set t : Prog σ Unit) s = (.ok (), t) := rfl

theorem exec_tryCatch (m : Prog σ α) (h : Throwable → Prog σ α) (s : σ) :
    exec (tryCatch m h) s =
      match exec m s with
      | (.ok a, t) => (.ok a, t)
      | (.error e, t) => exec (h e) t := by
  rcases hm : (ExceptT.run m).run s with ⟨_ | _, t⟩ <;>
    simp only [exec, ExceptT.run_tryCatch, StateT.run_bind, hm] <;> rfl

/-- A result that was computed outside the state. -/
def lift (x : Except Throwable α) : Prog σ α :=
  match x with
  | .ok a => pure a
  | .error e => throw e

@[simp] theorem exec_lift (x : Except Throwable α) (s : σ) : exec (lift x : Prog σ α) s = (x, s) := by
  cases x <;> rfl

theorem lift_bind (x : Except Throwable α) (f : α → Except Throwable β) :
    (lift (x >>= f) : Prog σ β) = lift x >>= fun a => lift (f a) := by
  cases x <;> rfl

/-- A program on one part of the state. -/
def on {τ : Type} (part : σ → τ) (update : τ → σ → σ) (m : Prog τ α) : Prog σ α :=
  ExceptT.mk fun s => ((exec m (part s)).1, update (exec m (part s)).2 s)

@[simp] theorem exec_on {τ : Type} (part : σ → τ) (update : τ → σ → σ) (m : Prog τ α) (s : σ) :
    exec (on part update m) s = ((exec m (part s)).1, update (exec m (part s)).2 s) := rfl

-- ---------------------------------------------------------------------------
-- What a program does not change
-- ---------------------------------------------------------------------------

/-- Every run, also one that throws, ends in a state that `R` relates to its
start. -/
def Within (R : σ → σ → Prop) (m : Prog σ α) : Prop := ∀ s, R s (m.exec s).2

section
variable {R : σ → σ → Prop} [IsPreorder σ R]

theorem Within.bind {m : Prog σ α} {k : α → Prog σ β} (hm : Within R m)
    (hk : ∀ a, Within R (k a)) : Within R (m >>= k) := by
  intro s
  have hs := hm s
  rw [exec_bind]
  rcases hr : m.exec s with ⟨e | a, t⟩ <;> rw [hr] at hs
  · exact hs
  · exact IsTrans.trans _ _ _ hs (hk a t)

omit [IsPreorder σ R] in
theorem Within.ite {c : Prop} [Decidable c] {m n : Prog σ α} (hm : Within R m) (hn : Within R n) :
    Within R (if c then m else n) := by
  split
  · exact hm
  · exact hn

theorem within_pure (a : α) : Within R (pure a : Prog σ α) := fun s => Std.Refl.refl s

theorem within_throw (e : Throwable) : Within R (throw e : Prog σ α) := fun s => Std.Refl.refl s

theorem within_get : Within R (get : Prog σ σ) := fun s => Std.Refl.refl s

theorem within_lift (x : Except Throwable α) : Within R (lift x) := by
  intro s
  rw [exec_lift]
  exact Std.Refl.refl s

omit [IsPreorder σ R] in
theorem within_modify {f : σ → σ} (h : ∀ s, R s (f s)) : Within R (modify f : Prog σ Unit) := h

end

-- ---------------------------------------------------------------------------
-- When a program returns
-- ---------------------------------------------------------------------------

def Returns (m : Prog σ α) (s : σ) : Prop := ∃ a, (m.exec s).1 = .ok a

section
variable {m : Prog σ α} {k : α → Prog σ β} {s : σ}

theorem returns_bind : (m >>= k).Returns s ↔
    ∃ a, (m.exec s).1 = .ok a ∧ (k a).Returns (m.exec s).2 := by
  unfold Returns
  rw [exec_bind]
  rcases m.exec s with ⟨e | a, t⟩
  · simp
  · simp

@[simp] theorem returns_pure (a : α) : (pure a : Prog σ α).Returns s := ⟨a, rfl⟩

@[simp] theorem not_returns_throw (e : Throwable) : ¬ (throw e : Prog σ α).Returns s :=
  fun ⟨_, h⟩ => nomatch h

@[simp] theorem returns_lift {x : Except Throwable α} :
    (lift x : Prog σ α).Returns s ↔ ∃ a, x = .ok a := by
  simp [Returns]

@[simp] theorem returns_lift_bind {x : Except Throwable α} :
    (lift x >>= k).Returns s ↔ ∃ a, x = .ok a ∧ (k a).Returns s := by
  simp [returns_bind]

@[simp] theorem returns_get_bind {k : σ → Prog σ β} : (get >>= k).Returns s ↔ (k s).Returns s := by
  simp [returns_bind]

@[simp] theorem returns_modify_bind {f : σ → σ} {k : Unit → Prog σ β} :
    (modify f >>= k).Returns s ↔ (k ()).Returns (f s) := by
  rw [returns_bind]
  constructor
  · rintro ⟨⟨⟩, -, h⟩
    exact h
  · exact fun h => ⟨(), rfl, h⟩

@[simp] theorem returns_modify {f : σ → σ} : (modify f : Prog σ Unit).Returns s := ⟨(), rfl⟩

end

end Prog

end SmartSocks.Jvm
