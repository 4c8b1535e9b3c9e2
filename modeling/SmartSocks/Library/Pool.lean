import Mathlib.Logic.Function.Basic

/-!
# Pools of handles

Handles are created one after the other and disposed at any time. `Live` is a
handle that was created and not disposed since.
-/

structure Pool where
  created : Nat := 0
  disposed : Nat → Bool := fun _ => false

namespace Pool

variable (p : Pool) (i j : Nat)

def Live : Prop := i < p.created ∧ p.disposed i = false

instance : Decidable (p.Live i) := inferInstanceAs (Decidable (_ ∧ _))

/-- The new handle is the number of those before. -/
def create : Pool where
  created := p.created + 1
  disposed := Function.update p.disposed p.created false

def dispose : Pool := { p with disposed := Function.update p.disposed i true }

/-- `handle?.dispose()` -/
def disposeOption (handle : Option Nat) : Pool :=
  match handle with
  | none => p
  | some i => p.dispose i

variable {p i j}

@[simp] theorem created_dispose : (p.dispose i).created = p.created := rfl

@[simp] theorem created_disposeOption (handle : Option Nat) :
    (p.disposeOption handle).created = p.created := by
  cases handle <;> rfl

theorem live_create : p.create.Live i ↔ i = p.created ∨ p.Live i := by
  unfold Live create
  by_cases h : i = p.created
  · simp [h]
  · simp only [Function.update_of_ne h, h, false_or, Nat.lt_succ_iff_lt_or_eq, or_false]

theorem live_dispose : (p.dispose i).Live j ↔ j ≠ i ∧ p.Live j := by
  unfold Live dispose
  by_cases h : j = i
  · simp [h]
  · simp [h]

theorem live_disposeOption {handle : Option Nat} :
    (p.disposeOption handle).Live j ↔ handle ≠ some j ∧ p.Live j := by
  cases handle with
  | none => simp [disposeOption]
  | some i => rw [disposeOption, live_dispose, ne_comm, ne_eq, ne_eq, Option.some.injEq]

end Pool
