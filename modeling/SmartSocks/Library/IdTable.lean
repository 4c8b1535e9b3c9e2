import Mathlib.Algebra.Group.Nat.Defs
import Mathlib.Logic.Function.Basic

/-!
# Tables of pending requests under wrapping ids

Ids are handed out in order by a counter of `w` bits and an entry is removed
when it is answered. An entry survives until it is answered or until the
counter comes round to its id, which takes `2 ^ w` further assignments
(`entry_foldl`).
-/

structure IdTable (w : Nat) (α : Type) where
  last : BitVec w
  entries : BitVec w → Option α

namespace IdTable

inductive Op (w : Nat) (α : Type)
  | assign (a : α)
  | complete (x : BitVec w)

variable {w : Nat} {α : Type}

def apply (t : IdTable w α) : Op w α → IdTable w α
  | .assign a => ⟨t.last + 1, Function.update t.entries (t.last + 1) (some a)⟩
  | .complete x => { t with entries := Function.update t.entries x none }

def assigns : List (Op w α) → Nat
  | [] => 0
  | .assign _ :: ops => assigns ops + 1
  | .complete _ :: ops => assigns ops

theorem assigns_append (ops ops' : List (Op w α)) :
    assigns (ops ++ ops') = assigns ops + assigns ops' := by
  induction ops with
  | nil => simp [assigns]
  | cons op ops ih =>
    cases op with
    | assign a =>
      simp only [List.cons_append, assigns, ih]
      omega
    | complete x => exact ih

theorem ofNat_succ (n : Nat) : BitVec.ofNat w (n + 1) = BitVec.ofNat w n + 1 := by
  rw [BitVec.ofNat_add]
  rfl

/-- The id that was assigned `n + 1` assignments ago is not the next one. -/
theorem next_ne {x : BitVec w} {n : Nat} (h : n + 1 < 2 ^ w) : x + BitVec.ofNat w n + 1 ≠ x := by
  intro heq
  have hn : BitVec.ofNat w n + 1 = 0 := by
    rw [BitVec.add_assoc] at heq
    exact BitVec.add_right_eq_self.mp heq
  have hmod : (BitVec.ofNat w n + 1).toNat = n + 1 := by
    rw [← ofNat_succ, BitVec.toNat_ofNat, Nat.mod_eq_of_lt h]
  rw [hn] at hmod
  cases hmod

/-- While fewer than `2 ^ w` ids have been handed out since `x`, the entry of
`x` changes only by being removed. -/
theorem entry_foldl {x : BitVec w} {n : Nat} (t : IdTable w α) (ops : List (Op w α))
    (hlast : t.last = x + BitVec.ofNat w n) (hcount : n + assigns ops < 2 ^ w) :
    ((ops.foldl apply t).entries x = t.entries x ∨ (ops.foldl apply t).entries x = none) ∧
      (.complete x ∉ ops → (ops.foldl apply t).entries x = t.entries x) := by
  induction ops generalizing t n with
  | nil => exact ⟨.inl rfl, fun _ => rfl⟩
  | cons op ops ih =>
    cases op with
    | assign a =>
      have hne : x ≠ t.last + 1 := by
        rw [hlast]
        refine (next_ne ?_).symm
        simp only [assigns] at hcount
        omega
      have hkeep : (t.apply (.assign a)).entries x = t.entries x := Function.update_of_ne hne _ _
      have hnext : (t.apply (.assign a)).last = x + BitVec.ofNat w (n + 1) := by
        rw [apply, hlast, BitVec.add_assoc, ofNat_succ]
      obtain ⟨hor, hne⟩ := ih (t.apply (.assign a)) hnext (by simp only [assigns] at hcount; omega)
      rw [hkeep] at hor hne
      refine ⟨hor, fun hmem => hne fun h => hmem (List.mem_cons_of_mem _ h)⟩
    | complete y =>
      obtain ⟨hor, hne⟩ := ih (t.apply (.complete y)) hlast hcount
      by_cases hy : x = y
      · subst hy
        have hgone : (t.apply (.complete x)).entries x = none := Function.update_self ..
        rw [hgone, or_self] at hor
        exact ⟨.inr hor, fun hmem => absurd List.mem_cons_self hmem⟩
      · have hkeep : (t.apply (.complete y)).entries x = t.entries x := Function.update_of_ne hy _ _
        rw [hkeep] at hor hne
        exact ⟨hor, fun hmem => hne fun h => hmem (List.mem_cons_of_mem _ h)⟩

/-- A removed entry stays removed. -/
theorem entry_foldl_none {x : BitVec w} {n : Nat} (t : IdTable w α) (ops : List (Op w α))
    (hlast : t.last = x + BitVec.ofNat w n) (hcount : n + assigns ops < 2 ^ w)
    (hnone : t.entries x = none) : (ops.foldl apply t).entries x = none := by
  obtain ⟨hor, -⟩ := entry_foldl t ops hlast hcount
  rwa [hnone, or_self] at hor

theorem last_foldl {x : BitVec w} {n : Nat} (t : IdTable w α) (ops : List (Op w α))
    (hlast : t.last = x + BitVec.ofNat w n) :
    (ops.foldl apply t).last = x + BitVec.ofNat w (n + assigns ops) := by
  induction ops generalizing t n with
  | nil => exact hlast
  | cons op ops ih =>
    cases op with
    | assign a =>
      have hnext : (t.apply (.assign a)).last = x + BitVec.ofNat w (n + 1) := by
        rw [apply, hlast, BitVec.add_assoc, ofNat_succ]
      have hcount : n + assigns (.assign a :: ops) = n + 1 + assigns ops := by
        simp only [assigns]
        omega
      rw [hcount]
      exact ih (t.apply (.assign a)) hnext
    | complete y => exact ih (t.apply (.complete y)) hlast

end IdTable
