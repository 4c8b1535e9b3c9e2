import Mathlib.Logic.Relation
import Mathlib.Data.Nat.Init
import Mathlib.Order.Preorder.Finite

/-!
# Chains of a partial map

`follow next m a` makes `m` steps of a partial map and is `none` when the
chain ends before. When every step that moves lowers a measure, a chain goes on
for ever exactly when it comes to a fixed point (`ends_iff`); in a finite set it
does exactly when it comes back to where it has been (`ends_iff_acyclic`).
-/

namespace Chain

variable {α : Type} {next : α → Option α} {a b : α}

def follow (next : α → Option α) : Nat → α → Option α
  | 0, a => some a
  | m + 1, a => (next a).bind (follow next m)

/-- The elements of the chain from `a`. -/
def Reaches (next : α → Option α) : α → α → Prop :=
  Relation.ReflTransGen fun a b => next a = some b

/-- The chain has finitely many steps. -/
def Ends (next : α → Option α) (a : α) : Prop := ∃ m, follow next m a = none

theorem reaches_refl (a : α) : Reaches next a a := Relation.ReflTransGen.refl

theorem reaches_head {c : α} (h : next a = some b) (hr : Reaches next b c) : Reaches next a c :=
  Relation.ReflTransGen.head h hr

theorem reaches_cases (h : Reaches next a b) : a = b ∨ ∃ c, next a = some c ∧ Reaches next c b :=
  Relation.ReflTransGen.cases_head h

theorem follow_succ (h : next a = some b) (m : Nat) : follow next (m + 1) a = follow next m b := by
  simp [follow, h]

theorem reaches_iff_follow : Reaches next a b ↔ ∃ m, follow next m a = some b := by
  constructor
  · intro h
    induction h using Relation.ReflTransGen.head_induction_on with
    | refl => exact ⟨0, rfl⟩
    | head hac _ ih =>
      obtain ⟨m, hm⟩ := ih
      exact ⟨m + 1, by rw [follow_succ hac, hm]⟩
  · rintro ⟨m, hm⟩
    induction m generalizing a with
    | zero =>
      obtain rfl : a = b := Option.some.inj hm
      exact reaches_refl a
    | succ m ih =>
      obtain ⟨c, hc, hm⟩ := Option.bind_eq_some_iff.mp hm
      exact reaches_head hc (ih hm)

/-- A chain that has ended stays ended. -/
theorem follow_none_mono {m n : Nat} (h : follow next m a = none) (hmn : m ≤ n) :
    follow next n a = none := by
  induction m generalizing n a with
  | zero => cases h
  | succ m ih =>
    obtain ⟨n, rfl⟩ := Nat.exists_eq_add_of_lt hmn
    cases hc : next a with
    | none => simp [follow, hc]
    | some c =>
      rw [follow_succ hc] at h ⊢
      exact ih h (Nat.le_add_right m n)

theorem ends_step (h : next a = some b) : Ends next a ↔ Ends next b := by
  constructor
  · rintro ⟨m, hm⟩
    have hm := follow_none_mono hm (Nat.le_succ m)
    rw [follow_succ h] at hm
    exact ⟨m, hm⟩
  · rintro ⟨m, hm⟩
    exact ⟨m + 1, by rw [follow_succ h, hm]⟩

theorem ends_of_reaches (h : Reaches next a b) : Ends next a ↔ Ends next b := by
  induction h using Relation.ReflTransGen.head_induction_on with
  | refl => rfl
  | head hac _ ih => exact (ends_step hac).trans ih

theorem follow_add (next : α → Option α) (m n : Nat) (a : α) :
    follow next (m + n) a = (follow next m a).bind (follow next n) := by
  induction m generalizing a with
  | zero => simp [follow]
  | succ m ih =>
    rw [Nat.succ_add]
    cases hb : next a with
    | none => simp [follow, hb]
    | some b => rw [follow_succ hb, follow_succ hb, ih]

theorem not_ends_of_cycle (h : next a = some b) (hback : Reaches next b a) : ¬ Ends next a := by
  obtain ⟨m, hm⟩ := reaches_iff_follow.mp hback
  have hround : follow next (m + 1) a = some a := by rw [follow_succ h, hm]
  rintro ⟨n, hn⟩
  -- as many rounds as there are steps left are still not the end
  induction n using Nat.strong_induction_on with
  | _ n ih =>
    rcases Nat.lt_or_ge n (m + 1) with hlt | hle
    · rw [follow_none_mono hn (Nat.le_of_lt hlt)] at hround
      cases hround
    · obtain ⟨k, rfl⟩ := Nat.exists_eq_add_of_le hle
      rw [follow_add, hround] at hn
      exact ih k (by omega) hn

/-- A chain on which every move lowers a measure ends unless it comes to a
fixed point. -/
theorem ends_iff (measure : α → Nat)
    (lower : ∀ b c, Reaches next a b → next b = some c → c ≠ b → measure c < measure b) :
    Ends next a ↔ ∀ b, Reaches next a b → next b ≠ some b := by
  constructor
  · intro hend b hab hfix
    exact not_ends_of_cycle hfix (reaches_refl b) ((ends_of_reaches hab).mp hend)
  · intro hfree
    induction hn : measure a using Nat.strong_induction_on generalizing a with
    | _ n ih =>
      subst hn
      cases hc : next a with
      | none => exact ⟨1, by simp [follow, hc]⟩
      | some c =>
        have hmove : c ≠ a := by
          rintro rfl
          exact hfree c (reaches_refl c) hc
        refine (ends_step hc).mpr (ih _ (lower a c (reaches_refl a) hc hmove) ?_ ?_ rfl)
        · exact fun b d hcb => lower b d (reaches_head hc hcb)
        · exact fun b hcb => hfree b (reaches_head hc hcb)

/-- A chain in a finite set ends unless it comes back to where it has been. -/
theorem ends_iff_acyclic {S : Set α} (hS : S.Finite)
    (inside : ∀ b c, Reaches next a b → next b = some c → b ∈ S) :
    Ends next a ↔ ∀ b c, Reaches next a b → next b = some c → ¬ Reaches next c b := by
  constructor
  · intro hend b c hab hbc hcb
    exact not_ends_of_cycle hbc hcb ((ends_of_reaches hab).mp hend)
  · intro hfree
    by_contra hgo
    have hsome : ∀ m, ∃ b, follow next m a = some b := fun m =>
      Option.ne_none_iff_exists'.mp fun hnone => hgo ⟨m, hnone⟩
    choose f hf using hsome
    have hnext : ∀ m, next (f m) = some (f (m + 1)) := by
      intro m
      have hstep := follow_add next m 1 a
      rw [hf, hf, Option.bind_some, follow] at hstep
      obtain ⟨c, hc, hlast⟩ := Option.bind_eq_some_iff.mp hstep.symm
      rw [hc, ← hlast]
      rfl
    have hreach : ∀ m, Reaches next a (f m) := fun m => reaches_iff_follow.mpr ⟨m, hf m⟩
    have hmem : ∀ m, f m ∈ S := fun m => inside _ _ (hreach m) (hnext m)
    obtain ⟨i, j, hlt, heq⟩ := hS.exists_lt_map_eq_of_forall_mem hmem
    refine hfree _ _ (hreach i) (hnext i) ?_
    rw [heq]
    have hrest : Reaches next (f (i + 1)) (f (i + 1 + (j - (i + 1)))) := by
      refine reaches_iff_follow.mpr ⟨j - (i + 1), ?_⟩
      have hadd := follow_add next (i + 1) (j - (i + 1)) a
      rwa [hf, hf, Option.bind_some, eq_comm] at hadd
    rwa [Nat.add_sub_cancel' hlt] at hrest

end Chain
