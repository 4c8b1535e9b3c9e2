import Mathlib.Data.List.Basic
import Mathlib.Data.List.Perm.Basic

/-!
# A table that evicts the entry used least recently

Entries stand in the order of their last use. What `find` takes out and puts back is
the same table in another order (`touch_perm`), and a table that is `full` after an
insertion loses its first entry (`insert_split`), so that it never reaches its capacity
(`length_insert`).
-/

namespace Lru

variable {κ ν : Type}

section
variable [DecidableEq κ]

/-- The value under a key, and the other entries. -/
def take (k : κ) : List (κ × ν) → Option (ν × List (κ × ν))
  | [] => none
  | e :: es => if e.1 = k then some (e.2, es) else (take k es).map fun (v, rest) => (v, e :: rest)

/-- Uses the entry under a key. -/
def touch (k : κ) (es : List (κ × ν)) : Option ν × List (κ × ν) :=
  match take k es with
  | none => (none, es)
  | some (v, rest) => (some v, rest ++ [(k, v)])

variable {k : κ} {v : ν} {es rest : List (κ × ν)}

theorem take_perm (h : take k es = some (v, rest)) : es.Perm ((k, v) :: rest) := by
  induction es generalizing rest with
  | nil => cases h
  | cons e es ih =>
    simp only [take] at h
    split at h
    next hk =>
      cases h
      rw [← hk]
    next hk =>
      obtain ⟨⟨v', rest'⟩, hrest, heq⟩ := Option.map_eq_some_iff.mp h
      cases heq
      exact ((ih hrest).cons e).trans (.swap ..)

theorem take_eq_none_iff : take k es = none ↔ k ∉ es.map Prod.fst := by
  induction es with
  | nil => simp [take]
  | cons e es ih =>
    simp only [take]
    split
    next hk => simp [hk]
    next hk => simp [Ne.symm hk, ih]

theorem touch_perm (k : κ) (es : List (κ × ν)) : (touch k es).2.Perm es := by
  simp only [touch]
  split
  · exact .refl es
  next h => exact List.perm_append_comm.trans (take_perm h).symm

theorem touch_some (h : (touch k es).1 = some v) : (k, v) ∈ es := by
  simp only [touch] at h
  split at h
  · cases h
  next hk =>
    cases h
    exact (take_perm hk).mem_iff.mpr List.mem_cons_self

theorem touch_none (h : (touch k es).1 = none) : k ∉ es.map Prod.fst := by
  simp only [touch] at h
  split at h
  next hk => exact take_eq_none_iff.mp hk
  · cases h

end

/-- Adds an entry. What it has to leave for it comes back with the table. -/
def insert (capacity : Nat) (k : κ) (v : ν) (es : List (κ × ν)) : Option (κ × ν) × List (κ × ν) :=
  let es := es ++ [(k, v)]
  if capacity ≤ es.length then (es.head?, es.tail) else (none, es)

variable {es : List (κ × ν)}

/-- What leaves the table and what stays are the table with the new entry. -/
theorem insert_split (capacity : Nat) (k : κ) (v : ν) (es : List (κ × ν)) :
    es ++ [(k, v)] = (insert capacity k v es).1.toList ++ (insert capacity k v es).2 := by
  simp only [insert]
  split
  · cases es <;> rfl
  · rfl

theorem length_insert {capacity : Nat} (h : es.length < capacity) (k : κ) (v : ν) :
    (insert capacity k v es).2.length < capacity := by
  simp only [insert]
  split
  · simpa using h
  next hroom => exact Nat.not_le.mp hroom

/-- A new entry is not the one that leaves. -/
theorem mem_insert {capacity : Nat} (h : 1 < capacity) (k : κ) (v : ν) : (k, v) ∈ (insert capacity k v es).2 := by
  simp only [insert]
  split
  next hfull =>
    have hne : es ≠ [] := by
      rintro rfl
      exact Nat.not_le.mpr h hfull
    rw [List.tail_append_of_ne_nil hne]
    exact List.mem_append_right _ List.mem_cons_self
  next => exact List.mem_append_right _ List.mem_cons_self

end Lru
