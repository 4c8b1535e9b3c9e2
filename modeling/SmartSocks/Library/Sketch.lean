import Mathlib.Data.List.Basic

/-!
# Sketches, and two of them in turn

A sketch answers whether something was added to it. It may say yes to what was not,
but never no to what was. Two sketches that are filled in turn keep it from filling
up: when the current one holds `capacity` entries, the other one is emptied and takes
its place. What was added last is then still there, as far back as `capacity` entries
(`Turns.mem_of_recent`).
-/

/-- `φ` is the type of the sketches. -/
structure Sketch (φ α : Type) where
  empty : φ
  add : φ → α → φ
  mem : φ → α → Bool
  mem_add : ∀ f a, mem (add f a) a = true
  mem_mono : ∀ f a b, mem f b = true → mem (add f a) b = true

namespace Sketch

variable {φ α : Type} (S : Sketch φ α)

/-- The sketch that is filled, how many entries it holds, and the one before it. -/
structure Turns (φ : Type) where
  current : φ
  count : Nat
  previous : φ

namespace Turns

def start : Turns φ := ⟨S.empty, 0, S.empty⟩

def add (capacity : Nat) (t : Turns φ) (a : α) : Turns φ :=
  let filled := S.add t.current a
  if capacity ≤ t.count + 1 then ⟨S.empty, 0, filled⟩ else ⟨filled, t.count + 1, t.previous⟩

def mem (t : Turns φ) (a : α) : Bool := S.mem t.current a || S.mem t.previous a

/-- The entries are added from the back of the list. -/
def addAll (capacity : Nat) (entries : List α) : Turns φ :=
  entries.foldr (fun a t => t.add S capacity a) (start S)

variable {S}

/-- The entries that each of the two sketches holds at least. -/
structure Covers (S : Sketch φ α) (capacity : Nat) (t : Turns φ) (entries : List α) : Prop where
  count : t.count < capacity
  current : ∀ a ∈ entries.take t.count, S.mem t.current a = true
  previous : ∀ a ∈ (entries.drop t.count).take capacity, S.mem t.previous a = true

theorem Covers.add {capacity : Nat} {t : Turns φ} {entries : List α} (h : Covers S capacity t entries) (a : α) :
    Covers S capacity (t.add S capacity a) (a :: entries) := by
  have hfilled : ∀ b ∈ (a :: entries).take (t.count + 1), S.mem (S.add t.current a) b = true := by
    intro b hb
    rcases List.mem_cons.mp hb with rfl | hb
    · exact S.mem_add ..
    · exact S.mem_mono _ _ _ (h.current b hb)
  simp only [Turns.add]
  split
  next hfull =>
    have hlast : t.count + 1 = capacity := Nat.le_antisymm h.count hfull
    exact ⟨Nat.zero_lt_of_lt h.count, by simp, by simpa [hlast] using hfilled⟩
  next hroom => exact ⟨Nat.not_le.mp hroom, hfilled, h.previous⟩

theorem covers_addAll {capacity : Nat} (hcapacity : 0 < capacity) (entries : List α) :
    Covers S capacity (addAll S capacity entries) entries := by
  induction entries with
  | nil => exact ⟨hcapacity, by simp [addAll, start], by simp⟩
  | cons a entries ih => exact ih.add a

theorem Covers.mem {capacity : Nat} {t : Turns φ} {entries : List α} (h : Covers S capacity t entries) {a : α}
    (ha : a ∈ entries.take capacity) : t.mem S a = true := by
  have hsplit : entries.take capacity = entries.take t.count ++ (entries.drop t.count).take (capacity - t.count) := by
    rw [← List.take_add, Nat.add_sub_cancel' (Nat.le_of_lt h.count)]
  rw [hsplit, List.mem_append] at ha
  rw [Turns.mem, Bool.or_eq_true]
  rcases ha with ha | ha
  · exact .inl (h.current a ha)
  · exact .inr (h.previous a (List.take_subset_take_left _ (Nat.sub_le ..) ha))

/-- The last entries are never forgotten. -/
theorem mem_of_recent {capacity : Nat} {entries : List α} {a : α} (ha : a ∈ entries.take capacity) :
    (addAll S capacity entries).mem S a = true := by
  rcases Nat.eq_zero_or_pos capacity with rfl | hcapacity
  · simp at ha
  · exact (covers_addAll hcapacity entries).mem ha

end Turns
end Sketch
