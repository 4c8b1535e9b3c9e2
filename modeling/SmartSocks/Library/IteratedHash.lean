import Mathlib.Data.List.Flatten

/-!
# Keys from an iterated hash

A seed is stretched to a stream of digests, each of the one before and the seed.
A key is the beginning of the stream.
-/

namespace IteratedHash

variable {α : Type} (hash : List α → List α) (seed : List α)

def block : Nat → List α
  | 0 => hash seed
  | n + 1 => hash (block n ++ seed)

/-- The first digests of the stream. -/
def stretch (n : Nat) : List α := (List.range n).flatMap (block hash seed)

/-- The key; there are enough digests if none is empty. -/
def key (length : Nat) : List α := (stretch hash seed length).take length

variable {hash seed} {k : Nat}

@[simp] theorem stretch_zero : stretch hash seed 0 = [] := rfl

theorem stretch_succ (n : Nat) : stretch hash seed (n + 1) = stretch hash seed n ++ block hash seed n := by
  simp [stretch, List.range_succ]

theorem length_block (hk : ∀ message, (hash message).length = k) (n : Nat) :
    (block hash seed n).length = k := by
  cases n <;> exact hk _

theorem length_stretch (hk : ∀ message, (hash message).length = k) (n : Nat) :
    (stretch hash seed n).length = n * k := by
  induction n with
  | zero => simp
  | succ n ih => rw [stretch_succ, List.length_append, ih, length_block hk, Nat.succ_mul]

/-- A longer stream has the same beginning. -/
theorem stretch_isPrefix {m n : Nat} (h : m ≤ n) : stretch hash seed m <+: stretch hash seed n := by
  induction h with
  | refl => exact List.prefix_refl _
  | step _ ih =>
    rw [stretch_succ]
    exact ih.trans (List.prefix_append _ _)

/-- As many digests as are needed may be taken. -/
theorem key_eq (hk : ∀ message, (hash message).length = k) (hpos : 0 < k) {n length : Nat}
    (hlength : length ≤ n * k) : (stretch hash seed n).take length = key hash seed length := by
  have htake {m n : Nat} (hm : length ≤ m * k) (h : m ≤ n) :
      (stretch hash seed m).take length = (stretch hash seed n).take length := by
    obtain ⟨rest, hrest⟩ : stretch hash seed m <+: stretch hash seed n := stretch_isPrefix h
    rw [← hrest, List.take_append_of_le_length]
    rw [length_stretch hk]
    exact hm
  have hself : length ≤ length * k := Nat.le_mul_of_pos_right length hpos
  unfold key
  rcases Nat.le_total n length with h | h
  · exact htake hlength h
  · exact (htake hself h).symm

end IteratedHash
