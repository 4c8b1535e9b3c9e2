import Mathlib.Data.List.Basic
import Mathlib.Data.Nat.Basic
import SmartSocks.Library.Transducer

/-!
# Key streams

A key stream is made in blocks of one size, and has a letter for each position. A
cipher that combines it with a text letter by letter is a transducer whose state is
the position (`KeyStream.cipher`). It may as well work on whole blocks (`output_block`),
and it may begin at any position by a text that is padded to the start of a block
(`output_pad`).
-/

structure KeyStream (κ : Type) where
  size : Nat
  block : Nat → List κ
  pos : 0 < size
  length_block : ∀ c, (block c).length = size

namespace KeyStream

variable {κ α β : Type} (K : KeyStream κ)

theorem index_lt (p : Nat) : p % K.size < (K.block (p / K.size)).length := by
  rw [K.length_block]
  exact Nat.mod_lt p K.pos

/-- The letter at a position. -/
def letter (p : Nat) : κ := (K.block (p / K.size)).get ⟨p % K.size, K.index_lt p⟩

/-- `op` combines a letter of the text with one of the key. -/
def cipher (op : α → κ → β) : Transducer Nat α β where
  step p a := (p + 1, op a (K.letter p))

variable {op : α → κ → β} {op' : β → κ → α}

@[simp] theorem next_cipher (p : Nat) (as : List α) : (K.cipher op).next p as = p + as.length := by
  induction as generalizing p with
  | nil => rfl
  | cons a as ih =>
    rw [Transducer.next_cons, List.length_cons]
    exact (ih (p + 1)).trans (Nat.add_right_comm ..)

theorem inverts (h : ∀ a k, op' (op a k) k = a) : (K.cipher op').Inverts (K.cipher op) := by
  intro p a
  simp [cipher, h]

theorem letter_block {c j : Nat} (hj : j < K.size) :
    K.letter (K.size * c + j) = (K.block c).get ⟨j, (K.length_block c).symm ▸ hj⟩ := by
  have hdiv : (K.size * c + j) / K.size = c := by
    rw [Nat.mul_add_div K.pos, Nat.div_eq_of_lt hj, Nat.add_zero]
  have hmod : (K.size * c + j) % K.size = j := by rw [Nat.mul_add_mod, Nat.mod_eq_of_lt hj]
  simp only [letter, List.get_eq_getElem, hdiv, hmod]

/-- Within a block. -/
theorem output_drop {c j : Nat} {as : List α} (hj : j + as.length ≤ K.size) :
    (K.cipher op).output (K.size * c + j) as = List.zipWith op as ((K.block c).drop j) := by
  induction as generalizing j with
  | nil => rfl
  | cons a as ih =>
    rw [List.length_cons] at hj
    have hlt : j < (K.block c).length := by
      rw [K.length_block]
      omega
    have hrest := ih (j := j + 1) (by omega)
    rw [List.drop_eq_getElem_cons hlt, List.zipWith_cons_cons, ← hrest, Transducer.output_cons]
    simp only [cipher, K.letter_block (show j < K.size by omega), List.get_eq_getElem, Nat.add_assoc]

theorem output_block {c : Nat} {as : List α} (hlen : as.length ≤ K.size) :
    (K.cipher op).output (K.size * c) as = List.zipWith op as (K.block c) := by
  have h : (K.cipher op).output (K.size * c + 0) as = List.zipWith op as ((K.block c).drop 0) :=
    K.output_drop (by omega)
  simpa using h

/-- A whole block, and what follows it. -/
theorem output_blocks {c : Nat} {as : List α} (hlen : K.size ≤ as.length) :
    (K.cipher op).output (K.size * c) as =
      List.zipWith op (as.take K.size) (K.block c) ++ (K.cipher op).output (K.size * (c + 1)) (as.drop K.size) := by
  have htake : (as.take K.size).length = K.size := List.length_take_of_le hlen
  have h := (K.cipher op).output_append (K.size * c) (as.take K.size) (as.drop K.size)
  rw [List.take_append_drop, next_cipher, htake, K.output_block (Nat.le_of_eq htake), ← Nat.mul_succ] at h
  exact h

/-- A text that is padded to the start of its block. -/
theorem output_pad {p : Nat} {pad as : List α} (hpad : pad.length = p % K.size) :
    ((K.cipher op).output (K.size * (p / K.size)) (pad ++ as)).drop pad.length = (K.cipher op).output p as := by
  rw [Transducer.output_append, List.drop_left' (Transducer.length_output ..), next_cipher, hpad, Nat.div_add_mod]

end KeyStream
