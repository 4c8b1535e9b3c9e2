import Mathlib.Data.List.Basic
import Mathlib.Data.Fin.Basic

/-!
# Base 64

Four digits of six bits are three bytes. `decode` reads digits without padding; the
bits that are left at the end make no byte.
-/

namespace Base64

def byte (n : Nat) : BitVec 8 := BitVec.ofNat 8 n

def decode : List (Fin 64) → List (BitVec 8)
  | a :: b :: c :: d :: digits =>
    byte (a.val * 4 + b.val / 16) :: byte (b.val * 16 + c.val / 4) :: byte (c.val * 64 + d.val) :: decode digits
  | [a, b, c] => [byte (a.val * 4 + b.val / 16), byte (b.val * 16 + c.val / 4)]
  | [a, b] => [byte (a.val * 4 + b.val / 16)]
  | [_] => []
  | [] => []

theorem length_decode (digits : List (Fin 64)) : (decode digits).length = digits.length * 3 / 4 := by
  induction digits using decode.induct with
  | case1 a b c d digits ih =>
    simp only [decode, List.length_cons, ih]
    omega
  | case2 a b c => simp [decode]
  | case3 a b => simp [decode]
  | case4 a => simp [decode]
  | case5 => simp [decode]

end Base64
