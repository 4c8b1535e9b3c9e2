import SmartSocks.Jvm.Throwable
import Mathlib.Data.List.DropRight

/-!
# Strings as code units

A string of the JVM is a list of UTF-16 code units, and nothing asks that its
surrogates come in pairs.
-/

namespace SmartSocks.Jvm

abbrev CodeUnit := BitVec 16

abbrev JString := List CodeUnit

/-- A literal of the source, which has no characters beyond the first plane. -/
def lit (s : String) : JString := s.toList.map fun c => BitVec.ofNat 16 c.toNat

namespace JString

def quotation : CodeUnit := 0x22

def comma : CodeUnit := 0x2C

def backslash : CodeUnit := 0x5C

/-- Kotlin's `Char.isWhitespace`. -/
def isWhitespace (c : CodeUnit) : Bool :=
  (0x9 ≤ c && c ≤ 0xD) || (0x1C ≤ c && c ≤ 0x20) || c == 0xA0 || c == 0x1680 ||
    (0x2000 ≤ c && c ≤ 0x200A) || c == 0x2028 || c == 0x2029 || c == 0x202F || c == 0x205F || c == 0x3000

def trim (s : JString) : JString := (s.dropWhile isWhitespace).rdropWhile isWhitespace

/-- `substring(start, end)` -/
def substring (s : JString) (startIndex endIndex : Int) : Except Throwable JString :=
  if 0 ≤ startIndex ∧ startIndex ≤ endIndex ∧ endIndex ≤ s.length then
    .ok ((s.take endIndex.toNat).drop startIndex.toNat)
  else .error .indexOutOfBounds

/-- The string between its first and its last character. -/
def inner (s : JString) : JString := (s.take (s.length - 1)).drop 1

theorem substring_inner (s : JString) : s.substring 1 (s.length - 1) =
    if 2 ≤ s.length then .ok s.inner else .error .indexOutOfBounds := by
  unfold substring inner
  refine ite_congr (propext ?_) (fun h => ?_) fun _ => rfl
  · omega
  · congr 3
    omega

/-- `replace(old, "")` for a single character -/
def remove (old : CodeUnit) (s : JString) : JString := s.filter (· ≠ old)

end JString

end SmartSocks.Jvm
