import Mathlib.Data.List.TakeWhile
import SmartSocks.Utils.Strings

/-!
# Pieces of a text

What the splitting and trimming functions do to a text that is put together
from lines, separators and blanks.
-/

namespace SmartSocks.Strings

section
variable {line rest xs ys : List Char} {separator : Char}

/-- A line without a carriage return is split off. -/
theorem splitLines_line (h : '\r' ∉ line) : splitLines (line ++ '\r' :: '\n' :: rest) = line :: splitLines rest := by
  induction line with
  | nil => rw [List.nil_append, splitLines]
  | cons c line ih =>
    obtain ⟨hc, hline⟩ := not_or.mp (mt List.mem_cons.mpr h)
    rw [List.cons_append, splitLines, ih hline]
    rintro _ rfl
    exact absurd rfl hc

theorem splitAt_separator (h : separator ∉ xs) :
    Strings.splitAt separator (xs ++ separator :: ys) = xs :: Strings.splitAt separator ys := by
  induction xs with
  | nil => rw [List.nil_append, Strings.splitAt, if_pos rfl]
  | cons c xs ih =>
    obtain ⟨hc, hxs⟩ := not_or.mp (mt List.mem_cons.mpr h)
    rw [List.cons_append, Strings.splitAt, if_neg (Ne.symm hc), ih hxs]

theorem splitAt_of_not_mem (h : separator ∉ xs) : Strings.splitAt separator xs = [xs] := by
  induction xs with
  | nil => rw [Strings.splitAt]
  | cons c xs ih =>
    obtain ⟨hc, hxs⟩ := not_or.mp (mt List.mem_cons.mpr h)
    rw [Strings.splitAt, if_neg (Ne.symm hc), ih hxs]

end

section
variable {piece : List Char} {pieces : List (List Char)}

theorem dropLastEmpty_cons (h : piece ≠ [] ∨ dropLastEmpty pieces ≠ []) :
    dropLastEmpty (piece :: pieces) = piece :: dropLastEmpty pieces := by
  rw [dropLastEmpty, List.reverse_cons, List.dropWhile_append]
  split
  next hnil =>
    rw [List.isEmpty_iff] at hnil
    have hrest : dropLastEmpty pieces = [] := List.reverse_eq_nil_iff.mpr hnil
    have hone : [piece].dropWhile List.isEmpty = [piece] := by
      rw [List.dropWhile_cons_of_neg]
      simpa [hrest] using h
    rw [hone, hrest]
    rfl
  next =>
    rw [List.reverse_append, dropLastEmpty]
    rfl

/-- Only empty pieces are dropped. -/
theorem dropLastEmpty_append (pieces : List (List Char)) :
    ∃ dropped, pieces = dropLastEmpty pieces ++ dropped ∧ ∀ piece ∈ dropped, piece = [] := by
  refine ⟨(pieces.reverse.takeWhile List.isEmpty).reverse, ?_, fun piece hpiece => ?_⟩
  · rw [dropLastEmpty, ← List.reverse_append, List.takeWhile_append_dropWhile, List.reverse_reverse]
  · exact List.isEmpty_iff.mp (List.mem_takeWhile_imp (List.mem_reverse.mp hpiece))

/-- A search that passes over empty pieces. -/
theorem findSome_dropLastEmpty {α : Type} {f : List Char → Option α} (h : f [] = none)
    (pieces : List (List Char)) : (dropLastEmpty pieces).findSome? f = pieces.findSome? f := by
  obtain ⟨dropped, hpieces, hempty⟩ := dropLastEmpty_append pieces
  have hnone : dropped.findSome? f = none :=
    List.findSome?_eq_none_iff.mpr fun piece hpiece => by rw [hempty piece hpiece, h]
  conv_rhs => rw [hpieces, List.findSome?_append, hnone, Option.or_none]

theorem dropLastEmpty_eq_nil : dropLastEmpty pieces = [] ↔ ∀ piece ∈ pieces, piece = [] := by
  rw [dropLastEmpty, List.reverse_eq_nil_iff, List.dropWhile_eq_nil_iff]
  simp only [List.mem_reverse, List.isEmpty_iff]

theorem splitAt_empty {separator : Char} {xs : List Char} :
    (∀ piece ∈ Strings.splitAt separator xs, piece = []) ↔ ∀ c ∈ xs, c = separator := by
  induction xs with
  | nil => simp [Strings.splitAt]
  | cons c xs ih =>
    by_cases hc : c = separator
    · rw [Strings.splitAt, if_pos hc, List.forall_mem_cons, ih, List.forall_mem_cons]
      exact and_congr_left fun _ => iff_of_true rfl hc
    · refine iff_of_false (fun h => ?_) fun h => hc (h c List.mem_cons_self)
      rw [Strings.splitAt, if_neg hc] at h
      split at h
      · exact absurd (h _ List.mem_cons_self) (List.cons_ne_nil _ _)
      · exact absurd (h _ List.mem_cons_self) (List.cons_ne_nil _ _)

/-- Nothing is left of a text that is all separators. -/
theorem dropLastEmpty_splitAt_eq_nil {separator : Char} {xs : List Char} :
    dropLastEmpty (Strings.splitAt separator xs) = [] ↔ ∀ c ∈ xs, c = separator :=
  dropLastEmpty_eq_nil.trans splitAt_empty

end

section
variable {xs ys zs : List Char}

theorem dropWhile_blanks (hxs : ∀ c ∈ xs, c ≤ ' ') (hys : ∀ c ∈ ys.head?, ¬ c ≤ ' ') :
    (xs ++ ys).dropWhile (· ≤ ' ') = ys := by
  rw [List.dropWhile_append_of_pos fun c hc => decide_eq_true (hxs c hc)]
  cases ys with
  | nil => rfl
  | cons y ys => exact List.dropWhile_cons_of_neg (by simpa using hys y rfl)

/-- Blanks around a text without blanks. -/
theorem trim_padded (hxs : ∀ c ∈ xs, c ≤ ' ') (hys : ∀ c ∈ ys, ¬ c ≤ ' ') (hzs : ∀ c ∈ zs, c ≤ ' ') :
    trim (xs ++ (ys ++ zs)) = ys := by
  cases ys with
  | nil =>
    have hall : ∀ c ∈ xs ++ zs, c ≤ ' ' := List.forall_mem_append.mpr ⟨hxs, hzs⟩
    have hnone : ((xs ++ zs) ++ []).dropWhile (· ≤ ' ') = [] := dropWhile_blanks hall (by simp)
    rw [List.append_nil] at hnone
    rw [trim, List.nil_append, hnone]
    rfl
  | cons y ys =>
    have hfirst : ∀ c ∈ ((y :: ys) ++ zs).head?, ¬ c ≤ ' ' := by
      rintro _ ⟨⟩
      exact hys y List.mem_cons_self
    have hlast : ∀ c ∈ (y :: ys).reverse.head?, ¬ c ≤ ' ' := fun c hc =>
      hys c (List.mem_reverse.mp (List.mem_of_mem_head? hc))
    have hzs' : ∀ c ∈ zs.reverse, c ≤ ' ' := fun c hc => hzs c (List.mem_reverse.mp hc)
    rw [trim, dropWhile_blanks hxs hfirst, List.reverse_append, dropWhile_blanks hzs' hlast,
      List.reverse_reverse]

theorem toLower_blank {c : Char} : c.toLower ≤ ' ' ↔ c ≤ ' ' := by
  unfold Char.toLower
  split
  next h =>
    -- an upper case letter and its lower case are both above the blank
    obtain ⟨hlo, hhi⟩ := h
    rw [ge_iff_le, UInt32.le_iff_toNat_le] at hlo
    rw [UInt32.le_iff_toNat_le] at hhi
    refine iff_of_false (fun hle => ?_) fun hle => ?_
    · rw [Char.le_def, UInt32.le_iff_toNat_le] at hle
      simp at hle hlo hhi
      omega
    · rw [Char.le_def, UInt32.le_iff_toNat_le] at hle
      simp at hle hlo hhi
      omega
  next => rfl

end

end SmartSocks.Strings
