import Mathlib.Data.List.Basic

/-!
# Frames in a stream

A writer turns values into frames, and moves to its next state with each of them.
A reader looks at the bytes that have come so far: it asks for more, fails, or takes
a frame off the front. What comes later does not change the frames that it takes
(`Reads.more`). If it takes every whole frame of a writer and waits for more on every
part of one, these are the writer's values (`Written.reads`), and all of them once all
bytes are there (`Written.reads_all`).
-/

namespace Framing

variable {σ α β : Type}

/-- What a reader makes of the bytes that have come so far. -/
inductive Read (σ α β : Type)
  | needMore
  | error
  | frame (value : α) (next : σ) (rest : List β)

/-- `frame s a t bytes`: in the state `s` the writer turns `a` into these bytes. -/
structure Reader (frame : σ → α → σ → List β → Prop) (read : σ → List β → Read σ α β) : Prop where
  whole : ∀ {s a t bytes} (rest : List β), frame s a t bytes → read s (bytes ++ rest) = .frame a t rest
  part : ∀ {s a t bytes part}, frame s a t bytes → part <+: bytes → part.length < bytes.length →
    read s part = .needMore
  empty : ∀ s, read s [] = .needMore

/-- A frame is the same whatever comes behind it. -/
def Stable (read : σ → List β → Read σ α β) : Prop :=
  ∀ s bytes a t rest more, read s bytes = .frame a t rest → read s (bytes ++ more) = .frame a t (rest ++ more)

/-- The frames of some values, one behind the other. -/
inductive Written (frame : σ → α → σ → List β → Prop) : σ → List α → σ → List β → Prop
  | nil (s : σ) : Written frame s [] s []
  | cons {s t u a as bytes stream} (h : frame s a t bytes) (hs : Written frame t as u stream) :
      Written frame s (a :: as) u (bytes ++ stream)

/-- The frames that are taken off the front. -/
inductive Reads (read : σ → List β → Read σ α β) : σ → List β → List α → σ → List β → Prop
  | nil (s : σ) (bytes : List β) : Reads read s bytes [] s bytes
  | cons {s t u a as bytes rest rest'} (h : read s bytes = .frame a t rest)
      (hs : Reads read t rest as u rest') : Reads read s bytes (a :: as) u rest'

variable {frame : σ → α → σ → List β → Prop} {read : σ → List β → Read σ α β} {s t u : σ} {as : List α}
  {stream bytes rest : List β}

theorem Written.append {bs : List α} {stream' : List β} (h : Written frame s as t stream)
    (h' : Written frame t bs u stream') : Written frame s (as ++ bs) u (stream ++ stream') := by
  induction h with
  | nil => exact h'
  | cons hframe _ ih =>
    rw [List.append_assoc]
    exact .cons hframe (ih h')

theorem Reads.append {bs : List α} {rest' : List β} (h : Reads read s bytes as t rest)
    (h' : Reads read t rest bs u rest') : Reads read s bytes (as ++ bs) u rest' := by
  induction h with
  | nil => exact h'
  | cons hframe _ ih => exact .cons hframe (ih h')

theorem Reads.more (hread : Stable read) (h : Reads read s bytes as t rest) (more : List β) :
    Reads read s (bytes ++ more) as t (rest ++ more) := by
  induction h with
  | nil => exact .nil ..
  | cons hframe _ ih => exact .cons (hread _ _ _ _ _ more hframe) ih

/-- Once more is needed, the frames that were taken are determined. -/
theorem Reads.unique {as' : List α} {t' : σ} {rest' : List β} (h : Reads read s bytes as t rest)
    (hmore : read t rest = .needMore) (h' : Reads read s bytes as' t' rest') (hmore' : read t' rest' = .needMore) :
    as = as' := by
  induction h generalizing as' with
  | nil =>
    cases h' with
    | nil => rfl
    | cons hframe _ => simp [hmore] at hframe
  | cons hframe _ ih =>
    cases h' with
    | nil => simp [hmore'] at hframe
    | cons hframe' hs' =>
      cases hframe.symm.trans hframe'
      rw [ih hmore hs']

/-- On a part of the stream the reader waits, or takes the next frame. -/
theorem Written.read_cases (hread : Reader frame read) (h : Written frame s as u stream)
    (hbytes : bytes <+: stream) :
    read s bytes = .needMore ∧ (bytes = stream → as = []) ∨
      ∃ a as' t part rest stream', as = a :: as' ∧ frame s a t part ∧ Written frame t as' u stream' ∧
        read s bytes = .frame a t rest ∧ bytes = part ++ rest ∧ stream = part ++ stream' ∧ rest <+: stream' := by
  cases h with
  | nil =>
    cases List.prefix_nil.mp hbytes
    exact .inl ⟨hread.empty _, fun _ => rfl⟩
  | @cons _ t _ a as part stream hframe hs =>
    rcases List.prefix_or_prefix_of_prefix hbytes (List.prefix_append part stream) with hpart | ⟨rest, rfl⟩
    · rcases Nat.lt_or_eq_of_le hpart.length_le with hlt | heq
      · refine .inl ⟨hread.part hframe hpart hlt, fun hall => ?_⟩
        rw [hall, List.length_append] at hlt
        exact absurd hlt (Nat.not_lt.mpr (Nat.le_add_right ..))
      · cases hpart.eq_of_length heq
        have hwhole := hread.whole [] hframe
        rw [List.append_nil] at hwhole
        exact .inr ⟨a, as, t, _, [], stream, rfl, hframe, hs, hwhole, (List.append_nil _).symm, rfl,
          List.nil_prefix⟩
    · exact .inr ⟨a, as, t, part, rest, stream, rfl, hframe, hs, hread.whole rest hframe, rfl, rfl,
        (List.prefix_append_right_inj part).mp hbytes⟩

/-- The frames that are taken are the first ones, and the reader is where the writer was. -/
theorem Written.reads (hread : Reader frame read) {bs : List α} (hr : Reads read s bytes bs t rest)
    (h : Written frame s as u stream) (hbytes : bytes <+: stream) :
    ∃ as' taken stream', as = bs ++ as' ∧ Written frame t as' u stream' ∧ bytes = taken ++ rest ∧
      stream = taken ++ stream' ∧ rest <+: stream' := by
  induction hr generalizing as stream with
  | nil => exact ⟨as, [], stream, rfl, h, rfl, rfl, hbytes⟩
  | cons hframe _ ih =>
    rcases h.read_cases hread hbytes with ⟨hmore, -⟩ | ⟨a, as', t, part, rest, stream', rfl, -, hs, hr, rfl, rfl, hrest⟩
    · simp [hframe] at hmore
    · cases hframe.symm.trans hr
      obtain ⟨as', taken, stream', rfl, hs', rfl, rfl, hrest'⟩ := ih hs hrest
      exact ⟨as', part ++ taken, stream', rfl, hs', by simp, by simp, hrest'⟩

/-- Behind the frames that were taken the reader does not fail. -/
theorem Written.reads_ne_error (hread : Reader frame read) {bs : List α} (hr : Reads read s bytes bs t rest)
    (h : Written frame s as u stream) (hbytes : bytes <+: stream) : read t rest ≠ .error := by
  obtain ⟨as', -, stream', -, hs, -, -, hrest⟩ := h.reads hread hr hbytes
  intro herror
  rcases hs.read_cases hread hrest with ⟨hmore, -⟩ | ⟨_, _, _, _, _, _, -, -, -, hr, -⟩
  · simp [herror] at hmore
  · simp [herror] at hr

/-- When all bytes are there, no frame is left. -/
theorem Written.reads_all (hread : Reader frame read) {bs : List α} (hr : Reads read s stream bs t rest)
    (hmore : read t rest = .needMore) (h : Written frame s as u stream) : bs = as ∧ t = u ∧ rest = [] := by
  obtain ⟨as', taken, stream', rfl, hs, hsplit, rfl, hrest⟩ := h.reads hread hr List.prefix_rfl
  obtain rfl : stream' = rest := List.append_cancel_left hsplit
  rcases hs.read_cases hread hrest with ⟨-, hall⟩ | ⟨_, _, _, _, _, _, -, -, -, hr, -⟩
  · cases hall rfl
    cases hs
    exact ⟨(List.append_nil _).symm, rfl, rfl⟩
  · simp [hmore] at hr

end Framing
