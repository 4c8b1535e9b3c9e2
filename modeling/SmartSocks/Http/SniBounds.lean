import Mathlib.Algebra.Group.Nat.Defs
import Mathlib.Data.List.Infix
import SmartSocks.Http.HttpHeaderParser

/-!
# Bounds of the SNI scan

A scan is `Bounded` when it returns, reads only inside the segment and never
moves its cursor back. `getSNI` is bounded exactly when every length it adds to
the cursor has its top bit clear (`getSNI_bounded_iff`). `LengthsClear` follows
the ClientHello with unsigned lengths, which is the same walk up to the first
length that the code takes for a negative one.
-/

namespace SmartSocks.Http

open Jvm EasyValue HttpHeaderParser

def Action.Within (lo hi : Int) : Action → Prop
  | .read index => lo ≤ index ∧ index < hi
  | .move source target => source ≤ target

/-- Everything done so far was within the segment. -/
def Inside (lo hi : Int) (log : List Action) : Prop := ∀ a ∈ log, a.Within lo hi

structure Bounded (lo hi : Int) (scan : Nat → Prog Scan Fate) (s : Scan) : Prop where
  ends : ∃ fuel, ((scan fuel).exec s).1 ≠ .ok .running
  inside : ∀ fuel, Inside lo hi ((scan fuel).exec s).2.log

-- ---------------------------------------------------------------------------
-- The condition on the bytes
-- ---------------------------------------------------------------------------

/-- The lengths of the extensions from `pos` on, as far as the scan goes. -/
def ExtensionsClear (buffer : Bytes Byte) (limit : Int) (pos : Nat) : Prop :=
  if (pos : Int) + 4 ≤ limit then
    (short buffer (pos + 2)).toNat < 2 ^ 15 ∧
      (buffer.cell pos = 0 ∧ buffer.cell (pos + 1) = 0 ∧ 5 < (short buffer (pos + 2)).toNat ∨
        ExtensionsClear buffer limit (pos + 4 + (short buffer (pos + 2)).toNat))
  else True
termination_by (limit - pos).toNat
decreasing_by omega

def BlockClear (buffer : Bytes Byte) (limit : Int) (pos : Nat) : Prop :=
  (pos : Int) + 2 ≤ limit → (pos : Int) + 2 + (short buffer pos).toInt ≤ limit →
    ExtensionsClear buffer limit (pos + 2)

def CompressionClear (buffer : Bytes Byte) (limit : Int) (pos : Nat) : Prop :=
  (pos : Int) + 1 ≤ limit →
    (buffer.cell pos).toNat < 2 ^ 7 ∧ BlockClear buffer limit (pos + 1 + (buffer.cell pos).toNat)

def CipherSuitesClear (buffer : Bytes Byte) (limit : Int) (pos : Nat) : Prop :=
  (pos : Int) + 2 ≤ limit →
    (short buffer pos).toNat < 2 ^ 15 ∧
      CompressionClear buffer limit (pos + 2 + (short buffer pos).toNat)

def SessionIDClear (buffer : Bytes Byte) (limit : Int) (pos : Nat) : Prop :=
  (buffer.cell pos).toNat < 2 ^ 7 ∧
    CipherSuitesClear buffer limit (pos + 1 + (buffer.cell pos).toNat)

/-- No length field that the scan adds to its cursor has its top bit set. -/
def LengthsClear (buffer : Bytes Byte) (offset : Nat) (count : Int) : Prop :=
  43 < count → buffer.cell offset = 0x16 → SessionIDClear buffer (offset + count) (offset + 43)

-- ---------------------------------------------------------------------------
-- Signed and unsigned lengths
-- ---------------------------------------------------------------------------

theorem toInt_of_clear {w : Nat} {x : BitVec (w + 1)} (h : x.toNat < 2 ^ w) :
    x.toInt = x.toNat := by
  rw [BitVec.toInt_eq_toNat_cond, if_pos]
  rw [Nat.pow_succ]
  omega

theorem toInt_of_set {w : Nat} {x : BitVec (w + 1)} (h : ¬ x.toNat < 2 ^ w) : x.toInt < 0 := by
  have hx := x.isLt
  rw [BitVec.toInt_eq_toNat_cond, if_neg]
  · omega
  · rw [Nat.pow_succ]
    omega

-- ---------------------------------------------------------------------------
-- The log only grows
-- ---------------------------------------------------------------------------

def Extends {α : Type} (m : Prog Scan α) : Prop := ∀ s, s.log <+: (m.exec s).2.log

section
variable {α β : Type} {buffer : Bytes Byte}

theorem Extends.bind {m : Prog Scan α} {k : α → Prog Scan β} (hm : Extends m)
    (hk : ∀ a, Extends (k a)) : Extends (m >>= k) := by
  intro s
  have hs := hm s
  rw [Prog.exec_bind]
  rcases hr : m.exec s with ⟨e | a, t⟩ <;> rw [hr] at hs
  · exact hs
  · exact hs.trans (hk a t)

theorem Extends.ite {c : Prop} [Decidable c] {m n : Prog Scan α} (hm : Extends m)
    (hn : Extends n) : Extends (if c then m else n) := by
  split
  · exact hm
  · exact hn

theorem extends_pure (a : α) : Extends (pure a) := fun _ => List.prefix_rfl

theorem extends_throw (e : Throwable) : Extends (throw e : Prog Scan α) := fun _ => List.prefix_rfl

theorem extends_get : Extends (get : Prog Scan Scan) := fun _ => List.prefix_rfl

theorem extends_lift (x : Except Throwable α) : Extends (Prog.lift x : Prog Scan α) := by
  intro s
  simp

theorem extends_readByte (index : Int) : Extends (readByte buffer index) := by
  refine Extends.bind ?_ fun _ => extends_lift _
  intro s
  exact List.prefix_append _ _

theorem extends_advance (delta : Int) : Extends (advance delta) :=
  fun _ => List.prefix_append _ _

theorem extends_nextByte : Extends (nextByte buffer) :=
  extends_get.bind fun _ => (extends_readByte _).bind fun _ =>
    (extends_advance 1).bind fun _ => extends_pure _

theorem extends_readShort : Extends (readShort buffer) :=
  extends_get.bind fun _ => (extends_readByte _).bind fun _ =>
    extends_get.bind fun _ => (extends_readByte _).bind fun _ => extends_pure _

theorem extends_newString (length : Int) : Extends (newString buffer length) := by
  refine extends_get.bind fun s => ?_
  refine Extends.ite (extends_throw _) (Extends.bind ?_ fun _ => extends_pure _)
  intro s
  exact List.prefix_append _ _

variable {limit : Int}

theorem extends_readServerName (length : Int) : Extends (readServerName buffer limit length) := by
  refine (extends_advance _).bind fun _ => extends_get.bind fun _ => ?_
  exact Extends.ite (extends_pure _) ((extends_newString _).bind fun _ => extends_pure _)

theorem extends_readExtensions (fuel : Nat) : Extends (readExtensions buffer limit fuel) := by
  induction fuel with
  | zero => exact extends_pure _
  | succ fuel ih =>
    refine extends_get.bind fun _ => Extends.ite ?_ (extends_pure _)
    refine extends_nextByte.bind fun _ => extends_nextByte.bind fun _ => ?_
    refine extends_readShort.bind fun _ => (extends_advance _).bind fun _ => Extends.ite ?_ ?_
    · exact extends_readServerName _
    · exact (extends_advance _).bind fun _ => ih

theorem extends_readExtensionBlock (fuel : Nat) :
    Extends (readExtensionBlock buffer limit fuel) := by
  refine extends_get.bind fun _ => Extends.ite (extends_pure _) ?_
  refine extends_get.bind fun _ => Extends.ite (extends_pure _) ?_
  refine extends_readShort.bind fun _ => (extends_advance _).bind fun _ => ?_
  exact extends_get.bind fun _ => Extends.ite (extends_pure _) (extends_readExtensions fuel)

theorem extends_readCompressionMethods (fuel : Nat) :
    Extends (readCompressionMethods buffer limit fuel) := by
  refine extends_get.bind fun _ => Extends.ite (extends_pure _) ?_
  exact extends_nextByte.bind fun _ => (extends_advance _).bind fun _ =>
    extends_readExtensionBlock fuel

theorem extends_readCipherSuites (fuel : Nat) : Extends (readCipherSuites buffer limit fuel) := by
  refine extends_get.bind fun _ => Extends.ite (extends_pure _) ?_
  exact extends_readShort.bind fun _ => (extends_advance _).bind fun _ =>
    (extends_advance _).bind fun _ => extends_readCompressionMethods fuel

end

-- ---------------------------------------------------------------------------
-- One step of a scan
-- ---------------------------------------------------------------------------

section
variable {buffer : Bytes Byte} {pos : Nat} {log : List Action}

theorem get_natCast (h : pos < buffer.size) : buffer.get (pos : Int) = .ok (buffer.cell pos) := by
  rw [Bytes.get, if_pos (by omega), Int.toNat_natCast]

theorem exec_readByte (offset : Int) (h : pos < buffer.size) :
    (readByte buffer (pos : Int)).exec ⟨offset, log⟩ =
      (.ok (buffer.cell pos), ⟨offset, log ++ [.read pos]⟩) := by
  simp [readByte, Prog.exec_bind, get_natCast h]

theorem exec_nextByte (h : pos < buffer.size) :
    (nextByte buffer).exec ⟨pos, log⟩ =
      (.ok (buffer.cell pos), ⟨(pos + 1 : Nat), log ++ [.read pos, .move pos (pos + 1 : Nat)]⟩) := by
  simp [nextByte, Prog.exec_bind, Prog.exec_map, exec_readByte _ h, advance]

theorem exec_readShort (h : pos + 1 < buffer.size) :
    (HttpHeaderParser.readShort buffer).exec ⟨pos, log⟩ =
      (.ok (short buffer pos), ⟨pos, log ++ [.read pos, .read (pos + 1 : Nat)]⟩) := by
  have hnext : (readByte buffer ((pos : Int) + 1)).exec ⟨pos, log ++ [.read pos]⟩ =
      (.ok (buffer.cell (pos + 1)), ⟨pos, log ++ [.read pos] ++ [.read (pos + 1 : Nat)]⟩) :=
    exec_readByte _ h
  simp [HttpHeaderParser.readShort, Prog.exec_bind, Prog.exec_map,
    exec_readByte _ (Nat.lt_of_succ_lt h), hnext, short]

theorem exec_advance (n : Nat) {delta : Int} (h : delta = n) :
    (advance delta).exec ⟨pos, log⟩ =
      (.ok (), ⟨(pos + n : Nat), log ++ [.move pos (pos + n : Nat)]⟩) := by
  simp [advance, h]

end

-- ---------------------------------------------------------------------------
-- The stages before the loop
-- ---------------------------------------------------------------------------

section
variable {buffer : Bytes Byte} {limit : Int} {pos : Nat}

/-- What a stage puts into the log when it reads a length of one byte. -/
def byteLog (pos : Nat) : List Action := [.read pos, .move pos (pos + 1 : Nat)]

/-- What a stage puts into the log when it reads a length of two bytes. -/
def shortLog (pos : Nat) : List Action := [.read pos, .read (pos + 1 : Nat), .move pos (pos + 2 : Nat)]

theorem exec_readExtensionBlock (log : List Action) (fuel : Nat) (hl : limit ≤ buffer.size)
    (h : (pos : Int) + 2 ≤ limit) :
    (readExtensionBlock buffer limit fuel).exec ⟨pos, log⟩ =
      (if limit < (pos + 2 : Nat) + (short buffer pos).toInt then
          pure (.returned none)
        else readExtensions buffer limit fuel : Prog Scan Fate).exec
        ⟨(pos + 2 : Nat), log ++ shortLog pos⟩ := by
  have h1 : pos + 1 < buffer.size := by omega
  have hne : (pos : Int) ≠ limit := by omega
  have hskip : ∀ l, (advance 2).exec ⟨pos, l⟩ = _ := fun l => exec_advance 2 rfl
  simp only [readExtensionBlock, Prog.exec_bind, Prog.exec_get, hne, Int.not_lt.mpr h, if_false,
    exec_readShort h1, hskip, shortLog, List.append_assoc, List.cons_append, List.nil_append]

theorem exec_readCompressionMethods (log : List Action) (fuel : Nat) (hl : limit ≤ buffer.size)
    (h : (pos : Int) + 1 ≤ limit) :
    (readCompressionMethods buffer limit fuel).exec ⟨pos, log⟩ =
      (do
        advance (buffer.cell pos).toInt
        readExtensionBlock buffer limit fuel : Prog Scan Fate).exec
        ⟨(pos + 1 : Nat), log ++ byteLog pos⟩ := by
  have h0 : pos < buffer.size := by omega
  rw [readCompressionMethods, Prog.exec_bind, Prog.exec_get]
  simp only [Int.not_lt.mpr h, if_false]
  rw [Prog.exec_bind, exec_nextByte h0, byteLog]

theorem exec_readCipherSuites (log : List Action) (fuel : Nat) (hl : limit ≤ buffer.size)
    (h : (pos : Int) + 2 ≤ limit) :
    (readCipherSuites buffer limit fuel).exec ⟨pos, log⟩ =
      (do
        advance (short buffer pos).toInt
        readCompressionMethods buffer limit fuel : Prog Scan Fate).exec
        ⟨(pos + 2 : Nat), log ++ shortLog pos⟩ := by
  have h1 : pos + 1 < buffer.size := by omega
  have hskip : ∀ l, (advance 2).exec ⟨pos, l⟩ = _ := fun l => exec_advance 2 rfl
  rw [readCipherSuites, Prog.exec_bind, Prog.exec_get]
  simp only [Int.not_lt.mpr h, if_false]
  rw [Prog.exec_bind, exec_readShort h1]
  simp only
  rw [Prog.exec_bind, hskip]
  simp only [shortLog, List.append_assoc, List.cons_append, List.nil_append]

theorem exec_readSessionID (log : List Action) (fuel : Nat) (hl : limit ≤ buffer.size)
    (h : (pos : Int) + 1 ≤ limit) :
    (readSessionID buffer limit fuel).exec ⟨pos, log⟩ =
      (do
        advance (buffer.cell pos).toInt
        readCipherSuites buffer limit fuel : Prog Scan Fate).exec
        ⟨(pos + 1 : Nat), log ++ byteLog pos⟩ := by
  have h0 : pos < buffer.size := by omega
  rw [readSessionID, Prog.exec_bind, Prog.exec_get]
  simp only [Int.not_lt.mpr h, if_false]
  rw [Prog.exec_bind, exec_nextByte h0, byteLog]

theorem exec_getSNI {count : Int} (fuel : Nat) (hl : pos + count ≤ buffer.size) (h : 43 < count)
    (hfirst : buffer.cell pos = 0x16) :
    (getSNI buffer count fuel).exec { offset := pos } =
      (readSessionID buffer (pos + count) fuel).exec
        ⟨(pos + 43 : Nat), [.read pos, .move pos (pos + 43 : Nat)]⟩ := by
  have h0 : pos < buffer.size := by omega
  have hskip : ∀ l, (advance 43).exec ⟨pos, l⟩ = _ := fun l => exec_advance 43 rfl
  simp only [getSNI, Prog.exec_bind, Prog.exec_get, h, if_true, exec_readByte _ h0, hfirst, hskip]
  rfl

end

-- ---------------------------------------------------------------------------
-- Bounded scans
-- ---------------------------------------------------------------------------

section
variable {lo hi : Int} {scan scan' : Nat → Prog Scan Fate} {s s' : Scan} {log : List Action}

theorem inside_append {acts : List Action} :
    Inside lo hi (log ++ acts) ↔ Inside lo hi log ∧ ∀ a ∈ acts, a.Within lo hi := by
  simp only [Inside, List.forall_mem_append]

theorem bounded_congr (h : ∀ fuel, (scan fuel).exec s = (scan' fuel).exec s') :
    Bounded lo hi scan s ↔ Bounded lo hi scan' s' := by
  constructor
  · rintro ⟨⟨fuel, hend⟩, hin⟩
    exact ⟨⟨fuel, h fuel ▸ hend⟩, fun fuel => h fuel ▸ hin fuel⟩
  · rintro ⟨⟨fuel, hend⟩, hin⟩
    exact ⟨⟨fuel, h fuel ▸ hend⟩, fun fuel => h fuel ▸ hin fuel⟩

theorem bounded_of_return {r : Except Throwable Fate}
    (h : ∀ fuel, (scan fuel).exec s = (r, s')) (hr : r ≠ .ok .running)
    (hlog : Inside lo hi s'.log) : Bounded lo hi scan s := by
  refine ⟨⟨0, ?_⟩, fun fuel => ?_⟩
  · rw [h]
    exact hr
  · rw [h]
    exact hlog

/-- What has gone wrong stays in the log. -/
theorem not_bounded_of_log (he : ∀ fuel, Extends (scan fuel)) (hlog : ¬ Inside lo hi s.log) :
    ¬ Bounded lo hi scan s :=
  fun h => hlog fun a ha => h.inside 0 a ((he 0 s).subset ha)

/-- Adding a length: it must not be negative, and then it is the unsigned one. -/
theorem bounded_advance {w : Nat} (x : BitVec (w + 1)) {pos : Nat}
    (he : ∀ fuel, Extends (scan fuel)) :
    Bounded lo hi (fun fuel => do advance x.toInt; scan fuel) ⟨pos, log⟩ ↔
      x.toNat < 2 ^ w ∧
        Bounded lo hi scan
          ⟨(pos + x.toNat : Nat), log ++ [.move pos (pos + x.toNat : Nat)]⟩ := by
  by_cases hx : x.toNat < 2 ^ w
  · simp only [hx, true_and]
    refine bounded_congr fun fuel => ?_
    rw [Prog.exec_bind, exec_advance _ (toInt_of_clear hx)]
  · simp only [hx, false_and, iff_false]
    intro h
    have hstep : ∀ fuel, (do advance x.toInt; scan fuel : Prog Scan Fate).exec ⟨pos, log⟩ =
        (scan fuel).exec ⟨pos + x.toInt, log ++ [.move pos (pos + x.toInt)]⟩ := fun fuel => by
      rw [Prog.exec_bind]
      rfl
    refine not_bounded_of_log he ?_ ((bounded_congr hstep).mp h)
    intro hin
    have hmove : (Action.move pos (pos + x.toInt)).Within lo hi :=
      (inside_append.mp hin).2 _ List.mem_cons_self
    simp only [Action.Within] at hmove
    have := toInt_of_set hx
    omega

end

section
variable {buffer : Bytes Byte} {lo limit : Int} {pos : Nat} {log : List Action}

theorem inside_byteLog (hlo : lo ≤ pos) (h : (pos : Int) + 1 ≤ limit) :
    ∀ a ∈ byteLog pos, a.Within lo limit := by
  simp only [byteLog, List.forall_mem_cons, Action.Within]
  exact ⟨by omega, by omega, by simp⟩

theorem inside_shortLog (hlo : lo ≤ pos) (h : (pos : Int) + 2 ≤ limit) :
    ∀ a ∈ shortLog pos, a.Within lo limit := by
  simp only [shortLog, List.forall_mem_cons, Action.Within]
  exact ⟨by omega, by omega, by omega, by simp⟩

theorem inside_move {target : Nat} (h : pos ≤ target) : ∀ a ∈ [Action.move pos target], a.Within lo limit := by
  rw [List.forall_mem_singleton, Action.Within]
  omega

/-- The log of an extension header read at `pos`. -/
def headerLog (pos : Nat) : List Action :=
  [.read pos, .move pos (pos + 1 : Nat), .read (pos + 1 : Nat),
    .move (pos + 1 : Nat) (pos + 2 : Nat), .read (pos + 2 : Nat), .read (pos + 3 : Nat),
    .move (pos + 2 : Nat) (pos + 4 : Nat)]

theorem exec_readExtensions_done (fuel : Nat) (h : ¬ (pos : Int) + 4 ≤ limit) :
    (readExtensions buffer limit (fuel + 1)).exec ⟨pos, log⟩ =
      (.ok (.returned none), ⟨pos, log⟩) := by
  simp [readExtensions, Prog.exec_bind, h]

theorem exec_readExtensions_succ (log : List Action) (fuel : Nat) (hl : limit ≤ buffer.size)
    (h : (pos : Int) + 4 ≤ limit) :
    (readExtensions buffer limit (fuel + 1)).exec ⟨pos, log⟩ =
      (if buffer.cell pos = 0 ∧ buffer.cell (pos + 1) = 0 ∧ 5 < (short buffer (pos + 2)).toInt then
          readServerName buffer limit (short buffer (pos + 2)).toInt
        else do
          advance (short buffer (pos + 2)).toInt
          readExtensions buffer limit fuel : Prog Scan Fate).exec
        ⟨(pos + 4 : Nat), log ++ headerLog pos⟩ := by
  have h0 : pos < buffer.size := by omega
  have h1 : pos + 1 < buffer.size := by omega
  have h3 : pos + 2 + 1 < buffer.size := by omega
  have hskip : ∀ l, (advance 2).exec ⟨(pos + 2 : Nat), l⟩ = _ := fun l => exec_advance 2 rfl
  rw [readExtensions, Prog.exec_bind, Prog.exec_get]
  simp only [h, if_true]
  rw [Prog.exec_bind, exec_nextByte h0]
  simp only
  rw [Prog.exec_bind, exec_nextByte h1]
  simp only
  rw [Prog.exec_bind, exec_readShort h3]
  simp only
  rw [Prog.exec_bind, hskip]
  simp only [headerLog, List.append_assoc, List.cons_append, List.nil_append]

theorem inside_headerLog (hlo : lo ≤ pos) (h : (pos : Int) + 4 ≤ limit) :
    ∀ a ∈ headerLog pos, a.Within lo limit := by
  simp only [headerLog, List.forall_mem_cons, Action.Within]
  refine ⟨by omega, by omega, by omega, by omega, by omega, by omega, by omega, ?_⟩
  simp

/-- The bytes of the name are inside the segment. -/
theorem exec_readServerName {length : Nat} (hl : limit ≤ buffer.size) (hlo : lo ≤ pos)
    (h5 : 5 < length) (hlog : Inside lo limit log) :
    ∃ host s', (readServerName buffer limit length).exec ⟨pos, log⟩ =
        (.ok (.returned host), s') ∧ Inside lo limit s'.log := by
  have hskip : Inside lo limit (log ++ [.move pos (pos + 5 : Nat)]) := by
    refine inside_append.mpr ⟨hlog, ?_⟩
    simp only [List.forall_mem_cons, Action.Within]
    exact ⟨by omega, by simp⟩
  have hadvance : (advance 5).exec ⟨pos, log⟩ = _ := exec_advance 5 rfl
  rw [readServerName, Prog.exec_bind, hadvance]
  simp only [Prog.exec_bind, Prog.exec_get]
  by_cases hend : limit < ((pos + 5 : Nat) : Int) + ((length : Int) - 5)
  · simp only [hend, if_true, Prog.exec_pure]
    exact ⟨_, _, rfl, hskip⟩
  · have hbound : ¬ (((pos + 5 : Nat) : Int) < 0 ∨ (length : Int) - 5 < 0 ∨
        (buffer.size : Int) < ((pos + 5 : Nat) : Int) + ((length : Int) - 5)) := by omega
    simp only [hend, if_false, newString, Prog.exec_bind, Prog.exec_get, hbound, Prog.exec_modify,
      Prog.exec_pure]
    refine ⟨_, _, rfl, inside_append.mpr ⟨hskip, ?_⟩⟩
    intro a ha
    obtain ⟨k, hk, rfl⟩ := List.mem_map.mp ha
    have := List.mem_range.mp hk
    simp only [Action.Within]
    omega

/-- The loop, by induction on what is left of the segment. -/
theorem bounded_readExtensions (hl : limit ≤ buffer.size) (hlo : lo ≤ pos)
    (hlog : Inside lo limit log) :
    Bounded lo limit (readExtensions buffer limit) ⟨pos, log⟩ ↔
      ExtensionsClear buffer limit pos := by
  induction hn : (limit - pos).toNat using Nat.strong_induction_on generalizing pos log with
  | _ n ih =>
    subst hn
    rw [ExtensionsClear]
    by_cases h : (pos : Int) + 4 ≤ limit
    · rw [if_pos h]
      have hhead := inside_append.mpr ⟨hlog, inside_headerLog hlo h⟩
      -- without fuel nothing is read, so the first iteration decides
      have hfuel : Bounded lo limit (readExtensions buffer limit) ⟨pos, log⟩ ↔
          Bounded lo limit (fun fuel => readExtensions buffer limit (fuel + 1)) ⟨pos, log⟩ := by
        constructor
        · rintro ⟨⟨fuel, hend⟩, hin⟩
          cases fuel with
          | zero => exact absurd rfl hend
          | succ fuel => exact ⟨⟨fuel, hend⟩, fun fuel => hin (fuel + 1)⟩
        · rintro ⟨⟨fuel, hend⟩, hin⟩
          refine ⟨⟨fuel + 1, hend⟩, fun fuel => ?_⟩
          cases fuel with
          | zero => exact hlog
          | succ fuel => exact hin fuel
      rw [hfuel]
      by_cases hsni : buffer.cell pos = 0 ∧ buffer.cell (pos + 1) = 0 ∧
          5 < (short buffer (pos + 2)).toInt
      · have hclear : (short buffer (pos + 2)).toNat < 2 ^ 15 := by
          by_contra hset
          have := toInt_of_set hset
          omega
        have hlen := toInt_of_clear hclear
        have h5 : 5 < (short buffer (pos + 2)).toNat := by omega
        obtain ⟨host, s', hr, hin⟩ := exec_readServerName hl
          (Int.le_trans hlo (Int.ofNat_le.mpr (Nat.le_add_right pos 4))) h5 hhead
        refine iff_of_true ?_ ⟨hclear, .inl ⟨hsni.1, hsni.2.1, h5⟩⟩
        refine bounded_of_return (r := .ok (.returned host)) (fun fuel => ?_) ?_ hin
        · rw [exec_readExtensions_succ _ fuel hl h, if_pos hsni, hlen]
          exact hr
        · simp
      · have hstep := fun fuel => exec_readExtensions_succ log fuel hl h
        simp only [hsni, if_false] at hstep
        rw [bounded_congr hstep,
          bounded_advance (short buffer (pos + 2)) fun fuel => extends_readExtensions fuel]
        refine and_congr_right fun hclear => ?_
        have hlen := toInt_of_clear hclear
        rw [ih _ _ (Int.le_trans hlo (by omega)) _ rfl]
        · refine (or_iff_right ?_).symm
          rintro ⟨h0, h1, h5⟩
          exact hsni ⟨h0, h1, by omega⟩
        · omega
        · refine inside_append.mpr ⟨hhead, ?_⟩
          simp only [List.forall_mem_cons, Action.Within]
          exact ⟨by omega, by simp⟩
    · rw [if_neg h, iff_true]
      refine ⟨⟨1, ?_⟩, fun fuel => ?_⟩
      · rw [exec_readExtensions_done 0 h]
        simp
      · cases fuel with
        | zero => exact hlog
        | succ fuel =>
          rw [exec_readExtensions_done fuel h]
          exact hlog

/-- A stage that stops before it reads anything. -/
theorem bounded_of_stop {scan : Nat → Prog Scan Fate}
    (h : ∀ fuel, (scan fuel).exec ⟨pos, log⟩ = (.ok (.returned none), ⟨pos, log⟩))
    (hlog : Inside lo limit log) : Bounded lo limit scan ⟨pos, log⟩ :=
  bounded_of_return h (by simp) hlog

theorem bounded_readExtensionBlock (hl : limit ≤ buffer.size) (hlo : lo ≤ pos)
    (hlog : Inside lo limit log) :
    Bounded lo limit (readExtensionBlock buffer limit) ⟨pos, log⟩ ↔ BlockClear buffer limit pos := by
  by_cases h : (pos : Int) + 2 ≤ limit
  · have hread := inside_append.mpr ⟨hlog, inside_shortLog hlo h⟩
    have hstep := fun fuel => exec_readExtensionBlock log fuel hl h
    by_cases hext : limit < (pos + 2 : Nat) + (short buffer pos).toInt
    · simp only [hext, if_true] at hstep
      refine iff_of_true (bounded_of_return hstep (by simp) hread) fun _ hle => ?_
      omega
    · simp only [hext, if_false] at hstep
      rw [bounded_congr hstep, bounded_readExtensions hl (by omega) hread]
      refine ⟨fun hc _ _ => hc, fun hc => hc h (by omega)⟩
  · refine iff_of_true (bounded_of_stop (fun fuel => ?_) hlog) fun hle => absurd hle h
    by_cases heq : (pos : Int) = limit
    · simp [readExtensionBlock, Prog.exec_bind, heq]
    · simp [readExtensionBlock, Prog.exec_bind, heq, Int.not_le.mp h]

theorem bounded_readCompressionMethods (hl : limit ≤ buffer.size) (hlo : lo ≤ pos)
    (hlog : Inside lo limit log) :
    Bounded lo limit (readCompressionMethods buffer limit) ⟨pos, log⟩ ↔
      CompressionClear buffer limit pos := by
  by_cases h : (pos : Int) + 1 ≤ limit
  · have hread := inside_append.mpr ⟨hlog, inside_byteLog hlo h⟩
    rw [bounded_congr fun fuel => exec_readCompressionMethods log fuel hl h,
      bounded_advance (buffer.cell pos) fun fuel => extends_readExtensionBlock fuel]
    simp only [CompressionClear, h, forall_true_left]
    refine and_congr_right fun _ => bounded_readExtensionBlock hl (by omega) ?_
    exact inside_append.mpr ⟨hread, inside_move (Nat.le_add_right _ _)⟩
  · refine iff_of_true (bounded_of_stop (fun fuel => ?_) hlog) fun hle => absurd hle h
    rw [readCompressionMethods, Prog.exec_bind, Prog.exec_get]
    simp only [Int.not_le.mp h, if_true, Prog.exec_pure]

theorem bounded_readCipherSuites (hl : limit ≤ buffer.size) (hlo : lo ≤ pos)
    (hlog : Inside lo limit log) :
    Bounded lo limit (readCipherSuites buffer limit) ⟨pos, log⟩ ↔
      CipherSuitesClear buffer limit pos := by
  by_cases h : (pos : Int) + 2 ≤ limit
  · have hread := inside_append.mpr ⟨hlog, inside_shortLog hlo h⟩
    rw [bounded_congr fun fuel => exec_readCipherSuites log fuel hl h,
      bounded_advance (short buffer pos) fun fuel => extends_readCompressionMethods fuel]
    simp only [CipherSuitesClear, h, forall_true_left]
    refine and_congr_right fun _ => bounded_readCompressionMethods hl (by omega) ?_
    exact inside_append.mpr ⟨hread, inside_move (Nat.le_add_right _ _)⟩
  · refine iff_of_true (bounded_of_stop (fun fuel => ?_) hlog) fun hle => absurd hle h
    rw [readCipherSuites, Prog.exec_bind, Prog.exec_get]
    simp only [Int.not_le.mp h, if_true, Prog.exec_pure]

theorem bounded_readSessionID (hl : limit ≤ buffer.size) (hlo : lo ≤ pos)
    (h : (pos : Int) + 1 ≤ limit) (hlog : Inside lo limit log) :
    Bounded lo limit (readSessionID buffer limit) ⟨pos, log⟩ ↔ SessionIDClear buffer limit pos := by
  have hread := inside_append.mpr ⟨hlog, inside_byteLog hlo h⟩
  rw [bounded_congr fun fuel => exec_readSessionID log fuel hl h,
    bounded_advance (buffer.cell pos) fun fuel => extends_readCipherSuites fuel]
  refine and_congr_right fun _ => bounded_readCipherSuites hl (by omega) ?_
  exact inside_append.mpr ⟨hread, inside_move (Nat.le_add_right _ _)⟩

end

/-- The scan of a segment returns, stays inside and never goes back exactly
when no length that it adds to the cursor has its top bit set. -/
theorem getSNI_bounded_iff (buffer : Bytes Byte) (offset : Nat) (count : Int)
    (h : offset + count ≤ buffer.size) :
    Bounded offset (offset + count) (getSNI buffer count) { offset := offset } ↔
      LengthsClear buffer offset count := by
  by_cases hc : 43 < count
  · have h0 : offset < buffer.size := by omega
    have hread : Inside offset (offset + count) ([] ++ [.read offset]) := by
      simp only [Inside, List.nil_append, List.forall_mem_cons, Action.Within]
      exact ⟨by omega, by simp⟩
    by_cases hfirst : buffer.cell offset = 0x16
    · rw [bounded_congr fun fuel => exec_getSNI fuel h hc hfirst]
      simp only [LengthsClear, hc, hfirst, forall_true_left]
      refine bounded_readSessionID h (by omega) (by omega) ?_
      exact inside_append.mpr ⟨hread, inside_move (Nat.le_add_right _ _)⟩
    · refine iff_of_true ?_ fun _ hf => absurd hf hfirst
      have hstop : ∀ fuel, (getSNI buffer count fuel).exec { offset := offset } =
          (.ok (.returned none), ⟨offset, [] ++ [.read offset]⟩) := fun fuel => by
        simp only [getSNI, Prog.exec_bind, Prog.exec_get, hc, if_true, exec_readByte _ h0, hfirst,
          if_false, Prog.exec_pure]
      exact bounded_of_return hstop (by simp) hread
  · refine iff_of_true ?_ fun hc' => absurd hc' hc
    refine bounded_of_stop (fun fuel => ?_) fun a ha => (nomatch ha)
    simp [getSNI, Prog.exec_map, hc]

-- ---------------------------------------------------------------------------
-- Two hellos
-- ---------------------------------------------------------------------------

/-- A handshake record up to the session id, with empty session id, cipher
suites and compression methods, and then the given extension block. -/
def hello (extensions : List Byte) : Bytes Byte :=
  .ofList 0 (0x16 :: List.replicate 46 0 ++
    EasyValue.shortBytes (BitVec.ofNat 16 extensions.length) ++ extensions)

/-- A `server_name` extension for the host `a`. -/
def serverName : List Byte := [0, 0, 0, 6, 0, 4, 0, 0, 1, 0x61]

theorem bounded_serverName :
    Bounded 0 59 (getSNI (hello serverName) 59) { offset := 0 } := by
  refine (getSNI_bounded_iff (hello serverName) 0 59 (by decide)).mpr fun _ _ => ?_
  refine ⟨by decide, fun _ => ⟨by decide, fun _ => ⟨by decide, fun _ _ => ?_⟩⟩⟩
  rw [ExtensionsClear, if_pos (by decide)]
  exact ⟨by decide, .inl (by decide)⟩

/-- An extension whose length is `-4` to the code. -/
def backwards : List Byte := [0, 1, 0xFF, 0xFC]

/-- The extension header is read again and again. -/
theorem readExtensions_backwards (fuel : Nat) (log : List Action) :
    ((readExtensions (hello backwards) 53 fuel).exec ⟨(49 : Nat), log⟩).1 = .ok .running := by
  induction fuel generalizing log with
  | zero => rfl
  | succ fuel ih =>
    have hne : ¬ ((hello backwards).cell 49 = 0 ∧ (hello backwards).cell (49 + 1) = 0 ∧
        5 < (short (hello backwards) (49 + 2)).toInt) := by decide
    have hlen : (short (hello backwards) (49 + 2)).toInt = -4 := by decide
    rw [exec_readExtensions_succ log fuel (by decide) (by decide), if_neg hne, hlen, Prog.exec_bind]
    exact ih _

theorem getSNI_not_bounded :
    ¬ ∀ (buffer : Bytes Byte) (offset : Nat) (count : Int), offset + count ≤ buffer.size →
      Bounded offset (offset + count) (getSNI buffer count) { offset := offset } := by
  intro h
  obtain ⟨fuel, hend⟩ := (h (hello backwards) 0 53 (by decide)).ends
  exact hend (readExtensions_backwards fuel _)

end SmartSocks.Http
