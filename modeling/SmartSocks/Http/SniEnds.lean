import Mathlib.Data.Int.Interval
import SmartSocks.Http.HttpHeaderParser
import SmartSocks.Library.Chain

/-!
# Where the SNI scan ends

`parseHost` catches every exception, so the scan for a host name can only fail
to return in the extension loop: a negative extension length takes the cursor
back, and the loop goes on for ever when it comes to an extension it has been at.
The positions here are those of the code, with signed lengths.
-/

namespace SmartSocks.Http

open Jvm HttpHeaderParser

-- ---------------------------------------------------------------------------
-- The condition on the bytes
-- ---------------------------------------------------------------------------

/-- The extension after the one at `pos`. There is none where the loop returns
or throws. -/
def nextExtension (buffer : Bytes Byte) (limit pos : Int) : Option Int :=
  if pos + 4 ≤ limit then
    match buffer.get pos, buffer.get (pos + 1), EasyValue.readShort buffer (pos + 2) with
    | .ok type0, .ok type1, .ok length =>
      if type0 = 0 ∧ type1 = 0 ∧ 5 < length.toInt then none else some (pos + 4 + length.toInt)
    | _, _, _ => none
  else none

/-- The extensions from `pos` on do not lead back to one of them. -/
def ExtensionsEnd (buffer : Bytes Byte) (limit pos : Int) : Prop :=
  ∀ b c, Chain.Reaches (nextExtension buffer limit) pos b → nextExtension buffer limit b = some c →
    ¬ Chain.Reaches (nextExtension buffer limit) c b

def BlockEnds (buffer : Bytes Byte) (limit pos : Int) : Prop :=
  pos + 2 ≤ limit → ∀ length, EasyValue.readShort buffer pos = .ok length →
    pos + 2 + length.toInt ≤ limit → ExtensionsEnd buffer limit (pos + 2)

def CompressionEnds (buffer : Bytes Byte) (limit pos : Int) : Prop :=
  pos + 1 ≤ limit → ∀ length, buffer.get pos = .ok length →
    BlockEnds buffer limit (pos + 1 + length.toInt)

def CipherSuitesEnd (buffer : Bytes Byte) (limit pos : Int) : Prop :=
  pos + 2 ≤ limit → ∀ length, EasyValue.readShort buffer pos = .ok length →
    CompressionEnds buffer limit (pos + 2 + length.toInt)

def SessionIDEnds (buffer : Bytes Byte) (limit pos : Int) : Prop :=
  pos + 1 ≤ limit → ∀ length, buffer.get pos = .ok length →
    CipherSuitesEnd buffer limit (pos + 1 + length.toInt)

/-- The extensions of a ClientHello, when the scan comes to them, do not lead
back to one of them. -/
def HelloEnds (buffer : Bytes Byte) (offset count : Int) : Prop :=
  43 < count → buffer.get offset = .ok 0x16 → SessionIDEnds buffer (offset + count) (offset + 43)

-- ---------------------------------------------------------------------------
-- Scans that return
-- ---------------------------------------------------------------------------

/-- The scan returns, or throws, whatever the number of iterations it is given
beyond some bound. -/
def Returns (scan : Nat → Prog Scan Fate) (s : Scan) : Prop :=
  ∃ bound, ∀ fuel, bound ≤ fuel → ((scan fuel).exec s).1 ≠ .ok .running

section
variable {α : Type} {buffer : Bytes Byte} {limit : Int} {s : Scan}

theorem returns_bind {m : Prog Scan α} {scan : α → Nat → Prog Scan Fate} :
    Returns (fun fuel => m >>= fun a => scan a fuel) s ↔
      ∀ a, (m.exec s).1 = .ok a → Returns (scan a) (m.exec s).2 := by
  simp only [Returns, Prog.exec_bind]
  rcases m.exec s with ⟨e | a, t⟩
  · simp
  · simp

theorem returns_get {scan : Scan → Nat → Prog Scan Fate} :
    Returns (fun fuel => get >>= fun t => scan t fuel) s ↔ Returns (scan s) s := by
  simp only [returns_bind, Prog.exec_get, Except.ok.injEq, forall_eq']

theorem returns_ite {c : Prop} [Decidable c] {scan scan' : Nat → Prog Scan Fate} :
    Returns (fun fuel => if c then scan fuel else scan' fuel) s ↔
      if c then Returns scan s else Returns scan' s := by
  split
  · rfl
  · rfl

theorem returns_returned (host : Option (List Char)) :
    Returns (fun _ => pure (.returned host)) s :=
  ⟨0, fun _ _ => by simp⟩

-- ---------------------------------------------------------------------------
-- Reads at the cursor
-- ---------------------------------------------------------------------------

theorem nextByte_ok {b : Byte} (h : buffer.get s.offset = .ok b) :
    ∃ t, (nextByte buffer).exec s = (.ok b, t) ∧ t.offset = s.offset + 1 := by
  simp [nextByte, readByte, advance, Prog.exec_bind, Prog.exec_map, h]

theorem nextByte_error {e : Throwable} (h : buffer.get s.offset = .error e) :
    ∃ t, (nextByte buffer).exec s = (.error e, t) := by
  simp [nextByte, readByte, Prog.exec_bind, h]

theorem readShort_result (buffer : Bytes Byte) (s : Scan) :
    ∃ t, (HttpHeaderParser.readShort buffer).exec s = (EasyValue.readShort buffer s.offset, t) ∧
      t.offset = s.offset := by
  cases hhi : buffer.get s.offset with
  | error e =>
    simp [HttpHeaderParser.readShort, EasyValue.readShort, readByte, Prog.exec_bind, hhi]
  | ok hi =>
    cases hlo : buffer.get (s.offset + 1) with
    | error e =>
      simp [HttpHeaderParser.readShort, EasyValue.readShort, readByte, Prog.exec_bind, Prog.exec_map,
        hhi, hlo]
    | ok lo =>
      simp [HttpHeaderParser.readShort, EasyValue.readShort, readByte, Prog.exec_bind, Prog.exec_map,
        hhi, hlo]

-- ---------------------------------------------------------------------------
-- The scan, from its loop outwards
-- ---------------------------------------------------------------------------

theorem readServerName_ne_running (length : Int) :
    ((readServerName buffer limit length).exec s).1 ≠ .ok .running := by
  simp only [readServerName, Prog.exec_bind, Prog.exec_get, advance, Prog.exec_modify]
  split
  · simp
  · rw [Prog.exec_bind]
    split
    · simp
    · simp

/-- The type and the length of an extension are read. -/
theorem exec_header {type0 type1 : Byte} {length : Short} (hlimit : s.offset + 4 ≤ limit)
    (h0 : buffer.get s.offset = .ok type0) (h1 : buffer.get (s.offset + 1) = .ok type1)
    (hlength : EasyValue.readShort buffer (s.offset + 2) = .ok length) :
    ∃ t, t.offset = s.offset + 4 ∧ ∀ fuel, (readExtensions buffer limit (fuel + 1)).exec s =
      (if type0 = 0 ∧ type1 = 0 ∧ 5 < length.toInt then readServerName buffer limit length.toInt
        else do
          advance length.toInt
          readExtensions buffer limit fuel : Prog Scan Fate).exec t := by
  obtain ⟨t, ht, hoffset⟩ := nextByte_ok h0
  obtain ⟨u, hu, hoffset'⟩ := nextByte_ok (hoffset ▸ h1)
  obtain ⟨v, hv, hoffset''⟩ := readShort_result buffer u
  have hpos : u.offset = s.offset + 2 := by omega
  rw [hpos, hlength] at hv
  refine ⟨{ offset := v.offset + 2, log := v.log ++ [.move v.offset (v.offset + 2)] }, ?_, fun fuel => ?_⟩
  · simp only
    omega
  · simp only [readExtensions, Prog.exec_bind, Prog.exec_get, hlimit, if_true, ht, hu, hv, advance,
      Prog.exec_modify]

/-- An extension that is cut off by the end of the array. -/
theorem exec_header_error (hlimit : s.offset + 4 ≤ limit)
    (h : ∀ type0 type1 length, buffer.get s.offset = .ok type0 → buffer.get (s.offset + 1) = .ok type1 →
      EasyValue.readShort buffer (s.offset + 2) ≠ .ok length) (fuel : Nat) :
    ∃ e, ((readExtensions buffer limit (fuel + 1)).exec s).1 = .error e := by
  simp only [readExtensions, Prog.exec_bind, Prog.exec_get, hlimit, if_true]
  cases h0 : buffer.get s.offset with
  | error e =>
    obtain ⟨t, ht⟩ := nextByte_error h0
    exact ⟨e, by rw [ht]⟩
  | ok type0 =>
    obtain ⟨t, ht, hoffset⟩ := nextByte_ok h0
    rw [ht]
    cases h1 : buffer.get (s.offset + 1) with
    | error e =>
      obtain ⟨u, hu⟩ := nextByte_error (hoffset ▸ h1)
      exact ⟨e, by simp only [hu]⟩
    | ok type1 =>
      obtain ⟨u, hu, hoffset'⟩ := nextByte_ok (hoffset ▸ h1)
      obtain ⟨v, hv, -⟩ := readShort_result buffer u
      have hpos : u.offset = s.offset + 2 := by omega
      rw [hpos] at hv
      cases hlength : EasyValue.readShort buffer (s.offset + 2) with
      | error e => exact ⟨e, by simp only [hu, hv, hlength]⟩
      | ok length => exact absurd hlength (h type0 type1 length h0 h1)

/-- The bytes at `pos` begin like a server name of `length` bytes. -/
def NameHeader (buffer : Bytes Byte) (pos : Int) (length : Short) : Prop :=
  buffer.get pos = .ok 0 ∧ buffer.get (pos + 1) = .ok 0 ∧
    EasyValue.readShort buffer (pos + 2) = .ok length ∧ 5 < length.toInt

/-- What one iteration can do. -/
inductive Iteration (buffer : Bytes Byte) (limit : Int) (s : Scan) : Prop
  | done (hend : limit < s.offset + 4) (hnext : nextExtension buffer limit s.offset = none)
      (hstep : ∀ fuel, ((readExtensions buffer limit (fuel + 1)).exec s).1 = .ok (.returned none))
  | cut (hroom : s.offset + 4 ≤ limit) (hnext : nextExtension buffer limit s.offset = none)
      (hcut : ∀ length, ¬ NameHeader buffer s.offset length)
      (hstep : ∀ fuel, ∃ e, ((readExtensions buffer limit (fuel + 1)).exec s).1 = .error e)
  | skip (t : Scan) (hnext : nextExtension buffer limit s.offset = some t.offset)
      (hstep : ∀ fuel,
        (readExtensions buffer limit (fuel + 1)).exec s = (readExtensions buffer limit fuel).exec t)
  | name (length : Short) (t : Scan) (hroom : s.offset + 4 ≤ limit)
      (hnext : nextExtension buffer limit s.offset = none) (hname : NameHeader buffer s.offset length)
      (hoffset : t.offset = s.offset + 4)
      (hstep : ∀ fuel,
        (readExtensions buffer limit (fuel + 1)).exec s = (readServerName buffer limit length.toInt).exec t)

theorem iteration (buffer : Bytes Byte) (limit : Int) (s : Scan) : Iteration buffer limit s := by
  by_cases hlimit : s.offset + 4 ≤ limit
  · by_cases hcut : ∀ type0 type1 length, buffer.get s.offset = .ok type0 →
        buffer.get (s.offset + 1) = .ok type1 → EasyValue.readShort buffer (s.offset + 2) ≠ .ok length
    · refine .cut hlimit ?_ ?_ (exec_header_error hlimit hcut)
      · unfold nextExtension
        rw [if_pos hlimit]
        split
        next type0 type1 length h0 h1 hlength => exact absurd hlength (hcut type0 type1 length h0 h1)
        next => rfl
      · rintro length ⟨h0, h1, hlength, -⟩
        exact hcut 0 0 length h0 h1 hlength
    · push Not at hcut
      obtain ⟨type0, type1, length, h0, h1, hlength⟩ := hcut
      obtain ⟨t, hoffset, hstep⟩ := exec_header hlimit h0 h1 hlength
      have hnext : nextExtension buffer limit s.offset =
          if type0 = 0 ∧ type1 = 0 ∧ 5 < length.toInt then none else some (s.offset + 4 + length.toInt) := by
        unfold nextExtension
        rw [if_pos hlimit, h0, h1, hlength]
      by_cases hname : type0 = 0 ∧ type1 = 0 ∧ 5 < length.toInt
      · simp only [hname, and_self, if_true] at hstep hnext
        obtain ⟨rfl, rfl, hlong⟩ := hname
        exact .name length t hlimit hnext ⟨h0, h1, hlength, hlong⟩ hoffset hstep
      · simp only [hname, if_false] at hstep hnext
        refine .skip ⟨t.offset + length.toInt, t.log ++ [.move t.offset (t.offset + length.toInt)]⟩ ?_ ?_
        · rw [hnext, hoffset]
        · intro fuel
          rw [hstep, Prog.exec_bind]
          rfl
  · refine .done (Int.not_le.mp hlimit) (if_neg hlimit) fun fuel => ?_
    simp [readExtensions, Prog.exec_bind, hlimit]

/-- The loop is still running when the chain of extensions has not ended. -/
theorem readExtensions_running_iff (fuel : Nat) :
    ((readExtensions buffer limit fuel).exec s).1 = .ok .running ↔
      Chain.follow (nextExtension buffer limit) fuel s.offset ≠ none := by
  induction fuel generalizing s with
  | zero => simp [readExtensions, Chain.follow]
  | succ fuel ih =>
    cases iteration buffer limit s with
    | done hend hnext hstep => simp [Chain.follow, hnext, hstep]
    | cut hroom hnext hcut hstep =>
      obtain ⟨e, he⟩ := hstep fuel
      simp [Chain.follow, hnext, he]
    | skip t hnext hstep => rw [Chain.follow_succ hnext, hstep, ih]
    | name length t hroom hnext hname hoffset hstep =>
      simp [Chain.follow, hnext, hstep, readServerName_ne_running]

theorem returns_readExtensions :
    Returns (readExtensions buffer limit) s ↔ ExtensionsEnd buffer limit s.offset := by
  -- an extension that is followed by another lies in the segment
  have hinside : ∀ b c, Chain.Reaches (nextExtension buffer limit) s.offset b →
      nextExtension buffer limit b = some c → b ∈ Set.Icc 0 limit := by
    intro b c _ hnext
    unfold nextExtension at hnext
    split at hnext
    next hlimit =>
      cases hget : buffer.get b with
      | error e => simp [hget] at hnext
      | ok type0 => 
        unfold Bytes.get at hget
        split at hget
        next hrange => exact ⟨hrange.1, by omega⟩
        next => cases hget
    next => cases hnext
  refine Iff.trans ⟨?_, ?_⟩ (Chain.ends_iff_acyclic (Set.finite_Icc 0 limit) hinside)
  · rintro ⟨bound, hbound⟩
    have hreturned := hbound bound (Nat.le_refl bound)
    rw [ne_eq, readExtensions_running_iff, not_not] at hreturned
    exact ⟨bound, hreturned⟩
  · rintro ⟨bound, hend⟩
    refine ⟨bound, fun fuel hfuel hrunning => ?_⟩
    exact (readExtensions_running_iff fuel).mp hrunning (Chain.follow_none_mono hend hfuel)

-- The stages before the loop, each with the condition on what is left.

theorem returns_advance {delta : Int} {scan : Nat → Prog Scan Fate} {E : Int → Prop}
    (h : ∀ t, Returns scan t ↔ E t.offset) :
    Returns (fun fuel => advance delta >>= fun _ => scan fuel) s ↔ E (s.offset + delta) := by
  simp only [returns_bind, advance, Prog.exec_modify, h, forall_const]

theorem returns_nextByte {scan : Byte → Nat → Prog Scan Fate} {E : Byte → Int → Prop}
    (h : ∀ b t, Returns (scan b) t ↔ E b t.offset) :
    Returns (fun fuel => nextByte buffer >>= fun b => scan b fuel) s ↔
      ∀ b, buffer.get s.offset = .ok b → E b (s.offset + 1) := by
  rw [returns_bind]
  cases hget : buffer.get s.offset with
  | ok b =>
    obtain ⟨t, ht, hoffset⟩ := nextByte_ok hget
    simp only [ht, Except.ok.injEq, forall_eq', h, hoffset]
  | error e =>
    obtain ⟨t, ht⟩ := nextByte_error hget
    simp [ht]

theorem returns_readShort {scan : Short → Nat → Prog Scan Fate} {E : Short → Int → Prop}
    (h : ∀ x t, Returns (scan x) t ↔ E x t.offset) :
    Returns (fun fuel => HttpHeaderParser.readShort buffer >>= fun x => scan x fuel) s ↔
      ∀ x, EasyValue.readShort buffer s.offset = .ok x → E x s.offset := by
  obtain ⟨t, ht, hoffset⟩ := readShort_result buffer s
  simp only [returns_bind, ht, h, hoffset]

/-- A stage that looks for room first. -/
theorem returns_room {room : Int} {scan : Nat → Prog Scan Fate} {ends : Prop}
    (h : Returns scan s ↔ ends) :
    Returns (fun fuel => do
        if limit < (← get).offset + room then
          return .returned none
        scan fuel) s ↔ (s.offset + room ≤ limit → ends) := by
  simp only [returns_get, returns_ite]
  split
  next hlimit => exact iff_of_true (returns_returned none) fun hroom => absurd hroom (by omega)
  next hlimit => rw [h, forall_prop_of_true (by omega)]

theorem returns_readExtensionBlock :
    Returns (readExtensionBlock buffer limit) s ↔ BlockEnds buffer limit s.offset := by
  unfold readExtensionBlock
  simp only [returns_get, returns_ite]
  split
  next hend =>
    exact iff_of_true (returns_returned none) fun hroom => absurd hroom (by omega)
  next =>
    refine Iff.trans ?_ (returns_room (returns_readShort
      (E := fun length pos => pos + 2 + length.toInt ≤ limit → ExtensionsEnd buffer limit (pos + 2))
      fun length t => returns_advance
        (E := fun pos => pos + length.toInt ≤ limit → ExtensionsEnd buffer limit pos)
        fun u => returns_room returns_readExtensions))
    simp only [returns_get, returns_ite]

theorem returns_readCompressionMethods :
    Returns (readCompressionMethods buffer limit) s ↔ CompressionEnds buffer limit s.offset :=
  returns_room (returns_nextByte (E := fun length pos => BlockEnds buffer limit (pos + length.toInt))
    fun _ _ => returns_advance fun _ => returns_readExtensionBlock)

theorem returns_readCipherSuites :
    Returns (readCipherSuites buffer limit) s ↔ CipherSuitesEnd buffer limit s.offset :=
  returns_room (returns_readShort
    (E := fun length pos => CompressionEnds buffer limit (pos + 2 + length.toInt))
    fun length _ => returns_advance (E := fun pos => CompressionEnds buffer limit (pos + length.toInt))
      fun _ => returns_advance fun _ => returns_readCompressionMethods)

theorem returns_readSessionID :
    Returns (readSessionID buffer limit) s ↔ SessionIDEnds buffer limit s.offset :=
  returns_room (returns_nextByte (E := fun length pos => CipherSuitesEnd buffer limit (pos + length.toInt))
    fun _ _ => returns_advance fun _ => returns_readCipherSuites)

theorem returns_getSNI (count : Int) :
    Returns (getSNI buffer count) s ↔ HelloEnds buffer s.offset count := by
  unfold getSNI HelloEnds
  simp only [returns_get, returns_ite]
  split
  next hcount =>
    have hread : (readByte buffer s.offset).exec s =
        (buffer.get s.offset, ⟨s.offset, s.log ++ [.read s.offset]⟩) := by
      simp [readByte, Prog.exec_bind]
    simp only [returns_bind, hread, forall_prop_of_true hcount]
    cases hfirst : buffer.get s.offset with
    | error e => simp
    | ok first =>
      simp only [Except.ok.injEq, forall_eq']
      by_cases hello : first = 0x16
      · simp only [hello, if_true, forall_const]
        exact returns_advance fun _ => returns_readSessionID
      · simp only [hello, if_false, false_imp_iff, iff_true]
        exact returns_returned none
  next hcount => exact iff_of_true (returns_returned none) fun h => absurd h hcount

/-- A host name is looked for without end only in a ClientHello whose extensions
lead back to one of them. -/
theorem parseHost_ends_iff (offset count : Int) :
    (∃ bound, ∀ fuel, bound ≤ fuel → parseHost buffer offset count fuel ≠ .running) ↔
      HelloEnds buffer offset count := by
  by_cases hello : buffer.get offset = .ok 0x16
  · have hrunning : ∀ fuel, parseHost buffer offset count fuel = .running ↔
        ((getSNI buffer count fuel).exec { offset }).1 = .ok .running := by
      intro fuel
      rw [parseHost, hello]
      dsimp only
      rw [if_neg (by decide), if_pos rfl]
      split
      next fate t hexec => simp [hexec]
      next e t hexec => simp [hexec]
    simp only [ne_eq, hrunning]
    exact returns_getSNI count
  · refine iff_of_true ⟨0, fun fuel _ => ?_⟩ fun _ h => absurd h hello
    unfold parseHost
    cases hfirst : buffer.get offset with
    | error e => simp
    | ok first =>
      have hother : ¬ first = 0x16 := fun h => hello (hfirst.trans (congrArg _ h))
      dsimp only
      rw [if_neg hother]
      split
      · split <;> simp
      · simp

end

end SmartSocks.Http
