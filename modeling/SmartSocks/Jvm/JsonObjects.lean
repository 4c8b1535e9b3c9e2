import Mathlib.Algebra.Group.Int.Defs
import SmartSocks.Jvm.JsonStrings
import SmartSocks.Jvm.OrgJson

/-!
# Objects of strings

`UsualStrings` is what is taken from a JSON library: an object whose members are
strings without special characters is read as such, and a string that has one
was written between quotation marks, by the usual rules. `verbatimJson` is a
reader with this property that takes no other objects.
-/

namespace SmartSocks.Jvm

open JString

namespace OrgJson

def colon : CodeUnit := 0x3A
def openBrace : CodeUnit := 0x7B
def closeBrace : CodeUnit := 0x7D

def member (field : JString × JString) : JString := quote field.1 ++ colon :: quote field.2

/-- The text of an object, with its strings as they are. -/
def objectOf (fields : List (JString × JString)) : JString :=
  openBrace :: ([comma].intercalate (fields.map member) ++ [closeBrace])

/-- A field with this string, or no field. An `Int` may be got from a string. -/
def Holds (J : OrgJson) : Option J.Value → Option JString → Prop
  | none, none => True
  | some v, some s => J.asString v = some s ∧
    ∀ i : Int, -2 ^ 31 ≤ i → i < 2 ^ 31 → s = lit (toString i) → J.asInt v = some i
  | none, some _ | some _, none => False

/-- The fields have different names, and no string needs a backslash. -/
structure VerbatimFields (fields : List (JString × JString)) : Prop where
  nodup : (fields.map Prod.fst).Nodup
  verbatim : ∀ f ∈ fields, Verbatim f.1 ∧ Verbatim f.2

structure UsualStrings (J : OrgJson) : Prop where
  object : ∀ fields, fields ≠ [] → VerbatimFields fields → ∃ json, J.parse (objectOf fields) = some json ∧
    ∀ name, J.Holds (json name) (fields.lookup name)
  string : ∀ text json name value, J.parse text = some json → getString json name = .ok value →
    ¬ Verbatim value → ∃ body, Token text body ∧ StringBody body value

theorem getField_ok {J : OrgJson} {α : Type} {take : J.Value → Option α} {json : J.JSONObject}
    {name : String} {value : α} :
    getField take json name = .ok value ↔ (json (lit name)).bind take = some value := by
  unfold getField
  cases (json (lit name)).bind take with
  | none => exact ⟨nofun, nofun⟩
  | some got => exact ⟨fun h => congrArg some (Except.ok.inj h), fun h => congrArg Except.ok (Option.some.inj h)⟩

-- ---------------------------------------------------------------------------
-- Numbers
-- ---------------------------------------------------------------------------

def digitsNat (digits : JString) : Nat :=
  digits.foldl (fun n c => 10 * n + (c.toNat - 0x30)) 0

/-- A number, if it is written as `toString` writes it. -/
def decimal : JString → Int
  | [] => 0
  | c :: digits => if c = 0x2D then -(digitsNat digits : Int) else digitsNat (c :: digits)

/-- A digit keeps its code. -/
theorem toNat_digit {c : Char} (h : c.isDigit = true) :
    (BitVec.ofNat 16 c.toNat).toNat = c.toNat ∧ 0x30 ≤ c.toNat ∧ c.toNat ≤ 0x39 := by
  have hdigit := Char.isDigit_iff_toNat.mp h
  refine ⟨?_, hdigit⟩
  rw [BitVec.toNat_ofNat]
  exact Nat.mod_eq_of_lt (Nat.lt_of_le_of_lt hdigit.2 (by decide))

theorem lit_digits {cs : List Char} (h : ∀ c ∈ cs, c.isDigit = true) (n : Nat) :
    (cs.map fun c => BitVec.ofNat 16 c.toNat).foldl (fun n (c : CodeUnit) => 10 * n + (c.toNat - 0x30)) n =
      Nat.ofDigitChars 10 cs n := by
  induction cs generalizing n with
  | nil => rfl
  | cons c cs ih =>
    obtain ⟨hc, hcs⟩ := List.forall_mem_cons.mp h
    rw [List.map_cons, List.foldl_cons, ih hcs, (toNat_digit hc).1, Nat.ofDigitChars_cons]
    rfl

theorem isDigit_repr {n : Nat} : ∀ c ∈ n.repr.toList, c.isDigit = true := by
  rw [Nat.toList_repr]
  exact fun c hc => Nat.isDigit_of_mem_toDigits (by decide) (by decide) hc

theorem digits_repr {n : Nat} {c : CodeUnit} (h : c ∈ lit n.repr) :
    0x30 ≤ c.toNat ∧ c.toNat ≤ 0x39 := by
  obtain ⟨d, hd, rfl⟩ := List.mem_map.mp h
  obtain ⟨hcode, hdigit⟩ := toNat_digit (isDigit_repr d hd)
  rwa [hcode]

theorem digitsNat_repr (n : Nat) : digitsNat (lit n.repr) = n := by
  refine (lit_digits isDigit_repr 0).trans ?_
  rw [Nat.toList_repr, Nat.ofDigitChars_toDigits (by decide) (by decide)]

theorem lit_append (s t : String) : lit (s ++ t) = lit s ++ lit t := by
  rw [lit, lit, lit, String.toList_append, List.map_append]

theorem decimal_toString (i : Int) : decimal (lit (toString i)) = i := by
  rw [Int.toString_eq_repr, Int.repr_eq_if]
  split
  · next hi =>
    have hdigits := digitsNat_repr i.toNat
    cases hrepr : lit i.toNat.repr with
    | nil =>
      rw [hrepr] at hdigits
      rw [decimal]
      have hzero : i.toNat = 0 := hdigits.symm
      omega
    | cons c digits =>
      have hne : c ≠ 0x2D := by
        rintro rfl
        have hdigit := digits_repr (hrepr ▸ List.mem_cons_self ..)
        exact absurd hdigit.1 (by decide)
      rw [decimal, if_neg hne, ← hrepr, hdigits]
      exact Int.toNat_of_nonneg hi
  · next hi =>
    have hminus : lit ("-" ++ (-i).toNat.repr) = 0x2D :: lit (-i).toNat.repr := lit_append _ _
    rw [hminus, decimal, if_pos rfl, digitsNat_repr]
    omega

theorem verbatim_toString (i : Int) : Verbatim (lit (toString i)) := by
  have hdigits (n : Nat) : Verbatim (lit n.repr) := by
    intro c hc
    have hdigit := digits_repr hc
    constructor
    · rintro rfl
      exact absurd hdigit.1 (by decide)
    · rintro rfl
      exact absurd hdigit.2 (by decide)
  rw [Int.toString_eq_repr, Int.repr_eq_if]
  split
  · exact hdigits _
  · next hi =>
    have hminus : lit ("-" ++ (-i).toNat.repr) = 0x2D :: lit (-i).toNat.repr := lit_append _ _
    rw [hminus]
    exact List.forall_mem_cons.mpr ⟨⟨by decide, by decide⟩, hdigits _⟩

-- ---------------------------------------------------------------------------
-- A reader
-- ---------------------------------------------------------------------------

/-- The members, from the parts of the text between the quotation marks. -/
def readMembers : List JString → Option (List (JString × JString))
  | name :: sep :: value :: next :: rest =>
    if sep = [colon] ∧ Verbatim name ∧ Verbatim value then
      if next = [closeBrace] ∧ rest = [] then some [(name, value)]
      else if next = [comma] then (readMembers rest).map ((name, value) :: ·)
      else none
    else none
  | _ => none

def readObject (text : JString) : Option (List (JString × JString)) :=
  match text.splitOn quotation with
  | start :: parts => if start = [openBrace] then readMembers parts else none
  | [] => none

def verbatimJson : OrgJson where
  Value := JString
  parse text := (readObject text).map ofFields
  asString := some
  asInt s := if s = lit (toString (decimal s)) then some (decimal s) else none

section
variable {fields : List (JString × JString)} {parts : List JString}

theorem quotation_notMem {s : JString} (h : Verbatim s) : quotation ∉ s := fun hmem =>
  (h _ hmem).1 rfl

/-- What stands behind the first mark of an object. -/
def membersText (name value : JString) : List (JString × JString) → JString
  | [] => name ++ quotation :: colon :: quotation :: (value ++ quotation :: [closeBrace])
  | (next, value') :: fields =>
    name ++ quotation :: colon :: quotation :: (value ++ quotation :: comma :: quotation ::
      membersText next value' fields)

theorem objectOf_cons (fields : List (JString × JString)) (name value : JString) :
    objectOf ((name, value) :: fields) = openBrace :: quotation :: membersText name value fields := by
  unfold objectOf
  congr 1
  induction fields generalizing name value with
  | nil =>
    rw [List.map_singleton, List.intercalate_singleton, membersText]
    simp [member, quote]
  | cons f fields ih =>
    obtain ⟨next, value'⟩ := f
    rw [List.map_cons, List.map_cons, List.intercalate_cons_cons, List.append_assoc, List.append_assoc,
      ← List.map_cons, ih, membersText]
    simp [member, quote]

theorem splitOn_member {name value : JString} (hname : Verbatim name) (hvalue : Verbatim value)
    (rest : JString) :
    (name ++ quotation :: colon :: quotation :: (value ++ quotation :: rest)).splitOn quotation =
      name :: [colon] :: value :: rest.splitOn quotation := by
  have hcolon : quotation ∉ [colon] := by decide
  rw [List.splitOn_append_cons_self_of_not_mem (quotation_notMem hname)]
  have hsep := List.splitOn_append_cons_self_of_not_mem hcolon (value ++ quotation :: rest)
  rw [List.singleton_append] at hsep
  rw [hsep, List.splitOn_append_cons_self_of_not_mem (quotation_notMem hvalue)]

theorem readMembers_membersText (fields : List (JString × JString)) {name value : JString}
    (h : ∀ f ∈ (name, value) :: fields, Verbatim f.1 ∧ Verbatim f.2) :
    readMembers ((membersText name value fields).splitOn quotation) = some ((name, value) :: fields) := by
  induction fields generalizing name value with
  | nil =>
    obtain ⟨hname, hvalue⟩ := h _ (List.mem_singleton_self _)
    have hclose : [closeBrace].splitOn quotation = [[closeBrace]] := List.splitOn_eq_singleton (by decide)
    rw [membersText, splitOn_member hname hvalue, hclose, readMembers, if_pos ⟨rfl, hname, hvalue⟩,
      if_pos ⟨rfl, rfl⟩]
  | cons f fields ih =>
    obtain ⟨next, value'⟩ := f
    obtain ⟨⟨hname, hvalue⟩, hrest⟩ := List.forall_mem_cons.mp h
    have hcomma := List.splitOn_append_cons_self_of_not_mem (show quotation ∉ [comma] by decide)
      (membersText next value' fields)
    have hne : ¬ ([comma] = [closeBrace] ∧ (membersText next value' fields).splitOn quotation = []) := by
      rintro ⟨h, -⟩
      cases h
    rw [List.singleton_append] at hcomma
    rw [membersText, splitOn_member hname hvalue, hcomma, readMembers, if_pos ⟨rfl, hname, hvalue⟩,
      if_neg hne, if_pos rfl, ih hrest, Option.map_some]

theorem readObject_objectOf {fields : List (JString × JString)} (hne : fields ≠ [])
    (h : ∀ f ∈ fields, Verbatim f.1 ∧ Verbatim f.2) : readObject (objectOf fields) = some fields := by
  cases fields with
  | nil => exact absurd rfl hne
  | cons f fields =>
    obtain ⟨name, value⟩ := f
    have hopen := List.splitOn_append_cons_self_of_not_mem (show quotation ∉ [openBrace] by decide)
      (membersText name value fields)
    rw [List.singleton_append] at hopen
    rw [objectOf_cons, readObject, hopen]
    exact (if_pos rfl).trans (readMembers_membersText fields h)

/-- No string of the members needs a backslash. -/
theorem verbatim_readMembers (h : readMembers parts = some fields) : ∀ f ∈ fields, Verbatim f.2 := by
  induction parts using readMembers.induct generalizing fields with
  | case1 first sep second next rest hcond hlast =>
    rw [readMembers, if_pos hcond, if_pos hlast, Option.some.injEq] at h
    subst h
    exact List.forall_mem_singleton.mpr hcond.2.2
  | case2 first sep second rest hcond hlast ih =>
    rw [readMembers, if_pos hcond, if_neg hlast, if_pos rfl, Option.map_eq_some_iff] at h
    obtain ⟨more, hmore, rfl⟩ := h
    exact List.forall_mem_cons.mpr ⟨hcond.2.2, ih hmore⟩
  | case3 first sep second next rest hcond hlast hnext =>
    rw [readMembers, if_pos hcond, if_neg hlast, if_neg hnext] at h
    cases h
  | case4 first sep second next rest hcond =>
    rw [readMembers, if_neg hcond] at h
    cases h
  | case5 parts hparts =>
    rw [readMembers] at h
    · cases h
    · exact hparts

theorem verbatim_readObject {text : JString} (h : readObject text = some fields) :
    ∀ f ∈ fields, Verbatim f.2 := by
  unfold readObject at h
  split at h
  · split at h
    · exact verbatim_readMembers h
    · cases h
  · cases h

theorem verbatimJson_usual : UsualStrings verbatimJson where
  object fields hne h := by
    refine ⟨ofFields fields, ?_, fun name => ?_⟩
    · exact congrArg (Option.map ofFields) (readObject_objectOf hne h.verbatim)
    · rw [ofFields]
      cases fields.lookup name with
      | none => trivial
      | some s =>
        refine ⟨rfl, fun i hmin hmax hs => ?_⟩
        subst hs
        exact (congrArg (fun j => if _ = lit (toString j) then some j else none) (decimal_toString i)).trans
          (if_pos rfl)
  string text json name value hparse hget hnot := by
    obtain ⟨fields, hread, rfl⟩ := Option.map_eq_some_iff.mp hparse
    have hlookup : fields.lookup (lit name) = some value :=
      (Option.bind_fun_some _).symm.trans (getField_ok.mp hget)
    obtain ⟨before, after, rfl, -⟩ := List.lookup_eq_some_iff.mp hlookup
    exact absurd (verbatim_readObject hread _ (List.mem_append_right _ (List.mem_cons_self ..))) hnot

end

end OrgJson

end SmartSocks.Jvm
