import SmartSocks.Jvm.JString

/-!
# Texts of JSON arrays of strings

The grammar, as a relation between a text and the strings it denotes: blanks are
free between the tokens, and a character may be escaped. `serialise` writes the
shortest text of strings without special characters.
-/

namespace SmartSocks.Jvm

namespace JString

def opening : CodeUnit := 0x5B

def closing : CodeUnit := 0x5D

/-- A character that stands for itself in a text. -/
def Unescaped (c : CodeUnit) : Prop := 0x20 ≤ c ∧ c ≠ quotation ∧ c ≠ backslash

instance (c : CodeUnit) : Decidable (Unescaped c) := inferInstanceAs (Decidable (_ ∧ _ ∧ _))

/-- The characters behind a backslash, and what they denote. -/
def escapes : List (CodeUnit × CodeUnit) :=
  [(quotation, quotation), (backslash, backslash), (0x2F, 0x2F), (0x62, 0x8), (0x66, 0xC), (0x6E, 0xA),
    (0x72, 0xD), (0x74, 0x9)]

def hexDigit (c : CodeUnit) : Option Nat :=
  if 0x30 ≤ c ∧ c ≤ 0x39 then some (c.toNat - 0x30)
  else if 0x41 ≤ c ∧ c ≤ 0x46 then some (c.toNat - 0x41 + 10)
  else if 0x61 ≤ c ∧ c ≤ 0x66 then some (c.toNat - 0x61 + 10)
  else none

inductive CharText : JString → CodeUnit → Prop
  | plain {c : CodeUnit} (hc : Unescaped c) : CharText [c] c
  | escape {e c : CodeUnit} (he : (e, c) ∈ escapes) : CharText [backslash, e] c
  | code {a b c d : CodeUnit} {i j k l : Nat} (ha : hexDigit a = some i) (hb : hexDigit b = some j)
      (hc : hexDigit c = some k) (hd : hexDigit d = some l) :
      CharText [backslash, 0x75, a, b, c, d] (BitVec.ofNat 16 (((i * 16 + j) * 16 + k) * 16 + l))

/-- What stands between the quotation marks. -/
inductive BodyText : JString → JString → Prop
  | nil : BodyText [] []
  | cons {t text s : JString} {c : CodeUnit} (hc : CharText t c) (hs : BodyText text s) :
      BodyText (t ++ text) (c :: s)

def Blank (t : JString) : Prop := ∀ c ∈ t, c = 0x20 ∨ c = 0x9 ∨ c = 0xA ∨ c = 0xD

inductive StringText : JString → JString → Prop
  | intro {before text after s : JString} (hbefore : Blank before) (hs : BodyText text s)
      (hafter : Blank after) : StringText (before ++ quotation :: (text ++ quotation :: after)) s

inductive ElementsText : JString → List JString → Prop
  | single {t s : JString} (hs : StringText t s) : ElementsText t [s]
  | cons {t text s : JString} {strings : List JString} (hs : StringText t s)
      (hstrings : ElementsText text strings) : ElementsText (t ++ comma :: text) (s :: strings)

inductive ArrayText : JString → List JString → Prop
  | empty {before inside after : JString} (hbefore : Blank before) (hinside : Blank inside)
      (hafter : Blank after) : ArrayText (before ++ opening :: (inside ++ closing :: after)) []
  | elements {before text after : JString} {strings : List JString} (hbefore : Blank before)
      (hstrings : ElementsText text strings) (hafter : Blank after) :
      ArrayText (before ++ opening :: (text ++ closing :: after)) strings

def quote (s : JString) : JString := quotation :: (s ++ [quotation])

/-- The shortest text. -/
def serialise (strings : List JString) : JString :=
  opening :: ([comma].intercalate (strings.map quote) ++ [closing])

theorem bodyText_of_unescaped {s : JString} (hs : ∀ c ∈ s, Unescaped c) : BodyText s s := by
  induction s with
  | nil => exact .nil
  | cons c s ih =>
    obtain ⟨hc, hs⟩ := List.forall_mem_cons.mp hs
    exact .cons (.plain hc) (ih hs)

theorem stringText_quote {s : JString} (hs : ∀ c ∈ s, Unescaped c) : StringText (quote s) s :=
  @StringText.intro [] s [] s nofun (bodyText_of_unescaped hs) nofun

theorem elementsText_quote {s : JString} {strings : List JString}
    (h : ∀ t ∈ s :: strings, ∀ c ∈ t, Unescaped c) :
    ElementsText ([comma].intercalate ((s :: strings).map quote)) (s :: strings) := by
  induction strings generalizing s with
  | nil =>
    rw [List.map_singleton, List.intercalate_singleton]
    exact .single (stringText_quote (h s (List.mem_singleton_self s)))
  | cons next strings ih =>
    obtain ⟨hs, hstrings⟩ := List.forall_mem_cons.mp h
    rw [List.map_cons, List.map_cons, List.intercalate_cons_cons, List.append_assoc, List.singleton_append]
    exact .cons (stringText_quote hs) (ih hstrings)

/-- A text is written for all strings that need no escapes. -/
theorem arrayText_serialise {strings : List JString} (h : ∀ s ∈ strings, ∀ c ∈ s, Unescaped c) :
    ArrayText (serialise strings) strings := by
  cases strings with
  | nil => exact @ArrayText.empty [] [] [] nofun nofun nofun
  | cons s strings => exact @ArrayText.elements [] _ [] _ nofun (elementsText_quote h) nofun

end JString

end SmartSocks.Jvm
