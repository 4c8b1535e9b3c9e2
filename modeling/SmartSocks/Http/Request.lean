import SmartSocks.Http.HttpHeaderParser
import SmartSocks.Utils.Decoding
import SmartSocks.Utils.Splitting

/-!
# The HTTP request

A request, written out from its request line, its header fields and its body.
At most one of the fields is a `Host` field, with blanks wherever they may
stand. Fields and body are bytes, and only the names and the host are ASCII.
-/

namespace SmartSocks.Http

open Jvm Strings

-- ---------------------------------------------------------------------------
-- The message
-- ---------------------------------------------------------------------------

/-- The methods that `parseHost` dispatches on. -/
inductive Method
  | GET | HEAD | POST | PUT | DELETE | OPTIONS | TRACE | CONNECT
  deriving DecidableEq, Repr

def ascii (s : String) : List Byte := s.toList.map fun c => BitVec.ofNat 8 c.toNat

def Method.bytes : Method → List Byte
  | GET => ascii "GET"
  | HEAD => ascii "HEAD"
  | POST => ascii "POST"
  | PUT => ascii "PUT"
  | DELETE => ascii "DELETE"
  | OPTIONS => ascii "OPTIONS"
  | TRACE => ascii "TRACE"
  | CONNECT => ascii "CONNECT"

def colon : Byte := 0x3A
def space : Byte := 0x20
def crlf : List Byte := [0x0D, 0x0A]

def IsBlank (b : Byte) : Prop := b = 0x20 ∨ b = 0x09

def IsVisible (b : Byte) : Prop := 0x20 < b.toNat ∧ b.toNat < 0x7F

def IsDigit (b : Byte) : Prop := 0x30 ≤ b.toNat ∧ b.toNat ≤ 0x39

/-- The bytes of a line. -/
def OfLine (xs : List Byte) : Prop := ∀ b ∈ xs, b ≠ 0x0D ∧ b ≠ 0x0A

instance (xs : List Byte) : Decidable (OfLine xs) :=
  List.decidableBAll (fun b => b ≠ 0x0D ∧ b ≠ 0x0A) xs

/-- ASCII bytes as text. -/
def text (xs : List Byte) : List Char := xs.map fun b => codePoint b.toNat

/-- A header field, with the blanks before and behind its name. -/
structure Field where
  before : List Byte
  name : List Byte
  after : List Byte
  value : List Byte

namespace Field

def label (f : Field) : List Byte := f.before ++ (f.name ++ f.after)

def line (f : Field) : List Byte := f.label ++ colon :: f.value

def IsHost (f : Field) : Prop := toLowerCase (text f.name) = "host".toList

structure WellFormed (f : Field) : Prop where
  before : ∀ b ∈ f.before, IsBlank b
  name : f.name ≠ [] ∧ ∀ b ∈ f.name, IsVisible b ∧ b ≠ colon
  after : ∀ b ∈ f.after, IsBlank b
  value : OfLine f.value

end Field

structure HostField where
  before : List Byte
  name : List Byte
  after : List Byte
  left : List Byte
  host : List Byte
  port : Option (List Byte)
  right : List Byte

namespace HostField

def portBytes (h : HostField) : List Byte :=
  match h.port with
  | none => []
  | some digits => colon :: digits

def toField (h : HostField) : Field where
  before := h.before
  name := h.name
  after := h.after
  value := h.left ++ (h.host ++ (h.portBytes ++ h.right))

/-- Only a host in brackets has colons. -/
structure WellFormed (h : HostField) : Prop where
  field : h.toField.WellFormed
  isHost : h.toField.IsHost
  left : ∀ b ∈ h.left, IsBlank b
  host : ∀ b ∈ h.host, IsVisible b
  brackets : colon ∈ h.host → h.host.getLast? = some 0x5D
  port : ∀ digits ∈ h.port, ∀ b ∈ digits, IsDigit b
  right : ∀ b ∈ h.right, IsBlank b

end HostField

structure Request where
  method : Method
  target : List Byte
  version : List Byte
  leading : List Field
  host : Option HostField
  trailing : List Field
  body : List Byte

namespace Request

def requestLine (r : Request) : List Byte := r.method.bytes ++ space :: (r.target ++ space :: r.version)

def fields (r : Request) : List Field := r.leading ++ (r.host.toList.map HostField.toField ++ r.trailing)

/-- The header section ends with an empty line. -/
def bytes (r : Request) : List Byte :=
  r.requestLine ++ (crlf ++ (r.fields.flatMap (fun f => f.line ++ crlf) ++ (crlf ++ r.body)))

structure WellFormed (r : Request) : Prop where
  target : OfLine r.target
  version : OfLine r.version
  leading : ∀ f ∈ r.leading, f.WellFormed ∧ ¬ f.IsHost
  host : ∀ h ∈ r.host, h.WellFormed
  trailing : ∀ f ∈ r.trailing, f.WellFormed ∧ ¬ f.IsHost

/-- The host of the `Host` field. -/
def hostName (r : Request) : Option (List Char) := r.host.map fun h => text h.host

end Request

-- ---------------------------------------------------------------------------
-- ASCII text
-- ---------------------------------------------------------------------------

section
variable {b : Byte} {xs ys : List Byte}

theorem codePoint_inj {b' : Byte} : codePoint b.toNat = codePoint b'.toNat ↔ b = b' := by
  refine ⟨fun h => BitVec.eq_of_toNat_eq ?_, fun h => h ▸ rfl⟩
  rw [← toNat_codePoint, h, toNat_codePoint]

theorem mem_text {c : Byte} : codePoint c.toNat ∈ text xs ↔ c ∈ xs := by
  simp only [text, List.mem_map, codePoint_inj, exists_eq_right]

theorem text_append : text (xs ++ ys) = text xs ++ text ys := List.map_append

theorem IsVisible.ascii (h : IsVisible b) : b.toNat < 0x80 := Nat.lt_trans h.2 (by decide)

theorem IsBlank.ascii (h : IsBlank b) : b.toNat < 0x80 := by
  obtain rfl | rfl := h
  · decide
  · decide

theorem IsBlank.text_blank (h : ∀ b ∈ xs, IsBlank b) : ∀ c ∈ text xs, c ≤ ' ' := by
  intro c hc
  obtain ⟨b, hb, rfl⟩ := List.mem_map.mp hc
  obtain rfl | rfl := h b hb
  · decide
  · decide

theorem IsVisible.text_visible (h : ∀ b ∈ xs, IsVisible b) : ∀ c ∈ text xs, ¬ c ≤ ' ' := by
  intro c hc hle
  obtain ⟨b, hb, rfl⟩ := List.mem_map.mp hc
  have hlt := (h b hb).1
  rw [Char.le_def, UInt32.le_iff_toNat_le] at hle
  have hval : (codePoint b.toNat).val.toNat = b.toNat := toNat_codePoint b
  rw [hval] at hle
  exact absurd hle (Nat.not_le.mpr hlt)

/-- A line is decoded without a carriage return. -/
theorem cr_not_mem (h : OfLine xs) : '\r' ∉ decodeUtf8 xs := by
  intro hmem
  obtain ⟨b, hb, hc⟩ := mem_decodeUtf8 hmem (by decide) (by decide)
  have hcr : codePoint b.toNat = codePoint (0x0D : Byte).toNat := hc.symm
  exact (h b hb).1 (codePoint_inj.mp hcr)

end

end SmartSocks.Http
