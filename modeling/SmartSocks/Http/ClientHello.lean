import SmartSocks.Http.HttpHeaderParser

/-!
# The ClientHello

A TLS record with one ClientHello, written out from its parts. Each list has its
length in front of it, unsigned, as one byte or as two.
-/

namespace SmartSocks.Http

open Jvm EasyValue Strings

-- ---------------------------------------------------------------------------
-- The message
-- ---------------------------------------------------------------------------

/-- A server name list has one entry here, of the type `host_name`. -/
inductive Extension
  | serverName (host : List Byte)
  | other (type : Short) (data : List Byte)

structure ClientHello where
  recordVersion : List Byte
  version : List Byte
  random : List Byte
  sessionID : List Byte
  cipherSuites : List Byte
  compressionMethods : List Byte
  extensions : Option (List Extension)

/-- A list behind its length, in one byte. -/
def vector8 (xs : List Byte) : List Byte := BitVec.ofNat 8 xs.length :: xs

/-- A list behind its length, in two bytes. -/
def vector16 (xs : List Byte) : List Byte := shortBytes (BitVec.ofNat 16 xs.length) ++ xs

namespace Extension

def type : Extension → Short
  | serverName _ => 0
  | other type _ => type

def data : Extension → List Byte
  | serverName host => vector16 (0 :: vector16 host)
  | other _ data => data

def bytes (e : Extension) : List Byte := shortBytes e.type ++ vector16 e.data

def host : Extension → Option (List Byte)
  | serverName host => some host
  | other .. => none

/-- A host name is ASCII and not empty. -/
def WellFormed : Extension → Prop
  | serverName host => host ≠ [] ∧ (∀ b ∈ host, b.toNat < 0x80) ∧ host.length + 5 < 2 ^ 16
  | other type data => type ≠ 0 ∧ data.length < 2 ^ 16

end Extension

namespace ClientHello

def extensionBytes (hello : ClientHello) : List Byte :=
  match hello.extensions with
  | none => []
  | some extensions => vector16 (extensions.flatMap Extension.bytes)

def body (hello : ClientHello) : List Byte :=
  hello.version ++ (hello.random ++ (vector8 hello.sessionID ++ (vector16 hello.cipherSuites ++
    (vector8 hello.compressionMethods ++ hello.extensionBytes))))

/-- The handshake type, a length of three bytes and the body. -/
def handshake (hello : ClientHello) : List Byte := 1 :: 0 :: vector16 hello.body

def bytes (hello : ClientHello) : List Byte := 0x16 :: (hello.recordVersion ++ vector16 hello.handshake)

/-- The host of the server name extension. -/
def serverName (hello : ClientHello) : Option (List Char) :=
  ((hello.extensions.getD []).findSome? Extension.host).map fun host => host.map fun b => codePoint b.toNat

structure WellFormed (hello : ClientHello) : Prop where
  recordVersion : hello.recordVersion.length = 2
  version : hello.version.length = 2
  random : hello.random.length = 32
  sessionID : hello.sessionID.length ≤ 32
  cipherSuites : 2 ≤ hello.cipherSuites.length ∧ hello.cipherSuites.length % 2 = 0
  compressionMethods : 1 ≤ hello.compressionMethods.length ∧ hello.compressionMethods.length ≤ 255
  extensions : ∀ e ∈ hello.extensions.getD [], e.WellFormed
  length : hello.handshake.length < 2 ^ 16

end ClientHello

/-- The segment of `count` bytes begins with the record of `hello`. -/
structure Segment (buffer : Bytes Byte) (offset count : Nat) (hello : ClientHello) (following : List Byte) :
    Prop where
  bytes : buffer.slice offset count = hello.bytes ++ following
  inside : offset + count ≤ buffer.size
  wellFormed : hello.WellFormed

-- ---------------------------------------------------------------------------
-- Bytes at a position
-- ---------------------------------------------------------------------------

/-- The bytes `xs` stand at `pos`. -/
def Stands (buffer : Bytes Byte) (pos : Nat) (xs : List Byte) : Prop := buffer.slice pos xs.length = xs

section
variable {buffer : Bytes Byte} {pos : Nat} {xs ys : List Byte}

theorem stands_append : Stands buffer pos (xs ++ ys) ↔
    Stands buffer pos xs ∧ Stands buffer (pos + xs.length) ys := by
  rw [Stands, List.length_append, buffer.slice_add]
  constructor
  · exact fun h => List.append_inj h (buffer.length_slice _ _)
  · rintro ⟨hxs, hys⟩
    exact congrArg₂ _ hxs hys

theorem stands_cons {x : Byte} : Stands buffer pos (x :: xs) ↔
    buffer.cell pos = x ∧ Stands buffer (pos + 1) xs := by
  have hone : Stands buffer pos [x] ↔ buffer.cell pos = x := by
    simp [Stands, Bytes.slice]
  have happend : Stands buffer pos ([x] ++ xs) ↔ _ := stands_append
  exact happend.trans (and_congr_left fun _ => hone)

theorem stands_shortBytes {value : Short} : Stands buffer pos (shortBytes value) ↔ short buffer pos = value := by
  rw [← shortBytes_inj, ← slice_short]
  rfl

theorem stands_vector8 : Stands buffer pos (vector8 xs) ↔
    buffer.cell pos = BitVec.ofNat 8 xs.length ∧ Stands buffer (pos + 1) xs := stands_cons

theorem stands_vector16 : Stands buffer pos (vector16 xs) ↔
    short buffer pos = BitVec.ofNat 16 xs.length ∧ Stands buffer (pos + 2) xs := by
  rw [vector16, stands_append, stands_shortBytes]
  rfl

end

theorem length_vector8 (xs : List Byte) : (vector8 xs).length = xs.length + 1 := rfl

theorem length_vector16 (xs : List Byte) : (vector16 xs).length = xs.length + 2 := by
  rw [vector16, List.length_append]
  exact Nat.add_comm _ _

theorem Extension.length_bytes (e : Extension) : e.bytes.length = e.data.length + 4 := by
  rw [bytes, List.length_append, length_vector16]
  exact Nat.add_comm 2 _

end SmartSocks.Http
