import SmartSocks.Utils.Strings

/-!
# `HttpHeaderParser`

`getSNI` walks over a TLS ClientHello with one cursor. Its lengths are signed
bytes and shorts, so the cursor may go back and the extension loop may not
end: `fuel` bounds its iterations, and `Fate.running` is a scan that has not
returned within them. The scan keeps a log of the indices it reads and of the
moves of its cursor.
-/

namespace SmartSocks.Http

open Jvm Strings

/-- What the scan did, in order. -/
inductive Action
  | read (index : Int)
  | move (source target : Int)
  deriving DecidableEq, Repr

structure Scan where
  offset : Int
  log : List Action := []
  deriving DecidableEq, Repr

inductive Fate
  | running
  | returned (host : Option (List Char))
  deriving DecidableEq, Repr

namespace HttpHeaderParser

/-- `buffer[index]`. -/
def readByte (buffer : Bytes Byte) (index : Int) : Prog Scan Byte := do
  modify fun s => { s with log := s.log ++ [.read index] }
  Prog.lift (buffer.get index)

/-- `offset += delta`. -/
def advance (delta : Int) : Prog Scan Unit :=
  modify fun s => { offset := s.offset + delta, log := s.log ++ [.move s.offset (s.offset + delta)] }

/-- `buffer[offset++]`. -/
def nextByte (buffer : Bytes Byte) : Prog Scan Byte := do
  let b ← readByte buffer (← get).offset
  advance 1
  return b

/-- `EasyValue.readShort(buffer, offset)` at the cursor. -/
def readShort (buffer : Bytes Byte) : Prog Scan Short := do
  let hi ← readByte buffer (← get).offset
  let lo ← readByte buffer ((← get).offset + 1)
  return (hi.setWidth 32 <<< 8 ||| lo.setWidth 32 : Word).setWidth 16

/-- `String(buffer, offset, length)` at the cursor. -/
def newString (buffer : Bytes Byte) (length : Int) : Prog Scan (List Char) := do
  let offset := (← get).offset
  if offset < 0 ∨ length < 0 ∨ buffer.size < offset + length then
    throw .indexOutOfBounds
  else
    modify fun s =>
      { s with log := s.log ++ (List.range length.toNat).map fun k => .read (offset + k) }
    return decodeUtf8 (buffer.slice offset.toNat length.toNat)

/-- Skips the SNI header of an extension of `length` bytes. -/
def readServerName (buffer : Bytes Byte) (limit length : Int) : Prog Scan Fate := do
  advance 5
  let length := length - 5
  if limit < (← get).offset + length then
    return .returned none
  else
    return .returned (some (← newString buffer length))

/-- The extension loop. -/
def readExtensions (buffer : Bytes Byte) (limit : Int) : Nat → Prog Scan Fate
  | 0 => return .running
  | fuel + 1 => do
    if (← get).offset + 4 ≤ limit then
      let type0 ← nextByte buffer
      let type1 ← nextByte buffer
      let length ← readShort buffer
      advance 2
      if type0 = 0 ∧ type1 = 0 ∧ 5 < length.toInt then -- have SNI
        readServerName buffer limit length.toInt
      else
        advance length.toInt
        readExtensions buffer limit fuel
    else
      return .returned none

/-- The extension block. Its length is checked against the segment and then not
used. -/
def readExtensionBlock (buffer : Bytes Byte) (limit : Int) (fuel : Nat) : Prog Scan Fate := do
  if (← get).offset = limit then
    return .returned none
  if limit < (← get).offset + 2 then
    return .returned none
  let extensionsLength ← readShort buffer
  advance 2
  if limit < (← get).offset + extensionsLength.toInt then
    return .returned none
  readExtensions buffer limit fuel

def readCompressionMethods (buffer : Bytes Byte) (limit : Int) (fuel : Nat) : Prog Scan Fate := do
  if limit < (← get).offset + 1 then
    return .returned none
  let compressionMethodLength ← nextByte buffer
  advance compressionMethodLength.toInt
  readExtensionBlock buffer limit fuel

def readCipherSuites (buffer : Bytes Byte) (limit : Int) (fuel : Nat) : Prog Scan Fate := do
  if limit < (← get).offset + 2 then
    return .returned none
  let cipherSuitesLength ← readShort buffer
  advance 2
  advance cipherSuitesLength.toInt
  readCompressionMethods buffer limit fuel

def readSessionID (buffer : Bytes Byte) (limit : Int) (fuel : Nat) : Prog Scan Fate := do
  if limit < (← get).offset + 1 then
    return .returned none
  let sessionIDLength ← nextByte buffer
  advance sessionIDLength.toInt
  readCipherSuites buffer limit fuel

/-- `getSNI`; the cursor of the initial state is the argument `offset`. -/
def getSNI (buffer : Bytes Byte) (count : Int) (fuel : Nat) : Prog Scan Fate := do
  let limit := (← get).offset + count
  if 43 < count then
    let first ← readByte buffer (← get).offset
    if first = 0x16 then -- TLS Client Hello
      advance 43
      readSessionID buffer limit fuel
    else
      return .returned none
  else
    return .returned none

def getHttpHost (buffer : Bytes Byte) (offset count : Int) : Except Throwable (Option (List Char)) :=
  if offset < 0 ∨ count < 0 ∨ buffer.size < offset + count then .error .indexOutOfBounds
  else
    match dropLastEmpty (splitLines (decodeUtf8 (buffer.slice offset.toNat count.toNat))) with
    | [] => .error .arrayIndexOutOfBounds
    | requestLine :: headerLines =>
      if "GET".toList.isPrefixOf requestLine || "POST".toList.isPrefixOf requestLine ||
          "HEAD".toList.isPrefixOf requestLine || "OPTIONS".toList.isPrefixOf requestLine then
        .ok (headerLines.findSome? fun line =>
          match dropLastEmpty (splitAt ':' line) with
          | [name, value] => if trim (toLowerCase name) = "host".toList then some (trim value) else none
          | _ => none)
      else .ok none

/-- First bytes of the methods that are dispatched to `getHttpHost`: GET, HEAD,
POST and PUT, DELETE, OPTIONS, TRACE, CONNECT. -/
def methodInitials : List Byte :=
  ['G', 'H', 'P', 'D', 'O', 'T', 'C'].map fun c => BitVec.ofNat 8 c.toNat

/-- Every exception is caught and makes the host unknown. -/
def parseHost (buffer : Bytes Byte) (offset count : Int) (fuel : Nat) : Fate :=
  match buffer.get offset with
  | .error _ => .returned none
  | .ok first =>
    if first ∈ methodInitials then
      match getHttpHost buffer offset count with
      | .ok host => .returned host
      | .error _ => .returned none
    else if first = 0x16 then
      match (getSNI buffer count fuel).exec { offset := offset } with
      | (.ok fate, _) => fate
      | (.error _, _) => .returned none
    else .returned none

end HttpHeaderParser

end SmartSocks.Http
