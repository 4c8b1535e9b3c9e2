import SmartSocks.Utils.EasyValue

/-!
# Strings

The string operations of the JVM and of Kotlin that the parsers use, on lists
of characters. `decodeUtf8` is `String(bytes)`: a malformed sequence becomes
one replacement character and decoding goes on behind it.
-/

namespace SmartSocks.Strings

/-- The code point of the given value. -/
def codePoint (n : Nat) : Char := Char.ofNat n

theorem toNat_codePoint (b : Byte) : (codePoint b.toNat).toNat = b.toNat := by
  have hvalid : b.toNat.isValidChar := .inl (by omega)
  rw [codePoint, Char.ofNat, dif_pos hvalid]
  rfl

def replacement : Char := Char.ofNat 0xFFFD

def isContinuation (b : Byte) : Bool := 0x80 ≤ b.toNat && b.toNat ≤ 0xBF

/-- Second bytes allowed after a three-byte or four-byte lead. -/
def isSecond (lead b : Byte) : Bool :=
  isContinuation b &&
    match lead.toNat with
    | 0xE0 => 0xA0 ≤ b.toNat
    | 0xED => b.toNat ≤ 0x9F
    | 0xF0 => 0x90 ≤ b.toNat
    | 0xF4 => b.toNat ≤ 0x8F
    | _ => true

def low6 (b : Byte) : Nat := b.toNat % 64

def decodeUtf8 : List Byte → List Char
  | [] => []
  | b0 :: rest =>
    if b0.toNat < 0x80 then codePoint b0.toNat :: decodeUtf8 rest
    else if 0xC2 ≤ b0.toNat && b0.toNat ≤ 0xDF then
      match rest with
      | [] => [replacement]
      | b1 :: rest' =>
        if isContinuation b1 then
          codePoint (b0.toNat % 32 * 64 + low6 b1) :: decodeUtf8 rest'
        else replacement :: decodeUtf8 (b1 :: rest')
    else if 0xE0 ≤ b0.toNat && b0.toNat ≤ 0xEF then
      match rest with
      | [] => [replacement]
      | [b1] => if isSecond b0 b1 then [replacement] else replacement :: decodeUtf8 [b1]
      | b1 :: b2 :: rest' =>
        if !isSecond b0 b1 then replacement :: decodeUtf8 (b1 :: b2 :: rest')
        else if isContinuation b2 then
          codePoint (b0.toNat % 16 * 4096 + low6 b1 * 64 + low6 b2) :: decodeUtf8 rest'
        else replacement :: decodeUtf8 (b2 :: rest')
    else if 0xF0 ≤ b0.toNat && b0.toNat ≤ 0xF4 then
      match rest with
      | [] => [replacement]
      | [b1] => if isSecond b0 b1 then [replacement] else replacement :: decodeUtf8 [b1]
      | [b1, b2] =>
        if !isSecond b0 b1 then replacement :: decodeUtf8 [b1, b2]
        else if isContinuation b2 then [replacement]
        else replacement :: decodeUtf8 [b2]
      | b1 :: b2 :: b3 :: rest' =>
        if !isSecond b0 b1 then replacement :: decodeUtf8 (b1 :: b2 :: b3 :: rest')
        else if !isContinuation b2 then replacement :: decodeUtf8 (b2 :: b3 :: rest')
        else if isContinuation b3 then
          codePoint (b0.toNat % 8 * 262144 + low6 b1 * 4096 + low6 b2 * 64 + low6 b3) ::
            decodeUtf8 rest'
        else replacement :: decodeUtf8 (b3 :: rest')
    else replacement :: decodeUtf8 rest

/-- `split` at every `\r\n`, empty pieces kept. -/
def splitLines : List Char → List (List Char)
  | [] => [[]]
  | '\r' :: '\n' :: rest => [] :: splitLines rest
  | c :: rest =>
    match splitLines rest with
    | [] => [[c]]
    | piece :: pieces => (c :: piece) :: pieces

/-- `split` at every occurrence of one character, empty pieces kept. -/
def splitAt (separator : Char) : List Char → List (List Char)
  | [] => [[]]
  | c :: rest =>
    if c = separator then [] :: splitAt separator rest
    else
      match splitAt separator rest with
      | [] => [[c]]
      | piece :: pieces => (c :: piece) :: pieces

/-- `dropLastWhile { it.isEmpty() }`. -/
def dropLastEmpty (pieces : List (List Char)) : List (List Char) :=
  (pieces.reverse.dropWhile List.isEmpty).reverse

/-- `trim { it <= ' ' }`. -/
def trim (s : List Char) : List Char :=
  ((s.dropWhile (· ≤ ' ')).reverse.dropWhile (· ≤ ' ')).reverse

/-- `toLowerCase(Locale.ENGLISH)` on the ASCII letters. No other character
becomes one of the letters of a header name that is compared here. -/
def toLowerCase (s : List Char) : List Char := s.map Char.toLower

end SmartSocks.Strings
