import Mathlib.Algebra.Group.Nat.Defs
import SmartSocks.Ssserver.SSProxyServer

/-!
# The same key on both sides

Client and server stretch the same stream, from the bytes that each has of the
password. So the keys are the same for every password whose two encodings are,
and for no other one as far as MD5 tells byte strings apart.
-/

namespace SmartSocks.Ssserver

open Jvm Crypto ShadowSocksKey

/-- The keys of a password are the same, whatever MD5 is. -/
def SameKey (password : JString) : Prop :=
  ∀ (md : Md5) (port : Int) (length : Nat), length ≤ 32 →
    ∃ key, init md password length = .ok key ∧ serverKey md port password length = some key

theorem keys_eq_iff (md : Md5) (port : Int) (password : JString) {length : Nat} (hlength : length ≤ 32) :
    (∃ key, init md password length = .ok key ∧ serverKey md port password length = some key) ↔
      IteratedHash.key (hashOf md) password.toByteArray length =
        IteratedHash.key (hashOf md) password.modifiedUtf8 length := by
  rw [init_ok md password hlength, serverKey_eq md port password (hlength.trans (by decide))]
  constructor
  · rintro ⟨key, hclient, hserver⟩
    cases hclient
    exact (Option.some.inj hserver).symm
  · exact fun h => ⟨_, rfl, congrArg some h.symm⟩

/-- A hash that tells one message from all others. -/
def telling (message : List Byte) : Md5 := fun m =>
  ⟨List.replicate 16 (if m = message then 0 else 1), List.length_replicate⟩

theorem key_telling (message seed : List Byte) :
    IteratedHash.key (hashOf (telling message)) seed 1 = [if seed = message then 0 else 1] := rfl

/-- The keys are the same just for the passwords without zeros and surrogates. -/
theorem sameKey_iff (password : JString) : SameKey password ↔ ∀ c ∈ password, JString.Plain c := by
  rw [← JString.toByteArray_eq_iff]
  constructor
  · intro hsame
    have hkeys := (keys_eq_iff (telling password.toByteArray) 0 password (by decide)).mp
      (hsame (telling password.toByteArray) 0 1 (by decide))
    rw [key_telling, key_telling, if_pos rfl] at hkeys
    by_contra hne
    rw [if_neg (fun h => hne h.symm)] at hkeys
    exact absurd hkeys (by decide)
  · intro hbytes md port length hlength
    rw [keys_eq_iff md port password hlength, hbytes]

-- ---------------------------------------------------------------------------
-- MD5
-- ---------------------------------------------------------------------------

namespace Md5

abbrev State := Word × Word × Word × Word

def table : List Word :=
  [0xD76AA478, 0xE8C7B756, 0x242070DB, 0xC1BDCEEE, 0xF57C0FAF, 0x4787C62A, 0xA8304613, 0xFD469501,
    0x698098D8, 0x8B44F7AF, 0xFFFF5BB1, 0x895CD7BE, 0x6B901122, 0xFD987193, 0xA679438E, 0x49B40821,
    0xF61E2562, 0xC040B340, 0x265E5A51, 0xE9B6C7AA, 0xD62F105D, 0x02441453, 0xD8A1E681, 0xE7D3FBC8,
    0x21E1CDE6, 0xC33707D6, 0xF4D50D87, 0x455A14ED, 0xA9E3E905, 0xFCEFA3F8, 0x676F02D9, 0x8D2A4C8A,
    0xFFFA3942, 0x8771F681, 0x6D9D6122, 0xFDE5380C, 0xA4BEEA44, 0x4BDECFA9, 0xF6BB4B60, 0xBEBFBC70,
    0x289B7EC6, 0xEAA127FA, 0xD4EF3085, 0x04881D05, 0xD9D4D039, 0xE6DB99E5, 0x1FA27CF8, 0xC4AC5665,
    0xF4292244, 0x432AFF97, 0xAB9423A7, 0xFC93A039, 0x655B59C3, 0x8F0CCC92, 0xFFEFF47D, 0x85845DD1,
    0x6FA87E4F, 0xFE2CE6E0, 0xA3014314, 0x4E0811A1, 0xF7537E82, 0xBD3AF235, 0x2AD7D2BB, 0xEB86D391]

def shifts : List (List Nat) := [[7, 12, 17, 22], [5, 9, 14, 20], [4, 11, 16, 23], [6, 10, 15, 21]]

def leWords : List Byte → List Word
  | a :: b :: c :: d :: bytes => (d ++ c ++ b ++ a : Word) :: leWords bytes
  | _ => []

def leBytes (w : Word) : List Byte :=
  [w.setWidth 8, (w >>> 8).setWidth 8, (w >>> 16).setWidth 8, (w >>> 24).setWidth 8]

def pad (message : List Byte) : List Byte :=
  message ++ [0x80] ++ List.replicate ((119 - message.length % 64) % 64) 0 ++
    leBytes (BitVec.ofNat 32 (8 * message.length)) ++ leBytes (BitVec.ofNat 32 (8 * message.length / 2 ^ 32))

def mix (words : List Word) (s : State) (step : Word × Nat) : State :=
  let (k, i) := step
  let (a, b, c, d) := s
  let (f, g) :=
    if i < 16 then ((b &&& c) ||| (~~~b &&& d), i)
    else if i < 32 then ((d &&& b) ||| (~~~d &&& c), (5 * i + 1) % 16)
    else if i < 48 then (b ^^^ c ^^^ d, (3 * i + 5) % 16)
    else (c ^^^ (b ||| ~~~d), 7 * i % 16)
  let rotation := (shifts.getD (i / 16) []).getD (i % 4) 0
  (d, b + (f + a + k + words.getD g 0).rotateLeft rotation, b, c)

def compress (s : State) (words : List Word) : State :=
  let (a, b, c, d) := table.zipIdx.foldl (mix words) s
  (s.1 + a, s.2.1 + b, s.2.2.1 + c, s.2.2.2 + d)

def final (message : List Byte) : State :=
  let words := leWords (pad message)
  (List.range (words.length / 16)).foldl (fun s n => compress s ((words.drop (16 * n)).take 16))
    (0x67452301, 0xEFCDAB89, 0x98BADCFE, 0x10325476)

end Md5

def md5 : Md5 := fun message =>
  let (a, b, c, d) := Md5.final message
  ⟨Md5.leBytes a ++ Md5.leBytes b ++ Md5.leBytes c ++ Md5.leBytes d, rfl⟩

example : (md5 []).val = [0xD4, 0x1D, 0x8C, 0xD9, 0x8F, 0x00, 0xB2, 0x04, 0xE9, 0x80, 0x09, 0x98,
    0xEC, 0xF8, 0x42, 0x7E] := by decide +kernel

/-- A password of one character beyond the first plane, and one with a zero. -/
theorem keys_differ :
    (∃ key key', init md5 [0xD83D, 0xDE00] 32 = .ok key ∧
      serverKey md5 8388 [0xD83D, 0xDE00] 32 = some key' ∧ key ≠ key') ∧
    ∃ key key', init md5 [0] 32 = .ok key ∧ serverKey md5 8388 [0] 32 = some key' ∧ key ≠ key' := by
  refine ⟨⟨_, _, init_ok md5 _ (by decide), serverKey_eq md5 _ _ (by decide), ?_⟩,
    _, _, init_ok md5 _ (by decide), serverKey_eq md5 _ _ (by decide), ?_⟩
  · decide +kernel
  · decide +kernel

end SmartSocks.Ssserver
