import SmartSocks.Jvm.Utf8
import SmartSocks.Library.IteratedHash

/-!
# `ShadowSocksKey`

The key of the client. MD5 is a parameter; the loop fills a buffer of 32 bytes
with digests, and a shorter key is copied from its beginning.
-/

namespace SmartSocks.Crypto

open Jvm

/-- A digest of MD5. -/
abbrev Digest := { bytes : List Byte // bytes.length = 16 }

abbrev Md5 := List Byte → Digest

namespace ShadowSocksKey

def KEY_LENGTH : Nat := 32

/-- `System.arraycopy(src, 0, dest, destPos, src.size)` -/
def arraycopy (src dest : List Byte) (destPos : Nat) : Except Throwable (List Byte) :=
  if destPos + src.length ≤ dest.length then
    .ok (dest.take destPos ++ src ++ dest.drop (destPos + src.length))
  else .error .arrayIndexOutOfBounds

/-- The digest of a round, and `temp`; `last` is `null` in the first one. -/
def round (md : Md5) (passwordBytes : List Byte) (i : Nat) (last : Option (Digest × List Byte)) :
    Except Throwable (Digest × List Byte) :=
  if i = 0 then
    let hash := md passwordBytes
    .ok (hash, List.replicate (passwordBytes.length + hash.val.length) 0)
  else
    match last with
    | none => .error .nullPointer
    | some (hash, temp) => do
      let temp ← arraycopy hash.val temp 0
      let temp ← arraycopy passwordBytes temp hash.val.length
      return (md temp, temp)

def loop (md : Md5) (passwordBytes : List Byte) (i : Nat) (keys : List Byte)
    (last : Option (Digest × List Byte)) : Except Throwable (List Byte) :=
  if i < KEY_LENGTH then do
    let (hash, temp) ← round md passwordBytes i last
    let keys ← arraycopy hash.val keys i
    loop md passwordBytes (i + hash.val.length) keys (some (hash, temp))
  else .ok keys
termination_by KEY_LENGTH - i
decreasing_by
  have := hash.2
  omega

/-- `System.arraycopy(keys, 0, keysl, 0, length)` into a fresh array. -/
def shorten (keys : List Byte) (length : Nat) : Except Throwable (List Byte) :=
  if length ≤ keys.length then .ok (keys.take length) else .error .arrayIndexOutOfBounds

def init (md : Md5) (password : JString) (length : Nat) : Except Throwable (List Byte) := do
  let keys ← loop md password.toByteArray 0 (List.replicate KEY_LENGTH 0) none
  if length ≠ KEY_LENGTH then shorten keys length else return keys

-- ---------------------------------------------------------------------------
-- The digests in the buffer
-- ---------------------------------------------------------------------------

section
variable {md : Md5} {passwordBytes : List Byte}

/-- MD5 on the bytes. -/
def hashOf (md : Md5) (message : List Byte) : List Byte := (md message).val

theorem length_hashOf (message : List Byte) : (hashOf md message).length = 16 := (md message).2

theorem arraycopy_ok {src dest rest : List Byte} {destPos : Nat} (hdest : dest.length = destPos)
    (hrest : src.length ≤ rest.length) :
    arraycopy src (dest ++ rest) destPos = .ok (dest ++ src ++ rest.drop src.length) := by
  subst hdest
  unfold arraycopy
  rw [if_pos (by simpa using hrest), List.take_left, List.drop_length_add_append]

/-- What is remembered of the round before. -/
def Remembers (md : Md5) (passwordBytes : List Byte) (n : Nat) (last : Option (Digest × List Byte)) : Prop :=
  n ≠ 0 → ∃ hash temp, last = some (hash, temp) ∧
    hash.val = IteratedHash.block (hashOf md) passwordBytes (n - 1) ∧
      temp.length = passwordBytes.length + 16

theorem round_ok {n : Nat} {last : Option (Digest × List Byte)} (hlast : Remembers md passwordBytes n last) :
    ∃ hash temp, round md passwordBytes (n * 16) last = .ok (hash, temp) ∧
      hash.val = IteratedHash.block (hashOf md) passwordBytes n ∧
      Remembers md passwordBytes (n + 1) (some (hash, temp)) := by
  cases n with
  | zero =>
    refine ⟨md passwordBytes, _, rfl, rfl, fun _ => ⟨_, _, rfl, rfl, ?_⟩⟩
    simp [(md passwordBytes).2]
  | succ n =>
    obtain ⟨hash, temp, rfl, hhash, htemp⟩ := hlast (Nat.succ_ne_zero n)
    have hlength : hash.val.length = 16 := hash.2
    have hfirst : arraycopy hash.val temp 0 = .ok (hash.val ++ temp.drop 16) := by
      have h : arraycopy hash.val ([] ++ temp) 0 = .ok ([] ++ hash.val ++ temp.drop hash.val.length) :=
        arraycopy_ok rfl (by omega)
      rwa [hlength] at h
    have hsecond : arraycopy passwordBytes (hash.val ++ temp.drop 16) hash.val.length =
        .ok (hash.val ++ passwordBytes) := by
      have hdrop : (temp.drop 16).length = passwordBytes.length := by
        rw [List.length_drop]
        omega
      rw [arraycopy_ok rfl (le_of_eq hdrop.symm), List.drop_of_length_le (le_of_eq hdrop),
        List.append_nil]
    refine ⟨md (hash.val ++ passwordBytes), hash.val ++ passwordBytes, ?_, ?_, fun _ => ⟨_, _, rfl, ?_, ?_⟩⟩
    · unfold round
      rw [if_neg (by omega)]
      simp only [hfirst, ok_bind, hsecond]
      rfl
    · rw [hhash]
      rfl
    · rw [hhash]
      rfl
    · rw [List.length_append, hlength, Nat.add_comm]

theorem loop_ok (md : Md5) (passwordBytes : List Byte) (n : Nat) (hn : n ≤ 2) {last : Option (Digest × List Byte)}
    (hlast : Remembers md passwordBytes n last) :
    loop md passwordBytes (n * 16) (IteratedHash.stretch (hashOf md) passwordBytes n ++
      List.replicate (KEY_LENGTH - n * 16) 0) last =
        .ok (IteratedHash.stretch (hashOf md) passwordBytes 2) := by
  induction hm : 2 - n generalizing n last with
  | zero =>
    obtain rfl : n = 2 := by omega
    rw [loop, if_neg (by decide)]
    simp [KEY_LENGTH]
  | succ m ih =>
    obtain ⟨hash, temp, hround, hhash, hlast'⟩ := round_ok hlast
    have hlength : hash.val.length = 16 := hash.2
    have hcopy : arraycopy hash.val (IteratedHash.stretch (hashOf md) passwordBytes n ++
        List.replicate (KEY_LENGTH - n * 16) 0) (n * 16) =
        .ok (IteratedHash.stretch (hashOf md) passwordBytes (n + 1) ++
          List.replicate (KEY_LENGTH - (n + 1) * 16) 0) := by
      rw [arraycopy_ok (IteratedHash.length_stretch length_hashOf n), IteratedHash.stretch_succ, hhash,
        List.drop_replicate, ← hhash, hlength]
      · congr 3
        omega
      · simp only [List.length_replicate, hlength, KEY_LENGTH]
        omega
    have hnext : n * 16 + 16 = (n + 1) * 16 := by omega
    have hlt : n * 16 < KEY_LENGTH := by
      simp only [KEY_LENGTH]
      omega
    rw [loop, if_pos hlt, hround]
    simp only [ok_bind, hcopy, hlength, hnext]
    exact ih (n + 1) (by omega) hlast' (by omega)

/-- The key of the client. -/
theorem init_ok (md : Md5) (password : JString) {length : Nat} (hlength : length ≤ KEY_LENGTH) :
    init md password length = .ok (IteratedHash.key (hashOf md) password.toByteArray length) := by
  have hfresh : Remembers md password.toByteArray 0 none := fun h => absurd rfl h
  have hloop := loop_ok md password.toByteArray 0 (by decide) hfresh
  have hbuffer : (IteratedHash.stretch (hashOf md) password.toByteArray 2).length = KEY_LENGTH :=
    IteratedHash.length_stretch length_hashOf 2
  have hkey : (IteratedHash.stretch (hashOf md) password.toByteArray 2).take length =
      IteratedHash.key (hashOf md) password.toByteArray length :=
    IteratedHash.key_eq length_hashOf (by decide) hlength
  simp only [Nat.zero_mul, IteratedHash.stretch_zero, List.nil_append, Nat.sub_zero] at hloop
  unfold init
  rw [hloop, ok_bind, ← hkey]
  by_cases hfull : length = KEY_LENGTH
  · rw [if_neg (not_not.mpr hfull), hfull, ← hbuffer, List.take_length]
    rfl
  · rw [if_pos hfull, shorten, if_pos (hlength.trans_eq hbuffer.symm)]

end

end ShadowSocksKey

end SmartSocks.Crypto
