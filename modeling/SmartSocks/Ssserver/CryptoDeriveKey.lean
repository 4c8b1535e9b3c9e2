import SmartSocks.Crypto.ShadowSocksKey

/-!
# `crypto_derive_key`

The server's key is what the rounds of MD5 give, as far as there is room for it
(`take_crypto_derive_key`).
-/

namespace SmartSocks.Ssserver

open Jvm Crypto

/-- The `strlen` bytes before the zero. -/
def cString (memory : List Byte) : List Byte := memory.takeWhile (· ≠ 0)

/-- The inner loop: `j` runs on until the key is full. -/
def copyDigest (key_len : Nat) : List Byte → Nat → List Byte → Nat × List Byte
  | [], j, key => (j, key)
  | b :: md_buf, j, key =>
    if j ≥ key_len then (j, key) else copyDigest key_len md_buf (j + 1) (key.set j b)

theorem lt_copyDigest {key_len j : Nat} {md_buf key : List Byte} (hj : j < key_len) (hbuf : md_buf ≠ []) :
    j < (copyDigest key_len md_buf j key).1 := by
  have hle (md_buf : List Byte) (j : Nat) (key : List Byte) : j ≤ (copyDigest key_len md_buf j key).1 := by
    induction md_buf generalizing j key with
    | nil => exact Nat.le_refl j
    | cons b md_buf ih =>
      unfold copyDigest
      split
      · exact Nat.le_refl j
      · exact (Nat.le_succ j).trans (ih (j + 1) _)
  cases md_buf with
  | nil => exact absurd rfl hbuf
  | cons b md_buf =>
    rw [copyDigest, if_neg (by omega)]
    exact hle md_buf (j + 1) _

/-- The outer loop. The digest is updated with `md_buf` from the second round on,
and with the password. -/
def deriveLoop (md : Md5) (pass : List Byte) (key_len j addmd : Nat) (md_buf key : List Byte) : List Byte :=
  if h : j < key_len then
    let digest := md ((if addmd ≠ 0 then md_buf else []) ++ pass)
    deriveLoop md pass key_len (copyDigest key_len digest.val j key).1 (addmd + 1) digest.val
      (copyDigest key_len digest.val j key).2
  else key
termination_by key_len - j
decreasing_by
  have hbuf : digest.val ≠ [] := by
    refine List.ne_nil_of_length_pos ?_
    rw [digest.2]
    decide
  exact Nat.sub_lt_sub_left h (lt_copyDigest h hbuf)

/-- What `key` holds afterwards. -/
def crypto_derive_key (md : Md5) (pass key : List Byte) (key_len : Nat) : List Byte :=
  deriveLoop md pass key_len 0 0 [] key

def MAX_KEY_LENGTH : Nat := 64

section
variable {md : Md5} {pass : List Byte} {key_len : Nat}

/-- What the inner loop has copied. -/
theorem copyDigest_spec (md_buf key : List Byte) {j : Nat} (hj : j ≤ key_len) (hkey : key_len ≤ key.length) :
    (copyDigest key_len md_buf j key).1 = min (j + md_buf.length) key_len ∧
      (copyDigest key_len md_buf j key).2.length = key.length ∧
      (copyDigest key_len md_buf j key).2.take (copyDigest key_len md_buf j key).1 =
        key.take j ++ md_buf.take (key_len - j) := by
  induction md_buf generalizing j key with
  | nil => simp [copyDigest, hj]
  | cons b md_buf ih =>
    unfold copyDigest
    by_cases hfull : j ≥ key_len
    · obtain rfl : j = key_len := by omega
      simp
    · rw [if_neg hfull]
      obtain ⟨hindex, hlength, htake⟩ := ih (key.set j b) (j := j + 1) (by omega) (by simpa using hkey)
      refine ⟨?_, ?_, ?_⟩
      · rw [hindex, List.length_cons]
        omega
      · rw [hlength, List.length_set]
      · have hset : (key.set j b).take (j + 1) = key.take j ++ [b] := by
          rw [List.take_succ_eq_append_getElem (by simp; omega), List.take_set_of_le (Nat.le_refl j)]
          simp
        have hcount : key_len - j = key_len - (j + 1) + 1 := by omega
        rw [htake, hset, hcount, List.take_succ_cons, List.append_assoc, List.singleton_append]

open ShadowSocksKey IteratedHash in
theorem deriveLoop_spec (md : Md5) (pass : List Byte) (n : Nat) {md_buf key : List Byte} (hkey : key_len ≤ key.length)
    (hbuf : n ≠ 0 → md_buf = block (hashOf md) pass (n - 1))
    (htake : key.take (min (n * 16) key_len) = (stretch (hashOf md) pass n).take key_len) :
    (deriveLoop md pass key_len (min (n * 16) key_len) n md_buf key).take key_len =
      IteratedHash.key (hashOf md) pass key_len := by
  induction hm : key_len - n * 16 using Nat.strong_induction_on generalizing n md_buf key with
  | _ m ih =>
    unfold deriveLoop
    by_cases hlt : min (n * 16) key_len < key_len
    · have hmin : min (n * 16) key_len = n * 16 := by omega
      have hdigest : (md ((if n ≠ 0 then md_buf else []) ++ pass)).val = block (hashOf md) pass n := by
        cases n with
        | zero => rfl
        | succ n =>
          rw [if_pos (Nat.succ_ne_zero n), hbuf (Nat.succ_ne_zero n)]
          rfl
      have hlength : (block (hashOf md) pass n).length = 16 := length_block length_hashOf n
      rw [dif_pos hlt]
      simp only [hdigest, hmin] at htake ⊢
      obtain ⟨hindex, hsize, hcopied⟩ := copyDigest_spec (block (hashOf md) pass n) key
        (j := n * 16) (by omega) hkey
      have hnext : (copyDigest key_len (block (hashOf md) pass n) (n * 16) key).1 =
          min ((n + 1) * 16) key_len := by
        rw [hindex, hlength]
        congr 1
        omega
      rw [hnext]
      refine ih (key_len - (n + 1) * 16) (by omega) (n + 1) (by omega) (fun _ => rfl) ?_ rfl
      rw [← hnext, hcopied, htake, stretch_succ, List.take_append, length_stretch length_hashOf]
    · have hmin : min (n * 16) key_len = key_len := by omega
      rw [dif_neg hlt, ← key_eq length_hashOf (by decide) (n := n) (by omega), ← htake, hmin]

/-- A key that fits into the buffer is derived as a whole. -/
theorem take_crypto_derive_key (md : Md5) (pass : List Byte) (hlength : key_len ≤ MAX_KEY_LENGTH) :
    (crypto_derive_key md pass (List.replicate MAX_KEY_LENGTH 0) key_len).take key_len =
      IteratedHash.key (ShadowSocksKey.hashOf md) pass key_len := by
  have hbuffer : key_len ≤ (List.replicate MAX_KEY_LENGTH (0 : Byte)).length := by
    simpa using hlength
  have hfresh : 0 ≠ 0 → [] = IteratedHash.block (ShadowSocksKey.hashOf md) pass (0 - 1) :=
    fun h => absurd rfl h
  have hderive := deriveLoop_spec md pass 0 hbuffer hfresh (by simp)
  rw [Nat.zero_mul, Nat.zero_min] at hderive
  rw [crypto_derive_key, hderive]

end

end SmartSocks.Ssserver
