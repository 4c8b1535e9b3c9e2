import SmartSocks.Jvm.Throwable
import SmartSocks.Library.Transducer

/-!
# `CryptBase` over `AesCrypt`

The cipher object of a tunnel. The Bouncy Castle cipher is a parameter: for a
fixed key it is started from an IV and then turns byte after byte into one
byte, as `CFBBlockCipher.processBytes` does. The bytes are letters of any type
with a default, which is the zero byte of a fresh array.
-/

namespace SmartSocks.Crypto

open Jvm

/-- A Bouncy Castle stream cipher with its key. -/
structure StreamCipher (β σ : Type) where
  init : List β → σ
  encrypting : Transducer σ β β
  decrypting : Transducer σ β β

/-- The cipher on bytes that carry a label: it never looks at the labels. -/
def StreamCipher.labelled {β σ : Type} (C : StreamCipher β σ) (τ : Type) :
    StreamCipher (β × τ) σ where
  init iv := C.init (iv.map Prod.fst)
  encrypting := C.encrypting.labelled τ
  decrypting := C.decrypting.labelled τ

/-- `AesCrypt.getIVLength`. -/
def getIVLength : Nat := 16

/-- Bytes drawn by `SecureRandom` for an IV. -/
abbrev IV (β : Type) := { iv : List β // iv.length = getIVLength }

/-- The mutable fields of the cipher object. -/
structure CryptBase (β σ : Type) where
  encryptIVSet : Bool := false
  decryptIVSet : Bool := false
  decryptIV : Option (List β) := none
  encCipher : Option σ := none
  decCipher : Option σ := none

namespace CryptBase

variable {β σ : Type} [Inhabited β]

/-- `System.arraycopy(src, srcPos, dest, 0, length)` into a fresh array of
`length` bytes. -/
def arraycopy (src : List β) (srcPos length : Nat) : Except Throwable (List β) :=
  if srcPos + length ≤ src.length then .ok ((src.drop srcPos).take length)
  else .error .arrayIndexOutOfBounds

/-- Sets `_decryptIV`, also on the encrypting path. -/
def getCipherParameters (iv : List β) : Prog (CryptBase β σ) (List β) := do
  modify ({ · with decryptIV := some (List.replicate getIVLength default) })
  let copied ← Prog.lift (arraycopy iv 0 getIVLength)
  modify ({ · with decryptIV := some copied })
  return copied

def setIV (C : StreamCipher β σ) (iv : List β) (isEncrypt : Bool) : Prog (CryptBase β σ) Unit := do
  if getIVLength = 0 then
    return
  if isEncrypt then
    let cipherParameters ← getCipherParameters iv
    modify ({ · with encCipher := some (C.init cipherParameters) })
  else
    modify ({ · with decryptIV := some (List.replicate getIVLength default) })
    let copied ← Prog.lift (arraycopy iv 0 getIVLength)
    modify ({ · with decryptIV := some copied })
    let cipherParameters ← getCipherParameters iv
    modify ({ · with decCipher := some (C.init cipherParameters) })

/-- `_encrypt`: `encCipher.processBytes`. -/
def processEncrypt (C : StreamCipher β σ) (data : List β) : Prog (CryptBase β σ) (List β) := do
  match (← get).encCipher with
  | none => throw .nullPointer
  | some s =>
    modify ({ · with encCipher := some (C.encrypting.next s data) })
    return C.encrypting.output s data

/-- `_decrypt`: `decCipher.processBytes`. -/
def processDecrypt (C : StreamCipher β σ) (data : List β) : Prog (CryptBase β σ) (List β) := do
  match (← get).decCipher with
  | none => throw .nullPointer
  | some s =>
    modify ({ · with decCipher := some (C.decrypting.next s data) })
    return C.decrypting.output s data

/-- `encrypt`; `iv` is what `SecureRandom` would draw in this call. -/
def encrypt (C : StreamCipher β σ) (iv : IV β) (data : List β) :
    Prog (CryptBase β σ) (List β) := do
  if (← get).encryptIVSet then
    processEncrypt C data
  else
    modify ({ · with encryptIVSet := true })
    setIV C iv.val true
    let body ← processEncrypt C data
    return iv.val ++ body

/-- `new byte[data.length - _ivLength]` and the copy into it. -/
def dropIV (data : List β) : Except Throwable (List β) :=
  if data.length < getIVLength then .error .negativeArraySize
  else arraycopy data getIVLength (data.length - getIVLength)

/-- The flag is set before the step that can throw. -/
def decrypt (C : StreamCipher β σ) (data : List β) : Prog (CryptBase β σ) (List β) := do
  if (← get).decryptIVSet then
    processDecrypt C data
  else
    modify ({ · with decryptIVSet := true })
    setIV C data false
    let temp ← Prog.lift (dropIV data)
    processDecrypt C temp

-- ---------------------------------------------------------------------------
-- What each call does
-- ---------------------------------------------------------------------------

variable {C : StreamCipher β σ} {c : CryptBase β σ} {s : σ} {data : List β}

omit [Inhabited β] in
theorem arraycopy_ok {src : List β} {srcPos length : Nat} (h : srcPos + length ≤ src.length) :
    arraycopy src srcPos length = .ok ((src.drop srcPos).take length) := if_pos h

theorem exec_encrypt_first (iv : IV β) (h : c.encryptIVSet = false) :
    (encrypt C iv data).exec c =
      (.ok (iv.val ++ C.encrypting.output (C.init iv.val) data),
        { c with
          encryptIVSet := true
          decryptIV := some iv.val
          encCipher := some (C.encrypting.next (C.init iv.val) data) }) := by
  have hiv : arraycopy iv.val 0 getIVLength = .ok iv.val := by
    rw [arraycopy_ok (by simp [iv.property]), List.drop_zero]
    exact congrArg _ (List.take_of_length_le (Nat.le_of_eq iv.property))
  have hne : getIVLength ≠ 0 := by decide
  simp [encrypt, setIV, getCipherParameters, processEncrypt, Prog.exec_bind, Prog.exec_map, h, hiv, hne]

theorem exec_encrypt_next (iv : IV β) (h : c.encryptIVSet = true) (hs : c.encCipher = some s) :
    (encrypt C iv data).exec c =
      (.ok (C.encrypting.output s data),
        { c with encCipher := some (C.encrypting.next s data) }) := by
  simp [encrypt, processEncrypt, Prog.exec_bind, Prog.exec_map, h, hs]

theorem exec_decrypt_first (h : c.decryptIVSet = false) (hl : getIVLength ≤ data.length) :
    (decrypt C data).exec c =
      (.ok (C.decrypting.output (C.init (data.take getIVLength)) (data.drop getIVLength)),
        { c with
          decryptIVSet := true
          decryptIV := some (data.take getIVLength)
          decCipher := some
            (C.decrypting.next (C.init (data.take getIVLength)) (data.drop getIVLength)) }) := by
  have hiv : arraycopy data 0 getIVLength = .ok (data.take getIVLength) := by
    rw [arraycopy_ok (by omega), List.drop_zero]
  have hdrop : dropIV data = .ok (data.drop getIVLength) := by
    rw [dropIV, if_neg (by omega), arraycopy_ok (by omega), List.take_of_length_le (by simp)]
  have hne : getIVLength ≠ 0 := by decide
  simp [decrypt, setIV, getCipherParameters, processDecrypt, Prog.exec_bind, Prog.exec_map, h, hiv, hdrop, hne]

/-- A first chunk shorter than the IV throws and leaves the flag set without a
cipher. -/
theorem exec_decrypt_short (h : c.decryptIVSet = false) (hl : data.length < getIVLength) :
    (decrypt C data).exec c =
      (.error .arrayIndexOutOfBounds,
        { c with
          decryptIVSet := true
          decryptIV := some (List.replicate getIVLength default) }) := by
  have hiv : arraycopy data 0 getIVLength = .error .arrayIndexOutOfBounds := if_neg (by omega)
  have hne : getIVLength ≠ 0 := by decide
  simp [decrypt, setIV, Prog.exec_bind, h, hiv, hne]

theorem exec_decrypt_next (h : c.decryptIVSet = true) (hs : c.decCipher = some s) :
    (decrypt C data).exec c =
      (.ok (C.decrypting.output s data),
        { c with decCipher := some (C.decrypting.next s data) }) := by
  simp [decrypt, processDecrypt, Prog.exec_bind, Prog.exec_map, h, hs]

/-- Without a cipher every later chunk throws. -/
theorem exec_decrypt_broken (h : c.decryptIVSet = true) (hs : c.decCipher = none) :
    (decrypt C data).exec c = (.error .nullPointer, c) := by
  simp [decrypt, processDecrypt, Prog.exec_bind, h, hs]

/-- What `decrypt` can do to a chunk. -/
inductive Decrypted (C : StreamCipher β σ) (data : List β) (c : CryptBase β σ) :
    Except Throwable (List β) → CryptBase β σ → Prop
  | first (hset : c.decryptIVSet = false) (hlong : getIVLength ≤ data.length) :
      Decrypted C data c
        (.ok (C.decrypting.output (C.init (data.take getIVLength)) (data.drop getIVLength)))
        { c with
          decryptIVSet := true
          decryptIV := some (data.take getIVLength)
          decCipher := some
            (C.decrypting.next (C.init (data.take getIVLength)) (data.drop getIVLength)) }
  | short (hset : c.decryptIVSet = false) (hshort : data.length < getIVLength) :
      Decrypted C data c (.error .arrayIndexOutOfBounds)
        { c with
          decryptIVSet := true
          decryptIV := some (List.replicate getIVLength default) }
  | next (hset : c.decryptIVSet = true) (s : σ) (hs : c.decCipher = some s) :
      Decrypted C data c (.ok (C.decrypting.output s data))
        { c with decCipher := some (C.decrypting.next s data) }
  | broken (hset : c.decryptIVSet = true) (hs : c.decCipher = none) :
      Decrypted C data c (.error .nullPointer) c

theorem exec_decrypt (C : StreamCipher β σ) (data : List β) (c : CryptBase β σ) :
    Decrypted C data c ((decrypt C data).exec c).1 ((decrypt C data).exec c).2 := by
  cases hset : c.decryptIVSet with
  | false =>
    rcases Nat.lt_or_ge data.length getIVLength with hshort | hlong
    · rw [exec_decrypt_short hset hshort]
      exact .short hset hshort
    · rw [exec_decrypt_first hset hlong]
      exact .first hset hlong
  | true =>
    cases hs : c.decCipher with
    | none =>
      rw [exec_decrypt_broken hset hs]
      exact .broken hset hs
    | some s =>
      rw [exec_decrypt_next hset hs]
      exact .next hset s hs

/-- A chunk never grows, and what is thrown is not an `IOException`. -/
theorem decrypt_cases (C : StreamCipher β σ) (data : List β) (c : CryptBase β σ) :
    (∃ out c', (decrypt C data).exec c = (.ok out, c') ∧ out.length ≤ data.length) ∨
      ∃ e c', (decrypt C data).exec c = (.error e, c') ∧ e ≠ .io := by
  have h := exec_decrypt C data c
  rcases hr : (decrypt C data).exec c with ⟨r, c'⟩
  rw [hr] at h
  cases h with
  | first => exact .inl ⟨_, _, rfl, by simp⟩
  | short => exact .inr ⟨_, _, rfl, by simp⟩
  | next => exact .inl ⟨_, _, rfl, by simp⟩
  | broken => exact .inr ⟨_, _, rfl, by simp⟩

theorem decryptIVSet_encrypt (C : StreamCipher β σ) (iv : IV β) (data : List β)
    (c : CryptBase β σ) :
    ((encrypt C iv data).exec c).2.decryptIVSet = c.decryptIVSet ∧
      ((encrypt C iv data).exec c).2.decCipher = c.decCipher := by
  cases h : c.encryptIVSet with
  | false =>
    rw [exec_encrypt_first iv h]
    exact ⟨rfl, rfl⟩
  | true =>
    cases hs : c.encCipher with
    | some s =>
      rw [exec_encrypt_next iv h hs]
      exact ⟨rfl, rfl⟩
    | none => simp [encrypt, processEncrypt, Prog.exec_bind, h, hs]

end CryptBase

end SmartSocks.Crypto
