import SmartSocks.Crypto.Segmentation

/-!
# The IV is emitted once

Calls of `encrypt` on one cipher object, with calls of `decrypt` in between.
What the calls of `encrypt` return is one stream: the IV that the first of them
draws, and behind it the encryption of everything they were given
(`emitted_fresh`). The IVs that later calls could draw play no part.
-/

namespace SmartSocks.Crypto

open Jvm Tunnel

variable {β σ : Type} [Inhabited β]

omit [Inhabited β] in
/-- What was given to `encrypt`, in order. -/
def inputs : List (Call β) → List (List β)
  | [] => []
  | .encrypt _ data :: calls => data :: inputs calls
  | .receive _ :: calls => inputs calls

omit [Inhabited β] in
/-- The IV of the first call of `encrypt`. -/
def firstIV : List (Call β) → Option (IV β)
  | [] => none
  | .encrypt iv _ :: _ => some iv
  | .receive _ :: calls => firstIV calls

/-- The cipher object after one call. -/
def perform (C : StreamCipher β σ) (c : CryptBase β σ) : Call β → CryptBase β σ
  | .encrypt iv data => ((CryptBase.encrypt C iv data).exec c).2
  | .receive chunk => (receive C c chunk).2

/-- The cipher object after some calls. -/
def performed (C : StreamCipher β σ) (c : CryptBase β σ) (calls : List (Call β)) : CryptBase β σ :=
  calls.foldl (perform C) c

/-- What the calls of `encrypt` return, in order. -/
def emitted (C : StreamCipher β σ) : CryptBase β σ → List (Call β) → List (Except Throwable (List β))
  | _, [] => []
  | c, .encrypt iv data :: calls =>
    ((CryptBase.encrypt C iv data).exec c).1 :: emitted C (perform C c (.encrypt iv data)) calls
  | c, .receive chunk :: calls => emitted C (perform C c (.receive chunk)) calls

omit [Inhabited β] in
/-- One IV, and the encryption of all inputs behind it. -/
def ivStream (C : StreamCipher β σ) (calls : List (Call β)) : List β :=
  match firstIV calls with
  | none => []
  | some iv => iv.val ++ C.encrypting.output (C.init iv.val) (inputs calls).flatten

-- ---------------------------------------------------------------------------
-- One call
-- ---------------------------------------------------------------------------

section
variable {C : StreamCipher β σ} {c : CryptBase β σ}

theorem receive_state (C : StreamCipher β σ) (c : CryptBase β σ) (chunk : List β) :
    (receive C c chunk).2 = ((CryptBase.decrypt C chunk).exec c).2 := by
  rcases CryptBase.decrypt_cases C chunk c with ⟨out, c', h, hl⟩ | ⟨e, c', h, -⟩
  · rw [receive_ok h hl, h]
  · rw [receive_error h, h]

/-- `decrypt` does not touch the encrypting side. -/
theorem encryptIVSet_receive (C : StreamCipher β σ) (c : CryptBase β σ) (chunk : List β) :
    (receive C c chunk).2.encryptIVSet = c.encryptIVSet ∧
      (receive C c chunk).2.encCipher = c.encCipher := by
  have h := CryptBase.exec_decrypt C chunk c
  rw [receive_state]
  rcases hr : (CryptBase.decrypt C chunk).exec c with ⟨r, c'⟩
  rw [hr] at h
  cases h <;> exact ⟨rfl, rfl⟩

-- ---------------------------------------------------------------------------
-- All calls
-- ---------------------------------------------------------------------------

/-- Once the cipher has started, each call continues the stream. -/
theorem emitted_running {s : σ} (calls : List (Call β)) (h : c.encryptIVSet = true)
    (hs : c.encCipher = some s) :
    emitted C c calls = (C.encrypting.outputs s (inputs calls)).map .ok := by
  induction calls generalizing c s with
  | nil => rfl
  | cons call calls ih =>
    cases call with
    | encrypt iv data =>
      have hexec : (CryptBase.encrypt C iv data).exec c = _ := CryptBase.exec_encrypt_next iv h hs
      have hrest : emitted C (perform C c (.encrypt iv data)) calls =
          (C.encrypting.outputs (C.encrypting.next s data) (inputs calls)).map .ok := by
        simp only [perform, hexec]
        exact ih h rfl
      simp only [emitted, hexec, hrest, inputs, Transducer.outputs, List.map_cons]
    | receive chunk =>
      obtain ⟨hset, henc⟩ := encryptIVSet_receive C c chunk
      exact ih (hset.trans h) (henc.trans hs)

/-- The stream of a cipher object that has not encrypted yet. -/
theorem emitted_fresh (calls : List (Call β)) (h : c.encryptIVSet = false) :
    ∃ outs : List (List β), emitted C c calls = outs.map .ok ∧ outs.flatten = ivStream C calls := by
  induction calls generalizing c with
  | nil => exact ⟨[], rfl, rfl⟩
  | cons call calls ih =>
    cases call with
    | encrypt iv data =>
      have hexec : (CryptBase.encrypt C iv data).exec c = _ := CryptBase.exec_encrypt_first iv h
      have hrest : emitted C (perform C c (.encrypt iv data)) calls =
          (C.encrypting.outputs (C.encrypting.next (C.init iv.val) data) (inputs calls)).map .ok := by
        simp only [perform, hexec]
        exact emitted_running calls rfl rfl
      refine ⟨(iv.val ++ C.encrypting.output (C.init iv.val) data) ::
        C.encrypting.outputs (C.encrypting.next (C.init iv.val) data) (inputs calls), ?_, ?_⟩
      · simp only [emitted, hexec, hrest, List.map_cons]
      · rw [List.flatten_cons, Transducer.flatten_outputs, List.append_assoc,
          ← Transducer.output_append]
        rfl
    | receive chunk => exact ih ((encryptIVSet_receive C c chunk).1.trans h)

theorem performed_append (c : CryptBase β σ) (calls more : List (Call β)) :
    performed C c (calls ++ more) = performed C (performed C c calls) more := List.foldl_append

end

end SmartSocks.Crypto
