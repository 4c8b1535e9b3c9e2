import SmartSocks.Tunnel.Socks5Tunnel

/-!
# Decryption and the segmentation of the stream

A tunnel receives `IV ++ E(plaintext)` in whatever chunks TCP delivers, with
calls of `encrypt` on the same cipher object in between. The plaintext comes
back exactly when the first chunk holds the whole IV (`intact_iff`): a shorter
one throws after `_decryptIVSet` has been set, and no later chunk can be
decrypted. The server's `stream_decrypt` keeps a part of the IV for later.
-/

namespace SmartSocks.Crypto

open Jvm Tunnel

variable {β σ : Type} [Inhabited β]

/-- One call on the cipher object of a tunnel. -/
inductive Call (β : Type)
  | encrypt (iv : IV β) (data : List β)
  | receive (chunk : List β)

/-- The chunks of the received stream, in order. -/
def chunks : List (Call β) → List (List β)
  | [] => []
  | .encrypt _ _ :: calls => chunks calls
  | .receive chunk :: calls => chunk :: chunks calls

/-- `afterReceived` on a buffer that holds the chunk. -/
def receive (C : StreamCipher β σ) (c : CryptBase β σ) (chunk : List β) :
    Except Throwable (List β) × CryptBase β σ :=
  let r := (Socks5Tunnel.afterReceived C (.wrap (.ofList default chunk))).exec c
  (r.1.map ByteBuffer.left, r.2)

/-- What the calls of `afterReceived` give, in order. -/
def received (C : StreamCipher β σ) : CryptBase β σ → List (Call β) → List (Except Throwable (List β))
  | _, [] => []
  | c, .encrypt iv data :: calls => received C ((CryptBase.encrypt C iv data).exec c).2 calls
  | c, .receive chunk :: calls => (receive C c chunk).1 :: received C (receive C c chunk).2 calls

/-- A chunk that throws leaves the cipher object as it was. -/
def ThrowsKeepState (C : StreamCipher β σ) : CryptBase β σ → List (Call β) → Prop
  | _, [] => True
  | c, .encrypt iv data :: calls => ThrowsKeepState C ((CryptBase.encrypt C iv data).exec c).2 calls
  | c, .receive chunk :: calls =>
    (∀ e, (receive C c chunk).1 = .error e → (receive C c chunk).2 = c) ∧
      ThrowsKeepState C (receive C c chunk).2 calls

structure Intact (C : StreamCipher β σ) (plaintext : List β) (c : CryptBase β σ)
    (calls : List (Call β)) : Prop where
  outputs : ∃ outs : List (List β),
    received C c calls = outs.map .ok ∧ outs.flatten = plaintext
  throws : ThrowsKeepState C c calls

-- ---------------------------------------------------------------------------
-- One chunk
-- ---------------------------------------------------------------------------

theorem left_wrap_ofList (chunk : List β) :
    (ByteBuffer.wrap (Bytes.ofList default chunk)).left = chunk := by
  refine List.ext_getElem (by simp [ByteBuffer.remaining, ByteBuffer.wrap, Bytes.ofList]) ?_
  intro k hk hk'
  simp [ByteBuffer.left, Bytes.getElem_slice, ByteBuffer.wrap, Bytes.ofList, hk']

theorem receive_ok {C : StreamCipher β σ} {c c' : CryptBase β σ} {chunk out : List β}
    (h : (CryptBase.decrypt C chunk).exec c = (.ok out, c')) (hl : out.length ≤ chunk.length) :
    receive C c chunk = (.ok out, c') := by
  rw [← left_wrap_ofList chunk] at h
  obtain ⟨b, hb, hleft, -, -⟩ := Socks5Tunnel.exec_recode_ok rfl h hl
  simp only [receive, Socks5Tunnel.afterReceived, hb, Except.map, hleft]

theorem receive_error {C : StreamCipher β σ} {c c' : CryptBase β σ} {chunk : List β} {e : Throwable}
    (h : (CryptBase.decrypt C chunk).exec c = (.error e, c')) :
    receive C c chunk = (.error e, c') := by
  have hp : (ByteBuffer.wrap (Bytes.ofList default chunk)).position = 0 := rfl
  rw [← left_wrap_ofList chunk] at h
  simp only [receive, Socks5Tunnel.afterReceived, Socks5Tunnel.exec_recode hp, h, Except.map]

theorem receive_first {C : StreamCipher β σ} {c : CryptBase β σ} (chunk : List β)
    (h : c.decryptIVSet = false) (hl : getIVLength ≤ chunk.length) :
    ∃ c', receive C c chunk =
        (.ok (C.decrypting.output (C.init (chunk.take getIVLength)) (chunk.drop getIVLength)), c') ∧
      c'.decryptIVSet = true ∧
      c'.decCipher = some
        (C.decrypting.next (C.init (chunk.take getIVLength)) (chunk.drop getIVLength)) := by
  refine ⟨_, receive_ok (CryptBase.exec_decrypt_first h hl) (by simp), rfl, rfl⟩

theorem receive_next {C : StreamCipher β σ} {c : CryptBase β σ} {s : σ} (chunk : List β)
    (h : c.decryptIVSet = true) (hs : c.decCipher = some s) :
    ∃ c', receive C c chunk = (.ok (C.decrypting.output s chunk), c') ∧
      c'.decryptIVSet = true ∧ c'.decCipher = some (C.decrypting.next s chunk) := by
  refine ⟨_, receive_ok (CryptBase.exec_decrypt_next h hs) (by simp), h, rfl⟩

-- ---------------------------------------------------------------------------
-- All chunks
-- ---------------------------------------------------------------------------

/-- Once the cipher has started, each chunk continues it. -/
theorem received_running {C : StreamCipher β σ} {c : CryptBase β σ} {s : σ} (calls : List (Call β))
    (h : c.decryptIVSet = true) (hs : c.decCipher = some s) :
    received C c calls = (C.decrypting.outputs s (chunks calls)).map .ok ∧
      ThrowsKeepState C c calls := by
  induction calls generalizing c s with
  | nil => exact ⟨rfl, trivial⟩
  | cons call calls ih =>
    cases call with
    | encrypt iv data =>
      obtain ⟨hset, hdec⟩ := CryptBase.decryptIVSet_encrypt C iv data c
      exact ih (hset.trans h) (hdec.trans hs)
    | receive chunk =>
      obtain ⟨c', hr, hset, hdec⟩ := receive_next (C := C) chunk h hs
      obtain ⟨hout, hthrow⟩ := ih hset hdec
      simp only [received, ThrowsKeepState, chunks, Transducer.outputs, hr, hout, List.map_cons]
      refine ⟨trivial, fun e he => ?_, hthrow⟩
      cases he

/-- Before the first chunk only `encrypt` has run, which does not touch the
decrypting side. -/
theorem received_fresh {C : StreamCipher β σ} {c : CryptBase β σ} {calls : List (Call β)}
    {first : List β} {rest : List (List β)} (h : c.decryptIVSet = false)
    (hc : chunks calls = first :: rest) (hl : getIVLength ≤ first.length) :
    received C c calls =
        (C.decrypting.output (C.init (first.take getIVLength)) (first.drop getIVLength) ::
          C.decrypting.outputs
            (C.decrypting.next (C.init (first.take getIVLength)) (first.drop getIVLength)) rest).map
          .ok ∧
      ThrowsKeepState C c calls := by
  induction calls generalizing c with
  | nil => simp [chunks] at hc
  | cons call calls ih =>
    cases call with
    | encrypt iv data =>
      obtain ⟨hset, -⟩ := CryptBase.decryptIVSet_encrypt C iv data c
      exact ih (hset.trans h) hc
    | receive chunk =>
      obtain ⟨rfl, rfl⟩ := List.cons.inj hc
      obtain ⟨c', hr, hset, hdec⟩ := receive_first (C := C) chunk h hl
      obtain ⟨hout, hthrow⟩ := received_running (C := C) calls hset hdec
      simp only [received, ThrowsKeepState, hr, hout, List.map_cons]
      refine ⟨trivial, fun e he => ?_, hthrow⟩
      cases he

/-- A first chunk without the whole IV throws. -/
theorem received_short {C : StreamCipher β σ} {c : CryptBase β σ} {calls : List (Call β)}
    {first : List β} {rest : List (List β)} (h : c.decryptIVSet = false)
    (hc : chunks calls = first :: rest) (hl : first.length < getIVLength) :
    ∃ e, .error e ∈ received C c calls := by
  induction calls generalizing c with
  | nil => simp [chunks] at hc
  | cons call calls ih =>
    cases call with
    | encrypt iv data =>
      obtain ⟨hset, -⟩ := CryptBase.decryptIVSet_encrypt C iv data c
      exact ih (hset.trans h) hc
    | receive chunk =>
      obtain ⟨rfl, rfl⟩ := List.cons.inj hc
      have hr := receive_error (CryptBase.exec_decrypt_short (C := C) h hl)
      exact ⟨_, by simp only [received, hr]; exact List.mem_cons_self⟩

/-- The stream decrypts to the plaintext exactly when the IV arrives in one
piece. -/
theorem intact_iff {C : StreamCipher β σ} (hC : C.decrypting.Inverts C.encrypting) (iv : IV β)
    (plaintext : List β) (calls : List (Call β))
    (hsplit : (chunks calls).flatten = iv.val ++ C.encrypting.output (C.init iv.val) plaintext) :
    Intact C plaintext {} calls ↔
      ∀ first, (chunks calls).head? = some first → getIVLength ≤ first.length := by
  cases hc : chunks calls with
  | nil =>
    have hlen := congrArg List.length hsplit
    simp only [hc, List.flatten_nil, List.length_nil, List.length_append, iv.property] at hlen
    exact absurd hlen.symm (by simp [getIVLength])
  | cons first rest =>
    simp only [List.head?_cons, Option.some.injEq, forall_eq']
    constructor
    · intro h
      by_contra hl
      obtain ⟨outs, houts, -⟩ := h.outputs
      obtain ⟨e, he⟩ := received_short (C := C) (c := {}) rfl hc (Nat.not_le.mp hl)
      rw [houts] at he
      simp at he
    · intro hl
      obtain ⟨hout, hthrow⟩ := received_fresh (C := C) (c := {}) rfl hc hl
      refine ⟨⟨_, hout, ?_⟩, hthrow⟩
      rw [hc, List.flatten_cons] at hsplit
      -- the first chunk is the IV and the start of the ciphertext
      have hiv : first.take getIVLength = iv.val := by
        have := congrArg (List.take getIVLength) hsplit
        rwa [List.take_append_of_le_length hl, List.take_left' iv.property] at this
      have hbody : first.drop getIVLength ++ rest.flatten =
          C.encrypting.output (C.init iv.val) plaintext := by
        have := congrArg (List.drop getIVLength) hsplit
        rwa [List.drop_append_of_le_length hl, List.drop_left' iv.property] at this
      rw [List.flatten_cons, Transducer.flatten_outputs, ← Transducer.output_append, hiv, hbody]
      exact hC.output _ _

-- ---------------------------------------------------------------------------
-- One stream, cut in two ways
-- ---------------------------------------------------------------------------

/-- Cipher feedback with a one-byte block: each ciphertext byte is the next
register. -/
def feedback : StreamCipher Byte Byte where
  init iv := iv.foldl (· ^^^ ·) 0
  encrypting := ⟨fun register b => (b ^^^ (register + 1), b ^^^ (register + 1))⟩
  decrypting := ⟨fun register b => (b, b ^^^ (register + 1))⟩

theorem feedback_inverts : feedback.decrypting.Inverts feedback.encrypting := by
  intro register b
  have hback : b ^^^ (register + 1) ^^^ (register + 1) = b := by
    rw [BitVec.xor_assoc, BitVec.xor_self, BitVec.xor_zero]
  exact Prod.ext rfl hback

def sampleIV : IV Byte := ⟨List.replicate getIVLength 0x5A, rfl⟩

/-- The sample IV and the ciphertext of two bytes. -/
def sampleStream : List Byte :=
  sampleIV.val ++ feedback.encrypting.output (feedback.init sampleIV.val) [0x01, 0x02]

/-- The IV with the first byte, and the second byte behind a call of `encrypt`. -/
def samplePieces : List (Call Byte) :=
  [.receive (sampleStream.take 17), .encrypt sampleIV [0x07, 0x08], .receive (sampleStream.drop 17)]

theorem intact_pieces : Intact feedback [0x01, 0x02] {} samplePieces :=
  (intact_iff feedback_inverts sampleIV [0x01, 0x02] samplePieces (by decide)).mpr (by decide)

/-- The same stream with its first byte in a segment of its own. -/
theorem not_intact_of_short_first :
    ¬ ∀ (iv : IV Byte) (plaintext : List Byte) (calls : List (Call Byte)),
      (chunks calls).flatten =
          iv.val ++ feedback.encrypting.output (feedback.init iv.val) plaintext →
        (∀ chunk ∈ chunks calls, chunk ≠ []) → Intact feedback plaintext {} calls := by
  intro h
  have hi := h sampleIV [0x01, 0x02]
    [.receive (sampleStream.take 1), .receive (sampleStream.drop 1)] (by decide) (by decide)
  obtain ⟨outs, houts, -⟩ := hi.outputs
  have he : received feedback {} [.receive (sampleStream.take 1), .receive (sampleStream.drop 1)] =
      [.error .arrayIndexOutOfBounds, .error .nullPointer] := by rfl
  rw [he] at houts
  cases outs with
  | nil => simp at houts
  | cons out outs => simp at houts

end SmartSocks.Crypto
