import SmartSocks.Crypto.CryptBase
import SmartSocks.Utils.EasyValue

/-!
# The cipher side of `Socks5Tunnel`

`Socks5Protocol.handshake`, `beforeSend` and `afterReceived`: what a remote
tunnel does to a buffer with its own cipher object. `own` turns a byte the
tunnel produces itself into a letter of the relayed stream.
-/

namespace SmartSocks.Tunnel

open Jvm Crypto

structure InetSocketAddress where
  /-- The UTF-8 bytes of the host name. -/
  hostName : List Byte
  port : Nat
  deriving DecidableEq, Repr

namespace Socks5Protocol

/-- The address header before encryption. -/
def header (dest : InetSocketAddress) : List Byte :=
  0x03 :: BitVec.ofNat 8 dest.hostName.length ::
    (dest.hostName ++ EasyValue.shortBytes (BitVec.ofNat 16 dest.port))

variable {β σ : Type} [Inhabited β]

def handshake (C : StreamCipher β σ) (own : Byte → β) (iv : IV β) (destAddress : InetSocketAddress) :
    Prog (CryptBase β σ) (ByteBuffer β) := do
  let buffer : ByteBuffer β := .allocate default 1024
  let buffer ← Prog.lift (buffer.clear.put [own 0x03])
  let domainBytes := destAddress.hostName
  let buffer ← Prog.lift (buffer.put [own (BitVec.ofNat 8 domainBytes.length)])
  let buffer ← Prog.lift (buffer.put (domainBytes.map own))
  let buffer ← Prog.lift
    (buffer.put ((EasyValue.shortBytes (BitVec.ofNat 16 destAddress.port)).map own))
  let buffer := buffer.flip
  let (header, buffer) ← Prog.lift (buffer.getBytes buffer.limit)
  let encrypted ← CryptBase.encrypt C iv header
  Prog.lift (buffer.refill encrypted)

theorem length_header (dest : InetSocketAddress) :
    (header dest).length = dest.hostName.length + 4 := by
  simp [header]

omit [Inhabited β] in
/-- The four puts of `handshake` are one put of the header. -/
theorem put_header (own : Byte → β) (dest : InetSocketAddress) (b : ByteBuffer β) :
    (do
      let b ← b.put [own 0x03]
      let b ← b.put [own (BitVec.ofNat 8 dest.hostName.length)]
      let b ← b.put (dest.hostName.map own)
      b.put ((EasyValue.shortBytes (BitVec.ofNat 16 dest.port)).map own)) =
    b.put ((header dest).map own) := by
  simp only [ByteBuffer.put_put, header, List.map_cons, List.map_append, List.cons_append,
    List.nil_append]

section
variable {C : StreamCipher β σ} {own : Byte → β} {iv : IV β} {dest : InetSocketAddress}
  {c : CryptBase β σ}

theorem handshake_eq :
    handshake C own iv dest = (do
      let b ← Prog.lift ((ByteBuffer.allocate default 1024).clear.put ((header dest).map own))
      let (header, b) ← Prog.lift (b.flip.getBytes b.flip.limit)
      let encrypted ← CryptBase.encrypt C iv header
      Prog.lift (b.refill encrypted)) := by
  simp only [handshake, ← put_header, Prog.lift_bind, bind_assoc]

omit [Inhabited β] in
theorem length_map_header : ((header dest).map own).length = dest.hostName.length + 4 := by
  rw [List.length_map, length_header]

/-- A header that fits the buffer is encrypted and put back. -/
theorem exec_handshake_fits (C : StreamCipher β σ) (own : Byte → β) (iv : IV β) (c : CryptBase β σ)
    (hfit : dest.hostName.length ≤ 1020) :
    ∃ b : ByteBuffer β, b.capacity = 1024 ∧ (handshake C own iv dest).exec c =
      (do
        let encrypted ← CryptBase.encrypt C iv ((header dest).map own)
        Prog.lift (b.refill encrypted)).exec c := by
  let b : ByteBuffer β := (ByteBuffer.allocate default 1024).clear
  have hroom : ((header dest).map own).length ≤ b.remaining := by
    rw [length_map_header]
    exact Nat.add_le_add_right hfit 4
  have hleft : (b.store ((header dest).map own)).flip.left = (header dest).map own := by
    rw [ByteBuffer.flip_left, b.store_drained hroom]
    rfl
  have hlimit : (b.store ((header dest).map own)).flip.remaining =
      (b.store ((header dest).map own)).flip.limit := ByteBuffer.remaining_eq_limit _ rfl
  have hall : ((header dest).map own).take (b.store ((header dest).map own)).flip.limit =
      (header dest).map own := by
    refine List.take_of_length_le (Nat.le_of_eq ?_)
    rw [← hlimit, ← ByteBuffer.length_left, congrArg List.length hleft]
  refine ⟨(b.store ((header dest).map own)).flip.advance
    (b.store ((header dest).map own)).flip.limit, rfl, ?_⟩
  rw [handshake_eq, Prog.exec_bind, Prog.exec_lift, b.put_ok hroom]
  dsimp only
  rw [Prog.exec_bind, Prog.exec_lift, ByteBuffer.getBytes_ok _ (Nat.le_of_eq hlimit.symm), hleft, hall]

theorem exec_handshake_overflow (C : StreamCipher β σ) (own : Byte → β) (iv : IV β)
    (c : CryptBase β σ) (hlong : 1020 < dest.hostName.length) :
    (handshake C own iv dest).exec c = (.error .bufferOverflow, c) := by
  have hover : (ByteBuffer.allocate default 1024).clear.put ((header dest).map own) =
      .error .bufferOverflow := by
    refine ByteBuffer.put_overflow _ ?_
    rw [length_map_header]
    exact Nat.add_lt_add_right hlong 4
  rw [handshake_eq, Prog.exec_bind, Prog.exec_lift, hover]

/-- The cipher object after the handshake, also after one that throws. -/
theorem handshake_state (C : StreamCipher β σ) (own : Byte → β) (iv : IV β) (dest : InetSocketAddress)
    (c : CryptBase β σ) :
    ((handshake C own iv dest).exec c).2 =
      if dest.hostName.length ≤ 1020 then ((CryptBase.encrypt C iv ((header dest).map own)).exec c).2
      else c := by
  split
  · next hfit =>
    obtain ⟨b, -, hexec⟩ := exec_handshake_fits C own iv c hfit
    rw [hexec, Prog.exec_bind]
    rcases (CryptBase.encrypt C iv ((header dest).map own)).exec c with ⟨e | out, c'⟩
    · rfl
    · exact congrArg Prod.snd (Prog.exec_lift _ _)
  · next hlong => rw [exec_handshake_overflow C own iv c (Nat.not_le.mp hlong)]

/-- A host name of at most 1004 bytes leaves room for the IV. -/
theorem exec_handshake_cases (C : StreamCipher β σ) (iv : IV β) (hset : c.encryptIVSet = false) :
    dest.hostName.length ≤ 1004 ∧ (∃ b, (handshake C own iv dest).exec c = (.ok b, { c with
        encryptIVSet := true
        decryptIV := some iv.val
        encCipher := some (C.encrypting.next (C.init iv.val) ((header dest).map own)) }) ∧
      b.left = iv.val ++ C.encrypting.output (C.init iv.val) ((header dest).map own)) ∨
    1004 < dest.hostName.length ∧
      ∃ c', (handshake C own iv dest).exec c = (.error .bufferOverflow, c') := by
  rcases Nat.lt_or_ge 1020 dest.hostName.length with hlong | hfit
  · exact .inr ⟨Nat.lt_trans (by decide) hlong, c, exec_handshake_overflow C own iv c hlong⟩
  · obtain ⟨b, hcap, hexec⟩ := exec_handshake_fits C own iv c hfit
    rw [hexec, Prog.exec_bind, CryptBase.exec_encrypt_first iv hset]
    dsimp only
    rw [Prog.exec_lift]
    have hout : (iv.val ++ C.encrypting.output (C.init iv.val) ((header dest).map own)).length =
        dest.hostName.length + 20 := by
      rw [List.length_append, iv.property, C.encrypting.length_output, length_map_header, getIVLength]
      omega
    rcases Nat.lt_or_ge 1004 dest.hostName.length with hlong | hshort
    · right
      refine ⟨hlong, _, congrArg (Prod.mk · _) (ByteBuffer.refill_overflow _ ?_)⟩
      rw [hout, hcap]
      exact Nat.add_lt_add_right hlong 20
    · left
      have hroom : (iv.val ++ C.encrypting.output (C.init iv.val) ((header dest).map own)).length ≤
          b.capacity := by
        rw [hout, hcap]
        exact Nat.add_le_add_right hshort 20
      refine ⟨hshort, _, ?_, ByteBuffer.refilled_left _ hroom⟩
      rw [ByteBuffer.refill_ok _ hroom]

end

end Socks5Protocol

namespace Socks5Tunnel

variable {β σ : Type} [Inhabited β]

/-- Takes the whole buffer, runs it through the cipher and puts the result back. -/
def recode (code : List β → Prog (CryptBase β σ) (List β)) (buffer : ByteBuffer β) :
    Prog (CryptBase β σ) (ByteBuffer β) := do
  let (bytes, buffer) ← Prog.lift (buffer.getBytes buffer.limit)
  let newbytes ← code bytes
  Prog.lift (buffer.refill newbytes)

def beforeSend (C : StreamCipher β σ) (iv : IV β) : ByteBuffer β → Prog (CryptBase β σ) (ByteBuffer β) :=
  recode (CryptBase.encrypt C iv)

def afterReceived (C : StreamCipher β σ) : ByteBuffer β → Prog (CryptBase β σ) (ByteBuffer β) :=
  recode (CryptBase.decrypt C)

variable {code : List β → Prog (CryptBase β σ) (List β)} {b : ByteBuffer β} {c : CryptBase β σ}

omit [Inhabited β] in
theorem exec_recode (hp : b.position = 0) :
    (recode code b).exec c =
      match (code b.left).exec c with
      | (.ok out, c') => ((b.advance b.limit).refill out, c')
      | (.error e, c') => (.error e, c') := by
  have hl : b.limit ≤ b.remaining := Nat.le_of_eq (b.remaining_eq_limit hp).symm
  have ht : b.left.take b.limit = b.left :=
    List.take_of_length_le (Nat.le_of_eq (b.length_left.trans (b.remaining_eq_limit hp)))
  simp only [recode, b.getBytes_ok hl, ht, Prog.lift, Prog.exec_bind, Prog.exec_pure]
  rcases (code b.left).exec c with ⟨e | out, c'⟩
  · rfl
  · exact Prog.exec_lift _ _

omit [Inhabited β] in
/-- A position behind the start makes `buffer.get(bytes)` ask for too much. -/
theorem exec_recode_underflow (hp : 0 < b.position) :
    (recode code b).exec c = (.error .bufferUnderflow, c) := by
  have hl : b.remaining < b.limit := by
    have := b.position_le
    simp only [ByteBuffer.remaining]
    omega
  simp [recode, b.getBytes_underflow hl, Prog.lift]

omit [Inhabited β] in
theorem exec_recode_ok {out : List β} {c' : CryptBase β σ} (hp : b.position = 0)
    (hc : (code b.left).exec c = (.ok out, c')) (hf : out.length ≤ b.capacity) :
    ∃ b', (recode code b).exec c = (.ok b', c') ∧ b'.left = out ∧ b'.position = 0 ∧
      b'.capacity = b.capacity := by
  refine ⟨((b.advance b.limit).clear.store out).flip, ?_, ?_, rfl, rfl⟩
  · rw [exec_recode hp, hc]
    simp only [(b.advance b.limit).refill_ok hf]
  · exact (b.advance b.limit).refilled_left hf

end Socks5Tunnel

end SmartSocks.Tunnel
