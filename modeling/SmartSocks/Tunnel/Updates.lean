import SmartSocks.Tunnel.SocketChannelTunnel

/-!
# The tunnels after an update

Each update changes one channel or the `Socks5Tunnel` of one pair, and is read
back here. The updates of channels are told apart by the field they change.
-/

namespace SmartSocks.Tunnel

open Jvm Crypto

variable {β σ : Type}

namespace TunnelId

@[simp] theorem brother_pair (id : TunnelId) : id.mBrotherTunnel.pair = id.pair := rfl

@[simp] theorem brother_brother (id : TunnelId) : id.mBrotherTunnel.mBrotherTunnel = id := by
  obtain ⟨pair, role⟩ := id
  cases role <;> rfl

theorem brother_ne (id : TunnelId) : id.mBrotherTunnel ≠ id := by
  obtain ⟨pair, role⟩ := id
  cases role <;> simp [mBrotherTunnel]

/-- A pair has no third tunnel. -/
theorem eq_or_brother {id id' : TunnelId} (h : id'.pair = id.pair) :
    id' = id ∨ id' = id.mBrotherTunnel := by
  obtain ⟨pair, role⟩ := id
  obtain ⟨pair', role'⟩ := id'
  cases h
  cases role <;> cases role' <;> simp [mBrotherTunnel]

end TunnelId

namespace Tunnels

variable (t : Tunnels β σ) (id id' : TunnelId) (pair pair' : Nat)

-- ---------------------------------------------------------------------------
-- Channels
-- ---------------------------------------------------------------------------

@[simp] theorem channel_setChannel (c : SocketChannel β) :
    (t.setChannel id c).mSocketChannel id = c := Function.update_self ..

theorem channel_setChannel_ne {id' : TunnelId} (h : id' ≠ id) (c : SocketChannel β) :
    (t.setChannel id c).mSocketChannel id' = t.mSocketChannel id' := Function.update_of_ne h ..

@[simp] theorem socks5_setChannel (c : SocketChannel β) : (t.setChannel id c).socks5 = t.socks5 := rfl

theorem channel_setKey (key : Option SelectionKey) :
    (t.setKey id key).mSocketChannel id' =
      if id' = id then { t.mSocketChannel id with key } else t.mSocketChannel id' :=
  Function.update_apply ..

theorem channel_receive (bytes : List β) :
    (t.receive id bytes).mSocketChannel id' =
      if id' = id then
        { t.mSocketChannel id with received := (t.mSocketChannel id).received ++ bytes }
      else t.mSocketChannel id' :=
  Function.update_apply ..

theorem channel_send (bytes : List β) :
    (t.send id bytes).mSocketChannel id' =
      if id' = id then { t.mSocketChannel id with sent := (t.mSocketChannel id).sent ++ bytes }
      else t.mSocketChannel id' :=
  Function.update_apply ..

theorem channel_cancel :
    (t.cancel id).mSocketChannel id' =
      if id' = id then
        { t.mSocketChannel id with key := (t.mSocketChannel id).key.map ({ · with isValid := false }) }
      else t.mSocketChannel id' :=
  Function.update_apply ..

theorem channel_close :
    (t.close id).mSocketChannel id' =
      if id' = id then
        { t.mSocketChannel id with
          isOpen := false
          key := (t.mSocketChannel id).key.map ({ · with isValid := false }) }
      else t.mSocketChannel id' := by
  by_cases h : id' = id
  · subst h
    simp only [close, channel_setChannel, channel_cancel, if_true]
  · rw [if_neg h, close, channel_setChannel_ne _ _ h, channel_cancel, if_neg h]

/-- The bytes that the channels have accepted change in `send` only. -/
theorem sent_setKey (key : Option SelectionKey) :
    ((t.setKey id key).mSocketChannel id').sent = (t.mSocketChannel id').sent := by
  rw [channel_setKey]
  split
  · next h => rw [h]
  · rfl

theorem received_setKey (key : Option SelectionKey) :
    ((t.setKey id key).mSocketChannel id').received = (t.mSocketChannel id').received := by
  rw [channel_setKey]
  split
  · next h => rw [h]
  · rfl

theorem received_close : ((t.close id).mSocketChannel id').received = (t.mSocketChannel id').received := by
  rw [channel_close]
  split
  · next h => rw [h]
  · rfl

theorem sent_receive (bytes : List β) :
    ((t.receive id bytes).mSocketChannel id').sent = (t.mSocketChannel id').sent := by
  rw [channel_receive]
  split
  · next h => rw [h]
  · rfl

theorem sent_cancel : ((t.cancel id).mSocketChannel id').sent = (t.mSocketChannel id').sent := by
  rw [channel_cancel]
  split
  · next h => rw [h]
  · rfl

theorem sent_close : ((t.close id).mSocketChannel id').sent = (t.mSocketChannel id').sent := by
  rw [channel_close]
  split
  · next h => rw [h]
  · rfl

theorem key_receive (bytes : List β) :
    ((t.receive id bytes).mSocketChannel id').key = (t.mSocketChannel id').key := by
  rw [channel_receive]
  split
  · next h => rw [h]
  · rfl

theorem send_nil : t.send id [] = t := by
  unfold send setChannel
  rw [List.append_nil, Function.update_eq_self]

theorem send_send (xs ys : List β) : (t.send id xs).send id ys = t.send id (xs ++ ys) := by
  unfold send setChannel
  simp [Function.update_idem]

-- ---------------------------------------------------------------------------
-- `Socks5Tunnel`
-- ---------------------------------------------------------------------------

@[simp] theorem channel_setSocks5 (r : Socks5 β σ) :
    (t.setSocks5 pair r).mSocketChannel = t.mSocketChannel := rfl

@[simp] theorem socks5_setSocks5 (r : Socks5 β σ) : (t.setSocks5 pair r).socks5 pair = r :=
  Function.update_self ..

theorem socks5_setSocks5_ne {pair' : Nat} (h : pair' ≠ pair) (r : Socks5 β σ) :
    (t.setSocks5 pair r).socks5 pair' = t.socks5 pair' := Function.update_of_ne h ..

theorem socks5_setCryptor (c : CryptBase β σ) :
    (t.setCryptor pair c).socks5 pair' =
      if pair' = pair then { t.socks5 pair with mCryptor := c } else t.socks5 pair' :=
  Function.update_apply ..

theorem socks5_setEstablished (established : Bool) :
    (t.setEstablished pair established).socks5 pair' =
      if pair' = pair then { t.socks5 pair with mTunnelEstablished := established }
      else t.socks5 pair' :=
  Function.update_apply ..

theorem setCryptor_self : t.setCryptor pair (t.socks5 pair).mCryptor = t := by
  unfold setCryptor setSocks5
  rw [Function.update_eq_self]

@[simp] theorem channel_dispose : (t.dispose id).mSocketChannel = t.mSocketChannel := by
  unfold dispose
  split <;> rfl

@[simp] theorem mWriteRemainingBuffer_dispose :
    (t.dispose id).mWriteRemainingBuffer = t.mWriteRemainingBuffer := by
  unfold dispose
  split <;> rfl

theorem dispose_local (h : id.mRole = .roleLocal) : t.dispose id = t := by
  simp only [dispose, h]

theorem dispose_remote (h : id.mRole = .roleRemote) :
    t.dispose id = t.setEstablished id.pair false := by
  simp only [dispose, h]

end Tunnels

end SmartSocks.Tunnel
