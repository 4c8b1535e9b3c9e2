import SmartSocks.Ssserver.RelayHeader
import SmartSocks.Ssserver.RelayRuns

/-!
# The two ends of a relayed connection

The header of a request is read from the first bytes that are decrypted, and what
comes behind them makes no difference to it (`serverRecvInit_append`). So it does
not matter how much of a request has come when it is read, and the remote gets the
payload of all bytes that were decrypted (`Sound.upstream`).
-/

namespace SmartSocks.Ssserver

open Jvm EasyValue
open Crypto.Server (CryptoT)

/-- The request with more bytes behind its payload. -/
def Request.append (more : List Byte) : Request → Request
  | .connectAddress address port payload => .connectAddress address port (payload ++ more)
  | .connect host ai_family addr port payload => .connect host ai_family addr port (payload ++ more)
  | .resolve host port payload => .resolve host port (payload ++ more)
  | .malformed report => .malformed report
  | .blocked name => .blocked name
  | .invalidHostName name => .invalidHostName name

theorem Request.payload_append (request : Request) (more : List Byte) :
    (request.append more).payload = request.payload.map (· ++ more) := by
  cases request <;> rfl

section
variable {calls : HostCalls} {out : List Byte}

theorem cell_bufferOf_append {k : Nat} (hk : k < out.length) (more : List Byte) :
    (bufferOf (out ++ more)).data.cell k = (bufferOf out).data.cell k := by
  simp only [bufferOf, Bytes.ofList, List.getD_eq_getElem?_getD, List.getElem?_append_left hk]

theorem slice_bufferOf_append {start len : Nat} (hlen : start + len ≤ out.length) (more : List Byte) :
    (bufferOf (out ++ more)).data.slice start len = (bufferOf out).data.slice start len :=
  Bytes.slice_congr _ fun _ _ hi => cell_bufferOf_append (hi.trans_le hlen) more

/-- What is behind an offset. -/
theorem slice_bufferOf_rest {n : Nat} (hn : n ≤ out.length) :
    (bufferOf out).data.slice n (out.length - n) = out.drop n := by
  have hdrop := Bytes.drop_slice (bufferOf out).data 0 hn
  rw [Nat.zero_add] at hdrop
  rw [← hdrop]
  exact congrArg (List.drop n) (slice_bufferOf out)

/-- A port that is there is read again with more bytes behind it. -/
theorem takePort_append {offset : Nat} (hoffset : offset + 2 ≤ out.length) (more : List Byte)
    {request : Short → List Byte → Request}
    (hrequest : ∀ port payload, request port (payload ++ more) = (request port payload).append more) :
    takePort (bufferOf (out ++ more)) offset request =
      (takePort (bufferOf out) offset request).append more := by
  have hlen (bytes : List Byte) : (bufferOf bytes).len = bytes.length := rfl
  have hmore : offset + 2 ≤ (out ++ more).length := by
    rw [List.length_append]
    omega
  have hport : short (bufferOf (out ++ more)).data offset = short (bufferOf out).data offset := by
    simp only [short, cell_bufferOf_append (show offset < out.length by omega) more,
      cell_bufferOf_append (show offset + 1 < out.length by omega) more]
  rw [takePort, takePort, hlen, hlen, if_neg (Nat.not_lt.mpr hmore), if_neg (Nat.not_lt.mpr hoffset),
    slice_bufferOf_rest hmore, slice_bufferOf_rest hoffset, List.drop_append_of_le_length hoffset, hport,
    hrequest]

/-- Once the header is there, it is read in the same way whatever comes behind it. -/
theorem serverRecvInit_append (hread : ∀ report, serverRecvInit calls (bufferOf out) ≠ .malformed report)
    (more : List Byte) :
    serverRecvInit calls (bufferOf (out ++ more)) =
      (serverRecvInit calls (bufferOf out)).append more := by
  have hlen (bytes : List Byte) : (bufferOf bytes).len = bytes.length := rfl
  have hle : out.length ≤ (out ++ more).length := by
    rw [List.length_append]
    omega
  have hpos : 0 < out.length := by
    rw [List.length_pos_iff]
    rintro rfl
    exact hread _ rfl
  simp only [serverRecvInit, hlen] at hread ⊢
  rw [cell_bufferOf_append hpos]
  split
  next hipv4 =>
    by_cases hroom : 4 + 3 ≤ out.length
    · rw [if_pos hroom, if_pos (hroom.trans hle), slice_bufferOf_append (by omega)]
      exact takePort_append (by omega) more fun _ _ => rfl
    · simp [hipv4, hroom] at hread
  next hipv4 =>
    split
    next hname =>
      by_cases hroom : ((bufferOf out).data.cell 1).toNat + 4 ≤ out.length
      · rw [cell_bufferOf_append (show 1 < out.length by omega), if_pos hroom, if_pos (hroom.trans hle),
          slice_bufferOf_append (by omega)]
        -- the checks of the name are the same
        split
        · rfl
        · split
          · exact takePort_append (by omega) more fun _ _ => rfl
          · split
            · rfl
            · exact takePort_append (by omega) more fun _ _ => rfl
      · simp [hname, hroom] at hread
    next hname =>
      split
      next hipv6 =>
        by_cases hroom : 16 + 3 ≤ out.length
        · rw [if_pos hroom, if_pos (hroom.trans hle), slice_bufferOf_append (by omega)]
          exact takePort_append (by omega) more fun _ _ => rfl
        · simp [hipv6, hroom] at hread
      next => rfl

end

namespace TcpRelay

variable {κ γ : Type} {C : CryptoT κ γ} {T : Observer C} {calls : HostCalls} {st : Relay κ γ}

theorem payloadOf_append {out payload : List Byte} (h : payloadOf calls out = some payload)
    (more : List Byte) : payloadOf calls (out ++ more) = some (payload ++ more) := by
  have hread (report : String) : serverRecvInit calls (bufferOf out) ≠ .malformed report := by
    intro hmalformed
    rw [payloadOf, ← bufferOf, hmalformed] at h
    cases h
  rw [payloadOf, ← bufferOf] at h ⊢
  rw [serverRecvInit_append hread, Request.payload_append, h]
  rfl

/-- The remote gets the payload of all that was decrypted, wherever the header ended. -/
theorem Relay.Sound.payload (h : Relay.Sound T calls st) {s r : Nat} {server : ServerT κ} {remote : RemoteT}
    (hs : st.server s = some server) (hlink : server.remote = some r) (hremote : st.remote r = some remote) :
    ∃ payload, payloadOf calls server.plain.flatten = some payload ∧ remote.toRemote <+: payload ∧
      (st.active (.serverRecv s) = true → remote.toRemote = payload) := by
  obtain ⟨first, rest, payload, hplain, hpayload, hsent, hall⟩ := h.upstream hs hlink hremote
  rw [hplain, List.flatten_cons]
  exact ⟨payload ++ rest.flatten, payloadOf_append hpayload _, hsent, hall⟩

end TcpRelay
end SmartSocks.Ssserver
