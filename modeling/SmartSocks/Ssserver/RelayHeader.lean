import SmartSocks.Crypto.Segmentation
import SmartSocks.Ssserver.Server

/-!
# The client's header, read by the server

The client writes the length of the host name into one byte, and only its own
buffer of 1024 bytes keeps it from longer names. The server therefore reads
back the name, the port and the payload for names of at most 255 bytes
(`header_decoded_iff`), with two exceptions. What is before a zero byte may be an
IP address, and the server connects to it. And `cork_ip_init` takes names that
`inet_pton` does not, such as `1..2.3`: the server connects to `0.0.0.0` or `::`.
-/

namespace SmartSocks.Ssserver

open Jvm Crypto EasyValue Tunnel

/-- What the server is to do with a name, once it was read. -/
def named (calls : HostCalls) (name : List Byte) (port : Short) (payload : List Byte) : Request :=
  if calls.outbound_block (cString name) then .blocked name
  else match corkIpInit (cString name) with
    | some version =>
      let ai_family := Family.ofVersion version
      .connect (cString name) ai_family (calls.storedAddr ai_family (cString name)) port payload
    | none =>
      if !validateHostname (hostArray name) name.length then .invalidHostName name
      else .resolve (cString name) port payload

/-- The server has read exactly this name; if it goes on, then to this name and
port, and with this payload. The address that it connects to is the one that the
name is read as. -/
def Request.ReadsAs (calls : HostCalls) (name : List Byte) (port : Nat) (payload : List Byte) : Request → Prop
  | .connect host ai_family addr p rest =>
    host = name ∧ calls.inet_pton ai_family name = some addr ∧ p.toNat = port ∧ rest = payload
  | .resolve host p rest => host = name ∧ p.toNat = port ∧ rest = payload
  | .blocked read | .invalidHostName read => read = name
  | .connectAddress .. | .malformed _ => False

/-- The server goes on, with exactly this name, port and payload. -/
def Request.SplitsInto (calls : HostCalls) (name : List Byte) (port : Nat) (payload : List Byte) : Request → Prop
  | .connect host ai_family addr p rest =>
    host = name ∧ calls.inet_pton ai_family name = some addr ∧ p.toNat = port ∧ rest = payload
  | .resolve host p rest => host = name ∧ p.toNat = port ∧ rest = payload
  | .blocked _ | .invalidHostName _ | .connectAddress .. | .malformed _ => False

/-- `stream_decrypt` on the first bytes of a connection. -/
def decrypted {β σ : Type} (C : StreamCipher β σ) (bytes : List β) : List β :=
  C.decrypting.output (C.init (bytes.take getIVLength)) (bytes.drop getIVLength)

/-- The handshake throws, or what the server makes of it and of the payload behind
it meets `good`. -/
def Decoded {σ : Type} (C : StreamCipher Byte σ) (calls : HostCalls)
    (c : CryptBase Byte σ) (iv : IV Byte) (dest : InetSocketAddress) (payload : List Byte)
    (good : List Byte → Nat → List Byte → Request → Prop) : Prop :=
  ∀ b c', (Socks5Protocol.handshake C id iv dest).exec c = (.ok b, c') →
    ∀ buf : Buffer, buf.data.slice 0 buf.len = decrypted C b.left ++ payload →
      good dest.hostName dest.port payload (serverRecvInit calls buf)

/-- An IP address for both functions that read it: all of the name. -/
def ReadAsAddress (calls : HostCalls) (version : Nat) (name : List Byte) : Prop :=
  0 ∉ name ∧ (calls.inet_pton (.ofVersion version) name).isSome

/-- A name of the client that the server reads as it is. -/
def ReadBack (calls : HostCalls) (name : List Byte) : Prop :=
  name.length ≤ 255 ∧
    (calls.outbound_block (cString name) = false →
      ∀ version, corkIpInit (cString name) = some version → ReadAsAddress calls version name)

/-- A name that it goes on with as well: an IP address or a host name that is not
blocked. -/
def GoesOn (calls : HostCalls) (name : List Byte) : Prop :=
  name.length ≤ 255 ∧ calls.outbound_block (cString name) = false ∧
    match corkIpInit (cString name) with
    | some version => ReadAsAddress calls version name
    | none => validateHostname (hostArray name) name.length = true

-- ---------------------------------------------------------------------------
-- C strings
-- ---------------------------------------------------------------------------

section
variable {name : List Byte}

theorem cString_zeros (name : List Byte) (count : Nat) :
    cString (name ++ List.replicate count 0) = cString name := by
  unfold cString
  induction name with
  | nil => cases count <;> rfl
  | cons b name ih =>
    rw [List.cons_append, List.takeWhile_cons, List.takeWhile_cons, ih]

theorem cString_hostArray (name : List Byte) : cString (hostArray name) = cString name :=
  cString_zeros name _

theorem cString_eq (h : 0 ∉ name) : cString name = name := by
  refine List.takeWhile_eq_self_iff.mpr fun b hb => decide_eq_true ?_
  rintro rfl
  exact h hb

theorem length_cString_le (name : List Byte) : (cString name).length ≤ name.length :=
  (List.takeWhile_prefix _).length_le

theorem zero_notMem_cString (memory : List Byte) : 0 ∉ cString memory := by
  intro h
  have hne := List.mem_takeWhile_imp h
  simp at hne

theorem cString_ne (h : 0 ∈ name) : cString name ≠ name := fun heq =>
  zero_notMem_cString name (heq.symm ▸ h)

/-- `strchr` finds a dot, or nothing before the end of the string. -/
theorem labelLength_cases (label : List Byte) (left : Nat) :
    (∃ h : labelLength label left < label.length, label[labelLength label left] = 0x2E) ∨
      labelLength label left = left := by
  unfold labelLength
  cases hdot : (cString label).idxOf? 0x2E with
  | none => exact .inr rfl
  | some k =>
    obtain ⟨hk, hbyte, -⟩ := List.idxOf?_eq_some_iff.mp hdot
    have hpre : cString label <+: label := List.takeWhile_prefix _
    exact .inl ⟨Nat.lt_of_lt_of_le hk hpre.length_le, (hpre.getElem hk).symm.trans hbyte⟩

/-- The bytes that `strspn` counts are no zeros. -/
theorem zero_notMem_span {label : List Byte} {k : Nat}
    (h : k ≤ (label.takeWhile validLabelByte).length) : 0 ∉ label.take k := by
  intro hzero
  have hpre : label.take k <+: label.takeWhile validLabelByte :=
    List.prefix_of_prefix_length_le (List.take_prefix k label) (List.takeWhile_prefix _)
      (Nat.le_trans (List.length_take_le k label) h)
  have hvalid := List.mem_takeWhile_imp (hpre.subset hzero)
  exact absurd hvalid (by decide)

/-- A name with a zero byte is no host name: the label that it is in is turned
down. -/
theorem validateLabels_zero (label : List Byte) {left : Nat} (h : 0 ∈ label.take left) :
    validateLabels label left = false := by
  induction hm : left using Nat.strong_induction_on generalizing label left with
  | _ m ih =>
    subst hm
    unfold validateLabels
    by_cases hleft : left = 0
    · subst hleft
      simp at h
    rw [if_neg hleft]
    split
    · rfl
    next hfits =>
    split
    · rfl
    next hlength =>
    split
    · rfl
    next =>
    split
    · rfl
    next hspan =>
    have hcases := labelLength_cases label left
    generalize labelLength label left = k at hfits hlength hspan hcases ⊢
    have hlabel : 0 ∉ label.take k := zero_notMem_span (Nat.not_lt.mp hspan)
    obtain ⟨hk, hdot⟩ | rfl := hcases
    · -- the zero is behind the label and its dot
      refine ih (left - (k + 1)) (by omega) (label.drop (k + 1)) ?_ rfl
      have hbehind : 0 ∉ label.take (k + 1) := by
        rw [List.take_succ_eq_append_getElem hk, hdot, List.mem_append, not_or]
        exact ⟨hlabel, by decide⟩
      have hsplit : label.take left <+: label.take (k + 1) ++ (label.drop (k + 1)).take (left - (k + 1)) := by
        rw [← List.take_add]
        exact (List.take_prefix_take_left (by omega))
      exact (List.mem_append.mp (hsplit.subset h)).resolve_left hbehind
    · exact absurd h hlabel

theorem validateHostname_zero (h : 0 ∈ name) : validateHostname (hostArray name) name.length = false := by
  have htake : (hostArray name).take name.length = name := List.take_left
  unfold validateHostname
  split
  · rfl
  · split
    · rfl
    · exact validateLabels_zero _ (htake.symm ▸ h)

end

-- ---------------------------------------------------------------------------
-- The first buffer
-- ---------------------------------------------------------------------------

section
variable {calls : HostCalls} {buf : Buffer} {dest : InetSocketAddress}
  {payload : List Byte}

/-- The server reads as many bytes for the name as the length byte says. -/
theorem serverRecvInit_header
    (hbuf : buf.data.slice 0 buf.len = Socks5Protocol.header dest ++ payload) :
    serverRecvInit calls buf =
      named calls (buf.data.slice 2 (dest.hostName.length % 256))
        (short buf.data (2 + dest.hostName.length % 256))
        (buf.data.slice (4 + dest.hostName.length % 256)
          (buf.len - (4 + dest.hostName.length % 256))) := by
  have hlen : buf.len = dest.hostName.length + 4 + payload.length := by
    rw [← buf.data.length_slice 0 buf.len, hbuf, List.length_append, Socks5Protocol.length_header]
  have hcell (k : Nat) (hk : k < buf.len) :
      some (buf.data.cell k) = (Socks5Protocol.header dest ++ payload)[k]? := by
    rw [← hbuf, List.getElem?_eq_getElem (by rwa [Bytes.length_slice]), Bytes.getElem_slice,
      Nat.zero_add]
  have hatyp : buf.data.cell 0 = 0x03 := Option.some.inj (hcell 0 (by omega))
  have hname : (buf.data.cell 1).toNat = dest.hostName.length % 256 := by
    rw [Option.some.inj (hcell 1 (by omega)), BitVec.toNat_ofNat]
  have hroom : dest.hostName.length % 256 + 4 ≤ buf.len := by
    have := Nat.mod_le dest.hostName.length 256
    omega
  have hport (request : Short → List Byte → Request) :
      takePort buf (1 + (dest.hostName.length % 256 + 1)) request =
        request (short buf.data (2 + dest.hostName.length % 256))
          (buf.data.slice (4 + dest.hostName.length % 256)
            (buf.len - (4 + dest.hostName.length % 256))) := by
    have hoffset : 1 + (dest.hostName.length % 256 + 1) = 2 + dest.hostName.length % 256 := by omega
    have hbehind : 2 + dest.hostName.length % 256 + 2 = 4 + dest.hostName.length % 256 := by omega
    rw [takePort, if_neg (by omega), hoffset, hbehind]
  have hnot : ¬ (0x03 &&& ADDRTYPE_MASK : Byte) = 1 := by decide
  have hdomain : (0x03 &&& ADDRTYPE_MASK : Byte) = 3 := by decide
  have hvalidate (name : List Byte) (hname : name.length = dest.hostName.length % 256) :
      validateHostname (hostArray name) (dest.hostName.length % 256) =
        validateHostname (hostArray name) name.length := by
    rw [hname]
  simp only [serverRecvInit, hatyp, hname, if_neg hnot, if_pos hdomain, if_pos hroom, hport,
    cString_hostArray, hvalidate _ (Bytes.length_slice ..)]
  rfl

/-- A name whose length fits the byte is read back, and so is what follows it. -/
theorem serverRecvInit_short (hshort : dest.hostName.length ≤ 255)
    (hbuf : buf.data.slice 0 buf.len = Socks5Protocol.header dest ++ payload) :
    serverRecvInit calls buf =
      named calls dest.hostName (BitVec.ofNat 16 dest.port) payload := by
  have hmod : dest.hostName.length % 256 = dest.hostName.length := Nat.mod_eq_of_lt (by omega)
  have hlen : buf.len = 2 + (dest.hostName.length + (2 + payload.length)) := by
    rw [← buf.data.length_slice 0 buf.len, hbuf, List.length_append, Socks5Protocol.length_header]
    omega
  have hparts := hbuf
  rw [hlen, Bytes.slice_add, Bytes.slice_add, Bytes.slice_add, Socks5Protocol.header, List.cons_append,
    List.cons_append, List.append_assoc] at hparts
  have hhead : (buf.data.slice 0 2).length = [(0x03 : Byte), BitVec.ofNat 8 dest.hostName.length].length :=
    buf.data.length_slice 0 2
  obtain ⟨-, hparts⟩ := List.append_inj hparts hhead
  obtain ⟨hname, hparts⟩ := List.append_inj hparts (Bytes.length_slice ..)
  obtain ⟨hport, hpayload⟩ := List.append_inj hparts (by rw [Bytes.length_slice]; rfl)
  rw [slice_short, shortBytes_inj] at hport
  have hrest : buf.len - (4 + dest.hostName.length) = payload.length := by omega
  have hbehind : 0 + 2 + dest.hostName.length + 2 = 4 + dest.hostName.length := by omega
  rw [hbehind] at hpayload
  rw [serverRecvInit_header hbuf, hmod, hrest]
  rw [Nat.zero_add] at hname hport
  rw [hname, hport, hpayload]

theorem Request.SplitsInto.readsAs {name : List Byte} {port : Nat} {r : Request}
    (h : r.SplitsInto calls name port payload) : r.ReadsAs calls name port payload := by
  cases r with
  | connect => exact h
  | resolve => exact h
  | blocked => exact h.elim
  | invalidHostName => exact h.elim
  | connectAddress => exact h.elim
  | malformed => exact h.elim

/-- The server never reads a name longer than what it has copied. -/
theorem length_le_of_readsAs {name read rest : List Byte} {port : Nat} {p : Short}
    (h : (named calls read p rest).ReadsAs calls name port payload) : name.length ≤ read.length := by
  unfold named at h
  split at h
  · exact Nat.le_of_eq (congrArg List.length (show read = name from h)).symm
  · split at h
    · exact h.1 ▸ length_cString_le read
    · split at h
      · exact Nat.le_of_eq (congrArg List.length (show read = name from h)).symm
      · exact h.1 ▸ length_cString_le read

/-- The address in `storage` is the one that the name is read as. -/
theorem readAsAddress_iff {version : Nat} {name : List Byte} :
    ReadAsAddress calls version name ↔
      cString name = name ∧
        calls.inet_pton (.ofVersion version) name = some (calls.storedAddr (.ofVersion version) (cString name)) := by
  constructor
  · rintro ⟨hzero, hsome⟩
    obtain ⟨addr, haddr⟩ := Option.isSome_iff_exists.mp hsome
    have hname := cString_eq hzero
    exact ⟨hname, by rw [hname, HostCalls.storedAddr, haddr, Option.getD_some]⟩
  · rintro ⟨hname, haddr⟩
    exact ⟨fun hzero => cString_ne hzero hname, Option.isSome_of_eq_some haddr⟩

/-- A host name that passes the checks has no zero byte. -/
theorem cString_of_validate {name : List Byte} (h : validateHostname (hostArray name) name.length = true) :
    cString name = name := by
  refine cString_eq fun hzero => ?_
  rw [validateHostname_zero hzero] at h
  cases h

/-- What the server makes of a name is that name, unless it takes it for an IP address
that it does not read. -/
theorem named_readsAs {name : List Byte} {port : Nat} {p : Short} (hp : p.toNat = port) :
    (named calls name p payload).ReadsAs calls name port payload ↔
      (calls.outbound_block (cString name) = false →
        ∀ version, corkIpInit (cString name) = some version → ReadAsAddress calls version name) := by
  unfold named
  cases hblocked : calls.outbound_block (cString name) with
  | true => exact iff_of_true rfl fun h => by cases h
  | false =>
    rw [if_neg Bool.false_ne_true]
    cases hip : corkIpInit (cString name) with
    | none =>
      refine iff_of_true ?_ fun _ version hversion => by cases hversion
      cases hvalid : validateHostname (hostArray name) name.length with
      | false => exact rfl
      | true => exact ⟨cString_of_validate hvalid, hp, rfl⟩
    | some version =>
      constructor
      · rintro ⟨hname, haddr, -, -⟩ - _ ⟨⟩
        exact readAsAddress_iff.mpr ⟨hname, haddr⟩
      · intro h
        obtain ⟨hname, haddr⟩ := readAsAddress_iff.mp (h rfl version rfl)
        exact ⟨hname, haddr, hp, rfl⟩

theorem named_splitsInto {name : List Byte} {port : Nat} {p : Short} (hp : p.toNat = port) :
    (named calls name p payload).SplitsInto calls name port payload ↔
      calls.outbound_block (cString name) = false ∧
        match corkIpInit (cString name) with
        | some version => ReadAsAddress calls version name
        | none => validateHostname (hostArray name) name.length = true := by
  unfold named
  cases hblocked : calls.outbound_block (cString name) with
  | true => exact iff_of_false (fun h => h) fun h => by cases h.1
  | false =>
    rw [if_neg Bool.false_ne_true, and_iff_right rfl]
    cases hip : corkIpInit (cString name) with
    | none =>
      cases hvalid : validateHostname (hostArray name) name.length with
      | false => exact iff_of_false (fun h => h) Bool.false_ne_true
      | true => exact iff_of_true ⟨cString_of_validate hvalid, hp, rfl⟩ rfl
    | some version =>
      constructor
      · rintro ⟨hname, haddr, -, -⟩
        exact readAsAddress_iff.mpr ⟨hname, haddr⟩
      · intro h
        obtain ⟨hname, haddr⟩ := readAsAddress_iff.mp h
        exact ⟨hname, haddr, hp, rfl⟩

end

-- ---------------------------------------------------------------------------
-- Client and server
-- ---------------------------------------------------------------------------

section
variable {σ : Type} {C : StreamCipher Byte σ} {c : CryptBase Byte σ} {dest : InetSocketAddress}

/-- Decryption gives the header back. -/
theorem decrypted_handshake (hC : C.decrypting.Inverts C.encrypting) (iv : IV Byte)
    (header : List Byte) :
    decrypted C (iv.val ++ C.encrypting.output (C.init iv.val) header) = header := by
  rw [decrypted, List.take_left' iv.property, List.drop_left' iv.property]
  exact hC.output _ _

/-- The bytes of a list in a buffer. -/
def bufferOf (bytes : List Byte) : Buffer where
  data := .ofList 0 bytes
  len := bytes.length

theorem slice_bufferOf (bytes : List Byte) :
    (bufferOf bytes).data.slice 0 (bufferOf bytes).len = bytes := by
  refine List.ext_getElem (Bytes.length_slice ..) fun k hk hk' => ?_
  rw [Bytes.getElem_slice, Nat.zero_add]
  exact by simp [bufferOf, Bytes.ofList, hk']

/-- Names that are not sent, and names whose length does not fit one byte. -/
theorem decoded_iff_short (hC : C.decrypting.Inverts C.encrypting) (calls : HostCalls)
    (hfresh : c.encryptIVSet = false) (iv : IV Byte) (payload : List Byte)
    {good : List Byte → Nat → List Byte → Request → Prop}
    (hgood : ∀ r, good dest.hostName dest.port payload r → r.ReadsAs calls dest.hostName dest.port payload) :
    Decoded C calls c iv dest payload good ↔
      1004 < dest.hostName.length ∨
        dest.hostName.length ≤ 255 ∧ good dest.hostName dest.port payload
          (named calls dest.hostName (BitVec.ofNat 16 dest.port) payload) := by
  obtain ⟨hsent, b, hexec, hleft⟩ | ⟨hlong, c', hexec⟩ :=
    @Socks5Protocol.exec_handshake_cases _ _ _ id dest _ C iv hfresh
  · have hplain : decrypted C b.left = Socks5Protocol.header dest := by
      rw [hleft, List.map_id, decrypted_handshake hC]
    rw [or_iff_right (Nat.not_lt.mpr hsent)]
    constructor
    · intro h
      have hread := h b _ hexec (bufferOf (decrypted C b.left ++ payload)) (slice_bufferOf _)
      have hbuf := slice_bufferOf (decrypted C b.left ++ payload)
      generalize bufferOf (decrypted C b.left ++ payload) = buf at hread hbuf
      rw [hplain] at hbuf
      have hshort : dest.hostName.length ≤ 255 := by
        have hle := hgood _ hread
        rw [serverRecvInit_header hbuf] at hle
        have hle := length_le_of_readsAs hle
        rw [Bytes.length_slice] at hle
        omega
      rw [serverRecvInit_short hshort hbuf] at hread
      exact ⟨hshort, hread⟩
    · rintro ⟨hshort, hread⟩ b' c' hexec' buf hbuf
      cases hexec.symm.trans hexec'
      rw [hplain] at hbuf
      rwa [serverRecvInit_short hshort hbuf]
  · refine iff_of_true ?_ (.inl hlong)
    intro b' c'' hexec'
    cases hexec.symm.trans hexec'

/-- The names that the server reads back: those whose length fits one byte, except
for what it takes for an IP address and does not read as one. It goes on with those
of them that pass its own checks. A name that does not fit the client's buffer with
its IV is never sent. -/
theorem header_decoded_iff (hC : C.decrypting.Inverts C.encrypting) (calls : HostCalls)
    (hfresh : c.encryptIVSet = false) (iv : IV Byte) (hport : dest.port ≤ 65535) (payload : List Byte) :
    (Decoded C calls c iv dest payload (Request.ReadsAs calls) ↔
        1004 < dest.hostName.length ∨ ReadBack calls dest.hostName) ∧
      (Decoded C calls c iv dest payload (Request.SplitsInto calls) ↔
        1004 < dest.hostName.length ∨ GoesOn calls dest.hostName) := by
  have hp : (BitVec.ofNat 16 dest.port).toNat = dest.port := by
    rw [BitVec.toNat_ofNat]
    exact Nat.mod_eq_of_lt (by omega)
  constructor
  · rw [decoded_iff_short hC calls hfresh iv payload fun _ h => h, named_readsAs hp, ReadBack]
  · rw [decoded_iff_short hC calls hfresh iv payload fun _ h => h.readsAs,
      named_splitsInto hp, GoesOn]

end

/-- A request to an IP address. -/
theorem short_decoded :
    Decoded feedback sampleCalls {} sampleIV ⟨sampleAddress, 80⟩ [0x01, 0x02] (Request.ReadsAs sampleCalls) ∧
      Decoded feedback sampleCalls {} sampleIV ⟨sampleAddress, 80⟩ [0x01, 0x02]
        (Request.SplitsInto sampleCalls) := by
  have hversion : corkIpInit (cString sampleAddress) = some 4 := by decide
  have haddress : ReadAsAddress sampleCalls 4 sampleAddress := ⟨by decide, rfl⟩
  constructor
  · refine (header_decoded_iff feedback_inverts sampleCalls rfl sampleIV (by decide) [0x01, 0x02]).1.mpr
      (.inr ⟨by decide, fun _ version h => ?_⟩)
    cases hversion.symm.trans h
    exact haddress
  · exact (header_decoded_iff feedback_inverts sampleCalls rfl sampleIV (by decide) [0x01, 0x02]).2.mpr
      (.inr ⟨by decide, rfl, haddress⟩)

/-- A name of 256 bytes is sent with the length zero. -/
theorem long_not_decoded :
    ¬ ∃ calls : HostCalls, ∀ (iv : IV Byte) (dest : InetSocketAddress) (payload : List Byte),
      dest.hostName.length ≤ 1020 → dest.port ≤ 65535 →
        Decoded feedback calls {} iv dest payload (Request.ReadsAs calls) := by
  rintro ⟨calls, h⟩
  have hlength : (List.replicate 256 (0x61 : Byte)).length = 256 := List.length_replicate
  have hdecoded := h sampleIV ⟨List.replicate 256 0x61, 80⟩ [] (hlength.trans_le (by decide)) (by decide)
  obtain hlong | ⟨hshort, -⟩ :=
    (decoded_iff_short feedback_inverts calls rfl sampleIV [] fun _ h => h).mp hdecoded
  · exact absurd (hlength ▸ hlong) (by decide)
  · exact absurd (hlength ▸ hshort) (by decide)

/-- `1..2.3` -/
def emptyOctet : List Byte := [0x31, 0x2E, 0x2E, 0x32, 0x2E, 0x33]

/-- For `cork_ip_init` an empty octet is a zero. `inet_pton` does not take it, and the
server connects to `0.0.0.0`. -/
example (payload : List Byte) :
    named sampleCalls emptyOctet 80 payload = .connect emptyOctet .AF_INET [0, 0, 0, 0] 80 payload := by
  rfl

end SmartSocks.Ssserver
