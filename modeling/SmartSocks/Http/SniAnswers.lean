import SmartSocks.Http.ClientHello
import SmartSocks.Http.SniBounds
import SmartSocks.Http.SniEnds
import SmartSocks.Utils.Decoding

/-!
# Which server names are found

With lengths that the code does not take for negative ones, the scan comes to
the extensions of a ClientHello and finds their server name. The loop does not
stop at the end of the extension block but goes on over what follows, so a
ClientHello without a server name is answered right as long as nothing behind
it is read as one.
-/

namespace SmartSocks.Http

open Jvm EasyValue Strings HttpHeaderParser

-- ---------------------------------------------------------------------------
-- What a scan returns
-- ---------------------------------------------------------------------------

/-- With enough iterations the scan returns `host`. -/
def Yields (scan : Nat → Prog Scan Fate) (s : Scan) (host : Option (List Char)) : Prop :=
  ∃ bound, ∀ fuel, bound ≤ fuel → ((scan fuel).exec s).1 = .ok (.returned host)

section
variable {scan scan' : Nat → Prog Scan Fate} {s s' : Scan} {host host' : Option (List Char)}

theorem yields_congr (h : ∀ fuel, (scan fuel).exec s = (scan' fuel).exec s') :
    Yields scan s host ↔ Yields scan' s' host := by
  unfold Yields
  simp only [h]

theorem yields_returned (h : ∀ fuel, ((scan fuel).exec s).1 = .ok (.returned host)) :
    Yields scan s host' ↔ host' = host := by
  constructor
  · rintro ⟨bound, hbound⟩
    have hend := (h bound).symm.trans (hbound bound (Nat.le_refl bound))
    exact (Fate.returned.inj (Except.ok.inj hend)).symm
  · rintro rfl
    exact ⟨0, fun fuel _ => h fuel⟩

theorem yields_succ : Yields scan s host ↔ Yields (fun fuel => scan (fuel + 1)) s host := by
  constructor
  · rintro ⟨bound, hbound⟩
    exact ⟨bound, fun fuel hfuel => hbound (fuel + 1) (Nat.le_succ_of_le hfuel)⟩
  · rintro ⟨bound, hbound⟩
    refine ⟨bound + 1, fun fuel hfuel => ?_⟩
    obtain ⟨more, rfl⟩ := Nat.exists_eq_add_of_le' hfuel
    exact hbound (more + bound) (Nat.le_add_left _ _)

end

-- ---------------------------------------------------------------------------
-- The loop
-- ---------------------------------------------------------------------------

/-- The loop returns `null` at `pos`: nothing is left, or a server name does not
end before the segment does. -/
def StopsUnnamed (buffer : Bytes Byte) (limit pos : Int) : Prop :=
  limit < pos + 4 ∨ ∃ length, NameHeader buffer pos length ∧ limit < pos + 4 + length.toInt

/-- What stands at `pos`, read as extensions, comes to an end without a name. -/
def Unnamed (buffer : Bytes Byte) (limit pos : Int) : Prop :=
  ∃ stop, Chain.Reaches (nextExtension buffer limit) pos stop ∧ StopsUnnamed buffer limit stop

section
variable {buffer : Bytes Byte} {limit : Int} {pos : Int} {s : Scan}

theorem nextExtension_of_stops (h : StopsUnnamed buffer limit pos) : nextExtension buffer limit pos = none := by
  obtain hend | ⟨length, ⟨h0, h1, hlength, hlong⟩, -⟩ := h
  · exact if_neg (Int.not_le.mpr hend)
  · unfold nextExtension
    split
    · rw [h0, h1, hlength]
      exact if_pos ⟨rfl, rfl, hlong⟩
    · rfl

theorem unnamed_of_next {next : Int} (h : nextExtension buffer limit pos = some next) :
    Unnamed buffer limit pos ↔ Unnamed buffer limit next := by
  constructor
  · rintro ⟨stop, hreach, hstop⟩
    obtain rfl | ⟨c, hc, hreach⟩ := Chain.reaches_cases hreach
    · rw [nextExtension_of_stops hstop] at h
      cases h
    · obtain rfl := Option.some.inj (h.symm.trans hc)
      exact ⟨stop, hreach, hstop⟩
  · rintro ⟨stop, hreach, hstop⟩
    exact ⟨stop, Chain.reaches_head h hreach, hstop⟩

theorem unnamed_of_none (h : nextExtension buffer limit pos = none) :
    Unnamed buffer limit pos ↔ StopsUnnamed buffer limit pos := by
  constructor
  · rintro ⟨stop, hreach, hstop⟩
    obtain rfl | ⟨c, hc, -⟩ := Chain.reaches_cases hreach
    · exact hstop
    · rw [h] at hc
      cases hc
  · exact fun hstop => ⟨pos, Chain.reaches_refl pos, hstop⟩

/-- A name that goes beyond the segment is `null`. -/
theorem readServerName_none_iff (length : Int) :
    ((readServerName buffer limit length).exec s).1 = .ok (.returned none) ↔ limit < s.offset + length := by
  have hroom : s.offset + 5 + (length - 5) = s.offset + length := by omega
  simp only [readServerName, Prog.exec_bind, Prog.exec_get, advance, Prog.exec_modify, hroom]
  by_cases hend : limit < s.offset + length
  · simp [hend]
  · simp only [hend, if_false, iff_false, Prog.exec_bind]
    intro hnone
    split at hnone
    · cases hnone
    · cases hnone

theorem NameHeader.length_eq {length length' : Short} (h : NameHeader buffer pos length)
    (h' : NameHeader buffer pos length') : length = length' :=
  Except.ok.inj (h.2.2.1.symm.trans h'.2.2.1)

/-- An extension that is followed by another is skipped. -/
theorem exec_next {next : Int} (h : nextExtension buffer limit s.offset = some next) :
    ∃ t, next = t.offset ∧
      ∀ fuel, (readExtensions buffer limit (fuel + 1)).exec s = (readExtensions buffer limit fuel).exec t := by
  cases iteration buffer limit s with
  | done hover hnext hstep => cases hnext.symm.trans h
  | cut hroom hnext hcut hstep => cases hnext.symm.trans h
  | skip t hnext hstep => exact ⟨t, Option.some.inj (h.symm.trans hnext), hstep⟩
  | name length t hroom hnext hname hoffset hstep => cases hnext.symm.trans h

/-- The loop returns where it stops, if it stops without a name. -/
theorem yields_stop (h : StopsUnnamed buffer limit s.offset) : Yields (readExtensions buffer limit) s none := by
  have hnone := nextExtension_of_stops h
  rw [yields_succ]
  cases iteration buffer limit s with
  | done hover hnext hstep => exact (yields_returned hstep).mpr rfl
  | cut hroom hnext hcut hstep =>
    obtain hover | ⟨length, hname, -⟩ := h
    · exact absurd hroom (Int.not_le.mpr hover)
    · exact absurd hname (hcut length)
  | skip t hnext hstep =>
    rw [hnone] at hnext
    cases hnext
  | name length t hroom hnext hname hoffset hstep =>
    obtain hover | ⟨length', hname', hbeyond⟩ := h
    · exact absurd hroom (Int.not_le.mpr hover)
    · refine (yields_returned fun fuel => ?_).mpr rfl
      rw [hstep, readServerName_none_iff, hoffset, hname.length_eq hname']
      exact hbeyond

theorem yields_of_next {t : Scan} {host : Option (List Char)}
    (h : ∀ fuel, (readExtensions buffer limit (fuel + 1)).exec s = (readExtensions buffer limit fuel).exec t) :
    Yields (readExtensions buffer limit) s host ↔ Yields (readExtensions buffer limit) t host :=
  yields_succ.trans (yields_congr h)

/-- The loop returns `null` when what it reads ends without a name. -/
theorem yields_none_iff : Yields (readExtensions buffer limit) s none ↔ Unnamed buffer limit s.offset := by
  constructor
  · rintro ⟨bound, hbound⟩
    have hend := hbound bound (Nat.le_refl bound)
    clear hbound
    induction bound generalizing s with
    | zero => cases hend
    | succ fuel ih =>
      cases iteration buffer limit s with
      | done hover hnext hstep => exact (unnamed_of_none hnext).mpr (.inl hover)
      | cut hroom hnext hcut hstep =>
        obtain ⟨e, he⟩ := hstep fuel
        cases he.symm.trans hend
      | skip t hnext hstep =>
        rw [hstep] at hend
        exact (unnamed_of_next hnext).mpr (ih hend)
      | name length t hroom hnext hname hoffset hstep =>
        rw [hstep, readServerName_none_iff, hoffset] at hend
        exact (unnamed_of_none hnext).mpr (.inr ⟨length, hname, hend⟩)
  · rintro ⟨stop, hreach, hstop⟩
    obtain ⟨m, hm⟩ := Chain.reaches_iff_follow.mp hreach
    clear hreach
    induction m generalizing s with
    | zero =>
      obtain rfl := Option.some.inj hm
      exact yields_stop hstop
    | succ m ih =>
      obtain ⟨next, hnext, hm⟩ := Option.bind_eq_some_iff.mp hm
      obtain ⟨t, rfl, hstep⟩ := exec_next hnext
      exact (yields_of_next hstep).mpr (ih hm)

end

-- ---------------------------------------------------------------------------
-- The extensions of a ClientHello
-- ---------------------------------------------------------------------------

/-- No extension up to the server name has a length that is negative to the code. -/
def ShortToName : List Extension → Prop
  | [] => True
  | .serverName host :: _ => host.length + 5 < 2 ^ 15
  | .other _ data :: extensions => data.length < 2 ^ 15 ∧ ShortToName extensions

section
variable {buffer : Bytes Byte} {limit : Int} {pos : Nat} {s : Scan}

theorem short_eq_zero : short buffer pos = 0 ↔ buffer.cell pos = 0 ∧ buffer.cell (pos + 1) = 0 := by
  rw [← shortBytes_inj, shortBytes_short]
  have hzero : shortBytes 0 = [0, 0] := rfl
  rw [hzero, List.cons.injEq, List.cons.injEq, and_iff_left rfl]

/-- The header of an extension is read. -/
theorem header_reads {e : Extension} (hl : limit ≤ buffer.size) (hstands : Stands buffer pos e.bytes)
    (hroom : (pos : Int) + e.bytes.length ≤ limit) : buffer.get pos = .ok (buffer.cell pos) ∧
      buffer.get (pos + 1) = .ok (buffer.cell (pos + 1)) ∧
      EasyValue.readShort buffer (pos + 2) = .ok (BitVec.ofNat 16 e.data.length) ∧
      (buffer.cell pos = 0 ∧ buffer.cell (pos + 1) = 0 ↔ e.type = 0) := by
  rw [e.length_bytes] at hroom
  rw [Extension.bytes, stands_append, stands_shortBytes, stands_vector16] at hstands
  obtain ⟨htype, hlength, -⟩ := hstands
  refine ⟨get_natCast (by omega), ?_, ?_, ?_⟩
  · have hread : buffer.get (pos + 1 : Nat) = _ := get_natCast (by omega)
    exact_mod_cast hread
  · have hread : EasyValue.readShort buffer (pos + 2 : Nat) = _ := readShort_eq (by omega)
    rw [← hlength]
    exact_mod_cast hread
  · rw [← short_eq_zero, htype]

theorem nextExtension_other {type : Short} {data : List Byte} (hl : limit ≤ buffer.size)
    (hstands : Stands buffer pos (Extension.other type data).bytes)
    (hroom : (pos : Int) + (Extension.other type data).bytes.length ≤ limit) (htype : type ≠ 0)
    (hshort : data.length < 2 ^ 15) :
    nextExtension buffer limit pos = some (pos + (Extension.other type data).bytes.length : Nat) := by
  obtain ⟨h0, h1, hlength, hzero⟩ := header_reads hl hstands hroom
  rw [Extension.length_bytes] at hroom ⊢
  have hother : ¬ (buffer.cell pos = 0 ∧ buffer.cell (pos + 1) = 0 ∧
      5 < (BitVec.ofNat 16 data.length : Short).toInt) :=
    fun h => htype (hzero.mp ⟨h.1, h.2.1⟩)
  have hdata : (Extension.other type data).data = data := rfl
  rw [hdata] at hlength
  unfold nextExtension
  rw [if_pos (by omega), h0, h1, hlength]
  refine (if_neg hother).trans (congrArg some ?_)
  rw [toInt_ofNat_short hshort, hdata]
  omega

theorem readServerName_host {length : Nat} (hl : limit ≤ buffer.size) (hoffset : s.offset = pos)
    (hlong : 5 ≤ length) (hroom : (pos : Int) + length ≤ limit) :
    ((readServerName buffer limit length).exec s).1 =
      .ok (.returned (some (decodeUtf8 (buffer.slice (pos + 5) (length - 5))))) := by
  have hend : ¬ limit < (pos : Int) + 5 + (length - 5) := by omega
  have hinside : ¬ ((pos : Int) + 5 < 0 ∨ (length : Int) - 5 < 0 ∨
      (buffer.size : Int) < (pos : Int) + 5 + (length - 5)) := by omega
  have hstart : ((pos : Int) + 5).toNat = pos + 5 := by omega
  have hcount : ((length : Int) - 5).toNat = length - 5 := by omega
  simp only [readServerName, newString, Prog.exec_bind, Prog.exec_get, advance, Prog.exec_modify, hoffset, hend,
    if_false, hinside, Prog.exec_pure, hstart, hcount]

/-- The server name is returned. -/
theorem yields_serverName {host : List Byte} (hl : limit ≤ buffer.size) (hoffset : s.offset = pos)
    (hstands : Stands buffer pos (Extension.serverName host).bytes)
    (hroom : (pos : Int) + (Extension.serverName host).bytes.length ≤ limit)
    (hwell : (Extension.serverName host).WellFormed) (hshort : host.length + 5 < 2 ^ 15) :
    Yields (readExtensions buffer limit) s (some (host.map fun b => codePoint b.toNat)) := by
  obtain ⟨hname, hascii, -⟩ := hwell
  obtain ⟨h0, h1, hlength, hzero⟩ := header_reads hl hstands hroom
  have hdata : (Extension.serverName host).data.length = host.length + 5 := by
    rw [Extension.data, length_vector16, List.length_cons, length_vector16]
  rw [Extension.length_bytes, hdata] at hroom
  rw [hdata] at hlength
  obtain ⟨hc0, hc1⟩ := hzero.mpr rfl
  have hlong : 5 < (BitVec.ofNat 16 (host.length + 5) : Short).toInt := by
    have := List.length_pos_iff.mpr hname
    rw [toInt_ofNat_short hshort]
    omega
  rw [← hoffset] at h0 h1 hlength
  have hlimit : s.offset + 4 ≤ limit := by omega
  obtain ⟨t, ht, hstep⟩ := exec_header hlimit h0 h1 hlength
  have hbytes : buffer.slice (pos + 9) host.length = host := by
    rw [Extension.bytes, stands_append, stands_vector16] at hstands
    obtain ⟨-, -, hstands⟩ := hstands
    rw [Extension.data, stands_vector16, stands_cons, stands_vector16] at hstands
    exact hstands.2.2.2
  refine yields_succ.mpr ((yields_returned fun fuel => ?_).mpr rfl)
  rw [hstep, if_pos ⟨hc0, hc1, hlong⟩, toInt_ofNat_short hshort]
  have hat : t.offset = (pos + 4 : Nat) := by omega
  have hread := readServerName_host hl hat (Nat.le_add_left 5 host.length) (by omega)
  rw [Nat.add_sub_cancel, hbytes, decodeUtf8_ascii hascii] at hread
  exact hread

/-- The loop comes to the server name. -/
theorem yields_named {extensions : List Extension} {host : List Byte} (hl : limit ≤ buffer.size)
    (hoffset : s.offset = pos) (hstands : Stands buffer pos (extensions.flatMap Extension.bytes))
    (hroom : (pos : Int) + (extensions.flatMap Extension.bytes).length ≤ limit)
    (hwell : ∀ e ∈ extensions, e.WellFormed) (hshort : ShortToName extensions)
    (hhost : extensions.findSome? Extension.host = some host) :
    Yields (readExtensions buffer limit) s (some (host.map fun b => codePoint b.toNat)) := by
  induction extensions generalizing pos s with
  | nil => cases hhost
  | cons e extensions ih =>
    obtain ⟨he, hrest⟩ := List.forall_mem_cons.mp hwell
    rw [List.flatMap_cons, stands_append] at hstands
    rw [List.flatMap_cons, List.length_append] at hroom
    cases e with
    | serverName host' =>
      obtain rfl : host' = host := Option.some.inj hhost
      exact yields_serverName hl hoffset hstands.1 (by omega) he hshort
    | other type data =>
      have hnext := nextExtension_other hl hstands.1 (by omega) he.1 hshort.1
      rw [← hoffset] at hnext
      obtain ⟨t, ht, hstep⟩ := exec_next hnext
      exact (yields_of_next hstep).mpr (ih ht.symm hstands.2 (by omega) hrest hshort.2 hhost)

/-- Without a server name the loop comes to the end of the extensions. -/
theorem unnamed_extensions {extensions : List Extension} (hl : limit ≤ buffer.size)
    (hstands : Stands buffer pos (extensions.flatMap Extension.bytes))
    (hroom : (pos : Int) + (extensions.flatMap Extension.bytes).length ≤ limit)
    (hwell : ∀ e ∈ extensions, e.WellFormed) (hshort : ShortToName extensions)
    (hhost : extensions.findSome? Extension.host = none) :
    Unnamed buffer limit pos ↔
      Unnamed buffer limit (pos + (extensions.flatMap Extension.bytes).length : Nat) := by
  induction extensions generalizing pos with
  | nil => rfl
  | cons e extensions ih =>
    obtain ⟨he, hrest⟩ := List.forall_mem_cons.mp hwell
    rw [List.flatMap_cons, stands_append] at hstands
    rw [List.flatMap_cons, List.length_append] at hroom ⊢
    cases e with
    | serverName host' => cases hhost
    | other type data =>
      have hnext := nextExtension_other hl hstands.1 (by omega) he.1 hshort.1
      rw [unnamed_of_next hnext, ih hstands.2 (by omega) hrest hshort.2 hhost, Nat.add_assoc]

end

-- ---------------------------------------------------------------------------
-- The way to the extensions
-- ---------------------------------------------------------------------------

/-- No length is negative to the code. -/
structure ClientHello.Short (hello : ClientHello) : Prop where
  cipherSuites : hello.cipherSuites.length < 2 ^ 15
  compressionMethods : hello.compressionMethods.length < 2 ^ 7
  extensions : ShortToName (hello.extensions.getD [])

section
variable {buffer : Bytes Byte} {offset count : Nat} {hello : ClientHello} {following : List Byte}

/-- Where the extension block begins, counted from the record. -/
def ClientHello.blockStart (hello : ClientHello) : Nat :=
  47 + hello.sessionID.length + hello.cipherSuites.length + hello.compressionMethods.length

theorem length_bytes (h : hello.WellFormed) :
    hello.bytes.length = hello.blockStart + hello.extensionBytes.length := by
  have hrecord := h.recordVersion
  have hversion := h.version
  have hrandom := h.random
  simp only [ClientHello.bytes, ClientHello.handshake, ClientHello.body, ClientHello.blockStart,
    List.length_cons, List.length_append, length_vector8, length_vector16]
  omega

/-- The lengths stand where the scan looks for them. -/
theorem lengths_stand (h : hello.WellFormed) (hstands : Stands buffer offset hello.bytes) :
    buffer.cell offset = 0x16 ∧
    buffer.cell (offset + 43) = BitVec.ofNat 8 hello.sessionID.length ∧
    short buffer (offset + 44 + hello.sessionID.length) = BitVec.ofNat 16 hello.cipherSuites.length ∧
    buffer.cell (offset + 46 + hello.sessionID.length + hello.cipherSuites.length) =
      BitVec.ofNat 8 hello.compressionMethods.length ∧
    Stands buffer (offset + hello.blockStart) hello.extensionBytes := by
  simp only [ClientHello.bytes, ClientHello.handshake, ClientHello.body, stands_cons, stands_append,
    stands_vector8, stands_vector16, length_vector8, length_vector16, h.recordVersion, h.version,
    h.random] at hstands
  obtain ⟨hfirst, -, -, -, -, -, -, -, ⟨hsession, -⟩, ⟨hsuites, -⟩, ⟨hmethods, -⟩, hblock⟩ := hstands
  refine ⟨hfirst, hsession, ?_, ?_, ?_⟩
  · convert hsuites using 2
    omega
  · convert hmethods using 2
    omega
  · convert hblock using 1
    rw [ClientHello.blockStart]
    omega

/-- A list is skipped whose length the code takes for what it is. -/
theorem exec_skip {w n pos : Nat} {x : BitVec (w + 1)} (hx : x = BitVec.ofNat (w + 1) n) (hn : n < 2 ^ w)
    (log : List Action) (scan : Prog Scan Fate) :
    (do advance x.toInt; scan : Prog Scan Fate).exec ⟨pos, log⟩ =
      scan.exec ⟨(pos + n : Nat), log ++ [.move pos (pos + n : Nat)]⟩ := by
  have hnat : x.toNat = n := by
    rw [hx, BitVec.toNat_ofNat, Nat.mod_eq_of_lt]
    rw [Nat.pow_succ]
    omega
  have hint : x.toInt = n := by
    rw [toInt_of_clear (hnat ▸ hn), hnat]
  rw [Prog.exec_bind, exec_advance n hint]

/-- From `pos` the one stage does what the other does from `next`. -/
def Leads (scan scan' : Nat → Prog Scan Fate) (pos next : Nat) : Prop :=
  ∀ log, ∃ log', ∀ fuel, (scan fuel).exec ⟨pos, log⟩ = (scan' fuel).exec ⟨next, log'⟩

theorem Leads.trans {scan scan' scan'' : Nat → Prog Scan Fate} {pos next last : Nat}
    (h : Leads scan scan' pos next) (h' : Leads scan' scan'' next last) : Leads scan scan'' pos last := by
  intro log
  obtain ⟨log', hstep⟩ := h log
  obtain ⟨log'', hstep'⟩ := h' log'
  exact ⟨log'', fun fuel => (hstep fuel).trans (hstep' fuel)⟩

section
variable {limit : Int} {pos n : Nat}

theorem leads_readSessionID (hl : limit ≤ buffer.size) (hroom : (pos : Int) + 1 ≤ limit)
    (hx : buffer.cell pos = BitVec.ofNat 8 n) (hn : n < 2 ^ 7) :
    Leads (readSessionID buffer limit) (readCipherSuites buffer limit) pos (pos + 1 + n) :=
  fun log => ⟨_, fun fuel => (exec_readSessionID log fuel hl hroom).trans (exec_skip hx hn _ _)⟩

theorem leads_readCipherSuites (hl : limit ≤ buffer.size) (hroom : (pos : Int) + 2 ≤ limit)
    (hx : short buffer pos = BitVec.ofNat 16 n) (hn : n < 2 ^ 15) :
    Leads (readCipherSuites buffer limit) (readCompressionMethods buffer limit) pos (pos + 2 + n) :=
  fun log => ⟨_, fun fuel => (exec_readCipherSuites log fuel hl hroom).trans (exec_skip hx hn _ _)⟩

theorem leads_readCompressionMethods (hl : limit ≤ buffer.size) (hroom : (pos : Int) + 1 ≤ limit)
    (hx : buffer.cell pos = BitVec.ofNat 8 n) (hn : n < 2 ^ 7) :
    Leads (readCompressionMethods buffer limit) (readExtensionBlock buffer limit) pos (pos + 1 + n) :=
  fun log => ⟨_, fun fuel => (exec_readCompressionMethods log fuel hl hroom).trans (exec_skip hx hn _ _)⟩

end

/-- The scan comes to the extension block. -/
theorem exec_to_block (hwell : hello.WellFormed) (hstands : Stands buffer offset hello.bytes)
    (hl : offset + count ≤ buffer.size) (hroom : hello.bytes.length ≤ count) (hshort : hello.Short) :
    ∃ log, ∀ fuel, (getSNI buffer count fuel).exec { offset := offset } =
      (readExtensionBlock buffer (offset + count) fuel).exec ⟨(offset + hello.blockStart : Nat), log⟩ := by
  obtain ⟨hfirst, hsession, hsuites, hmethods, -⟩ := lengths_stand hwell hstands
  have hlength := length_bytes hwell
  have hsessionID := hwell.sessionID
  have hlimit : (offset : Int) + count ≤ buffer.size := by omega
  have hstart : hello.blockStart = 47 + hello.sessionID.length + hello.cipherSuites.length +
      hello.compressionMethods.length := rfl
  have hpos : offset + 43 + 1 + hello.sessionID.length = offset + 44 + hello.sessionID.length := by omega
  have hpos' : offset + 44 + hello.sessionID.length + 2 + hello.cipherSuites.length =
      offset + 46 + hello.sessionID.length + hello.cipherSuites.length := by omega
  have hpos'' : offset + 46 + hello.sessionID.length + hello.cipherSuites.length + 1 +
      hello.compressionMethods.length = offset + hello.blockStart := by omega
  have hfirstStage := leads_readSessionID hlimit (by omega) hsession (by omega)
  rw [hpos] at hfirstStage
  have hsecondStage := leads_readCipherSuites hlimit (by omega) hsuites hshort.cipherSuites
  rw [hpos'] at hsecondStage
  have hthirdStage := leads_readCompressionMethods hlimit (by omega) hmethods hshort.compressionMethods
  rw [hpos''] at hthirdStage
  obtain ⟨log, hlog⟩ := ((hfirstStage.trans hsecondStage).trans hthirdStage) _
  exact ⟨log, fun fuel => (exec_getSNI fuel hlimit (by omega) hfirst).trans (hlog fuel)⟩

section
variable {limit : Int} {pos : Nat} {log : List Action}

/-- What stands at `pos`, read as an extension block, holds no name. -/
def BlockUnnamed (buffer : Bytes Byte) (limit : Int) (pos : Nat) : Prop :=
  limit < pos + 2 ∨ limit < pos + 2 + (short buffer pos).toInt ∨ Unnamed buffer limit (pos + 2 : Nat)

theorem block_unnamed_iff (hl : limit ≤ buffer.size) :
    Yields (readExtensionBlock buffer limit) ⟨pos, log⟩ none ↔ BlockUnnamed buffer limit pos := by
  by_cases hroom : (pos : Int) + 2 ≤ limit
  · have hstep := fun fuel => exec_readExtensionBlock log fuel hl hroom
    rw [BlockUnnamed, or_iff_right (Int.not_lt.mpr hroom)]
    by_cases hbeyond : limit < (pos + 2 : Nat) + (short buffer pos).toInt
    · simp only [hbeyond, if_true] at hstep
      refine iff_of_true ((yields_returned fun fuel => ?_).mpr rfl) (.inl hbeyond)
      rw [hstep]
      rfl
    · simp only [hbeyond, if_false] at hstep
      rw [yields_congr hstep, yields_none_iff]
      exact (or_iff_right hbeyond).symm
  · refine iff_of_true ((yields_returned fun fuel => ?_).mpr rfl) (.inl (Int.not_le.mp hroom))
    by_cases hend : (pos : Int) = limit
    · simp [readExtensionBlock, Prog.exec_bind, hend]
    · simp [readExtensionBlock, Prog.exec_bind, hend, Int.not_le.mp hroom]

/-- The length of a block that is there does not stop the scan. -/
theorem leads_block {xs : List Byte} (hl : limit ≤ buffer.size) (hstands : Stands buffer pos (vector16 xs))
    (hlength : xs.length < 2 ^ 16) (hroom : (pos : Int) + 2 + xs.length ≤ limit) :
    Leads (readExtensionBlock buffer limit) (readExtensions buffer limit) pos (pos + 2) := by
  have hle : (short buffer pos).toInt ≤ xs.length := by
    rw [(stands_vector16.mp hstands).1, BitVec.toInt_eq_toNat_cond, BitVec.toNat_ofNat,
      Nat.mod_eq_of_lt hlength]
    split
    · exact Int.le_refl _
    · omega
  have hinside : ¬ limit < (pos + 2 : Nat) + (short buffer pos).toInt := by omega
  intro log
  refine ⟨log ++ shortLog pos, fun fuel => ?_⟩
  rw [exec_readExtensionBlock log fuel hl (by omega), if_neg hinside]

end

/-- With enough iterations `getSNI` returns `host`. -/
def Sniffs (buffer : Bytes Byte) (offset count : Nat) (host : Option (List Char)) : Prop :=
  Yields (getSNI buffer count) { offset := offset } host

/-- What follows a ClientHello without a server name is not read as one: the loop
goes on over it, and where there is no extension block it is taken for one. -/
def Quiet (buffer : Bytes Byte) (limit stop : Nat) (hello : ClientHello) : Prop :=
  match hello.extensions with
  | some _ => Unnamed buffer limit stop
  | none => BlockUnnamed buffer limit stop

/-- For lengths that are not negative to the code. -/
theorem sniffs_iff (h : Segment buffer offset count hello following) (hshort : hello.Short) :
    Sniffs buffer offset count hello.serverName ↔
      hello.serverName ≠ none ∨ Quiet buffer (offset + count) (offset + hello.bytes.length) hello := by
  obtain ⟨hbytes, hl, hwell⟩ := h
  have hcount : count = hello.bytes.length + following.length := by
    rw [← List.length_append, ← hbytes, Bytes.length_slice]
  have hstands : Stands buffer offset (hello.bytes ++ following) := by
    rw [Stands, ← hbytes, Bytes.length_slice]
  have hhello := (stands_append.mp hstands).1
  obtain ⟨log, hlog⟩ := exec_to_block hwell hhello hl (by omega) hshort
  obtain ⟨-, -, -, -, hblock⟩ := lengths_stand hwell hhello
  have hlength := length_bytes hwell
  have hlimit : (offset : Int) + count ≤ buffer.size := by omega
  rw [Sniffs, yields_congr hlog]
  cases hextensions : hello.extensions with
  | none =>
    have hnone : hello.serverName = none := by
      rw [ClientHello.serverName, hextensions]
      rfl
    have hempty : hello.extensionBytes = [] := by
      rw [ClientHello.extensionBytes, hextensions]
    rw [hempty, List.length_nil, Nat.add_zero] at hlength
    rw [hnone, block_unnamed_iff hlimit, hlength, or_iff_right (not_not.mpr rfl), Quiet, hextensions]
    rfl
  | some extensions =>
    have hsome : hello.extensionBytes = vector16 (extensions.flatMap Extension.bytes) := by
      rw [ClientHello.extensionBytes, hextensions]
    rw [hsome] at hblock hlength
    rw [length_vector16] at hlength
    have hmax : (extensions.flatMap Extension.bytes).length < 2 ^ 16 := by
      have hwhole := hwell.length
      simp only [ClientHello.handshake, ClientHello.body, hsome, List.length_cons, List.length_append,
        length_vector16] at hwhole
      omega
    have hin : ((offset + hello.blockStart : Nat) : Int) + 2 + (extensions.flatMap Extension.bytes).length ≤
        offset + count := by omega
    obtain ⟨log', hblockStep⟩ := leads_block hlimit hblock hmax hin log
    have hstandsHere := (stands_vector16.mp hblock).2
    have hwellHere := hwell.extensions
    have hshortHere := hshort.extensions
    rw [hextensions] at hwellHere hshortHere
    rw [yields_congr hblockStep]
    cases hhost : extensions.findSome? Extension.host with
    | some host =>
      have hname : hello.serverName = some (host.map fun b => codePoint b.toNat) := by
        rw [ClientHello.serverName, hextensions, Option.getD_some, hhost]
        rfl
      rw [hname]
      refine iff_of_true ?_ (.inl (Option.some_ne_none _))
      exact yields_named hlimit rfl hstandsHere (by omega) hwellHere hshortHere hhost
    | none =>
      have hname : hello.serverName = none := by
        rw [ClientHello.serverName, hextensions, Option.getD_some, hhost]
        rfl
      have hend : offset + hello.blockStart + 2 + (extensions.flatMap Extension.bytes).length =
          offset + hello.bytes.length := by omega
      rw [hname, or_iff_right (not_not.mpr rfl), Quiet, hextensions, yields_none_iff,
        unnamed_extensions hlimit hstandsHere (by omega) hwellHere hshortHere hhost, hend]
      rfl

/-- A server name is found, and the lack of one is noticed if what follows is not
read as one, unless a length is negative to the code; with such lengths alone
nothing is said. -/
theorem sniffs_when_quiet (h : Segment buffer offset count hello following) :
    (hello.Short ∧ (hello.serverName ≠ none ∨
        Quiet buffer (offset + count) (offset + hello.bytes.length) hello) →
      Sniffs buffer offset count hello.serverName) ∧
    (Sniffs buffer offset count hello.serverName → hello.Short →
      hello.serverName ≠ none ∨ Quiet buffer (offset + count) (offset + hello.bytes.length) hello) :=
  ⟨fun hquiet => (sniffs_iff h hquiet.1).mpr hquiet.2,
    fun hsniffs hshort => (sniffs_iff h hshort).mp hsniffs⟩

end

-- ---------------------------------------------------------------------------
-- Two hellos
-- ---------------------------------------------------------------------------

/-- One cipher suite, no compression and the given extensions. -/
def plainHello (extensions : Option (List Extension)) : ClientHello where
  recordVersion := [3, 1]
  version := [3, 3]
  random := List.replicate 32 0
  sessionID := []
  cipherSuites := [0x13, 0x01]
  compressionMethods := [0]
  extensions

/-- An array that holds a record, what follows it and no more. -/
def segmentOf (hello : ClientHello) (following : List Byte) : Bytes Byte :=
  .ofList 0 (hello.bytes ++ following)

def namedHello : ClientHello := plainHello (some [.serverName [0x61]])

def unnamedHello : ClientHello := plainHello (some [])

theorem segment_named : Segment (segmentOf namedHello []) 0 62 namedHello [] where
  bytes := by decide
  inside := by decide
  wellFormed := ⟨rfl, rfl, rfl, by decide, by decide, by decide,
    List.forall_mem_singleton.mpr ⟨by decide, by decide, by decide⟩, by decide⟩

theorem namedHello_sniffed : Sniffs (segmentOf namedHello []) 0 62 (some ['a']) :=
  (sniffs_when_quiet segment_named).1
    ⟨⟨by decide, by decide, by simp [namedHello, plainHello, ShortToName]⟩, .inl (by decide)⟩

/-- There is no extension, but a server name follows the record. -/
def nameBehind : List Byte := (Extension.serverName [0x61]).bytes

theorem segment_unnamed : Segment (segmentOf unnamedHello nameBehind) 0 62 unnamedHello nameBehind where
  bytes := by decide
  inside := by decide
  wellFormed := ⟨rfl, rfl, rfl, by decide, by decide, by decide, fun _ he => absurd he List.not_mem_nil,
    by decide⟩

/-- What follows is taken for the server name. -/
theorem unnamedHello_not_sniffed : ¬ ∀ (buffer : Bytes Byte) (offset count : Nat) (hello : ClientHello)
    (following : List Byte), Segment buffer offset count hello following →
      Sniffs buffer offset count hello.serverName := by
  intro hall
  have hsniffs := hall _ _ _ _ _ segment_unnamed
  obtain hnamed | hquiet := (sniffs_iff segment_unnamed ⟨by decide, by decide, trivial⟩).mp hsniffs
  · exact hnamed rfl
  · have hunnamed : Unnamed (segmentOf unnamedHello nameBehind) 62 52 := hquiet
    rw [unnamed_of_none (by decide)] at hunnamed
    obtain hover | ⟨length, hname, hbeyond⟩ := hunnamed
    · exact absurd hover (by decide)
    · have hsix : NameHeader (segmentOf unnamedHello nameBehind) 52 6 := ⟨rfl, rfl, rfl, by decide⟩
      rw [hname.length_eq hsix] at hbeyond
      exact absurd hbeyond (by decide)

end SmartSocks.Http
