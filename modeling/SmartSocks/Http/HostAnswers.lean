import SmartSocks.Http.Request

/-!
# Which hosts are found

Four of the eight methods that are dispatched are looked at. The value of the
`Host` field is found if a split at the colons leaves one piece of it. The lines
of the body are read as header lines too, so a host that is not found, or is not
there, may come from the body.
-/

namespace SmartSocks.Http

open Jvm Strings HttpHeaderParser

-- ---------------------------------------------------------------------------
-- One line
-- ---------------------------------------------------------------------------

/-- What the loop makes of one line. -/
def lineHost (line : List Char) : Option (List Char) :=
  match dropLastEmpty (Strings.splitAt ':' line) with
  | [name, value] => if trim (toLowerCase name) = "host".toList then some (trim value) else none
  | _ => none

/-- The first host in the lines of a text. -/
def firstHost (s : List Char) : Option (List Char) := (splitLines s).findSome? lineHost

/-- The one piece that a split of the value at its colons leaves. -/
def onlyPiece (value : List Char) : Option (List Char) :=
  match dropLastEmpty (Strings.splitAt ':' value) with
  | [piece] => some piece
  | _ => none

section
variable {name value : List Char}

theorem lineHost_nil : lineHost [] = none := rfl

theorem lineHost_field (hname : name ≠ []) (hcolon : ':' ∉ name) : lineHost (name ++ ':' :: value) =
    if trim (toLowerCase name) = "host".toList then (onlyPiece value).map trim else none := by
  rw [lineHost, splitAt_separator hcolon, dropLastEmpty_cons (.inl hname), onlyPiece]
  generalize dropLastEmpty (Strings.splitAt ':' value) = pieces
  cases pieces with
  | nil => simp
  | cons piece pieces =>
    cases pieces with
    | nil => simp
    | cons piece' pieces => simp

/-- A value without a colon is its own piece. -/
theorem onlyPiece_of_not_mem (h : ':' ∉ value) : onlyPiece value = if value = [] then none else some value := by
  rw [onlyPiece, splitAt_of_not_mem h]
  by_cases hnil : value = []
  · subst hnil
    rfl
  · rw [dropLastEmpty_cons (.inl hnil), if_neg hnil]
    rfl

theorem onlyPiece_bare {xs ys : List Char} (h : ':' ∉ xs) (hxs : xs ≠ []) (hys : ∀ c ∈ ys, c = ':') :
    onlyPiece (xs ++ ':' :: ys) = some xs := by
  rw [onlyPiece, splitAt_separator h, dropLastEmpty_cons (.inl hxs), dropLastEmpty_splitAt_eq_nil.mpr hys]

/-- Behind the first colon there may only be colons. -/
theorem onlyPiece_none {xs ys : List Char} (h : ':' ∉ xs) (hnot : xs = [] ∨ ∃ c ∈ ys, c ≠ ':') :
    onlyPiece (xs ++ ':' :: ys) = none := by
  rw [onlyPiece, splitAt_separator h]
  by_cases hys : ∀ c ∈ ys, c = ':'
  · obtain rfl | ⟨c, hc, hne⟩ := hnot
    · have hempty : ∀ piece ∈ [] :: Strings.splitAt ':' ys, piece = [] :=
        List.forall_mem_cons.mpr ⟨rfl, splitAt_empty.mpr hys⟩
      rw [dropLastEmpty_eq_nil.mpr hempty]
    · exact absurd (hys c hc) hne
  · have hrest : dropLastEmpty (Strings.splitAt ':' ys) ≠ [] := mt dropLastEmpty_splitAt_eq_nil.mp hys
    rw [dropLastEmpty_cons (.inr hrest)]
    obtain ⟨piece, pieces, hpieces⟩ := List.exists_cons_of_ne_nil hrest
    rw [hpieces]

end

-- ---------------------------------------------------------------------------
-- The fields of a request
-- ---------------------------------------------------------------------------

/-- The split leaves one piece of the value: there is no colon in it, or a port
without digits at its very end, and the piece is not empty. -/
def HostField.Plain (h : HostField) : Prop :=
  colon ∉ h.host ∧ (h.port = none ∧ h.left ++ (h.host ++ h.right) ≠ [] ∨
    h.port = some [] ∧ h.right = [] ∧ h.left ++ h.host ≠ [])

section
variable {f : Field} {h : HostField}

/-- A field as the loop sees it. -/
theorem decode_line (hf : f.WellFormed) : decodeUtf8 f.line = text f.label ++ ':' :: decodeUtf8 f.value := by
  have hlabel : ∀ b ∈ f.label, b.toNat < 0x80 := by
    simp only [Field.label, List.forall_mem_append]
    exact ⟨fun b hb => (hf.before b hb).ascii, fun b hb => (hf.name.2 b hb).1.ascii,
      fun b hb => (hf.after b hb).ascii⟩
  have hcolon : ∀ b ∈ (colon :: f.value).head?, b.toNat < 0x80 := by
    rintro _ ⟨⟩
    decide
  rw [Field.line, decodeUtf8_append hcolon, decodeUtf8_ascii hlabel, decode_ascii (by decide)]
  rfl

theorem trim_label (hf : f.WellFormed) : trim (toLowerCase (text f.label)) = toLowerCase (text f.name) := by
  have hlower {xs : List Char} {P : Char → Prop} (hxs : ∀ c ∈ xs, P c.toLower) : ∀ c ∈ toLowerCase xs, P c := by
    intro c hc
    obtain ⟨c', hc', rfl⟩ := List.mem_map.mp hc
    exact hxs c' hc'
  have hname : ∀ b ∈ f.name, IsVisible b := fun b hb => (hf.name.2 b hb).1
  rw [Field.label, text_append, text_append, toLowerCase, List.map_append, List.map_append]
  refine trim_padded (hlower fun c hc => ?_) (hlower (P := fun c => ¬ c ≤ ' ') fun c hc => ?_) (hlower fun c hc => ?_)
  · exact toLower_blank.mpr (IsBlank.text_blank hf.before c hc)
  · exact mt toLower_blank.mp (IsVisible.text_visible hname c hc)
  · exact toLower_blank.mpr (IsBlank.text_blank hf.after c hc)

theorem colon_mem_text {xs : List Byte} : ':' ∈ text xs ↔ colon ∈ xs := by
  have hcolon : ':' = codePoint colon.toNat := rfl
  rw [hcolon, mem_text]

theorem colon_not_mem_label (hf : f.WellFormed) : ':' ∉ text f.label := by
  rw [colon_mem_text, Field.label, List.mem_append, List.mem_append]
  rintro (hmem | hmem | hmem)
  · exact absurd (hf.before _ hmem) (by unfold IsBlank; decide)
  · exact (hf.name.2 _ hmem).2 rfl
  · exact absurd (hf.after _ hmem) (by unfold IsBlank; decide)

theorem lineHost_line (hf : f.WellFormed) : lineHost (decodeUtf8 f.line) =
    if toLowerCase (text f.name) = "host".toList then (onlyPiece (decodeUtf8 f.value)).map trim else none := by
  have hlabel : text f.label ≠ [] := by
    simp [text, Field.label, hf.name.1]
  rw [decode_line hf, lineHost_field hlabel (colon_not_mem_label hf), trim_label hf]

theorem decode_value (hh : h.WellFormed) : decodeUtf8 h.toField.value =
    text h.left ++ (text h.host ++ (text h.portBytes ++ text h.right)) := by
  have hport : ∀ b ∈ h.portBytes, b.toNat < 0x80 := by
    unfold HostField.portBytes
    cases hdigits : h.port with
    | none => exact fun b hb => absurd hb List.not_mem_nil
    | some digits =>
      refine List.forall_mem_cons.mpr ⟨by decide, fun b hb => ?_⟩
      exact Nat.lt_of_le_of_lt (hh.port digits hdigits b hb).2 (by decide)
  have hvalue : ∀ b ∈ h.toField.value, b.toNat < 0x80 := by
    simp only [HostField.toField, List.forall_mem_append]
    exact ⟨fun b hb => (hh.left b hb).ascii, fun b hb => (hh.host b hb).ascii, hport,
      fun b hb => (hh.right b hb).ascii⟩
  rw [decodeUtf8_ascii hvalue]
  simp only [HostField.toField, List.map_append, text]

theorem colon_not_blank {xs : List Byte} (hxs : ∀ b ∈ xs, IsBlank b) : ':' ∉ text xs :=
  fun hmem => absurd (IsBlank.text_blank hxs ':' hmem) (by decide)

theorem onlyPiece_plain (hh : h.WellFormed) (hplain : h.Plain) :
    (onlyPiece (decodeUtf8 h.toField.value)).map trim = some (text h.host) := by
  obtain ⟨hcolon, hport⟩ := hplain
  have hhost : ':' ∉ text h.host := mt colon_mem_text.mp hcolon
  have hleft := colon_not_blank hh.left
  have htrim : trim (text h.left ++ (text h.host ++ text h.right)) = text h.host :=
    trim_padded (IsBlank.text_blank hh.left) (IsVisible.text_visible hh.host) (IsBlank.text_blank hh.right)
  rw [decode_value hh]
  obtain ⟨hnone, hne⟩ | ⟨hempty, hright, hne⟩ := hport
  · have hvalue : ':' ∉ text h.left ++ (text h.host ++ text h.right) := by
      simp only [List.mem_append, not_or]
      exact ⟨hleft, hhost, colon_not_blank hh.right⟩
    have hnil : text h.left ++ (text h.host ++ text h.right) ≠ [] := by
      rw [← text_append, ← text_append]
      exact mt List.map_eq_nil_iff.mp hne
    have hbytes : text h.portBytes = [] := by rw [HostField.portBytes, hnone]; rfl
    rw [hbytes, List.nil_append, onlyPiece_of_not_mem hvalue, if_neg hnil, Option.map_some, htrim]
  · have hbytes : text h.portBytes = [':'] := by rw [HostField.portBytes, hempty]; rfl
    have hnil : text h.left ++ text h.host ≠ [] := by
      rw [← text_append]
      exact mt List.map_eq_nil_iff.mp hne
    have hno : ':' ∉ text h.left ++ text h.host := by
      rw [List.mem_append, not_or]
      exact ⟨hleft, hhost⟩
    have hrest : text h.right = [] := by rw [hright]; rfl
    rw [hrest, List.append_nil] at htrim
    rw [hbytes, hrest, List.append_nil, ← List.append_assoc, onlyPiece_bare hno hnil (by simp), Option.map_some,
      htrim]

theorem onlyPiece_not_plain (hh : h.WellFormed) (hplain : ¬ h.Plain) :
    onlyPiece (decodeUtf8 h.toField.value) = none := by
  have hleft := colon_not_blank hh.left
  rw [decode_value hh]
  by_cases hcolon : colon ∈ h.host
  · -- the first colon is in the brackets
    obtain ⟨inner, outer, hsplit, hfirst⟩ := List.eq_append_cons_of_mem hcolon
    have hlast := hh.brackets hcolon
    rw [hsplit, List.getLast?_append_of_ne_nil _ (List.cons_ne_nil _ _)] at hlast
    have hbracket : (0x5D : Byte) ∈ outer :=
      (List.mem_cons.mp (List.mem_of_getLast? hlast)).resolve_left (by decide)
    have hhost : text h.host = text inner ++ ':' :: text outer := by
      rw [hsplit, text_append]
      rfl
    have hno : ':' ∉ text h.left ++ text inner := by
      rw [List.mem_append, not_or]
      exact ⟨hleft, mt colon_mem_text.mp hfirst⟩
    have hmem : codePoint (0x5D : Byte).toNat ∈ text outer ++ (text h.portBytes ++ text h.right) :=
      List.mem_append_left _ (mem_text.mpr hbracket)
    have hnone := onlyPiece_none hno (.inr ⟨_, hmem, by decide⟩)
    rw [hhost, List.append_assoc, List.cons_append, ← List.append_assoc (text h.left)]
    exact hnone
  · have hhost : ':' ∉ text h.host := mt colon_mem_text.mp hcolon
    cases hport : h.port with
    | none =>
      have hempty : h.left ++ (h.host ++ h.right) = [] := by
        by_contra hne
        exact hplain ⟨hcolon, .inl ⟨hport, hne⟩⟩
      have hvalue : text h.left ++ (text h.host ++ (text h.portBytes ++ text h.right)) = [] := by
        simp only [List.append_eq_nil_iff] at hempty
        rw [hempty.1, hempty.2.1, hempty.2.2, HostField.portBytes, hport]
        rfl
      rw [hvalue]
      rfl
    | some digits =>
      have hbytes : text h.portBytes = ':' :: text digits := by rw [HostField.portBytes, hport]; rfl
      have hno : ':' ∉ text h.left ++ text h.host := by
        rw [List.mem_append, not_or]
        exact ⟨hleft, hhost⟩
      have hbehind : text h.left ++ text h.host = [] ∨ ∃ c ∈ text digits ++ text h.right, c ≠ ':' := by
        by_contra hnot
        rw [not_or, not_exists] at hnot
        obtain ⟨hne, hcolons⟩ := hnot
        have hall (b : Byte) (hb : b ∈ digits ++ h.right) : b = colon := by
          by_contra hother
          refine hcolons (codePoint b.toNat) ⟨?_, fun heq => hother (codePoint_inj.mp heq)⟩
          rw [← text_append]
          exact mem_text.mpr hb
        have hdigits : digits = [] := List.eq_nil_iff_forall_not_mem.mpr fun b hb =>
          absurd (hall b (List.mem_append_left _ hb) ▸ hh.port digits hport b hb) (by unfold IsDigit; decide)
        have hright : h.right = [] := List.eq_nil_iff_forall_not_mem.mpr fun b hb =>
          absurd (hall b (List.mem_append_right _ hb) ▸ hh.right b hb) (by unfold IsBlank; decide)
        rw [← text_append] at hne
        exact hplain ⟨hcolon, .inr ⟨hdigits ▸ hport, hright, mt (congrArg text) hne⟩⟩
      rw [hbytes, List.cons_append, ← List.append_assoc]
      exact onlyPiece_none hno hbehind

theorem lineHost_other (hf : f.WellFormed) (hother : ¬ f.IsHost) : lineHost (decodeUtf8 f.line) = none := by
  rw [lineHost_line hf]
  exact if_neg hother

theorem lineHost_plain (hh : h.WellFormed) (hplain : h.Plain) :
    lineHost (decodeUtf8 h.toField.line) = some (text h.host) := by
  rw [lineHost_line hh.field, onlyPiece_plain hh hplain]
  exact if_pos hh.isHost

theorem lineHost_not_plain (hh : h.WellFormed) (hplain : ¬ h.Plain) :
    lineHost (decodeUtf8 h.toField.line) = none := by
  rw [lineHost_line hh.field, onlyPiece_not_plain hh hplain]
  exact if_pos hh.isHost

end

-- ---------------------------------------------------------------------------
-- The lines of a request
-- ---------------------------------------------------------------------------

/-- The methods that `getHttpHost` looks at. -/
def Method.accepted : Method → Bool
  | .GET | .HEAD | .POST | .OPTIONS => true
  | .PUT | .DELETE | .TRACE | .CONNECT => false

section
variable {r : Request}

theorem splitLines_bytes {xs : List Byte} (h : OfLine xs) (ys : List Byte) :
    splitLines (decodeUtf8 (xs ++ (crlf ++ ys))) = decodeUtf8 xs :: splitLines (decodeUtf8 ys) := by
  have hcr : ∀ b ∈ (crlf ++ ys).head?, b.toNat < 0x80 := by
    rintro _ ⟨⟩
    decide
  have hcrlf : decodeUtf8 (crlf ++ ys) = '\r' :: '\n' :: decodeUtf8 ys :=
    (decode_ascii (by decide)).trans (congrArg _ (decode_ascii (by decide)))
  rw [decodeUtf8_append hcr, hcrlf, splitLines_line (cr_not_mem h)]

theorem line_ofLine {f : Field} (hf : f.WellFormed) : OfLine f.line := by
  have hblank {xs : List Byte} (hxs : ∀ b ∈ xs, IsBlank b) : OfLine xs := by
    intro b hb
    obtain rfl | rfl := hxs b hb
    · decide
    · decide
  have hname : OfLine f.name := by
    intro b hb
    have hvisible := (hf.name.2 b hb).1.1
    refine ⟨?_, ?_⟩
    · rintro rfl
      exact absurd hvisible (by decide)
    · rintro rfl
      exact absurd hvisible (by decide)
  simp only [OfLine, Field.line, Field.label, List.forall_mem_append, List.forall_mem_cons]
  exact ⟨⟨hblank hf.before, hname, hblank hf.after⟩, by decide, hf.value⟩

/-- The header fields, one line each. -/
theorem splitLines_fields {fields : List Field} (h : ∀ f ∈ fields, f.WellFormed) (ys : List Byte) :
    splitLines (decodeUtf8 (fields.flatMap (fun f => f.line ++ crlf) ++ ys)) =
      fields.map (fun f => decodeUtf8 f.line) ++ splitLines (decodeUtf8 ys) := by
  induction fields with
  | nil => rfl
  | cons f fields ih =>
    obtain ⟨hf, hfields⟩ := List.forall_mem_cons.mp h
    rw [List.flatMap_cons, List.append_assoc, List.append_assoc, splitLines_bytes (line_ofLine hf), ih hfields]
    rfl

theorem method_ofLine (m : Method) : OfLine m.bytes := by
  cases m <;> decide

theorem method_ascii (m : Method) : ∀ b ∈ m.bytes, b.toNat < 0x80 := by
  have hall : m.bytes.all (fun b => b.toNat < 0x80) = true := by
    cases m <;> rfl
  exact fun b hb => of_decide_eq_true (List.all_eq_true.mp hall b hb)

theorem method_ne_nil (m : Method) : text m.bytes ≠ [] := by
  cases m <;> exact List.cons_ne_nil _ _

theorem requestLine_ofLine (hr : r.WellFormed) : OfLine r.requestLine := by
  have hmethod := method_ofLine r.method
  have htarget := hr.target
  have hversion := hr.version
  simp only [OfLine, Request.requestLine, List.forall_mem_append, List.forall_mem_cons] at hmethod htarget hversion ⊢
  exact ⟨hmethod, by decide, htarget, by decide, hversion⟩

theorem fields_wellFormed (hr : r.WellFormed) : ∀ f ∈ r.fields, f.WellFormed := by
  simp only [Request.fields, List.forall_mem_append, List.forall_mem_map, Option.mem_toList]
  exact ⟨fun f hf => (hr.leading f hf).1, fun h hh => (hr.host h hh).field, fun f hf => (hr.trailing f hf).1⟩

/-- The lines that `getHttpHost` comes to. -/
theorem splitLines_request (hr : r.WellFormed) : splitLines (decodeUtf8 r.bytes) =
    decodeUtf8 r.requestLine :: (r.fields.map (fun f => decodeUtf8 f.line) ++
      [] :: splitLines (decodeUtf8 r.body)) := by
  have hnil : OfLine [] := by decide
  have hempty := splitLines_bytes hnil r.body
  rw [decode_nil, List.nil_append] at hempty
  rw [Request.bytes, splitLines_bytes (requestLine_ofLine hr), splitLines_fields (fields_wellFormed hr), hempty]

/-- What the header fields give. -/
theorem findSome_fields (hr : r.WellFormed) :
    (r.fields.map fun f => decodeUtf8 f.line).findSome? lineHost =
      r.host.bind fun h => lineHost (decodeUtf8 h.toField.line) := by
  have hothers {fields : List Field} (h : ∀ f ∈ fields, f.WellFormed ∧ ¬ f.IsHost) :
      (fields.map fun f => decodeUtf8 f.line).findSome? lineHost = none := by
    refine List.findSome?_eq_none_iff.mpr (List.forall_mem_map.mpr fun f hf => ?_)
    exact lineHost_other (h f hf).1 (h f hf).2
  rw [Request.fields, List.map_append, List.map_append, List.findSome?_append, List.findSome?_append,
    hothers hr.leading, hothers hr.trailing, Option.none_or, Option.or_none]
  cases r.host with
  | none => rfl
  | some h => simp

/-- `requestLine.startsWith`, for a request line that begins with the method. -/
theorem method_accepted (m : Method) (rest : List Char) :
    ("GET".toList.isPrefixOf (text m.bytes ++ rest) || "POST".toList.isPrefixOf (text m.bytes ++ rest) ||
      "HEAD".toList.isPrefixOf (text m.bytes ++ rest) || "OPTIONS".toList.isPrefixOf (text m.bytes ++ rest)) =
      m.accepted := by
  cases m <;> rfl

end

-- ---------------------------------------------------------------------------
-- The host of a request
-- ---------------------------------------------------------------------------

/-- The segment of `count` bytes is the request. -/
structure RequestSegment (buffer : Bytes Byte) (offset count : Nat) (r : Request) : Prop where
  bytes : buffer.slice offset count = r.bytes
  inside : offset + count ≤ buffer.size
  wellFormed : r.WellFormed

/-- The host is found in its field, or in the body where the field is missed or
missing. -/
def Request.Answered (r : Request) : Prop :=
  match r.host with
  | none => r.method.accepted = true → firstHost (decodeUtf8 r.body) = none
  | some h => r.method.accepted = true ∧ (h.Plain ∨ firstHost (decodeUtf8 r.body) = some (text h.host))

section
variable {buffer : Bytes Byte} {offset count : Nat} {r : Request}

/-- The field comes before the body. -/
def Request.found (r : Request) : Option (List Char) :=
  if r.method.accepted = true then
    (r.host.bind fun h => lineHost (decodeUtf8 h.toField.line)).or (firstHost (decodeUtf8 r.body))
  else none

theorem getHttpHost_request (h : RequestSegment buffer offset count r) :
    getHttpHost buffer offset count = .ok r.found := by
  obtain ⟨hbytes, hinside, hr⟩ := h
  have hrange : ¬ ((offset : Int) < 0 ∨ (count : Int) < 0 ∨ (buffer.size : Int) < offset + count) := by omega
  have hspace : ∀ b ∈ (space :: (r.target ++ space :: r.version)).head?, b.toNat < 0x80 := by
    rintro _ ⟨⟩
    decide
  have hline : decodeUtf8 r.requestLine =
      text r.method.bytes ++ decodeUtf8 (space :: (r.target ++ space :: r.version)) := by
    rw [Request.requestLine, decodeUtf8_append hspace, decodeUtf8_ascii (method_ascii r.method)]
    rfl
  have hne : decodeUtf8 r.requestLine ≠ [] := by
    rw [hline]
    exact List.append_ne_nil_of_left_ne_nil (method_ne_nil r.method) _
  have hlines : dropLastEmpty (splitLines (decodeUtf8 (buffer.slice offset count))) =
      decodeUtf8 r.requestLine :: dropLastEmpty (r.fields.map (fun f => decodeUtf8 f.line) ++
        [] :: splitLines (decodeUtf8 r.body)) := by
    rw [hbytes, splitLines_request hr, dropLastEmpty_cons (.inl hne)]
  have hfound : (dropLastEmpty (r.fields.map (fun f => decodeUtf8 f.line) ++
      [] :: splitLines (decodeUtf8 r.body))).findSome? lineHost =
      (r.host.bind fun h => lineHost (decodeUtf8 h.toField.line)).or (firstHost (decodeUtf8 r.body)) := by
    rw [findSome_dropLastEmpty lineHost_nil, List.findSome?_append, findSome_fields hr, List.findSome?_cons,
      lineHost_nil]
    rfl
  unfold getHttpHost
  rw [if_neg hrange, Int.toNat_natCast, Int.toNat_natCast, hlines]
  simp only [hline, method_accepted]
  rw [Request.found, ← hfound]
  split
  · rfl
  · rfl

theorem method_initial (m : Method) : ∃ first rest, m.bytes = first :: rest ∧ first ∈ methodInitials := by
  cases m <;> exact ⟨_, _, rfl, by decide⟩

/-- The first byte is dispatched on. -/
theorem first_byte (h : RequestSegment buffer offset count r) :
    ∃ first, buffer.get offset = .ok first ∧ first ∈ methodInitials := by
  obtain ⟨hbytes, hinside, -⟩ := h
  obtain ⟨first, rest, hmethod, hinitial⟩ := method_initial r.method
  rw [Request.bytes, Request.requestLine, hmethod] at hbytes
  refine ⟨first, ?_, hinitial⟩
  cases count with
  | zero => cases hbytes
  | succ count =>
    have hone : buffer.slice offset 1 = [buffer.cell offset] := rfl
    rw [Nat.add_comm, buffer.slice_add, hone] at hbytes
    have hcell : buffer.cell offset = first := (List.cons.inj hbytes).1
    rw [Bytes.get, if_pos (by omega), Int.toNat_natCast, hcell]

theorem parseHost_request (h : RequestSegment buffer offset count r) (fuel : Nat) :
    parseHost buffer offset count fuel = .returned r.found := by
  obtain ⟨first, hfirst, hinitial⟩ := first_byte h
  rw [parseHost, hfirst]
  simp only [hinitial, if_true, getHttpHost_request h]

/-- The host of a request is found. -/
theorem parseHost_host_iff (h : RequestSegment buffer offset count r) (fuel : Nat) :
    parseHost buffer offset count fuel = .returned r.hostName ↔ r.Answered := by
  have hr := h.wellFormed
  rw [parseHost_request h, Fate.returned.injEq, Request.found, Request.hostName, Request.Answered]
  cases hhost : r.host with
  | none =>
    by_cases hmethod : r.method.accepted = true
    · simp [hmethod]
    · simp [hmethod]
  | some host =>
    have hh := hr.host host hhost
    by_cases hmethod : r.method.accepted = true
    · by_cases hplain : host.Plain
      · simp [hmethod, hplain, lineHost_plain hh hplain]
      · simp [hmethod, hplain, lineHost_not_plain hh hplain]
    · simp [hmethod]

end

-- ---------------------------------------------------------------------------
-- Two requests
-- ---------------------------------------------------------------------------

/-- A request for `/` with one field. -/
def plainRequest (host : HostField) : Request where
  method := .GET
  target := ascii "/"
  version := ascii "HTTP/1.1"
  leading := []
  host := some host
  trailing := []
  body := []

/-- `Host: a`, with a port or without. -/
def hostField (port : Option (List Byte)) : HostField where
  before := []
  name := ascii "Host"
  after := []
  left := [0x20]
  host := ascii "a"
  port
  right := []

def segmentOfRequest (r : Request) : Bytes Byte := .ofList 0 r.bytes

/-- `:80` or no port. -/
theorem hostField_wellFormed {port : Option (List Byte)} (hport : port = none ∨ port = some (ascii "80")) :
    (hostField port).WellFormed where
  field := {
    before := fun _ hb => absurd hb List.not_mem_nil
    name := by
      have hname : ascii "Host" ≠ [] ∧ ∀ b ∈ ascii "Host", IsVisible b ∧ b ≠ colon :=
        ⟨by decide, by unfold IsVisible; decide⟩
      exact hname
    after := fun _ hb => absurd hb List.not_mem_nil
    value := by
      obtain rfl | rfl := hport
      · decide
      · decide }
  isHost := by
    have hname : toLowerCase (text (ascii "Host")) = "host".toList := by decide
    exact hname
  left := List.forall_mem_singleton.mpr (.inl rfl)
  host := List.forall_mem_singleton.mpr (by unfold IsVisible; decide)
  brackets := fun hmem => absurd hmem (by decide : colon ∉ ascii "a")
  port := by
    obtain rfl | rfl := hport
    · exact fun _ hdigits => nomatch hdigits
    · have hdigits : ∀ b ∈ ascii "80", IsDigit b := by unfold IsDigit; decide
      exact fun _ hmem => Option.some.inj hmem ▸ hdigits
  right := fun _ hb => absurd hb List.not_mem_nil

theorem segment_plain {port : Option (List Byte)} (hport : port = none ∨ port = some (ascii "80")) :
    RequestSegment (segmentOfRequest (plainRequest (hostField port))) 0 (plainRequest (hostField port)).bytes.length
      (plainRequest (hostField port)) where
  bytes := Bytes.slice_ofList _ _
  inside := Nat.le_of_eq (Nat.zero_add _)
  wellFormed := {
    target := (by decide : OfLine (ascii "/"))
    version := (by decide : OfLine (ascii "HTTP/1.1"))
    leading := fun _ hf => absurd hf List.not_mem_nil
    host := fun _ hh => Option.some.inj hh ▸ hostField_wellFormed hport
    trailing := fun _ hf => absurd hf List.not_mem_nil }

theorem plainRequest_host_found : parseHost (segmentOfRequest (plainRequest (hostField none))) 0
    (plainRequest (hostField none)).bytes.length 0 = .returned (some ['a']) :=
  (parseHost_host_iff (segment_plain (.inl rfl)) 0).mpr ⟨rfl, .inl ⟨by decide, .inl ⟨rfl, by decide⟩⟩⟩

/-- `Host: a:80`. -/
theorem plainRequest_host_missed : ¬ ∀ (buffer : Bytes Byte) (offset count : Nat) (r : Request) (fuel : Nat),
    RequestSegment buffer offset count r → parseHost buffer offset count fuel = .returned r.hostName := by
  intro hall
  have hsegment := segment_plain (.inr rfl)
  have hfound := (parseHost_request hsegment 0).symm.trans (hall _ _ _ _ 0 hsegment)
  have hline : lineHost (decodeUtf8 (hostField (some (ascii "80"))).toField.line) = none := by
    refine lineHost_not_plain (hostField_wellFormed (.inr rfl)) ?_
    rintro ⟨-, ⟨hnone, -⟩ | ⟨hempty, -⟩⟩
    · cases hnone
    · exact absurd (Option.some.inj hempty) (by decide)
  have hbody : firstHost (decodeUtf8 []) = none := by rw [decode_nil]; rfl
  have hnone : (plainRequest (hostField (some (ascii "80")))).found = none := by
    have hmethod : Method.GET.accepted = true := rfl
    simp only [Request.found, plainRequest, hmethod, if_true, Option.bind_some, hline, hbody, Option.or_none]
  rw [hnone] at hfound
  cases Fate.returned.inj hfound

end SmartSocks.Http
