import SmartSocks.Crypto.Stream

/-!
# The two ends of a `stream.c` connection

The nonce may come in any number of pieces, and the filter is asked once it is
complete. What is behind it is decrypted as it was encrypted, whatever the chunks of
the two ends are.
-/

namespace SmartSocks.Crypto.Server

open EasyValue

/-- The methods that mbed TLS or libsodium has. -/
def StreamT.Ready (cipher : StreamT) : Prop :=
  cipher.method.sodium = (stream_get_cipher_type cipher.method).isNone

theorem ready_of_init {method : Method} {key : List Byte} {ecb : List Byte → List Byte → List Byte}
    {crypto_md5 : List Byte → List Byte} {cipher : StreamT}
    (h : stream_key_init method key ecb crypto_md5 = some cipher) : cipher.Ready := by
  cases method <;> cases h <;> rfl

section
variable (cipher : StreamT)

/-- The state of a new context with this nonce. -/
def StreamT.start (nonce : List Byte) : Evp ⊕ List Byte × Nat :=
  match (cipher_ctx_set_nonce cipher (stream_ctx_init cipher [] false) nonce).evp with
  | some evp => .inl evp
  | none => .inr (nonce, 0)

/-- What a context has made of the bytes behind the nonce, for as long as there is key stream. -/
structure Streamed (bytes plain : List Byte) (ctx : StreamCtx) : Prop where
  init : ctx.init = if plain ≠ [] ∧ cipher.method.screened = true then 2 else 1
  long : cipher.nonce_len ≤ bytes.length
  nonce : ctx.nonce = bytes.take cipher.nonce_len
  length : plain.length = (bytes.drop cipher.nonce_len).length
  evp : cipher.method.sodium = false → ctx.evp.isSome
  content : (cipher.method.sodium = true → (bytes.drop cipher.nonce_len).length < cipher.limit) →
    plain = (cipher.transducer true).output (cipher.start ctx.nonce) (bytes.drop cipher.nonce_len) ∧
      ctx.Runs cipher ((cipher.transducer true).next (cipher.start ctx.nonce) (bytes.drop cipher.nonce_len)) ∧
      (cipher.method.sodium = true → ctx.counter = (bytes.drop cipher.nonce_len).length)

/-- What a context that decrypts has made of all bytes so far. -/
inductive StreamReceived (bytes plain : List Byte) (ctx : StreamCtx) : Prop
  | nonce (init : ctx.init = 0) (chunk : ctx.chunk = bytes)
      (evp : ctx.evp = (stream_ctx_init cipher [] false).evp)
      (short : bytes = [] ∨ bytes.length < cipher.nonce_len) (none : plain = [])
  | stream (h : Streamed cipher bytes plain ctx)

/-- What a call makes of the bytes so far, and of the filter. -/
inductive StreamDecrypts (pp : Ppbloom) (bytes plain : List Byte) :
    Verdict × List Byte × StreamCtx × Ppbloom → Prop
  | needMore (out : List Byte) (ctx : StreamCtx) (h : StreamReceived cipher bytes plain ctx) :
      StreamDecrypts pp bytes plain (.needMore, out, ctx, pp)
  | ok (out : List Byte) (ctx : StreamCtx) (h : Streamed cipher bytes (plain ++ out) ctx) (some : out ≠ []) :
      StreamDecrypts pp bytes plain
        (.ok, out, ctx,
          if plain = [] ∧ cipher.method.screened = true then ppbloom_add pp (bytes.take cipher.nonce_len) else pp)
  | repeated (out : List Byte) (ctx : StreamCtx) (none : plain = []) (long : cipher.nonce_len ≤ bytes.length)
      (screened : cipher.method.screened = true)
      (h : ppbloom_check pp (bytes.take cipher.nonce_len) = true) :
      StreamDecrypts pp bytes plain (.error, out, ctx, pp)

end

variable {cipher : StreamT} {ctx : StreamCtx} {bytes plain : List Byte}

theorem cipher_ctx_set_nonce_eq (cipher : StreamT) (ctx : StreamCtx) (nonce : List Byte) :
    cipher_ctx_set_nonce cipher ctx nonce =
      { ctx with evp := (cipher_ctx_set_nonce cipher ctx nonce).evp } := by
  simp only [cipher_ctx_set_nonce]
  split <;> rfl

theorem cipher_ctx_set_nonce_evp {ctx' : StreamCtx} (h : ctx.evp = ctx'.evp) (nonce : List Byte) :
    (cipher_ctx_set_nonce cipher ctx nonce).evp = (cipher_ctx_set_nonce cipher ctx' nonce).evp := by
  simp only [cipher_ctx_set_nonce]
  split
  · exact h
  · simp only [h]

/-- A new context whose nonce has just been set. -/
theorem runs_start (hc : cipher.Ready) {nonce : List Byte} (hnonce : ctx.nonce = nonce)
    (hevp : ctx.evp = (stream_ctx_init cipher [] false).evp) {ctx' : StreamCtx}
    (hctx' : ctx' = { cipher_ctx_set_nonce cipher ctx nonce with counter := 0, init := 1 }) :
    ctx'.Runs cipher (cipher.start nonce) ∧ (cipher.method.sodium = false → ctx'.evp.isSome) ∧
      ctx'.nonce = nonce := by
  have hnonce' : ctx'.nonce = nonce := by
    rw [hctx', cipher_ctx_set_nonce_eq]
    exact hnonce
  have hcounter : ctx'.counter = 0 := by rw [hctx']
  have hevp' : ctx'.evp = (cipher_ctx_set_nonce cipher (stream_ctx_init cipher [] false) nonce).evp := by
    rw [hctx']
    exact cipher_ctx_set_nonce_evp hevp nonce
  rw [StreamT.start, ← hevp']
  cases hm : cipher.method.sodium with
  | false =>
    rw [StreamT.Ready, hm] at hc
    have hsome : ctx'.evp.isSome := by
      rw [hevp']
      simp only [cipher_ctx_set_nonce, hm, stream_ctx_init]
      simpa using hc
    obtain ⟨evp, heq⟩ := Option.isSome_iff_exists.mp hsome
    rw [heq]
    exact ⟨.evp evp hm heq, fun _ => rfl, hnonce'⟩
  | true =>
    rw [StreamT.Ready, hm] at hc
    have hnone : ctx'.evp = none := by
      rw [hevp']
      simp only [cipher_ctx_set_nonce, hm, stream_ctx_init]
      simpa using hc
    have hruns : ctx'.Runs cipher (.inr (ctx'.nonce, ctx'.counter)) := .sodium hm
    rw [hnonce', hcounter] at hruns
    rw [hnone]
    exact ⟨hruns, nofun, hnonce'⟩

theorem length_crypto_stream_xor_ic (hm : cipher.method.sodium = true) (m n : List Byte) (ic : BitVec 64)
    (k : List Byte) : (crypto_stream_xor_ic m n ic k cipher.method).length = m.length := by
  cases h : cipher.method with
  | SALSA20 => rw [crypto_stream_xor_ic, crypto_stream_salsa20_xor_ic_eq, Transducer.length_output]
  | CHACHA20 => rw [crypto_stream_xor_ic, crypto_stream_chacha20_xor_ic_eq, Transducer.length_output]
  | CHACHA20IETF => rw [crypto_stream_xor_ic, crypto_stream_chacha20_ietf_xor_ic_eq, Transducer.length_output]
  | _ => simp [h, Method.sodium] at hm

/-- Without a limit, only the lengths are known. -/
theorem stream_update_some {decrypt : Bool} {input out : List Byte} {ctx' : StreamCtx}
    (h : stream_update cipher decrypt ctx input = some (out, ctx')) :
    out.length = input.length ∧ ctx' = { ctx with evp := ctx'.evp, counter := ctx'.counter } ∧
      ctx'.evp.isSome = ctx.evp.isSome := by
  simp only [stream_update] at h
  split at h
  next hm =>
    cases h
    refine ⟨?_, rfl, rfl⟩
    rw [List.length_take, List.length_drop, length_crypto_stream_xor_ic hm, List.length_append,
      List.length_replicate]
    omega
  next hm =>
    obtain ⟨evp, hevp, heq⟩ := Option.map_eq_some_iff.mp h
    cases heq
    exact ⟨Transducer.length_output .., rfl, by rw [hevp]; rfl⟩

theorem StreamCtx.Runs.with_init {s : Evp ⊕ List Byte × Nat} (h : ctx.Runs cipher s) (init : Nat) :
    StreamCtx.Runs cipher { ctx with init := init } s := by
  cases h with
  | evp evp hm heq => exact .evp evp hm heq
  | sodium hm => exact .sodium hm

theorem stream_update_isSome {decrypt : Bool} (hevp : cipher.method.sodium = false → ctx.evp.isSome)
    (input : List Byte) : ∃ out ctx', stream_update cipher decrypt ctx input = some (out, ctx') := by
  simp only [stream_update]
  cases hm : cipher.method.sodium with
  | true => exact ⟨_, _, rfl⟩
  | false =>
    obtain ⟨evp, heq⟩ := Option.isSome_iff_exists.mp (hevp hm)
    rw [heq]
    exact ⟨_, _, rfl⟩

theorem Streamed.append (h : Streamed cipher bytes plain ctx) {c out : List Byte} (hc : c ≠ []) {ctx' : StreamCtx}
    (hupdate : stream_update cipher true ctx c = some (out, ctx')) :
    out ≠ [] ∧ ctx'.init = ctx.init ∧ ctx'.nonce = ctx.nonce ∧
      Streamed cipher (bytes ++ c) (plain ++ out)
        { ctx' with init := if cipher.method.screened = true then 2 else 1 } := by
  obtain ⟨hlength, hframe, hevp⟩ := stream_update_some hupdate
  have hout : out ≠ [] := by
    rintro rfl
    exact hc (List.length_eq_zero_iff.mp hlength.symm)
  have hinit : ctx'.init = ctx.init := by rw [hframe]
  have hnonce : ctx'.nonce = ctx.nonce := by rw [hframe]
  have htake : (bytes ++ c).take cipher.nonce_len = bytes.take cipher.nonce_len :=
    List.take_append_of_le_length h.long
  have hdrop : (bytes ++ c).drop cipher.nonce_len = bytes.drop cipher.nonce_len ++ c :=
    List.drop_append_of_le_length h.long
  refine ⟨hout, hinit, hnonce, ⟨by simp [hout], ?_, (hnonce.trans h.nonce).trans htake.symm, ?_, ?_, ?_⟩⟩
  · rw [List.length_append]
    exact Nat.le_add_right_of_le h.long
  · rw [hdrop, List.length_append, List.length_append, h.length, hlength]
  · rw [hevp]
    exact h.evp
  · intro hroom
    rw [hdrop] at hroom ⊢
    rw [List.length_append] at hroom
    obtain ⟨hplain, hruns, hcounter⟩ := h.content fun hm => Nat.lt_of_le_of_lt (Nat.le_add_right ..) (hroom hm)
    obtain ⟨ctx'', hupdate', hruns', -, hcounter'⟩ :=
      stream_update_spec true hruns fun hm => (hcounter hm).symm ▸ hroom hm
    cases hupdate.symm.trans hupdate'
    have hstart : cipher.start ctx'.nonce = cipher.start ctx.nonce := by rw [hnonce]
    simp only [hstart]
    refine ⟨?_, ?_, fun hm => ?_⟩
    · rw [Transducer.output_append, ← hplain]
    · rw [Transducer.next_append]
      exact hruns'.with_init _
    · rw [hcounter' hm, hcounter hm, List.length_append]

theorem streamDecryptRest_spec (h : Streamed cipher bytes plain ctx) (pp : Ppbloom) (c : List Byte) :
    StreamDecrypts cipher pp (bytes ++ c) plain (streamDecryptRest cipher pp c ctx) := by
  rw [streamDecryptRest]
  split
  next hempty =>
    obtain rfl : c = [] := List.length_eq_zero_iff.mp (Nat.le_zero.mp hempty)
    rw [List.append_nil]
    exact .needMore [] ctx (.stream h)
  next hsome =>
    have hne : c ≠ [] := by
      rintro rfl
      exact hsome le_rfl
    obtain ⟨out, ctx', hupdate⟩ := stream_update_isSome h.evp c
    obtain ⟨hout, hinit, hnonce, hstreamed⟩ := h.append hne hupdate
    have htake : (bytes ++ c).take cipher.nonce_len = bytes.take cipher.nonce_len :=
      List.take_append_of_le_length h.long
    have hold := h.init
    simp only [hupdate]
    by_cases hadd : plain = [] ∧ cipher.method.screened = true
    · have hadded : ppbloom_add pp (ctx'.nonce.take cipher.nonce_len) =
          if plain = [] ∧ cipher.method.screened = true then
            ppbloom_add pp ((bytes ++ c).take cipher.nonce_len) else pp := by
        rw [if_pos hadd, htake, hnonce, h.nonce, List.take_take, Nat.min_self]
      rw [if_neg (by simp [hadd.1])] at hold
      rw [if_pos ⟨hinit.trans hold, hadd.2⟩, hadded]
      rw [if_pos hadd.2] at hstreamed
      exact .ok out _ hstreamed hout
    · have hkept : (.ok, out, ctx', pp) = ((.ok, out, ctx',
          if plain = [] ∧ cipher.method.screened = true then
            ppbloom_add pp ((bytes ++ c).take cipher.nonce_len) else pp) :
          Verdict × List Byte × StreamCtx × Ppbloom) := by rw [if_neg hadd]
      have hlast : ctx'.init = if cipher.method.screened = true then 2 else 1 := by
        rw [hinit, hold]
        by_cases hm : cipher.method.screened = true
        · have hplain : plain ≠ [] := fun hnone => hadd ⟨hnone, hm⟩
          rw [if_pos ⟨hplain, hm⟩, if_pos hm]
        · rw [if_neg fun h => hm h.2, if_neg hm]
      rw [← hlast] at hstreamed
      rw [if_neg, hkept]
      · exact .ok out _ hstreamed hout
      · rintro ⟨hone, hm⟩
        rw [if_pos hm, hone] at hlast
        cases hlast

theorem stream_decrypt_spec (hc : cipher.Ready) (h : StreamReceived cipher bytes plain ctx) (pp : Ppbloom)
    (c : List Byte) : StreamDecrypts cipher pp (bytes ++ c) plain (stream_decrypt cipher pp c ctx) := by
  cases h with
  | stream h =>
    have hinit : ctx.init ≠ 0 := by
      rw [h.init]
      split <;> decide
    rw [stream_decrypt, if_neg hinit]
    exact streamDecryptRest_spec h pp c
  | nonce init chunk evp short none =>
    subst none
    rw [stream_decrypt, if_pos init, chunk]
    have hle : bytes.length ≤ cipher.nonce_len := by
      rcases short with rfl | hlt
      · exact Nat.zero_le _
      · exact Nat.le_of_lt hlt
    generalize hleft : min (cipher.nonce_len - bytes.length) c.length = left_len
    have hsplit : bytes ++ c = bytes ++ c.take left_len ++ c.drop left_len := by
      rw [List.append_assoc, List.take_append_drop]
    have hlength : (bytes ++ c.take left_len).length = bytes.length + left_len := by
      rw [List.length_append, List.length_take_of_le (by omega)]
    simp only
    split
    next hshort =>
      -- all of it belongs to the nonce
      have hall : c.length ≤ left_len := by omega
      refine .needMore _ _ (.nonce init ?_ evp (.inr ?_) rfl)
      · rw [List.take_of_length_le hall]
      · rw [List.take_of_length_le hall] at hshort
        exact hshort
    next hlong =>
      have hwhole : (bytes ++ c.take left_len).length = cipher.nonce_len := by omega
      have htake : (bytes ++ c).take cipher.nonce_len = bytes ++ c.take left_len := by
        rw [hsplit, List.take_left' hwhole]
      rw [List.take_of_length_le (Nat.le_of_eq hwhole)]
      split
      next hrepeated =>
        refine .repeated _ _ rfl ?_ hrepeated.1 (htake.symm ▸ hrepeated.2)
        rw [List.length_append]
        omega
      next hfresh =>
        rw [hsplit]
        refine streamDecryptRest_spec ?_ pp _
        generalize bytes ++ c.take left_len = nonce at hwhole
        have hdrop : nonce.drop cipher.nonce_len = [] := List.drop_of_length_le (Nat.le_of_eq hwhole)
        generalize hctx' : { cipher_ctx_set_nonce cipher { ctx with chunk := nonce, nonce := nonce } nonce with
          counter := 0, init := 1 } = ctx'
        have hinit' : ctx'.init = 1 ∧ ctx'.counter = 0 := by
          rw [← hctx']
          exact ⟨rfl, rfl⟩
        have hevp : { ctx with chunk := nonce, nonce := nonce }.evp = (stream_ctx_init cipher [] false).evp := evp
        obtain ⟨hruns, hsome, hnonce'⟩ := runs_start hc rfl hevp hctx'.symm
        refine ⟨hinit'.1, Nat.le_of_eq hwhole.symm, ?_, by rw [hdrop], hsome, fun _ => ?_⟩
        · rw [hnonce', List.take_of_length_le (Nat.le_of_eq hwhole)]
        · rw [hdrop, hnonce']
          exact ⟨rfl, hruns, fun _ => hinit'.2⟩

-- ---------------------------------------------------------------------------
-- The sent stream
-- ---------------------------------------------------------------------------

/-- As many bytes as there is key stream for. -/
def StreamT.room (cipher : StreamT) (plain : List Byte) : Prop :=
  cipher.method.sodium = true → plain.length < cipher.limit

/-- What a context that encrypts has made of all chunks so far. -/
inductive StreamSent (cipher : StreamT) (nonce : List Byte) (ms : List (List Byte)) (stream : List Byte)
    (ctx : StreamCtx) : Prop
  | none (init : ctx.init = 0) (front : ctx.nonce = nonce) (evp : ctx.evp = (stream_ctx_init cipher [] false).evp)
      (none : ms = []) (empty : stream = [])
  | stream (init : ctx.init = 1) (front : ctx.nonce = nonce)
      (content : cipher.room ms.flatten →
        stream = nonce ++ (cipher.transducer false).output (cipher.start nonce) ms.flatten ∧
          ctx.Runs cipher ((cipher.transducer false).next (cipher.start nonce) ms.flatten) ∧
          (cipher.method.sodium = true → ctx.counter = ms.flatten.length))

theorem StreamT.room_append {a b : List Byte} (h : cipher.room (a ++ b)) :
    cipher.room a ∧ (cipher.method.sodium = true → a.length + b.length < cipher.limit) := by
  have hlength (hm : cipher.method.sodium = true) : a.length + b.length < cipher.limit := by
    rw [← List.length_append]
    exact h hm
  exact ⟨fun hm => Nat.lt_of_le_of_lt (Nat.le_add_right ..) (hlength hm), hlength⟩

theorem stream_encrypt_spec (hc : cipher.Ready) {nonce stream p out : List Byte} {ms : List (List Byte)}
    {ctx' : StreamCtx} (h : StreamSent cipher nonce ms stream ctx)
    (hok : stream_encrypt cipher p ctx = (.ok, out, ctx')) :
    StreamSent cipher nonce (ms ++ [p]) (stream ++ out) ctx' := by
  simp only [stream_encrypt] at hok
  cases h with
  | none init front evp hms hstream =>
    subst hms hstream
    simp only [init, if_true] at hok
    generalize hstarted : { cipher_ctx_set_nonce cipher ctx ctx.nonce with counter := 0, init := 1 } = started at hok
    have hstarted' : started.init = 1 ∧ started.counter = 0 := by
      rw [← hstarted]
      exact ⟨rfl, rfl⟩
    obtain ⟨hruns, -, hnonce⟩ := runs_start hc rfl evp hstarted.symm
    rcases hupdate : stream_update cipher false started p with _ | ⟨ciphertext, ctx₁⟩
    · simp [hupdate] at hok
    · simp only [hupdate, Prod.mk.injEq, true_and] at hok
      obtain ⟨rfl, rfl⟩ := hok
      obtain ⟨-, hframe, -⟩ := stream_update_some hupdate
      refine .stream ?_ ?_ fun hroom => ?_
      · rw [hframe]
        exact hstarted'.1
      · rw [hframe]
        exact hnonce.trans front
      · simp only [List.nil_append, List.flatten_singleton] at hroom ⊢
        obtain ⟨ctx₂, hupdate', hruns', -, hcounter'⟩ := stream_update_spec false hruns fun hm => by
          rw [hstarted'.2, Nat.zero_add]
          exact hroom hm
        cases hupdate.symm.trans hupdate'
        rw [front] at hruns' ⊢
        exact ⟨rfl, hruns', fun hm => by rw [hcounter' hm, hstarted'.2, Nat.zero_add]⟩
  | stream init front content =>
    have hinit : ctx.init ≠ 0 := by simp [init]
    simp only [hinit, if_false] at hok
    rcases hupdate : stream_update cipher false ctx p with _ | ⟨ciphertext, ctx₁⟩
    · simp [hupdate] at hok
    · simp only [hupdate, Prod.mk.injEq, true_and, List.nil_append] at hok
      obtain ⟨rfl, rfl⟩ := hok
      obtain ⟨-, hframe, -⟩ := stream_update_some hupdate
      refine .stream ?_ ?_ fun hroom => ?_
      · rw [hframe]
        exact init
      · rw [hframe]
        exact front
      · rw [List.flatten_append, List.flatten_singleton] at hroom ⊢
        obtain ⟨hbefore, hlength⟩ := StreamT.room_append hroom
        obtain ⟨rfl, hruns, hcounter⟩ := content hbefore
        obtain ⟨ctx₂, hupdate', hruns', -, hcounter'⟩ := stream_update_spec false hruns fun hm => by
          rw [hcounter hm]
          exact hlength hm
        cases hupdate.symm.trans hupdate'
        rw [Transducer.output_append, Transducer.next_append]
        exact ⟨List.append_assoc .., hruns', fun hm => by rw [hcounter' hm, hcounter hm, List.length_append]⟩

/-- The bytes behind the nonce go through the same cipher at both ends. -/
theorem StreamSent.received {nonce stream : List Byte} {ms : List (List Byte)} {ctx' : StreamCtx}
    (hnonce : nonce.length = cipher.nonce_len) (hroom : cipher.room ms.flatten)
    (h : StreamSent cipher nonce ms stream ctx) (hbytes : bytes <+: stream)
    (hr : StreamReceived cipher bytes plain ctx') :
    plain <+: ms.flatten ∧ (bytes = stream → plain = ms.flatten) := by
  cases h with
  | none _ _ _ hms hstream =>
    subst hms hstream
    obtain rfl : bytes = [] := List.prefix_nil.mp hbytes
    have hplain : plain = [] := by
      cases hr with
      | nonce _ _ _ _ hnone => exact hnone
      | stream h =>
        have hlength := h.length
        rw [List.drop_nil] at hlength
        exact List.length_eq_zero_iff.mp hlength
    exact ⟨hplain ▸ List.nil_prefix, fun _ => hplain⟩
  | stream _ _ content =>
    obtain ⟨rfl, -, -⟩ := content hroom
    generalize hsealed : (cipher.transducer false).output (cipher.start nonce) ms.flatten = sealed at hbytes
    have hsize : sealed.length = ms.flatten.length := hsealed ▸ Transducer.length_output ..
    cases hr with
    | nonce _ _ _ hshort hnone =>
      subst hnone
      refine ⟨List.nil_prefix, ?_⟩
      rintro rfl
      have hempty : sealed.length = 0 := by
        rcases hshort with hnil | hlt
        · rw [(List.append_eq_nil_iff.mp hnil).2]
          rfl
        · rw [List.length_append] at hlt
          omega
      exact (List.length_eq_zero_iff.mp (hsize ▸ hempty)).symm
    | stream h =>
      have htake : bytes.take cipher.nonce_len = nonce :=
        (List.prefix_of_prefix_length_le ((List.take_prefix ..).trans hbytes) (List.prefix_append ..)
          (by rw [List.length_take]; omega)).eq_of_length (by rw [List.length_take_of_le h.long, hnonce])
      obtain ⟨rest, hrest⟩ : ∃ rest, bytes = nonce ++ rest :=
        ⟨bytes.drop cipher.nonce_len, by rw [← htake, List.take_append_drop]⟩
      subst hrest
      have hdrop : (nonce ++ rest).drop cipher.nonce_len = rest := List.drop_left' hnonce
      have hpart : rest <+: sealed := (List.prefix_append_right_inj nonce).mp hbytes
      obtain ⟨hplain, -, -⟩ := h.content fun hm => by
        rw [hdrop]
        exact Nat.lt_of_le_of_lt (hsize ▸ hpart.length_le) (hroom hm)
      rw [h.nonce, htake, hdrop] at hplain
      have hback : (cipher.transducer true).output (cipher.start nonce) sealed = ms.flatten := by
        rw [← hsealed]
        exact cipher.inverts.output _ _
      rw [hplain, ← hback]
      exact ⟨Transducer.output_prefix _ _ hpart, fun hall => by rw [List.append_cancel_left hall]⟩

theorem StreamSent.take_nonce {nonce stream : List Byte} {ms : List (List Byte)}
    (hnonce : nonce.length = cipher.nonce_len) (hroom : cipher.room ms.flatten)
    (h : StreamSent cipher nonce ms stream ctx) (hbytes : bytes <+: stream)
    (hlong : cipher.nonce_len ≤ bytes.length) : bytes.take cipher.nonce_len = nonce := by
  cases h with
  | none _ _ _ _ hstream =>
    subst hstream
    obtain rfl : bytes = [] := List.prefix_nil.mp hbytes
    have hempty : nonce = [] := List.length_eq_zero_iff.mp (hnonce.trans (Nat.le_zero.mp hlong))
    rw [hempty, List.take_nil]
  | stream _ _ content =>
    obtain ⟨rfl, -, -⟩ := content hroom
    refine (List.prefix_of_prefix_length_le ((List.take_prefix ..).trans hbytes) (List.prefix_append ..)
      (by rw [List.length_take]; omega)).eq_of_length ?_
    rw [List.length_take_of_le hlong, hnonce]

-- ---------------------------------------------------------------------------
-- The methods as `crypto_t`
-- ---------------------------------------------------------------------------

theorem stream_encrypt_ne {p : List Byte} (hp : p ≠ []) (hok : (stream_encrypt cipher p ctx).1 = .ok) :
    (stream_encrypt cipher p ctx).2.1 ≠ [] := by
  simp only [stream_encrypt] at hok ⊢
  generalize (if ctx.init = 0 then _ else ctx : StreamCtx) = started at hok ⊢
  rcases hupdate : stream_update cipher false started p with _ | ⟨ciphertext, ctx'⟩
  · simp [hupdate] at hok
  · have hlength := (stream_update_some hupdate).1
    intro hnone
    have hout : ciphertext = [] := (List.append_eq_nil_iff.mp hnone).2
    rw [hout] at hlength
    exact hp (List.length_eq_zero_iff.mp hlength.symm)

theorem streamDecryptRest_ne {pp : Ppbloom} {c : List Byte} (hok : (streamDecryptRest cipher pp c ctx).1 = .ok) :
    (streamDecryptRest cipher pp c ctx).2.1 ≠ [] := by
  rw [streamDecryptRest] at hok ⊢
  split at hok
  · cases hok
  next hsome =>
    rw [if_neg hsome]
    rcases hupdate : stream_update cipher true ctx c with _ | ⟨plaintext, ctx'⟩
    · simp [hupdate] at hok
    · have hlength := (stream_update_some hupdate).1
      have hout : plaintext ≠ [] := by
        rintro rfl
        exact hsome (Nat.le_of_eq hlength.symm)
      simp only
      split <;> exact hout

theorem stream_decrypt_ne {pp : Ppbloom} {c : List Byte} (hok : (stream_decrypt cipher pp c ctx).1 = .ok) :
    (stream_decrypt cipher pp c ctx).2.1 ≠ [] := by
  simp only [stream_decrypt] at hok ⊢
  split at hok
  next hinit =>
    rw [if_pos hinit]
    split at hok
    · cases hok
    next hlong =>
      rw [if_neg hlong]
      split at hok
      · cases hok
      next hfresh =>
        rw [if_neg hfresh]
        exact streamDecryptRest_ne hok
  next hinit =>
    rw [if_neg hinit]
    exact streamDecryptRest_ne hok

def streamCrypto (cipher : StreamT) : CryptoT StreamCtx Ppbloom where
  rand_len := cipher.nonce_len
  e_init random := stream_ctx_init cipher random true
  d_init := stream_ctx_init cipher [] false
  encrypt pp ctx plaintext :=
    let (err, out, ctx) := stream_encrypt cipher plaintext ctx
    (err, out, ctx, pp)
  decrypt pp ctx ciphertext := stream_decrypt cipher pp ciphertext ctx
  encrypt_ne _ _ _ := stream_encrypt_ne
  decrypt_ne _ _ _ _ := stream_decrypt_ne

theorem encrypt_streamCrypto {pp pp' : Ppbloom} {ctx' : StreamCtx} {p out : List Byte} {verdict : Verdict}
    (h : (streamCrypto cipher).encrypt pp ctx p = (verdict, out, ctx', pp')) :
    stream_encrypt cipher p ctx = (verdict, out, ctx') ∧ pp' = pp := by
  rcases hresult : stream_encrypt cipher p ctx with ⟨err, out', ctx''⟩
  simp only [streamCrypto, hresult, Prod.mk.injEq] at h
  obtain ⟨rfl, rfl, rfl, rfl⟩ := h
  exact ⟨rfl, rfl⟩

/-- A call on the bytes so far. -/
theorem decrypts_streamCrypto (hc : cipher.Ready) {pp : Ppbloom} {c : List Byte}
    {result : Verdict × List Byte × StreamCtx × Ppbloom} (h : StreamReceived cipher bytes plain ctx)
    (hresult : (streamCrypto cipher).decrypt pp ctx c = result) :
    StreamDecrypts cipher pp (bytes ++ c) plain result :=
  hresult ▸ stream_decrypt_spec hc h pp c

/-- The two ends of a stream behind its nonce. -/
def streamEnds (cipher : StreamT) (hc : cipher.Ready) : Ends (streamCrypto cipher) where
  fits _ := True
  room := cipher.room
  sends := StreamSent cipher
  gets := StreamReceived cipher
  sends_init := by
    intro random hrandom
    exact .none rfl (List.take_of_length_le (Nat.le_of_eq hrandom)) rfl rfl rfl
  sends_ok := by
    intro random ms stream ctx pp p out ctx' pp' h _ hstep
    exact stream_encrypt_spec hc h (encrypt_streamCrypto hstep).1
  gets_init := .nonce rfl rfl rfl (.inl rfl) rfl
  gets_ok := by
    intro bytes plain ctx pp c out ctx' pp' h hstep
    cases decrypts_streamCrypto hc h hstep with
    | ok _ _ h' => exact .stream h'
  gets_needMore := by
    intro bytes plain ctx pp c out ctx' pp' h hstep
    cases decrypts_streamCrypto hc h hstep with
    | needMore _ _ h' => exact ⟨h', rfl⟩
  received := by
    intro random ms stream ctx bytes plain ctx' hrandom hroom hs h hbytes
    exact hs.received hrandom hroom hbytes h
  front := by
    intro random ms stream ctx bytes hrandom hroom hs hbytes hlong
    exact hs.take_nonce hrandom hroom hbytes hlong
  genuine := by
    intro random ms stream ctx bytes plain ctx' pp c out ctx'' pp' _ _ _ h _ hstep
    cases decrypts_streamCrypto hc h hstep with
    | repeated _ _ hnone hlong _ hcheck =>
      refine ⟨hnone, fun hunseen => ?_⟩
      cases hcheck.symm.trans (hunseen hlong)
  first := by
    intro bytes ctx pp c out ctx' pp' h hstep
    cases decrypts_streamCrypto hc h hstep with
    | ok _ _ _ hsome => exact hsome

/-- Under every method that the library has: however the stream is cut, and however much of it has come,
nothing is turned down, and what is delivered is what was encrypted so far, if the nonce is new. -/
theorem stream_intact (method : Method) (key : List Byte) (ecb : List Byte → List Byte → List Byte)
    (crypto_md5 : List Byte → List Byte) (cipher : StreamT)
    (hcipher : stream_key_init method key ecb crypto_md5 = some cipher) (random : List Byte)
    (hrandom : random.length = cipher.nonce_len) (pp pp' : Ppbloom) (hfresh : ppbloom_check pp random = false)
    (ps : List (List Byte)) (hroom : cipher.method.sodium = true → ps.flatten.length < cipher.limit)
    (hok : ∀ r ∈ (streamCrypto cipher).encryptAll pp' (stream_ctx_init cipher random true) ps, r.1 = .ok)
    (cs : List (List Byte))
    (hcs : cs.flatten <+: delivered ((streamCrypto cipher).encryptAll pp' (stream_ctx_init cipher random true) ps)) :
    (∀ r ∈ (streamCrypto cipher).decryptAll pp (stream_ctx_init cipher [] false) cs, r.1 ≠ .error) ∧
      delivered ((streamCrypto cipher).decryptAll pp (stream_ctx_init cipher [] false) cs) <+: ps.flatten ∧
      (cs.flatten = delivered ((streamCrypto cipher).encryptAll pp' (stream_ctx_init cipher random true) ps) →
        delivered ((streamCrypto cipher).decryptAll pp (stream_ctx_init cipher [] false) cs) = ps.flatten) :=
  (streamEnds cipher (ready_of_init hcipher)).intact hrandom hfresh (fun _ _ => trivial) hroom hok hcs

-- the block cipher and MD5 are not called for this method
def salsaCipher : StreamT where
  method := .SALSA20
  key := List.replicate 32 1
  nonce_len := 8
  ecb _ block := block
  crypto_md5 bytes := bytes

set_option maxRecDepth 4000 in
theorem salsa_intact :
    delivered ((streamCrypto salsaCipher).decryptAll (ppbloom_init 4 64 3) (stream_ctx_init salsaCipher [] false)
      [[0, 1, 2, 3], [4, 5], [6, 7]]) <+: [[1, 2, 3], [4]].flatten :=
  (stream_intact .SALSA20 (List.replicate 32 1) (fun _ block => block) (fun bytes => bytes) salsaCipher rfl
    [0, 1, 2, 3, 4, 5, 6, 7] rfl (ppbloom_init 4 64 3) (ppbloom_init 4 64 3) (by decide) [[1, 2, 3], [4]] (by decide)
    (by decide +kernel) [[0, 1, 2, 3], [4, 5], [6, 7]] (by decide +kernel)).2.1

end SmartSocks.Crypto.Server
