import SmartSocks.Crypto.Ppbloom

/-!
# `crypto_t`

What the relay calls to encrypt and to decrypt a connection, chunk by chunk. The
two families of ciphers differ in what they make of a chunk, but each has the same
`Ends`: what one end has sealed, the other end gets back in order, wherever the
stream is cut and however much of it has come (`Ends.intact`).
-/

namespace SmartSocks.Crypto.Server

open EasyValue

/-- `CRYPTO_OK`, `CRYPTO_NEED_MORE` and `CRYPTO_ERROR`. -/
inductive Verdict
  | ok
  | needMore
  | error
  deriving DecidableEq, Repr

/-- `crypto_t`, as far as the relay calls it. Both functions work on a buffer and leave
another one in its place; `γ` is what all connections share, the filter of the nonces.
`ctx_init` draws `rand_len` random bytes for the context that encrypts. -/
structure CryptoT (κ γ : Type) where
  rand_len : Nat
  e_init : List Byte → κ
  d_init : κ
  encrypt : γ → κ → List Byte → Verdict × List Byte × κ × γ
  decrypt : γ → κ → List Byte → Verdict × List Byte × κ × γ
  encrypt_ne : ∀ g ctx bytes, bytes ≠ [] → (encrypt g ctx bytes).1 = .ok → (encrypt g ctx bytes).2.1 ≠ []
  decrypt_ne : ∀ g ctx bytes, bytes ≠ [] → (decrypt g ctx bytes).1 = .ok → (decrypt g ctx bytes).2.1 ≠ []

namespace CryptoT

variable {κ γ : Type}

/-- What the calls of `encrypt` and `decrypt` make of the filter. -/
inductive Evolves (C : CryptoT κ γ) : γ → γ → Prop
  | refl (g : γ) : Evolves C g g
  | decrypt {g g' g'' ctx ctx' bytes verdict out} (h : Evolves C g g')
      (hstep : C.decrypt g' ctx bytes = (verdict, out, ctx', g'')) : Evolves C g g''
  | encrypt {g g' g'' ctx ctx' bytes verdict out} (h : Evolves C g g')
      (hstep : C.encrypt g' ctx bytes = (verdict, out, ctx', g'')) : Evolves C g g''

theorem Evolves.trans {C : CryptoT κ γ} {g g' g'' : γ} (h : C.Evolves g g') (h' : C.Evolves g' g'') :
    C.Evolves g g'' := by
  induction h' with
  | refl => exact h
  | decrypt _ hstep ih => exact ih.decrypt hstep
  | encrypt _ hstep ih => exact ih.encrypt hstep

/-- One call for each chunk. -/
def encryptAll (C : CryptoT κ γ) : γ → κ → List (List Byte) → List (Verdict × List Byte)
  | _, _, [] => []
  | g, ctx, p :: ps =>
    let (verdict, out, ctx, g) := C.encrypt g ctx p
    (verdict, out) :: C.encryptAll g ctx ps

def decryptAll (C : CryptoT κ γ) : γ → κ → List (List Byte) → List (Verdict × List Byte)
  | _, _, [] => []
  | g, ctx, c :: cs =>
    let (verdict, out, ctx, g) := C.decrypt g ctx c
    (verdict, out) :: C.decryptAll g ctx cs

/-- The filter has not seen the nonce that the bytes start with, if they have all of it. -/
def Unseen (C : CryptoT κ γ) (pp : Ppbloom) (bytes : List Byte) : Prop :=
  C.rand_len ≤ bytes.length → ppbloom_check pp (bytes.take C.rand_len) = false

theorem Unseen.shorten {C : CryptoT κ γ} {pp : Ppbloom} {bytes bytes' : List Byte} (h : C.Unseen pp bytes')
    (hpart : bytes <+: bytes') : C.Unseen pp bytes := by
  intro hlong
  obtain ⟨rest, rfl⟩ := hpart
  have hfresh := h (hlong.trans (List.length_append ▸ Nat.le_add_right ..))
  rwa [List.take_append_of_le_length hlong] at hfresh

end CryptoT

/-- The bytes that the calls which answer `ok` leave to their caller. -/
def delivered (results : List (Verdict × List Byte)) : List Byte :=
  (results.map fun r => if r.1 = .ok then r.2 else []).flatten

section
variable (out : List Byte) (results : List (Verdict × List Byte))

@[simp] theorem delivered_nil : delivered [] = [] := rfl

@[simp] theorem delivered_ok : delivered ((.ok, out) :: results) = out ++ delivered results := rfl

@[simp] theorem delivered_needMore : delivered ((.needMore, out) :: results) = delivered results := rfl

end

/-- The two ends of a stream. `sends random ms stream ctx`: a context that was made with these random
bytes has turned the chunks `ms` into `stream`. `gets bytes plain ctx`: a context has got these
bytes, and has turned them into `plain`. -/
structure Ends {κ : Type} (C : CryptoT κ Ppbloom) where
  fits : List Byte → Prop
  room : List Byte → Prop
  sends : List Byte → List (List Byte) → List Byte → κ → Prop
  gets : List Byte → List Byte → κ → Prop
  sends_init : ∀ {random}, random.length = C.rand_len → sends random [] [] (C.e_init random)
  sends_ok : ∀ {random ms stream ctx pp p out ctx' pp'}, sends random ms stream ctx → fits p →
    C.encrypt pp ctx p = (.ok, out, ctx', pp') → sends random (ms ++ [p]) (stream ++ out) ctx'
  gets_init : gets [] [] C.d_init
  gets_ok : ∀ {bytes plain ctx pp c out ctx' pp'}, gets bytes plain ctx →
    C.decrypt pp ctx c = (.ok, out, ctx', pp') → gets (bytes ++ c) (plain ++ out) ctx'
  gets_needMore : ∀ {bytes plain ctx pp c out ctx' pp'}, gets bytes plain ctx →
    C.decrypt pp ctx c = (.needMore, out, ctx', pp') → gets (bytes ++ c) plain ctx' ∧ pp' = pp
  /-- What has come is what was sent, as far as it has come. -/
  received : ∀ {random ms stream ctx bytes plain ctx'}, random.length = C.rand_len → room ms.flatten →
    sends random ms stream ctx → gets bytes plain ctx' → bytes <+: stream →
    plain <+: ms.flatten ∧ (bytes = stream → plain = ms.flatten)
  /-- It starts with the random bytes. -/
  front : ∀ {random ms stream ctx bytes}, random.length = C.rand_len → room ms.flatten →
    sends random ms stream ctx → bytes <+: stream → C.rand_len ≤ bytes.length → bytes.take C.rand_len = random
  /-- What was sent is turned down only before the first output, and only if its nonce has been seen. -/
  genuine : ∀ {random ms stream ctx bytes plain ctx' pp c out ctx'' pp'}, random.length = C.rand_len →
    room ms.flatten → sends random ms stream ctx → gets bytes plain ctx' → bytes ++ c <+: stream →
    C.decrypt pp ctx' c = (.error, out, ctx'', pp') → plain = [] ∧ ¬ C.Unseen pp (bytes ++ c)
  /-- The first output is not empty. -/
  first : ∀ {bytes ctx pp c out ctx' pp'}, gets bytes [] ctx → C.decrypt pp ctx c = (.ok, out, ctx', pp') →
    out ≠ []

namespace Ends

variable {κ : Type} {C : CryptoT κ Ppbloom} (E : Ends C) {random bytes plain stream : List Byte} {ms : List (List Byte)}
  {ctx ctx' : κ} {pp : Ppbloom}

theorem encryptAll {ps : List (List Byte)} (h : E.sends random ms stream ctx) (hps : ∀ p ∈ ps, E.fits p)
    (hok : ∀ r ∈ C.encryptAll pp ctx ps, r.1 = .ok) :
    ∃ ctx', E.sends random (ms ++ ps) (stream ++ delivered (C.encryptAll pp ctx ps)) ctx' := by
  induction ps generalizing ms stream ctx pp with
  | nil => exact ⟨ctx, by simpa [CryptoT.encryptAll] using h⟩
  | cons p ps ih =>
    obtain ⟨hfits, hps⟩ := List.forall_mem_cons.mp hps
    rcases hresult : C.encrypt pp ctx p with ⟨verdict, out, ctx₁, pp₁⟩
    simp only [CryptoT.encryptAll, hresult, List.forall_mem_cons] at hok
    obtain ⟨rfl, hok⟩ := hok
    obtain ⟨ctx', h'⟩ := ih (E.sends_ok h hfits hresult) hps hok
    refine ⟨ctx', ?_⟩
    simpa [CryptoT.encryptAll, hresult] using h'

theorem decryptAll {cs : List (List Byte)} (hrandom : random.length = C.rand_len) (hroom : E.room ms.flatten)
    (hs : E.sends random ms stream ctx) (h : E.gets bytes plain ctx')
    (hfresh : plain = [] → C.Unseen pp (bytes ++ cs.flatten)) (hcs : bytes ++ cs.flatten <+: stream) :
    (∀ r ∈ C.decryptAll pp ctx' cs, r.1 ≠ .error) ∧
      plain ++ delivered (C.decryptAll pp ctx' cs) <+: ms.flatten ∧
      (bytes ++ cs.flatten = stream → plain ++ delivered (C.decryptAll pp ctx' cs) = ms.flatten) := by
  induction cs generalizing bytes plain ctx' pp with
  | nil =>
    rw [List.flatten_nil, List.append_nil] at hcs ⊢
    obtain ⟨hpart, hall⟩ := E.received hrandom hroom hs h hcs
    simpa [CryptoT.decryptAll] using ⟨hpart, hall⟩
  | cons c cs ih =>
    rw [List.flatten_cons, ← List.append_assoc] at hcs hfresh ⊢
    have hbytes : bytes ++ c <+: stream := (List.prefix_append ..).trans hcs
    rcases hresult : C.decrypt pp ctx' c with ⟨verdict, out, ctx₁, pp₁⟩
    simp only [CryptoT.decryptAll, hresult]
    cases verdict with
    | ok =>
      have hnew : plain ++ out ≠ [] := by
        intro hnone
        obtain ⟨rfl, hout⟩ := List.append_eq_nil_iff.mp hnone
        exact E.first h hresult hout
      obtain ⟨herror, hrest⟩ := ih (E.gets_ok h hresult) (fun hnone => absurd hnone hnew) hcs
      exact ⟨List.forall_mem_cons.mpr ⟨nofun, herror⟩, by simpa using hrest⟩
    | needMore =>
      obtain ⟨h', rfl⟩ := E.gets_needMore h hresult
      obtain ⟨herror, hrest⟩ := ih h' hfresh hcs
      exact ⟨List.forall_mem_cons.mpr ⟨nofun, herror⟩, by simpa using hrest⟩
    | error =>
      obtain ⟨hnone, hseen⟩ := E.genuine hrandom hroom hs h hbytes hresult
      exact absurd ((hfresh hnone).shorten (List.prefix_append ..)) hseen

/-- However the chunks were sealed, and however the stream is cut, and however much of it has come: if the
nonce is new, nothing is turned down, and what is delivered is what was sealed so far. -/
theorem intact (hrandom : random.length = C.rand_len) (hfresh : ppbloom_check pp random = false)
    {pp' : Ppbloom} {ps cs : List (List Byte)} (hps : ∀ p ∈ ps, E.fits p) (hroom : E.room ps.flatten)
    (hok : ∀ r ∈ C.encryptAll pp' (C.e_init random) ps, r.1 = .ok)
    (hcs : cs.flatten <+: delivered (C.encryptAll pp' (C.e_init random) ps)) :
    (∀ r ∈ C.decryptAll pp C.d_init cs, r.1 ≠ .error) ∧
      delivered (C.decryptAll pp C.d_init cs) <+: ps.flatten ∧
      (cs.flatten = delivered (C.encryptAll pp' (C.e_init random) ps) →
        delivered (C.decryptAll pp C.d_init cs) = ps.flatten) := by
  obtain ⟨ctx, hs⟩ : ∃ ctx, E.sends random ps (delivered (C.encryptAll pp' (C.e_init random) ps)) ctx := by
    simpa using E.encryptAll (E.sends_init hrandom) hps hok
  have hunseen : C.Unseen pp cs.flatten := by
    intro hlong
    rwa [E.front hrandom hroom hs hcs hlong]
  simpa using E.decryptAll hrandom hroom hs E.gets_init (fun _ => hunseen) hcs

/-- Any stream that is not turned down. -/
theorem gets_decryptAll {cs : List (List Byte)} (h : E.gets bytes plain ctx)
    (hok : ∀ r ∈ C.decryptAll pp ctx cs, r.1 ≠ .error) :
    ∃ ctx', E.gets (bytes ++ cs.flatten) (plain ++ delivered (C.decryptAll pp ctx cs)) ctx' := by
  induction cs generalizing bytes plain ctx pp with
  | nil => exact ⟨ctx, by simpa [CryptoT.decryptAll] using h⟩
  | cons c cs ih =>
    rcases hresult : C.decrypt pp ctx c with ⟨verdict, out, ctx₁, pp₁⟩
    simp only [CryptoT.decryptAll, hresult] at hok ⊢
    obtain ⟨hfirst, htail⟩ := List.forall_mem_cons.mp hok
    cases verdict with
    | ok =>
      obtain ⟨ctx', hrest⟩ := ih (E.gets_ok h hresult) htail
      exact ⟨ctx', by simpa using hrest⟩
    | needMore =>
      obtain ⟨ctx', hrest⟩ := ih (E.gets_needMore h hresult).1 htail
      exact ⟨ctx', by simpa using hrest⟩
    | error => exact absurd rfl hfirst

end Ends
end SmartSocks.Crypto.Server
