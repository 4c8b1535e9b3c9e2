import SmartSocks.Ssserver.ServerOptions

/-!
# The start of the server

`ss_server_main` up to `ev_run`. It has no `return` on the way: what a failed check
leaves behind goes into the loop.
-/

namespace SmartSocks.Ssserver

open Jvm Crypto

inductive Transport
  | tcp
  | udp
  deriving DecidableEq, Repr

/-- An address, with what `socket` and `bind` say to it. -/
structure AddrInfo where
  ipv6 : Bool
  socket : Option Nat
  bind : Bool

/-- What the rest of the process and the system answer. Hosts are counted, and so are
the attempts to look one up. -/
structure System extends ConfReader, CryptoLibrary where
  /-- 0 if there is none. -/
  get_local_port : Nat
  start_plugin : Bool
  ares_library_init : Bool
  ares_init_options : Bool
  ares_set_servers : CString → Bool
  getaddrinfo : Transport → Nat → Nat → Option CString → Option CString → Option (List AddrInfo)
  listen : Nat → Bool
  run_as : CString → Bool
  /-- Whether `libev` has been compiled with its assertions. -/
  asserts : Bool

/-- What is left of earlier starts in the process. -/
structure Globals where
  plugin : Option CString := none
  mode : RelayMode := .TCP_ONLY

inductive Ending
  | loop (crypto : Option Cipher)
  | returned (status : Int)

-- ---------------------------------------------------------------------------
-- Settings
-- ---------------------------------------------------------------------------

def DEFAULT_CONF_PATH : CString := chars "/etc/shadowsocks-libev/config.json"

/-- The file that is read. -/
def confPath (argc : Nat) (s : Settings) : Option CString :=
  if argc = 1 then s.conf_path <|> some DEFAULT_CONF_PATH else s.conf_path

def Settings.defaultHost (s : Settings) : Settings :=
  if s.server_host = [] then { s with server_host := [some (chars "0.0.0.0")] } else s

def readConf (o : System) (argc : Nat) (s : Settings) : Startup Settings :=
  match confPath argc s with
  | none => pure s
  | some path => do
    let conf ← read_jconf o.toConfReader path
    pure (s.merge conf)

/-- The options, the file, and the checks of them. -/
def readSettings (o : System) (g : Globals) (argv : List CString) : Startup Settings := do
  let opts := getopt_long (argv.drop 1)
  let s ← opts.foldlM readOption { plugin := g.plugin, mode := g.mode }
  Trace.check (.unrecognized ∈ opts) (.failed .usage)
  let s ← readConf o argv.length s
  let s := s.defaultHost
  Trace.check (s.server_host = [] ∨ s.server_port = none ∨ (s.password = none ∧ s.key = none)) (.failed .usage)
  pure s

-- ---------------------------------------------------------------------------
-- Sockets
-- ---------------------------------------------------------------------------

/-- Without a host, the addresses from the first one of IPv6 on. -/
def candidates (host : Option CString) (result : List AddrInfo) : List AddrInfo :=
  if host = none ∧ result.any (·.ipv6) then result.dropWhile (! ·.ipv6) else result

/-- The first address with a socket that is bound; `none` is -1. -/
def bindFirst : List AddrInfo → Startup (Option Nat)
  | [] => pure none
  | rp :: rest =>
    match rp.socket with
    | none => bindFirst rest
    | some fd =>
      if rp.bind then do
        Trace.emit (.bound fd)
        pure (some fd)
      else bindFirst rest

/-- Seven attempts are made to look the host up. -/
def tcpAddresses (o : System) (port host : Option CString) (i : Nat) : List AddrInfo :=
  candidates host
    (((List.range' 1 7).findSome? fun attempt => o.getaddrinfo .tcp i attempt host port).getD [])

def udpAddresses (o : System) (port host : Option CString) (i : Nat) : List AddrInfo :=
  candidates host ((o.getaddrinfo .udp i 1 host port).getD [])

def create_and_bind (o : System) (port host : Option CString) (i : Nat) : Startup (Option Nat) :=
  bindFirst (tcpAddresses o port host i)

def create_server_socket (o : System) (port host : Option CString) (i : Nat) : Startup (Option Nat) :=
  bindFirst (udpAddresses o port host i)

/-- A negative descriptor fails the assertion. -/
def ev_io_start (o : System) (watcher : Watcher) (fd : Option Nat) : Startup Unit :=
  if o.asserts = true ∧ fd = none then Trace.stop else Trace.emit (.watch watcher fd)

/-- `listen` fails for -1. -/
def startListening (o : System) (listenfd : Option Nat) (i : Nat) : Startup Unit :=
  match listenfd with
  | some fd => if o.listen i then Trace.emit (.listening fd) else FATAL "listen() error"
  | none => FATAL "listen() error"

/-- A turn of the loop over the interfaces. -/
def serveTcp (o : System) (port : Option CString) (host : Option CString × Nat) : Startup Unit := do
  let listenfd ← create_and_bind o port host.1 host.2
  fatalIf (listenfd = none) "bind() error"
  startListening o listenfd host.2
  ev_io_start o .accept listenfd

def init_udprelay (o : System) (port : Option CString) (host : Option CString × Nat) : Startup Unit := do
  let serverfd ← create_server_socket o port host.1 host.2
  fatalIf (serverfd = none) "[udp] bind() error"
  ev_io_start o .udprelay serverfd

/-- With a plugin, the server listens on one port of its own, and the plugin has the
one that is given. -/
def tcpHosts (s : Settings) : List (Option CString) :=
  if s.plugin = none then s.server_host else [some (chars "127.0.0.1")]

def tcpPort (o : System) (s : Settings) : Option CString :=
  if s.plugin = none then s.server_port else some (chars (toString o.get_local_port))

-- ---------------------------------------------------------------------------
-- The server
-- ---------------------------------------------------------------------------

/-- The status is still that of the initialisation if there are no name servers. -/
def resolv_init (o : System) (nameservers : Option CString) : Startup Unit := do
  fatalIf (o.ares_library_init = false) "failed to initialize c-ares"
  fatalIf (o.ares_init_options = false) "failed to initialize c-ares"
  fatalIf (nameservers.elim o.ares_init_options o.ares_set_servers = false) "failed to set nameservers"

def startServer (o : System) (g : Globals) (argv : List CString) : Startup (Option Cipher) := do
  let s ← readSettings o g argv
  fatalIf (s.plugin ≠ none ∧ o.get_local_port = 0) "failed to find a free port"
  let crypto ← o.crypto_init s.password s.key (s.method.getD (chars "rc4-md5"))
  fatalIf (crypto = none) "failed to initialize ciphers"
  resolv_init o s.nameservers
  fatalIf (s.plugin ≠ none ∧ o.start_plugin = false) "failed to start the plugin"
  Trace.whenever (s.mode ≠ .UDP_ONLY) (forM (tcpHosts s).zipIdx (serveTcp o (tcpPort o s)))
  Trace.whenever (s.mode ≠ .TCP_ONLY) (forM s.server_host.zipIdx (init_udprelay o s.server_port))
  fatalIf (s.user.any (! o.run_as ·) = true) "failed to switch user"
  pure crypto

/-- Nothing comes between the start and `ev_run`. -/
def ss_server_main (o : System) (g : Globals) (argv : List CString) : Startup Ending := do
  let crypto ← startServer o g argv
  pure (.loop crypto)

/-- The settings that the command line and the file give. -/
def settings (o : System) (g : Globals) (argv : List CString) : Settings :=
  let s := (getopt_long (argv.drop 1)).foldl Settings.set { plugin := g.plugin, mode := g.mode }
  ((confPath argv.length s).elim s fun path => s.merge (confAt o.toConfReader path)).defaultHost

/-- A watcher has a descriptor that is bound, and that listens if it is to accept. -/
def Backed (effects : List Effect) : Prop :=
  ∀ watcher fd, .watch watcher fd ∈ effects →
    ∃ fd', fd = some fd' ∧ .bound fd' ∈ effects ∧ (watcher = .accept → .listening fd' ∈ effects)

/-- The loop is entered with the cipher and the sockets that are meant; after a failed
check it is not entered. -/
structure Sound (md5 : Option Md5) (s : Settings) (run : Startup Ending) : Prop where
  cipher : ∀ crypto, run.value = some (.loop crypto) →
    ∃ cipher, crypto = some cipher ∧ cipher.Keyed md5 s.password s.key
  watchers : ∀ crypto, run.value = some (.loop crypto) → Backed run.effects
  failed : (∃ e ∈ run.effects, e.Failed) → ∃ status, run.value = some (.returned status)

/-- One of the addresses gets a socket, and it is bound. -/
def Binds (addresses : List AddrInfo) : Prop := ∃ rp ∈ addresses, rp.socket ≠ none ∧ rp.bind = true

def TcpReady (o : System) (port : Option CString) (host : Option CString × Nat) : Prop :=
  Binds (tcpAddresses o port host.1 host.2) ∧ o.listen host.2 = true

def UdpReady (o : System) (port : Option CString) (host : Option CString × Nat) : Prop :=
  Binds (udpAddresses o port host.1 host.2)

/-- All that is checked is as it should be. -/
structure Starts (o : System) (g : Globals) (argv : List CString) (s : Settings) : Prop where
  options : ∀ opt ∈ getopt_long (argv.drop 1), opt ≠ .oneTimeAuth ∧ opt ≠ .unrecognized
  conf : ∀ path ∈ confPath argv.length
    ((getopt_long (argv.drop 1)).foldl Settings.set { plugin := g.plugin, mode := g.mode }),
    ConfReadable o.toConfReader path
  given : s.server_port ≠ none ∧ (s.password ≠ none ∨ s.key ≠ none)
  plugin : s.plugin ≠ none → o.get_local_port ≠ 0 ∧ o.start_plugin = true
  sodium : o.sodium_init = true
  cipher : ∃ method ∈ methodOf (s.method.getD (chars "rc4-md5")), ∃ n ∈ keySize method,
    o.KeyReady s.password s.key n
  resolver : o.ares_library_init = true ∧ o.ares_init_options = true ∧
    ∀ csv ∈ s.nameservers, o.ares_set_servers csv = true
  tcp : s.mode ≠ .UDP_ONLY → ∀ host ∈ (tcpHosts s).zipIdx, TcpReady o (tcpPort o s) host
  udp : s.mode ≠ .TCP_ONLY → ∀ host ∈ s.server_host.zipIdx, UdpReady o s.server_port host
  user : ∀ user ∈ s.user, o.run_as user = true

-- ---------------------------------------------------------------------------
-- Settings that pass
-- ---------------------------------------------------------------------------

theorem meets_readOption (s : Settings) (opt : Opt) :
    Trace.Meets Effect.Failed (readOption s opt) (opt ≠ .oneTimeAuth) (s.set opt) [] :=
  (meets_fatalIf _).map fun _ => s.set opt

theorem Settings.defaultHost_ne_nil (s : Settings) : s.defaultHost.server_host ≠ [] := by
  unfold defaultHost
  split
  next => exact List.cons_ne_nil _ _
  next hhost => exact hhost

theorem meets_readConf (o : System) (argc : Nat) (s : Settings) :
    Trace.Meets Effect.Failed (readConf o argc s)
      (∀ path ∈ confPath argc s, ConfReadable o.toConfReader path)
      ((confPath argc s).elim s fun path => s.merge (confAt o.toConfReader path)) [] := by
  unfold readConf
  cases confPath argc s with
  | none => exact (Trace.Meets.pure s).congr (by simp)
  | some path =>
    exact ((meets_read_jconf o.toConfReader path).map s.merge).congr (by simp)

theorem meets_readSettings (o : System) (g : Globals) (argv : List CString) :
    Trace.Meets Effect.Failed (readSettings o g argv)
      ((∀ opt ∈ getopt_long (argv.drop 1), opt ≠ .oneTimeAuth ∧ opt ≠ .unrecognized) ∧
        (∀ path ∈ confPath argv.length
          ((getopt_long (argv.drop 1)).foldl Settings.set { plugin := g.plugin, mode := g.mode }),
          ConfReadable o.toConfReader path) ∧
        (settings o g argv).server_port ≠ none ∧
          ((settings o g argv).password ≠ none ∨ (settings o g argv).key ≠ none))
      (settings o g argv) [] := by
  have hoptions := Trace.Meets.foldlM meets_readOption (getopt_long (argv.drop 1))
    { plugin := g.plugin, mode := g.mode }
  have hhost : (settings o g argv).server_host ≠ [] := Settings.defaultHost_ne_nil _
  have hgiven : Trace.Meets Effect.Failed
      (Trace.check ((settings o g argv).server_host = [] ∨ (settings o g argv).server_port = none ∨
        ((settings o g argv).password = none ∧ (settings o g argv).key = none)) (.failed .usage))
      ((settings o g argv).server_port ≠ none ∧
        ((settings o g argv).password ≠ none ∨ (settings o g argv).key ≠ none)) () [] :=
    (Trace.Meets.check trivial).congr (by simp only [not_or, not_and_or, ne_eq, hhost, not_false_eq_true, true_and])
  have hlast := hgiven.map fun _ => settings o g argv
  unfold readSettings
  refine (hoptions.bind fun _ => Trace.Meets.bind (Trace.Meets.check trivial) fun _ =>
    (meets_readConf o _ _).bind fun _ => hlast).congr ?_
  rw [forall₂_and, and_assoc]
  refine and_congr_right fun _ => and_congr_left fun _ => ?_
  exact ⟨fun hnot opt hopt heq => hnot (heq ▸ hopt), fun hall hmem => hall _ hmem rfl⟩

-- ---------------------------------------------------------------------------
-- Sockets that pass
-- ---------------------------------------------------------------------------

def boundFd (addresses : List AddrInfo) : Option Nat :=
  addresses.findSome? fun rp => if rp.bind then rp.socket else none

theorem boundFd_ne_none_iff {addresses : List AddrInfo} : boundFd addresses ≠ none ↔ Binds addresses := by
  simp only [boundFd, Binds, ne_eq, List.findSome?_eq_none_iff, not_forall, exists_prop]
  refine exists_congr fun rp => and_congr_right fun _ => ?_
  cases rp.bind <;> simp

theorem bindFirst_eq (addresses : List AddrInfo) :
    bindFirst addresses = ⟨some (boundFd addresses), (boundFd addresses).toList.map .bound⟩ := by
  induction addresses with
  | nil => rfl
  | cons rp rest ih =>
    have hcons : boundFd (rp :: rest) = ((if rp.bind then rp.socket else none).or (boundFd rest)) := by
      simp only [boundFd, List.findSome?_cons]
      cases (if rp.bind then rp.socket else none) <;> rfl
    rw [bindFirst, hcons, ih]
    cases rp.socket with
    | none => cases rp.bind <;> rfl
    | some fd => cases rp.bind <;> rfl

theorem meets_bindFirst (addresses : List AddrInfo) :
    Trace.Meets Effect.Failed (bindFirst addresses) True (boundFd addresses)
      ((boundFd addresses).toList.map .bound) := by
  refine ⟨fun _ => ?_, fun _ => bindFirst_eq addresses, fun hnot => absurd trivial hnot⟩
  simp [Effect.Failed]

theorem meets_ev_io_start (o : System) (watcher : Watcher) (fd : Nat) :
    Trace.Meets Effect.Failed (ev_io_start o watcher (some fd)) True () [.watch watcher (some fd)] := by
  rw [ev_io_start, if_neg (by simp)]
  exact Trace.Meets.emit id

def tcpEffects (addresses : List AddrInfo) : List Effect :=
  (boundFd addresses).toList.flatMap fun fd => [.bound fd, .listening fd, .watch .accept (some fd)]

def udpEffects (addresses : List AddrInfo) : List Effect :=
  (boundFd addresses).toList.flatMap fun fd => [.bound fd, .watch .udprelay (some fd)]

theorem meets_serveTcp (o : System) (port : Option CString) (host : Option CString × Nat) :
    Trace.Meets Effect.Failed (serveTcp o port host) (TcpReady o port host) ()
      (tcpEffects (tcpAddresses o port host.1 host.2)) := by
  have hready : TcpReady o port host ↔
      boundFd (tcpAddresses o port host.1 host.2) ≠ none ∧ o.listen host.2 = true := by
    rw [boundFd_ne_none_iff]
    exact Iff.rfl
  rw [hready, tcpEffects]
  have hbind := meets_bindFirst (tcpAddresses o port host.1 host.2)
  unfold serveTcp create_and_bind
  cases hfd : boundFd (tcpAddresses o port host.1 host.2) with
  | none =>
    rw [hfd] at hbind
    have hcheck : Trace.Meets Effect.Failed (fatalIf ((none : Option Nat) = none) "bind() error") False () [] :=
      (meets_fatalIf _).congr (by simp)
    exact (hbind.bind fun _ => hcheck.bind_failed () []).congr (by simp)
  | some fd =>
    rw [hfd] at hbind
    have hcheck : Trace.Meets Effect.Failed (fatalIf (some fd = none) "bind() error") True () [] :=
      (meets_fatalIf _).congr (by simp)
    have hlisten : Trace.Meets Effect.Failed (startListening o (some fd) host.2) (o.listen host.2 = true) ()
        [.listening fd] := by
      unfold startListening
      cases o.listen host.2 with
      | true => exact (Trace.Meets.emit id).congr (by simp)
      | false =>
        refine (Trace.Meets.never (e := .failed (.fatal "listen() error")) trivial ?_ () _).congr (by simp)
        exact List.mem_singleton_self _
    refine (hbind.bind fun _ => hcheck.bind fun _ => hlisten.bind fun _ => meets_ev_io_start o .accept fd).congr ?_
    simp

theorem meets_init_udprelay (o : System) (port : Option CString) (host : Option CString × Nat) :
    Trace.Meets Effect.Failed (init_udprelay o port host) (UdpReady o port host) ()
      (udpEffects (udpAddresses o port host.1 host.2)) := by
  have hbind := meets_bindFirst (udpAddresses o port host.1 host.2)
  rw [UdpReady, ← boundFd_ne_none_iff, udpEffects]
  unfold init_udprelay create_server_socket
  cases hfd : boundFd (udpAddresses o port host.1 host.2) with
  | none =>
    rw [hfd] at hbind
    have hcheck : Trace.Meets Effect.Failed (fatalIf ((none : Option Nat) = none) "[udp] bind() error") False () [] :=
      (meets_fatalIf _).congr (by simp)
    exact (hbind.bind fun _ => hcheck.bind_failed () []).congr (by simp)
  | some fd =>
    rw [hfd] at hbind
    have hcheck : Trace.Meets Effect.Failed (fatalIf (some fd = none) "[udp] bind() error") True () [] :=
      (meets_fatalIf _).congr (by simp)
    exact (hbind.bind fun _ => hcheck.bind fun _ => meets_ev_io_start o .udprelay fd).congr (by simp)

-- ---------------------------------------------------------------------------
-- Starts that pass
-- ---------------------------------------------------------------------------

theorem meets_resolv_init (o : System) (nameservers : Option CString) :
    Trace.Meets Effect.Failed (resolv_init o nameservers)
      (o.ares_library_init = true ∧ o.ares_init_options = true ∧
        ∀ csv ∈ nameservers, o.ares_set_servers csv = true) () [] := by
  refine ((meets_fatalIf _).bind fun _ => (meets_fatalIf _).bind fun _ => meets_fatalIf _).congr ?_
  rw [Bool.not_eq_false, Bool.not_eq_false, Bool.not_eq_false]
  refine and_congr_right fun _ => and_congr_right fun hinit => ?_
  cases nameservers <;> simp [hinit]

/-- The cipher and the sockets of a start that passes. -/
def startEffects (o : System) (s : Settings) : List Effect :=
  (if s.mode ≠ .UDP_ONLY then
    (tcpHosts s).zipIdx.flatMap fun host => tcpEffects (tcpAddresses o (tcpPort o s) host.1 host.2) else []) ++
  (if s.mode ≠ .TCP_ONLY then
    s.server_host.zipIdx.flatMap fun host => udpEffects (udpAddresses o s.server_port host.1 host.2) else [])

theorem cipherReady_iff {o : CryptoLibrary} {pass key : Option CString} {name : CString} :
    ((∀ method ∈ methodOf name, method ≠ .stream .TABLE → ∃ n ∈ keySize method, o.KeyReady pass key n) ∧
        o.readyCipher pass key name ≠ none) ↔
      ∃ method ∈ methodOf name, ∃ n ∈ keySize method, o.KeyReady pass key n := by
  unfold CryptoLibrary.readyCipher
  cases methodOf name with
  | none => simp
  | some method =>
    have htable : keySize (.stream .TABLE) = none := rfl
    by_cases heq : method = .stream .TABLE
    · subst heq
      simp [htable]
    · cases hsize : keySize method <;> simp [heq, hsize]

theorem meets_startServer (o : System) (g : Globals) (argv : List CString) :
    Trace.Meets Effect.Failed (startServer o g argv) (Starts o g argv (settings o g argv))
      (o.readyCipher (settings o g argv).password (settings o g argv).key
        ((settings o g argv).method.getD (chars "rc4-md5")))
      (startEffects o (settings o g argv)) := by
  have hsettings := meets_readSettings o g argv
  unfold startServer
  generalize settings o g argv = s at hsettings ⊢
  have htcp := Trace.Meets.whenever (c := s.mode ≠ .UDP_ONLY)
    (Trace.Meets.forM (meets_serveTcp o (tcpPort o s)) (tcpHosts s).zipIdx)
  have hudp := Trace.Meets.whenever (c := s.mode ≠ .TCP_ONLY)
    (Trace.Meets.forM (meets_init_udprelay o s.server_port) s.server_host.zipIdx)
  refine (hsettings.bind fun hgiven => Trace.Meets.bind (meets_fatalIf _) fun _ =>
    (CryptoLibrary.meets_crypto_init _ hgiven.2.2.2).bind fun _ => Trace.Meets.bind (meets_fatalIf _) fun _ =>
    (meets_resolv_init o s.nameservers).bind fun _ => Trace.Meets.bind (meets_fatalIf _) fun _ =>
    htcp.bind fun _ => hudp.bind_check fun _ => (meets_fatalIf _).map _).congr ?_
  have huser_iff : ¬ s.user.any (! o.run_as ·) = true ↔ ∀ user ∈ s.user, o.run_as user = true := by
    cases s.user <;> simp
  rw [huser_iff]
  constructor
  · rintro ⟨⟨hoptions, hconf, hgiven⟩, hport, ⟨hsodium, hready⟩, hcipher, hresolver, hplugin, htcp, hudp, huser⟩
    refine ⟨hoptions, hconf, hgiven, ?_, hsodium, cipherReady_iff.mp ⟨hready, hcipher⟩, hresolver, htcp, hudp, huser⟩
    intro hsome
    exact ⟨fun hzero => hport ⟨hsome, hzero⟩, Bool.eq_true_of_not_eq_false fun hfalse => hplugin ⟨hsome, hfalse⟩⟩
  · rintro ⟨hoptions, hconf, hgiven, hplugin, hsodium, hcipher, hresolver, htcp, hudp, huser⟩
    obtain ⟨hready, hcipher⟩ := cipherReady_iff.mpr hcipher
    refine ⟨⟨hoptions, hconf, hgiven⟩, ?_, ⟨hsodium, hready⟩, hcipher, hresolver, ?_, htcp, hudp, huser⟩
    · rintro ⟨hsome, hzero⟩
      exact (hplugin hsome).1 hzero
    · rintro ⟨hsome, hfalse⟩
      exact Bool.false_ne_true (hfalse.symm.trans (hplugin hsome).2)

theorem Backed.append {es fs : List Effect} (hes : Backed es) (hfs : Backed fs) : Backed (es ++ fs) := by
  intro watcher fd hmem
  rcases List.mem_append.mp hmem with hmem | hmem
  · obtain ⟨fd', hfd, hbound, hlistening⟩ := hes watcher fd hmem
    exact ⟨fd', hfd, List.mem_append_left fs hbound, fun haccept => List.mem_append_left fs (hlistening haccept)⟩
  · obtain ⟨fd', hfd, hbound, hlistening⟩ := hfs watcher fd hmem
    exact ⟨fd', hfd, List.mem_append_right es hbound, fun haccept => List.mem_append_right es (hlistening haccept)⟩

theorem Backed.flatMap {α : Type} {f : α → List Effect} (h : ∀ a, Backed (f a)) (as : List α) :
    Backed (as.flatMap f) := by
  induction as with
  | nil => exact fun _ _ hmem => nomatch hmem
  | cons a as ih => exact (h a).append ih

/-- A start that passes has backed its watchers. -/
theorem backed_startEffects (o : System) (s : Settings) : Backed (startEffects o s) := by
  have htcp (addresses : List AddrInfo) : Backed (tcpEffects addresses) := by
    unfold tcpEffects Backed
    cases boundFd addresses <;> simp
  have hudp (addresses : List AddrInfo) : Backed (udpEffects addresses) := by
    unfold udpEffects Backed
    cases boundFd addresses <;> simp
  have hnil : Backed [] := fun _ _ hmem => nomatch hmem
  refine Backed.append ?_ ?_
  · split
    next => exact Backed.flatMap (fun _ => htcp _) _
    next => exact hnil
  · split
    next => exact Backed.flatMap (fun _ => hudp _) _
    next => exact hnil

/-- There is no `return` before the loop. -/
theorem ss_server_main_ne_returned (o : System) (g : Globals) (argv : List CString) (status : Int) :
    (ss_server_main o g argv).value ≠ some (.returned status) := by
  intro h
  obtain ⟨crypto, -, hloop⟩ := Trace.value_bind h
  cases hloop

/-- A start is sound just when every check passes. -/
theorem start_sound_iff (o : System) (g : Globals) (argv : List CString) :
    Sound o.md5 (settings o g argv) (ss_server_main o g argv) ↔ Starts o g argv (settings o g argv) := by
  have hmeets := (meets_startServer o g argv).map Ending.loop
  change Trace.Meets _ (ss_server_main o g argv) _ _ _ at hmeets
  constructor
  · intro hsound
    by_contra hnot
    obtain ⟨status, hreturned⟩ := hsound.failed (hmeets.fail hnot)
    exact ss_server_main_ne_returned o g argv status hreturned
  · intro hstarts
    have hrun := hmeets.pass hstarts
    refine ⟨?_, ?_, ?_⟩
    · rintro crypto hloop
      rw [hrun] at hloop
      cases hloop
      obtain ⟨method, hmethod, n, hn, hready⟩ := hstarts.cipher
      exact CryptoLibrary.exists_readyCipher hmethod hn hready
    · rintro crypto -
      rw [hrun]
      exact backed_startEffects o _
    · intro hfailed
      exact absurd hstarts (hmeets.exists_bad_iff.mp hfailed)

/-- A system that grants all that is asked of it. It has no digest, and none is asked for. -/
def plainSystem : System where
  fopen _ := none
  json_parse_ex _ := .error ""
  cork_ip_init _ := true
  sodium_init := true
  md5 := none
  md_setup := true
  rand_bytes n := List.replicate n 0
  get_local_port := 40000
  start_plugin := true
  ares_library_init := true
  ares_init_options := true
  ares_set_servers _ := true
  getaddrinfo _ _ _ _ _ := some [⟨false, some 5, true⟩]
  listen _ := true
  run_as _ := true
  asserts := true

/-- The deprecated method is refused, and the loop is entered without a cipher. -/
theorem table_not_sound :
    ¬ Sound plainSystem.md5
      (settings plainSystem {} (["ss-server", "-p", "8388", "-k", "secret", "-m", "table"].map chars))
      (ss_server_main plainSystem {} (["ss-server", "-p", "8388", "-k", "secret", "-m", "table"].map chars)) := by
  intro h
  obtain ⟨cipher, hcipher, -⟩ := h.cipher none (by rfl)
  cases hcipher

end SmartSocks.Ssserver
