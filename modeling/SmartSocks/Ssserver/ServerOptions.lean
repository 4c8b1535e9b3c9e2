import SmartSocks.Ssserver.CryptoInit

/-!
# The settings of the server

They are taken from the command line and, where it leaves something open, from a file.
A value in the file that has another type than it should is reported, and counts as
not given.
-/

namespace SmartSocks.Ssserver

open Jvm Crypto

inductive RelayMode
  | TCP_ONLY
  | TCP_AND_UDP
  | UDP_ONLY
  deriving DecidableEq, Repr

-- ---------------------------------------------------------------------------
-- The command line
-- ---------------------------------------------------------------------------

/-- The cases of the `switch`; `other` stands for those that concern neither the key
nor the sockets. -/
inductive Opt
  | server (optarg : CString)
  | port (optarg : CString)
  | password (optarg : CString)
  | key (optarg : CString)
  | method (optarg : CString)
  | conf (optarg : CString)
  | user (optarg : CString)
  | plugin (optarg : CString)
  | nameservers (optarg : CString)
  | mode (mode : RelayMode)
  | help
  | oneTimeAuth
  | unrecognized
  | other
  deriving DecidableEq, Repr

inductive HasArg
  | no_argument (opt : Opt)
  | required_argument (opt : CString → Opt)

/-- `"f:s:p:l:k:t:m:b:c:i:d:a:n:huUv6A"` -/
def shortOption (c : Byte) : Option HasArg :=
  match Char.ofNat c.toNat with
  | 's' => some (.required_argument .server)
  | 'p' => some (.required_argument .port)
  | 'k' => some (.required_argument .password)
  | 'm' => some (.required_argument .method)
  | 'c' => some (.required_argument .conf)
  | 'd' => some (.required_argument .nameservers)
  | 'a' => some (.required_argument .user)
  | 'f' | 'l' | 't' | 'b' | 'i' | 'n' => some (.required_argument fun _ => .other)
  | 'u' => some (.no_argument (.mode .TCP_AND_UDP))
  | 'U' => some (.no_argument (.mode .UDP_ONLY))
  | 'h' => some (.no_argument .help)
  | 'v' | '6' => some (.no_argument .other)
  | 'A' => some (.no_argument .oneTimeAuth)
  | _ => none

def long_options : List (String × HasArg) :=
  [("fast-open", .no_argument .other), ("reuse-port", .no_argument .other), ("no-delay", .no_argument .other),
    ("acl", .required_argument fun _ => .other), ("manager-address", .required_argument fun _ => .other),
    ("mtu", .required_argument fun _ => .other), ("help", .no_argument .help),
    ("plugin", .required_argument .plugin), ("plugin-opts", .required_argument fun _ => .other),
    ("password", .required_argument .password), ("key", .required_argument .key),
    ("mptcp", .no_argument .other)]

/-- A name in full, or the beginning of one name only. -/
def longOption (name : CString) : Option HasArg :=
  match long_options.find? (chars ·.1 = name) with
  | some option => some option.2
  | none =>
    match long_options.filter (name <+: chars ·.1) with
    | [option] => some option.2
    | _ => none

/-- The options in one argument. The last of them may take the next argument. -/
def shortOptions : CString → List Opt × Option (CString → Opt)
  | [] => ([], none)
  | c :: nextchar =>
    match shortOption c with
    | none => ((shortOptions nextchar).1.cons .unrecognized, (shortOptions nextchar).2)
    | some (.no_argument opt) => ((shortOptions nextchar).1.cons opt, (shortOptions nextchar).2)
    | some (.required_argument opt) => if nextchar = [] then ([], some opt) else ([opt nextchar], none)

def optionsOf (arg : CString) : List Opt × Option (CString → Opt) :=
  match arg with
  | 0x2D :: 0x2D :: nextchar =>
    match longOption (nextchar.takeWhile (· ≠ 0x3D)), (nextchar.dropWhile (· ≠ 0x3D)).tail? with
    | some (.no_argument opt), none => ([opt], none)
    | some (.required_argument opt), some optarg => ([opt optarg], none)
    | some (.required_argument opt), none => ([], some opt)
    | _, _ => ([.unrecognized], none)
  | 0x2D :: c :: nextchar => shortOptions (c :: nextchar)
  | _ => ([], none)

/-- What `getopt_long` returns one by one. Arguments that are no options are passed over,
up to `--`; an option that lacks its argument is not recognized. -/
def getopt_long : List CString → List Opt
  | [] => []
  | arg :: argv =>
    if arg = [0x2D, 0x2D] then []
    else
      match (optionsOf arg).2, argv with
      | none, argv => (optionsOf arg).1 ++ getopt_long argv
      | some _, [] => (optionsOf arg).1 ++ [.unrecognized]
      | some opt, optarg :: argv => (optionsOf arg).1 ++ opt optarg :: getopt_long argv

example : getopt_long (["-uvp8388", "host", "--key=x", "-k", "-A", "--pass", "-x", "--", "-U"].map chars) =
    [.mode .TCP_AND_UDP, .other, .port (chars "8388"), .key (chars "x"), .password (chars "-A"),
      .password (chars "-x")] := by rfl

def MAX_REMOTE_NUM : Nat := 10

/-- The variables of `ss_server_main` that the options are for. A host may be `NULL`. -/
structure Settings where
  server_host : List (Option CString) := []
  server_port : Option CString := none
  password : Option CString := none
  key : Option CString := none
  method : Option CString := none
  conf_path : Option CString := none
  user : Option CString := none
  plugin : Option CString
  nameservers : Option CString := none
  mode : RelayMode

def Settings.set (s : Settings) : Opt → Settings
  | .server optarg =>
    if s.server_host.length < MAX_REMOTE_NUM then { s with server_host := s.server_host ++ [some optarg] } else s
  | .port optarg => { s with server_port := some optarg }
  | .password optarg => { s with password := some optarg }
  | .key optarg => { s with key := some optarg }
  | .method optarg => { s with method := some optarg }
  | .conf optarg => { s with conf_path := some optarg }
  | .user optarg => { s with user := some optarg }
  | .plugin optarg => { s with plugin := some optarg }
  | .nameservers optarg => { s with nameservers := some optarg }
  | .mode mode => { s with mode := mode }
  | .help | .oneTimeAuth | .unrecognized | .other => s

/-- A turn of the loop over the options. -/
def readOption (s : Settings) (opt : Opt) : Startup Settings := do
  fatalIf (opt = .oneTimeAuth) "One time auth has been deprecated. Try AEAD ciphers instead."
  pure (s.set opt)

-- ---------------------------------------------------------------------------
-- The file
-- ---------------------------------------------------------------------------

inductive JsonValue
  | object (values : List (CString × JsonValue))
  | array (values : List JsonValue)
  | integer (value : Int)
  | double
  | string (ptr : List Byte)
  | boolean (value : Bool)
  | null

/-- What is found at a path: where `ftell` sees the end, whether `fread` succeeds, and
what the buffer holds afterwards. -/
structure ConfFile where
  pos : Int
  nread : Bool
  buf : List Byte

structure ConfReader where
  fopen : CString → Option ConfFile
  json_parse_ex : List Byte → Except String JsonValue
  /-- Whether an address is a number. -/
  cork_ip_init : CString → Bool

structure Conf where
  remote_num : Nat := 0
  remote_addr : List (Option CString) := List.replicate MAX_REMOTE_NUM none
  remote_port : Option CString := none
  password : Option CString := none
  key : Option CString := none
  method : Option CString := none
  user : Option CString := none
  plugin : Option CString := none
  nameserver : Option CString := none
  mode : RelayMode := .TCP_ONLY

/-- The argument is an `int`. -/
def ss_itoa (i : Int) : CString := chars (toString (i.bmod (2 ^ 32)))

/-- `NULL` for a value that makes no string. -/
def JsonValue.to_string : JsonValue → Option CString
  | .string ptr => some (cString ptr)
  | .integer value => some (ss_itoa value)
  | _ => none

/-- `to_string` does not complain. -/
def JsonValue.Stringable : JsonValue → Prop
  | .string _ | .integer _ | .null => True
  | _ => False

instance : DecidablePred JsonValue.Stringable
  | .string _ | .integer _ | .null => .isTrue trivial
  | .object _ | .array _ | .double | .boolean _ => .isFalse id

def JsonValue.isBoolean : JsonValue → Bool
  | .boolean _ => true
  | _ => false

def JsonValue.isInteger : JsonValue → Bool
  | .integer _ => true
  | _ => false

/-- The `host` of the address: what stands before the last `:`. An IPv6 address is
taken out of its brackets. -/
def parse_addr (o : ConfReader) (str : CString) : CString :=
  if o.cork_ip_init str then str
  else
    let n := str.count 0x3A
    let ret := str.length - 1 - str.reverse.idxOf 0x3A
    if n = 0 then str
    else if n = 1 then str.take ret
    else if str.getD (ret - 1) 0 = 0x5D then (str.drop 1).take (ret - 2)
    else (str.drop 1).take (str.length - 2)

inductive ConfOption
  | server
  | text (put : Conf → Option CString → Conf)
  | flag
  | number
  | auth

def modeOf (mode_str : Option CString) (mode : RelayMode) : RelayMode :=
  match mode_str with
  | none => .TCP_ONLY
  | some mode_str =>
    if mode_str = chars "tcp_only" then .TCP_ONLY
    else if mode_str = chars "tcp_and_udp" then .TCP_AND_UDP
    else if mode_str = chars "udp_only" then .UDP_ONLY
    else mode

/-- The options of a file whose type is looked at. -/
def confOptions : List (String × ConfOption) :=
  [("server", .server), ("server_port", .text fun conf s => { conf with remote_port := s }),
    ("local_address", .text fun conf _ => conf), ("local_port", .text fun conf _ => conf),
    ("password", .text fun conf s => { conf with password := s }),
    ("key", .text fun conf s => { conf with key := s }), ("method", .text fun conf s => { conf with method := s }),
    ("timeout", .text fun conf _ => conf), ("user", .text fun conf s => { conf with user := s }),
    ("plugin", .text fun conf s => { conf with plugin := s.filter (· ≠ []) }),
    ("plugin_opts", .text fun conf _ => conf), ("fast_open", .flag), ("reuse_port", .flag), ("auth", .auth),
    ("nofile", .number), ("nameserver", .text fun conf s => { conf with nameserver := s }),
    ("tunnel_address", .text fun conf _ => conf),
    ("mode", .text fun conf s => { conf with mode := modeOf s conf.mode }), ("mtu", .number), ("mptcp", .flag),
    ("ipv6_first", .flag), ("no_delay", .flag)]

def confOption (name : CString) : Option (String × ConfOption) := confOptions.find? (chars ·.1 = name)

def checkString (value : JsonValue) : Startup Unit := fatalIf (¬ value.Stringable) "Invalid config format."

def checkEntry (name : CString) (value : JsonValue) : Startup Unit :=
  match confOption name, value with
  | some (_, .server), .array values => forM (values.take MAX_REMOTE_NUM) checkString
  | some (_, .server), _ | none, _ => pure ()
  | some (_, .text _), value => checkString value
  | some (name, .flag), value =>
    fatalIf (value.isBoolean = false) ("invalid config file: option '" ++ name ++ "' must be a boolean")
  | some (name, .number), value =>
    fatalIf (value.isInteger = false) ("invalid config file: option '" ++ name ++ "' must be an integer")
  | some (_, .auth), _ => FATAL "One time auth has been deprecated. Try AEAD ciphers instead."

/-- An address that is `NULL` leaves what is there. -/
def Conf.putAddress (o : ConfReader) (conf : Conf) (address : JsonValue × Nat) : Conf :=
  { conf with
    remote_addr :=
      match address.1.to_string with
      | none => conf.remote_addr
      | some addr_str => conf.remote_addr.set address.2 (some (parse_addr o addr_str))
    remote_num := address.2 + 1 }

def Conf.putEntry (o : ConfReader) (conf : Conf) (name : CString) (value : JsonValue) : Conf :=
  match confOption name, value with
  | some (_, .server), .array values => (values.take MAX_REMOTE_NUM).zipIdx.foldl (putAddress o) conf
  | some (_, .server), .string ptr =>
    { conf with remote_addr := conf.remote_addr.set 0 (some (cString ptr)), remote_num := 1 }
  | some (_, .text put), value => put conf value.to_string
  | _, _ => conf

def readEntry (o : ConfReader) (conf : Conf) (entry : CString × JsonValue) : Startup Conf := do
  checkEntry entry.1 entry.2
  pure (conf.putEntry o entry.1 entry.2)

/-- What is in the buffer. Without a value, the look at its type crashes. -/
def readValue (o : ConfReader) (buf : List Byte) : Startup Conf :=
  match o.json_parse_ex buf with
  | .error error_buf => do
    FATAL error_buf
    Trace.stop
  | .ok (.object values) => values.foldlM (readEntry o) {}
  | .ok _ => do
    FATAL "Invalid config file"
    pure {}

def MAX_CONF_SIZE : Int := 128 * 1024

/-- Without a file or a length, what comes next is undefined. -/
def read_jconf (o : ConfReader) (file : CString) : Startup Conf :=
  match o.fopen file with
  | none => do
    FATAL "Invalid config path."
    Trace.stop
  | some f =>
    if f.pos < 0 then do
      FATAL "Invalid config path."
      Trace.stop
    else do
      fatalIf (MAX_CONF_SIZE ≤ f.pos) "Too large config file."
      fatalIf (f.pos = 0 ∨ f.nread = false) "Failed to read the config file."
      readValue o f.buf

/-- What the command line leaves open. -/
def Settings.merge (s : Settings) (conf : Conf) : Settings :=
  { s with
    server_host := if s.server_host = [] then conf.remote_addr.take conf.remote_num else s.server_host
    server_port := s.server_port <|> conf.remote_port
    password := s.password <|> conf.password
    key := s.key <|> conf.key
    method := s.method <|> conf.method
    user := s.user <|> conf.user
    plugin := s.plugin <|> conf.plugin
    nameservers := s.nameservers <|> conf.nameserver
    mode := if s.mode = .TCP_ONLY then conf.mode else s.mode }

-- ---------------------------------------------------------------------------
-- Files that pass
-- ---------------------------------------------------------------------------

def EntryOk (name : CString) (value : JsonValue) : Prop :=
  match confOption name, value with
  | some (_, .server), .array values => ∀ value ∈ values.take MAX_REMOTE_NUM, value.Stringable
  | some (_, .server), _ | none, _ => True
  | some (_, .text _), value => value.Stringable
  | some (_, .flag), value => value.isBoolean = true
  | some (_, .number), value => value.isInteger = true
  | some (_, .auth), _ => False

/-- The file can be read, and its options have the types they should have. -/
def ConfReadable (o : ConfReader) (path : CString) : Prop :=
  ∃ f ∈ o.fopen path, 0 < f.pos ∧ f.pos < MAX_CONF_SIZE ∧ f.nread = true ∧
    ∃ values, o.json_parse_ex f.buf = .ok (.object values) ∧ ∀ entry ∈ values, EntryOk entry.1 entry.2

def confIn (o : ConfReader) (buf : List Byte) : Conf :=
  match o.json_parse_ex buf with
  | .ok (.object values) => values.foldl (fun conf entry => conf.putEntry o entry.1 entry.2) {}
  | _ => {}

/-- What the file says. -/
def confAt (o : ConfReader) (path : CString) : Conf := (o.fopen path).elim {} fun f => confIn o f.buf

theorem meets_checkEntry (name : CString) (value : JsonValue) :
    Trace.Meets Effect.Failed (checkEntry name value) (EntryOk name value) () [] := by
  have hstring (value : JsonValue) : Trace.Meets Effect.Failed (checkString value) value.Stringable () [] :=
    (meets_fatalIf _).congr not_not
  unfold checkEntry EntryOk
  split
  · exact Trace.Meets.forM_check hstring _
  · exact Trace.Meets.pure ()
  · exact Trace.Meets.pure ()
  · exact hstring _
  · exact (meets_fatalIf _).congr (Bool.not_eq_false _).to_iff
  · exact (meets_fatalIf _).congr (Bool.not_eq_false _).to_iff
  · exact Trace.Meets.never (e := .failed (.fatal _)) trivial (List.mem_singleton_self _) () []

theorem meets_readValue (o : ConfReader) (buf : List Byte) :
    Trace.Meets Effect.Failed (readValue o buf)
      (∃ values, o.json_parse_ex buf = .ok (.object values) ∧ ∀ entry ∈ values, EntryOk entry.1 entry.2)
      (confIn o buf) [] := by
  have hentry (conf : Conf) (entry : CString × JsonValue) :
      Trace.Meets Effect.Failed (readEntry o conf entry) (EntryOk entry.1 entry.2)
        (conf.putEntry o entry.1 entry.2) [] :=
    (meets_checkEntry ..).map fun _ => conf.putEntry o entry.1 entry.2
  unfold readValue confIn
  split
  next error_buf herror =>
    refine (meets_fatal ..).congr (iff_of_false id ?_)
    rintro ⟨values, hvalues, -⟩
    exact absurd (herror.symm.trans hvalues) nofun
  next values hvalues =>
    simp only [hvalues]
    refine (Trace.Meets.foldlM hentry values {}).congr ⟨fun hok => ⟨values, rfl, hok⟩, ?_⟩
    rintro ⟨values', hvalues', hok⟩
    cases hvalues'
    exact hok
  next value hother hvalue =>
    refine (meets_fatal ..).congr (iff_of_false id ?_)
    rintro ⟨values, hvalues, -⟩
    exact hother values (Except.ok.inj (hvalue.symm.trans hvalues))

theorem meets_read_jconf (o : ConfReader) (path : CString) :
    Trace.Meets Effect.Failed (read_jconf o path) (ConfReadable o path) (confAt o path) [] := by
  unfold read_jconf ConfReadable confAt
  cases o.fopen path with
  | none => exact (meets_fatal ..).congr (by simp)
  | some f =>
    by_cases hpos : f.pos < 0
    · simp only [if_pos hpos]
      refine (meets_fatal ..).congr (iff_of_false id ?_)
      rintro ⟨f', hf, hlt, -⟩
      cases hf
      omega
    · simp only [if_neg hpos]
      refine ((meets_fatalIf _).bind fun _ => (meets_fatalIf _).bind fun _ => meets_readValue o f.buf).congr ?_
      have hlength : ¬ MAX_CONF_SIZE ≤ f.pos ∧ ¬ (f.pos = 0 ∨ f.nread = false) ↔
          0 < f.pos ∧ f.pos < MAX_CONF_SIZE ∧ f.nread = true := by
        rw [not_or, Bool.not_eq_false, Int.not_le]
        constructor
        · rintro ⟨hlt, hne, hread⟩
          exact ⟨by omega, hlt, hread⟩
        · rintro ⟨hpos, hlt, hread⟩
          exact ⟨hlt, by omega, hread⟩
      rw [← and_assoc, hlength]
      simp only [Option.mem_some_iff, exists_eq_left', and_assoc]

end SmartSocks.Ssserver
