import SmartSocks.Ssserver.ServerOptions

/-!
# `SSProxyServer`

The bundled server is started with the arguments of a command line. They cross
JNI as C strings, the password is the argument of `-k`, and `crypto_derive_key`
makes the key of it.
-/

namespace SmartSocks.Ssserver

open Jvm Crypto

/-- The command line. -/
def SS_SERVER_CMD (port : Int) (password : JString) : List JString :=
  [lit "ss-server", lit "-s", lit "127.0.0.1", lit "-p", lit (toString port), lit "-k", password,
    lit "-m", lit "aes-256-cfb"]

/-- The memory that `GetStringUTFChars` returns. -/
def GetStringUTFChars (paramString : JString) : List Byte := paramString.modifiedUtf8 ++ [0]

/-- The `password` of `ss_server_main`. -/
def passwordOf (argv : List CString) : Option CString :=
  ((getopt_long (argv.drop 1)).foldl Settings.set { plugin := none, mode := .TCP_ONLY }).password

/-- The key that the server has for a cipher. -/
def serverKey (md : Md5) (port : Int) (password : JString) (key_len : Nat) : Option (List Byte) :=
  (passwordOf ((SS_SERVER_CMD port password).map fun paramString => cString (GetStringUTFChars paramString))).map fun pass =>
    (crypto_derive_key md pass (List.replicate MAX_KEY_LENGTH 0) key_len).take key_len

-- ---------------------------------------------------------------------------
-- The key of the server
-- ---------------------------------------------------------------------------

theorem cString_getStringUTFChars (s : JString) : cString (GetStringUTFChars s) = s.modifiedUtf8 := by
  unfold cString GetStringUTFChars
  rw [List.takeWhile_append_of_pos]
  · simp
  · intro b hb
    exact decide_eq_true fun hzero => JString.zero_notMem_modifiedUtf8 s (hzero ▸ hb)

/-- An option that stands alone takes the next argument, whatever that is. -/
theorem getopt_long_required {arg : CString} {opt : CString → Opt} (harg : optionsOf arg = ([], some opt))
    (hend : arg ≠ [0x2D, 0x2D]) (optarg : CString) (argv : List CString) :
    getopt_long (arg :: optarg :: argv) = opt optarg :: getopt_long argv := by
  conv_lhs => unfold getopt_long
  simp only [if_neg hend, harg, List.nil_append]

theorem passwordOf_cmd (port : Int) (password : JString) :
    passwordOf ((SS_SERVER_CMD port password).map fun paramString => cString (GetStringUTFChars paramString)) =
      some password.modifiedUtf8 := by
  have hs : optionsOf (lit "-s").modifiedUtf8 = ([], some .server) := rfl
  have hp : optionsOf (lit "-p").modifiedUtf8 = ([], some .port) := rfl
  have hk : optionsOf (lit "-k").modifiedUtf8 = ([], some .password) := rfl
  have hm : optionsOf (lit "-m").modifiedUtf8 = ([], some .method) := rfl
  simp only [passwordOf, SS_SERVER_CMD, List.map_cons, List.map_nil, List.drop_succ_cons, List.drop_zero,
    cString_getStringUTFChars]
  rw [getopt_long_required hs (by decide), getopt_long_required hp (by decide),
    getopt_long_required hk (by decide), getopt_long_required hm (by decide)]
  rfl

theorem serverKey_eq (md : Md5) (port : Int) (password : JString) {key_len : Nat}
    (hlength : key_len ≤ MAX_KEY_LENGTH) :
    serverKey md port password key_len =
      some (IteratedHash.key (ShadowSocksKey.hashOf md) password.modifiedUtf8 key_len) := by
  rw [serverKey, passwordOf_cmd, Option.map_some, take_crypto_derive_key md _ hlength]

end SmartSocks.Ssserver
