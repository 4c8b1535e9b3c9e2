import SmartSocks.Ssserver.CryptoDeriveKey

/-!
# The relay header on the server

`server_recv_cb` in `STAGE_INIT`: the first decrypted buffer of a connection is
read as an address header, and what is behind it is the first payload. A host
name is copied into `host`, a zeroed array, and is a C string from then on. Whether
it is an IP address is up to `cork_ip_init`, and which one is up to `inet_pton`.
-/

namespace SmartSocks.Ssserver

open Jvm Crypto EasyValue

/-- `buffer_t`; the cells behind `len` are left from before. -/
structure Buffer where
  data : Bytes Byte
  len : Nat

inductive Family
  | AF_UNSPEC
  | AF_INET
  | AF_INET6
  deriving DecidableEq, Repr

/-- What a host name is given to: `outbound_block` is `acl && outbound_block_match_host(host) == 1`,
and `inet_pton` is the C library's, with the bytes that it writes or `none` for 0. -/
structure HostCalls where
  outbound_block : List Byte → Bool
  inet_pton : Family → List Byte → Option (List Byte)

-- ---------------------------------------------------------------------------
-- `cork_ip_init`
-- ---------------------------------------------------------------------------

/-- The loop of `cork_ipv4_parse`; `result` holds the octets so far. -/
def corkIpv4Loop (seen_digit_in_octet : Bool) (octets digit : Nat) (result : List Nat) :
    List Byte → Option (List Nat)
  | [] => if seen_digit_in_octet ∧ octets = 3 then some (result ++ [digit]) else none
  | ch :: str =>
    if 0x30 ≤ ch ∧ ch ≤ 0x39 then
      if digit * 10 + (ch.toNat - 0x30) > 255 then none
      else corkIpv4Loop true octets (digit * 10 + (ch.toNat - 0x30)) result str
    else if ch = 0x2E then
      if octets = 3 then none else corkIpv4Loop false (octets + 1) 0 (result ++ [digit]) str
    else none

def corkIpv4Parse (str : List Byte) : Option (List Nat) := corkIpv4Loop false 0 0 [] str

/-- The variables of `cork_ipv6_init`; `hextet` holds the digits that were seen
in the hextet. -/
structure CorkIpv6 where
  hextet : List Byte := []
  hextets_seen : Nat := 0
  another_required : Bool := true
  digit_allowed : Bool := true
  colon_allowed : Bool := true
  double_colon_allowed : Bool := true
  just_saw_colon : Bool := false

def isHexDigit (ch : Byte) : Bool :=
  (0x30 ≤ ch ∧ ch ≤ 0x39) ∨ (0x61 ≤ ch ∧ ch ≤ 0x66) ∨ (0x41 ≤ ch ∧ ch ≤ 0x46)

/-- Behind the loop of `cork_ipv6_init`. -/
def corkIpv6End (s : CorkIpv6) : Bool :=
  if s.hextet ≠ [] then
    if s.hextets_seen = 8 then false else !s.double_colon_allowed || s.hextets_seen + 1 = 8
  else if s.another_required then false
  else !s.double_colon_allowed || s.hextets_seen = 8

def corkIpv6Loop (s : CorkIpv6) : List Byte → Bool
  | [] => corkIpv6End s
  | ch :: str =>
    if isHexDigit ch then
      if !s.digit_allowed ∨ s.hextet.length = 4 then false
      else corkIpv6Loop
        { s with hextet := s.hextet ++ [ch], colon_allowed := true, just_saw_colon := false } str
    else if ch = 0x3A then
      if !s.colon_allowed then false
      else if s.just_saw_colon then
        corkIpv6Loop
          { s with
            colon_allowed := false
            digit_allowed := true
            another_required := false
            double_colon_allowed := false } str
      else if s.hextets_seen = 8 then false
      else if s.hextet = [] ∧ s.hextets_seen = 0 then
        corkIpv6Loop
          { s with
            colon_allowed := true
            digit_allowed := false
            just_saw_colon := true
            another_required := true } str
      else
        corkIpv6Loop
          { s with
            hextet := []
            hextets_seen := s.hextets_seen + 1
            colon_allowed := s.double_colon_allowed
            just_saw_colon := true
            another_required := true } str
    else if ch = 0x2E then
      -- the rest, from the start of the hextet, is an IPv4 address
      if 7 ≤ s.hextets_seen then false
      else if (corkIpv4Parse (s.hextet ++ ch :: str)).isSome then
        corkIpv6End { s with hextet := [], hextets_seen := s.hextets_seen + 2, another_required := false }
      else false
    else false

/-- The `version` of the address, or `none` for `-1`. -/
def corkIpInit (str : List Byte) : Option Nat :=
  if (corkIpv4Parse str).isSome then some 4
  else if corkIpv6Loop {} str then some 6
  else none

-- ---------------------------------------------------------------------------
-- `validate_hostname`
-- ---------------------------------------------------------------------------

/-- `valid_label_bytes` -/
def validLabelByte (b : Byte) : Bool :=
  b = 0x2D ∨ (0x30 ≤ b ∧ b ≤ 0x39) ∨ (0x41 ≤ b ∧ b ≤ 0x5A) ∨ b = 0x5F ∨ (0x61 ≤ b ∧ b ≤ 0x7A)

/-- `strchr(label, '.')` as a distance from `label`, or what is left of the name. -/
def labelLength (label : List Byte) (left : Nat) : Nat := ((cString label).idxOf? 0x2E).getD left

/-- The loop of `validate_hostname`; `left` bytes of the name start at `label`. -/
def validateLabels (label : List Byte) (left : Nat) : Bool :=
  if left = 0 then true
  else if left < labelLength label left then false
  else if 63 < labelLength label left ∨ labelLength label left < 1 then false
  else if label.getD 0 0 = 0x2D ∨ label.getD (labelLength label left - 1) 0 = 0x2D then false
  -- `strspn`
  else if (label.takeWhile validLabelByte).length < labelLength label left then false
  else validateLabels (label.drop (labelLength label left + 1)) (left - (labelLength label left + 1))
termination_by left

def validateHostname (hostname : List Byte) (hostname_len : Nat) : Bool :=
  if hostname_len < 1 ∨ 255 < hostname_len then false
  else if hostname.getD 0 0 = 0x2E then false
  else validateLabels hostname hostname_len

-- ---------------------------------------------------------------------------
-- `server_recv_cb`
-- ---------------------------------------------------------------------------

def ADDRTYPE_MASK : Byte := 0xF

/-- `char host[257] = { 0 }` after the `memcpy`. -/
def hostArray (name : List Byte) : List Byte := name ++ List.replicate (257 - name.length) 0

/-- What `server_recv_cb` makes of the first buffer. A name that is turned down is
kept as it was copied. -/
inductive Request
  | malformed (report : String)
  | blocked (name : List Byte)
  | invalidHostName (name : List Byte)
  | connectAddress (address : List Byte) (port : Short) (payload : List Byte)
  /-- The name `host` is an IP address, and the server connects to `addr`. -/
  | connect (host : List Byte) (ai_family : Family) (addr : List Byte) (port : Short) (payload : List Byte)
  | resolve (host : List Byte) (port : Short) (payload : List Byte)
  deriving DecidableEq, Repr

/-- The port at `offset`, and the payload behind it. -/
def takePort (buf : Buffer) (offset : Nat) (request : Short → List Byte → Request) : Request :=
  if buf.len < offset + 2 then .malformed "invalid request length"
  else request (short buf.data offset) (buf.data.slice (offset + 2) (buf.len - (offset + 2)))

/-- The `version` of a `struct cork_ip` is 4 or 6. -/
def Family.ofVersion (version : Nat) : Family := if version = 4 then .AF_INET else .AF_INET6

/-- `sizeof(struct in_addr)` and `sizeof(struct in6_addr)`. -/
def Family.addrLength : Family → Nat
  | .AF_UNSPEC => 0
  | .AF_INET => 4
  | .AF_INET6 => 16

/-- The address in `storage` behind `inet_pton`. Its result is not looked at, and what
it does not write is zero. -/
def HostCalls.storedAddr (calls : HostCalls) (family : Family) (host : List Byte) : List Byte :=
  (calls.inet_pton family host).getD (List.replicate family.addrLength 0)

/-- `STAGE_INIT` -/
def serverRecvInit (calls : HostCalls) (buf : Buffer) : Request :=
  let atyp := buf.data.cell 0
  if atyp &&& ADDRTYPE_MASK = 1 then
    if 4 + 3 ≤ buf.len then takePort buf (1 + 4) (.connectAddress (buf.data.slice 1 4))
    else .malformed "invalid length for ipv4 address"
  else if atyp &&& ADDRTYPE_MASK = 3 then
    let name_len := (buf.data.cell 1).toNat
    if name_len + 4 ≤ buf.len then
      let name := buf.data.slice 2 name_len
      let host := hostArray name
      if calls.outbound_block (cString host) then .blocked name
      else match corkIpInit (cString host) with
        | some version =>
          let ai_family := Family.ofVersion version
          takePort buf (1 + (name_len + 1))
            (.connect (cString host) ai_family (calls.storedAddr ai_family (cString host)))
        | none =>
          if !validateHostname host name_len then .invalidHostName name
          else takePort buf (1 + (name_len + 1)) (.resolve (cString host))
    else .malformed "invalid host name length"
  else if atyp &&& ADDRTYPE_MASK = 4 then
    if 16 + 3 ≤ buf.len then takePort buf (1 + 16) (.connectAddress (buf.data.slice 1 16))
    else .malformed "invalid length for ipv6 address"
  else .malformed "invalid address type"

/-- `1.2.3.4` -/
def sampleAddress : List Byte := [0x31, 0x2E, 0x32, 0x2E, 0x33, 0x2E, 0x34]

/-- No ACL, and the one IP address that the examples have as a name. -/
def sampleCalls : HostCalls where
  outbound_block _ := false
  inet_pton family host := if family = .AF_INET ∧ host = sampleAddress then some [1, 2, 3, 4] else none

end SmartSocks.Ssserver
