import Mathlib.Logic.Function.Basic
import SmartSocks.Crypto.Datagrams
import SmartSocks.Library.Lru
import SmartSocks.Library.Machine
import SmartSocks.Ssserver.Server

/-!
# The UDP relay of the server

`udprelay.c` as it is built into the server, with `cache.c`. Each client has a socket
towards the remotes for each family of addresses, and one for all hosts that have to be
resolved. They stand in a cache, which frees what it evicts. A callback answers `none`
when it follows a pointer to a freed `remote_ctx_t`: addresses are given in the order of
allocation, and none is given twice.

What went through the sockets so far is kept in the fields named as history, together
with the client that each socket was opened for.
-/

namespace SmartSocks.Ssserver.UdpRelay

open Jvm
open Crypto.Server (DatagramT Ppbloom)

def ADDRTYPE_MASK : Byte := 0x0F

/-- Of the server. -/
def MAX_UDP_CONN_NUM : Nat := 512

/-- `struct sockaddr_storage`, in the order of the network. -/
structure Sockaddr where
  ss_family : Family := .AF_UNSPEC
  addr : List Byte := []
  port : List Byte := []
  deriving DecidableEq, Repr

/-- An IPv4 or IPv6 address. -/
def Sockaddr.Inet (a : Sockaddr) : Prop :=
  (a.ss_family = .AF_INET ∧ a.addr.length = 4 ∨ a.ss_family = .AF_INET6 ∧ a.addr.length = 16) ∧ a.port.length = 2

-- ---------------------------------------------------------------------------
-- Headers
-- ---------------------------------------------------------------------------

def construct_udprelay_header (in_addr : Sockaddr) : List Byte :=
  match in_addr.ss_family with
  | .AF_INET => 1 :: in_addr.addr ++ in_addr.port
  | .AF_INET6 => 4 :: in_addr.addr ++ in_addr.port
  | .AF_UNSPEC => []

/-- What `parse_udprelay_header` returns and writes; `host` is used for names only. -/
structure UdpHeader where
  offset : Nat
  host : List Byte := []
  port : List Byte
  dst_addr : Sockaddr
  deriving DecidableEq, Repr

section
-- `inet_pton` with `AF_INET`
variable (inet_pton : List Byte → Option (List Byte))

/-- The address that is written for a name. `inet_pton` is called with `AF_INET` for either version, and what it
does not write stays zero. -/
def nameAddr (tmp port : List Byte) : Sockaddr :=
  match corkIpInit tmp with
  | none => {}
  | some version =>
    if version = 4 then ⟨.AF_INET, (inet_pton tmp).getD (List.replicate 4 0), port⟩
    else
      let sin6_addr := match inet_pton tmp with
        | some bytes => bytes ++ List.replicate 12 0
        | none => List.replicate 16 0
      ⟨.AF_INET6, sin6_addr, port⟩

/-- `none` stands for 0. -/
def parse_udprelay_header (buf : List Byte) : Option UdpHeader :=
  let atyp := buf.getD 0 0 &&& ADDRTYPE_MASK
  let offset := 1
  if atyp = 1 then
    let in_addr_len := 4
    if in_addr_len + 3 ≤ buf.length then
      let port := (buf.drop (offset + in_addr_len)).take 2
      some { offset := offset + in_addr_len + 2, port
             dst_addr := ⟨.AF_INET, (buf.drop offset).take in_addr_len, port⟩ }
    else none
  else if atyp = 3 then
    let name_len := (buf.getD offset 0).toNat
    if name_len + 4 ≤ buf.length then
      let host := cString ((buf.drop (offset + 1)).take name_len)
      let port := (buf.drop (offset + 1 + name_len)).take 2
      some { offset := offset + 1 + name_len + 2, host, port, dst_addr := nameAddr inet_pton host port }
    else none
  else if atyp = 4 then
    let in6_addr_len := 16
    if in6_addr_len + 3 ≤ buf.length then
      let port := (buf.drop (offset + in6_addr_len)).take 2
      some { offset := offset + in6_addr_len + 2, port
             dst_addr := ⟨.AF_INET6, (buf.drop offset).take in6_addr_len, port⟩ }
    else none
  else none

end

-- ---------------------------------------------------------------------------
-- What headers stand for
-- ---------------------------------------------------------------------------

/-- The address that a datagram came from is read back from its header. -/
theorem parse_construct (inet_pton : List Byte → Option (List Byte)) {in_addr : Sockaddr} (h : in_addr.Inet)
    (data : List Byte) :
    parse_udprelay_header inet_pton (construct_udprelay_header in_addr ++ data) =
      some { offset := (construct_udprelay_header in_addr).length, port := in_addr.port, dst_addr := in_addr } := by
  obtain ⟨family, addr, port⟩ := in_addr
  obtain ⟨hfamily, hport⟩ := h
  simp only at hfamily hport
  rcases hfamily with ⟨rfl, haddr⟩ | ⟨rfl, haddr⟩
  · have htake : (addr ++ (port ++ data)).take 4 = addr := List.take_left' haddr
    have hdrop : (addr ++ (port ++ data)).drop 4 = port ++ data := List.drop_left' haddr
    have htake' : (port ++ data).take 2 = port := List.take_left' hport
    have hatyp : (1 : Byte) &&& ADDRTYPE_MASK = 1 := by decide
    have hlength : 4 + 3 ≤ 4 + (2 + data.length) + 1 := by omega
    simp only [construct_udprelay_header, parse_udprelay_header, List.cons_append, List.append_assoc,
      List.getD_cons_zero, hatyp, if_true, Nat.add_comm 1 4, List.drop_succ_cons, List.drop_zero, htake,
      hdrop, htake', List.length_cons, List.length_append, haddr, hport]
    rw [if_pos hlength]
  · have htake : (addr ++ (port ++ data)).take 16 = addr := List.take_left' haddr
    have hdrop : (addr ++ (port ++ data)).drop 16 = port ++ data := List.drop_left' haddr
    have htake' : (port ++ data).take 2 = port := List.take_left' hport
    have hatyp : (4 : Byte) &&& ADDRTYPE_MASK = 4 := by decide
    have hfour : (4 : Byte) ≠ 1 ∧ (4 : Byte) ≠ 3 := by decide
    have hlength : 16 + 3 ≤ 16 + (2 + data.length) + 1 := by omega
    simp only [construct_udprelay_header, parse_udprelay_header, List.cons_append, List.append_assoc,
      List.getD_cons_zero, hatyp, if_neg hfour.1, if_neg hfour.2, if_true, Nat.add_comm 1 16,
      List.drop_succ_cons, List.drop_zero, htake, hdrop, htake', List.length_cons, List.length_append, haddr, hport]
    rw [if_pos hlength]

/-- Without a colon there is no hextet behind the first, and no double colon. -/
theorem corkIpv6Loop_no_colon {s : CorkIpv6} {str : List Byte} (hcolon : 0x3A ∉ str) (hseen : s.hextets_seen = 0)
    (hdouble : s.double_colon_allowed = true) : corkIpv6Loop s str = false := by
  induction str generalizing s with
  | nil => simp [corkIpv6Loop, corkIpv6End, hseen, hdouble]
  | cons ch str ih =>
    obtain ⟨hch, hstr⟩ := not_or.mp (mt List.mem_cons.mpr hcolon)
    simp only [corkIpv6Loop]
    split
    · split
      · rfl
      · exact ih hstr hseen hdouble
    · rw [if_neg (Ne.symm hch)]
      split
      · simp [hseen, corkIpv6End, hdouble]
      · rfl

theorem colon_mem_of_ipv6 {str : List Byte} (h : corkIpInit str = some 6) : 0x3A ∈ str := by
  by_contra hcolon
  rw [corkIpInit, corkIpv6Loop_no_colon hcolon rfl rfl] at h
  split at h <;> simp at h

/-- For an IPv6 address that stands in the header as a name, nothing is written. -/
theorem ipv6_name_unspecified (inet_pton : List Byte → Option (List Byte)) (hpton : ∀ s, 0x3A ∈ s → inet_pton s = none)
    (buf : List Byte) (header : UdpHeader) (hparse : parse_udprelay_header inet_pton buf = some header)
    (hhost : corkIpInit header.host = some 6) :
    header.dst_addr = ⟨.AF_INET6, List.replicate 16 0, header.port⟩ := by
  have hcolon := colon_mem_of_ipv6 hhost
  simp only [parse_udprelay_header] at hparse
  split at hparse
  · split at hparse
    · cases hparse
      simp at hcolon
    · cases hparse
  · split at hparse
    · split at hparse
      · cases hparse
        simp only [nameAddr, hhost, hpton _ hcolon]
        rfl
      · cases hparse
    · split at hparse
      · split at hparse
        · cases hparse
          simp at hcolon
        · cases hparse
      · cases hparse

-- ---------------------------------------------------------------------------
-- The state
-- ---------------------------------------------------------------------------

structure RemoteCtx where
  af : Family := .AF_UNSPEC
  src_addr : Sockaddr
  deriving DecidableEq, Repr

/-- `hash_key` -/
abbrev Key := Family × Sockaddr

def RemoteCtx.key (ctx : RemoteCtx) : Key := (ctx.af, ctx.src_addr)

structure QueryCtx where
  src_addr : Sockaddr
  buf : List Byte
  remote_ctx : Option Nat
  deriving DecidableEq, Repr

/-- What went through the socket of a `remote_ctx_t`. -/
structure Datagram where
  socket : Nat
  client : Sockaddr
  remote : Sockaddr
  data : List Byte
  deriving DecidableEq, Repr

structure Relay where
  remote : Nat → Option RemoteCtx
  query : Nat → Option QueryCtx
  conn_cache : List (Key × Nat)
  crypto : Ppbloom
  /-- history: how many `remote_ctx_t` have been allocated, and the client of each -/
  allocated : Nat
  opened : Nat → Option Sockaddr
  /-- history: what was decrypted for which client, and what came from which remote -/
  received : List (Sockaddr × List Byte)
  arrived : List (Sockaddr × List Byte)
  /-- history -/
  forwarded : List Datagram
  answered : List Datagram

namespace Relay

def initial (crypto : Ppbloom) : Relay where
  remote _ := none
  query _ := none
  conn_cache := []
  crypto
  allocated := 0
  opened _ := none
  received := []
  arrived := []
  forwarded := []
  answered := []

variable (st : Relay)

/-- `close_and_free_remote`, which also stops the watchers. -/
def closeAndFreeRemote (r : Nat) : Option Relay :=
  (st.remote r).map fun _ => { st with remote := Function.update st.remote r none }

/-- `sendto` with the socket of a `remote_ctx_t`. -/
def sendto (r : Nat) (client dst : Sockaddr) (data : List Byte) (sent : Bool) : Relay :=
  if sent then { st with forwarded := ⟨r, client, dst, data⟩ :: st.forwarded } else st

/-- `new_remote` -/
def newRemote (ctx : RemoteCtx) : Relay :=
  { st with
    remote := Function.update st.remote st.allocated (some ctx)
    allocated := st.allocated + 1
    opened := Function.update st.opened st.allocated (some ctx.src_addr) }

def cacheLookup (key : Key) : Option Nat × Relay :=
  let (found, conn_cache) := Lru.touch key st.conn_cache
  (found, { st with conn_cache })

def cacheInsert (key : Key) (r : Nat) : Option Relay :=
  let (evicted, conn_cache) := Lru.insert MAX_UDP_CONN_NUM key r st.conn_cache
  match evicted with
  | none => some { st with conn_cache }
  | some (_, old) => closeAndFreeRemote { st with conn_cache } old

def cacheRemove (key : Key) : Option Relay :=
  match Lru.take key st.conn_cache with
  | none => some st
  | some (r, conn_cache) => closeAndFreeRemote { st with conn_cache } r

/-- A new `remote_ctx_t`, which is kept if its first datagram could be sent; without a socket there is none. -/
def openRemote (ctx : RemoteCtx) (dst : Sockaddr) (data : List Byte) (socket sent : Bool) : Option Relay :=
  if socket then
    let r := st.allocated
    let st := (st.newRemote ctx).sendto r ctx.src_addr dst data sent
    if sent then (st.cacheInsert ctx.key r).bind fun st =>
      -- `ev_io_start` and `ev_timer_start`
      (st.remote r).map fun _ => st
    else st.closeAndFreeRemote r
  else some st

/-- `resolv_start` -/
def resolvStart (q : Nat) (query : QueryCtx) : Relay :=
  { st with query := Function.update st.query q (some query) }

/-- `server_recv_cb` behind `cache_lookup`. -/
def serverRecvFound (q : Nat) (src_addr : Sockaddr) (header : UdpHeader) (data : List Byte) (socket sent : Bool) :
    Option Nat → Option Relay
  | some r =>
    if header.dst_addr.ss_family = .AF_UNSPEC then some (st.resolvStart q ⟨src_addr, data, some r⟩)
    else some (st.sendto r src_addr header.dst_addr data sent)
  | none =>
    if header.dst_addr.ss_family = .AF_UNSPEC then some (st.resolvStart q ⟨src_addr, data, none⟩)
    else st.openRemote ⟨header.dst_addr.ss_family, src_addr⟩ header.dst_addr data socket sent

def serverRecvCb (D : DatagramT) (inet_pton : List Byte → Option (List Byte)) (q : Nat) (src_addr : Sockaddr)
    (bytes : List Byte) (socket sent : Bool) : Option Relay :=
  match D.decrypt_all st.crypto bytes with
  | (.ok, buf, crypto) =>
    let st := { st with crypto, received := (src_addr, buf) :: st.received }
    match parse_udprelay_header inet_pton buf with
    | none => some st
    | some header =>
      let (remote_ctx, st) := st.cacheLookup (header.dst_addr.ss_family, src_addr)
      let data := buf.drop header.offset
      match remote_ctx with
      | none => st.serverRecvFound q src_addr header data socket sent none
      | some r => (st.remote r).bind fun ctx =>
          -- `sockaddr_cmp`
          st.serverRecvFound q src_addr header data socket sent (if ctx.src_addr = src_addr then some r else none)
  | (_, _, crypto) => some { st with crypto }

/-- `resolv_cb` and `resolv_free_cb` -/
def resolvCb (q : Nat) (addr : Option Sockaddr) (socket sent : Bool) : Option Relay :=
  (st.query q).bind fun query_ctx =>
    let st := { st with query := Function.update st.query q none }
    match addr with
    | none => some st
    | some addr =>
      let (remote_ctx, st) := match query_ctx.remote_ctx with
        | some r => (some r, st)
        | none => st.cacheLookup (.AF_UNSPEC, query_ctx.src_addr)
      match remote_ctx with
      | some r => (st.remote r).bind fun _ => some (st.sendto r query_ctx.src_addr addr query_ctx.buf sent)
      | none => st.openRemote { src_addr := query_ctx.src_addr } addr query_ctx.buf socket sent

def remoteRecvCb (D : DatagramT) (r : Nat) (src_addr : Sockaddr) (bytes random : List Byte) (sent : Bool) :
    Option Relay :=
  (st.remote r).bind fun remote_ctx =>
    let st := { st with arrived := (src_addr, bytes) :: st.arrived }
    match D.encrypt_all random (construct_udprelay_header src_addr ++ bytes) with
    | (.ok, buf) =>
      if sent then some { st with answered := ⟨r, remote_ctx.src_addr, src_addr, buf⟩ :: st.answered } else some st
    | _ => some st

def remoteTimeoutCb (r : Nat) : Option Relay :=
  (st.remote r).bind fun remote_ctx => st.cacheRemove remote_ctx.key

/-- `cache_delete` in `free_udprelay`. -/
def freeUdprelay : Option Relay :=
  st.conn_cache.foldlM (fun st entry => st.closeAndFreeRemote entry.2) { st with conn_cache := [] }

/-- libev calls a callback whose watcher is active, c-ares answers what it was asked. What a system call or `malloc`
gives is part of the event, `q` is the `query_ctx_t` if there is a new one. -/
inductive Event
  | serverRecv (q : Nat) (src_addr : Sockaddr) (bytes : List Byte) (socket sent : Bool)
  | resolved (q : Nat) (addr : Option Sockaddr) (socket sent : Bool)
  | remoteRecv (r : Nat) (src_addr : Sockaddr) (bytes random : List Byte) (sent : Bool)
  | remoteTimeout (r : Nat)
  deriving DecidableEq, Repr

def Event.enabled (D : DatagramT) (st : Relay) : Event → Bool
  | .serverRecv q _ _ _ _ => (st.query q).isNone
  | .resolved q _ _ _ => (st.query q).isSome
  | .remoteRecv r _ _ random _ => (st.remote r).isSome && random.length = D.nonce_len
  | .remoteTimeout r => (st.remote r).isSome

def handle (D : DatagramT) (inet_pton : List Byte → Option (List Byte)) : Event → Option Relay
  | .serverRecv q src_addr bytes socket sent => st.serverRecvCb D inet_pton q src_addr bytes socket sent
  | .resolved q addr socket sent => st.resolvCb q addr socket sent
  | .remoteRecv r src_addr bytes random sent => st.remoteRecvCb D r src_addr bytes random sent
  | .remoteTimeout r => st.remoteTimeoutCb r

/-- The state is `none` behind a fault; nothing follows it. -/
def step (D : DatagramT) (inet_pton : List Byte → Option (List Byte)) (st : Option Relay) (e : Event) :
    Option (Option Relay) :=
  st.bind fun st => if e.enabled D st then some (st.handle D inet_pton e) else none

end Relay
end SmartSocks.Ssserver.UdpRelay
