import Mathlib.Algebra.Group.Nat.Defs
import Mathlib.Data.List.Basic
import Mathlib.Tactic.SplitIfs
import Gain.Errors
import Gain.Net.Address

/-! # Socket addresses

A resolved address becomes the socket address of its family, and a socket address of
the kernel becomes an address of package `net` again. The two directions are written
for TCP and for UDP. The resolver, the interfaces of the system and the slices of the
byte pool are parameters.
-/

namespace Gain

open List Option

namespace IP

/-- `To16` -/
def to16 (ip : IP) : Option (List UInt8) :=
  if ip.bytes.length = 4 then some (v4InV6Prefix ++ ip.bytes)
  else if ip.bytes.length = 16 then some ip.bytes
  else none

/-- `Equal`: an IPv4 address equals its mapped form. -/
def equal (ip x : IP) : Bool :=
  if ip.bytes.length = x.bytes.length then ip.bytes = x.bytes
  else if ip.bytes.length = 4 ∧ x.bytes.length = 16 then
    x.bytes.take 12 = v4InV6Prefix ∧ ip.bytes = x.bytes.drop 12
  else if ip.bytes.length = 16 ∧ x.bytes.length = 4 then
    ip.bytes.take 12 = v4InV6Prefix ∧ ip.bytes.drop 12 = x.bytes
  else false

/-- `IPv4zero` -/
def v4zero : IP := ⟨v4InV6Prefix ++ [0, 0, 0, 0]⟩

/-- `IPv6zero` -/
def v6zero : IP := ⟨List.replicate 16 0⟩

/-- `String`, also of no address. -/
def text (ip : IP) : List Char := if ip.bytes.length = 0 then "<nil>".toList else ip.string

end IP

/-- `net.UDPAddr` -/
structure UDPAddr where
  ip : IP
  port : Nat
  zone : List Char := []
  deriving DecidableEq, Repr

/-- `net.Addr` -/
inductive Addr where
  | tcp (addr : TCPAddr)
  | udp (addr : UDPAddr)
  | unix (name net : List Char)
  deriving DecidableEq, Repr

/-- `copy(dst, src)` -/
def copyBytes (dst src : List UInt8) : List UInt8 := src.take dst.length ++ dst.drop src.length

theorem length_copyBytes (dst src : List UInt8) : (copyBytes dst src).length = dst.length := by
  rw [copyBytes, length_append, length_take, length_drop]
  omega

variable {ip4 src : List UInt8}

theorem copyBytes_of_length {dst : List UInt8} (same : src.length = dst.length) :
    copyBytes dst src = src := by
  rw [copyBytes, take_of_length_le (Nat.le_of_eq same),
    drop_of_length_le (Nat.le_of_eq same.symm), append_nil]

/-- An array of bytes. -/
structure Block (n : Nat) where
  bytes : List UInt8
  length : bytes.length = n
  deriving DecidableEq

namespace Block

variable {n : Nat}

def zero : Block n := ⟨List.replicate n 0, length_replicate⟩

/-- `copy(b[:], src)` -/
def copy (b : Block n) (src : List UInt8) : Block n :=
  ⟨copyBytes b.bytes src, (length_copyBytes b.bytes src).trans b.length⟩

theorem copy_of_length (b : Block n) (same : src.length = n) :
    (b.copy src).bytes = src := copyBytes_of_length (same.trans b.length.symm)

end Block

structure SockaddrInet4 where
  port : Nat
  addr : Block 4

structure SockaddrInet6 where
  port : Nat
  zoneId : UInt32
  addr : Block 16

/-- The `Sockaddr` of packages `unix` and `syscall`, which have the same fields. -/
inductive Sockaddr where
  | inet4 (sa : SockaddrInet4)
  | inet6 (sa : SockaddrInet6)
  | unix (name : List Char)

/-- What package `net` asks the system. -/
structure NetSystem where
  resolveTCPAddr : (network address : List Char) → Except Error TCPAddr
  resolveUDPAddr : (network address : List Char) → Except Error UDPAddr
  /-- The index of the interface. -/
  interfaceByName : (name : List Char) → Except Error Nat
  /-- The name of the interface. -/
  interfaceByIndex : (index : Nat) → Except Error (List Char)

/-! ## To a socket address -/

/-- `AF_INET` -/
def afInet : Int := 2

/-- `AF_INET6` -/
def afInet6 : Int := 10

def ipToSockaddrInet4 (ip : IP) (port : Nat) : Except Error SockaddrInet4 :=
  let ip := if ip.bytes.length = 0 then .v4zero else ip
  match ip.to4 with
  | none => .error (.addrError "non-IPv4 address" ip.text)
  | some ip4 => .ok ⟨port, Block.zero.copy ip4⟩

def ipToSockaddrInet6 (net : NetSystem) (ip : IP) (port : Nat) (zone : List Char) :
    Except Error SockaddrInet6 :=
  let ip := if ip.bytes.length = 0 ∨ ip.equal .v4zero = true then .v6zero else ip
  match ip.to16 with
  | none => .error (.addrError "non-IPv6 address" ip.text)
  | some ip6 =>
    -- the interface is looked up for an empty zone too
    match net.interfaceByName zone with
    | .error err => .error (.wrapped "interfaceByName" err)
    | .ok index => .ok ⟨port, UInt32.ofNat index, Block.zero.copy ip6⟩

def ipToSockaddr (net : NetSystem) (family : Int) (ip : IP) (port : Nat) (zone : List Char) :
    Except Error Sockaddr :=
  if family = afInet then (ipToSockaddrInet4 ip port).map .inet4
  else if family = afInet6 then (ipToSockaddrInet6 net ip port zone).map .inet6
  else .error (.addrError "invalid address family" ip.text)

/-- The names of a transport protocol and the texts of its errors. -/
structure Transport where
  any : List Char
  v4 : List Char
  v6 : List Char
  unsupported : Error
  resolving : String

def tcpTransport : Transport :=
  ⟨"tcp".toList, "tcp4".toList, "tcp6".toList, .unsupportedTCPProtocol, "resolveTCPAddr error"⟩

def udpTransport : Transport :=
  ⟨"udp".toList, "udp4".toList, "udp6".toList, .unsupportedUDPProtocol, "resolveUDPAddr error"⟩

/-- The version of the protocol, from the shape of the address. -/
def determineProto (t : Transport) (proto : List Char) (ip : IP) : Except Error (List Char) :=
  if ip.to4 ≠ none then .ok t.v4
  else if ip.to16 ≠ none then .ok t.v6
  else if proto = t.any ∨ proto = t.v4 ∨ proto = t.v6 then .ok proto
  else .error t.unsupported

def determineTCPProto (proto : List Char) (addr : TCPAddr) : Except Error (List Char) :=
  determineProto tcpTransport proto addr.ip

def determineUDPProto (proto : List Char) (addr : UDPAddr) : Except Error (List Char) :=
  determineProto udpTransport proto addr.ip

/-- What `GetTCPSockAddr` and `GetUDPSockAddr` return. -/
structure SockAddr (α : Type) where
  sockAddr : Option Sockaddr := none
  family : Int := 0
  addr : Option α := none
  ipv6only : Bool := false
  err : Option Error := none

/-- The socket address and the error of an attempt to make one. -/
def SockAddr.made {α : Type} (family : Int) (addr : α) (ipv6only : Bool) :
    Except Error Sockaddr → SockAddr α
  | .ok sa => ⟨some sa, family, some addr, ipv6only, none⟩
  | .error err => ⟨none, family, some addr, ipv6only, some err⟩

/-- The address of a version of the protocol. -/
def sockAddrOf {α : Type} (net : NetSystem) (t : Transport) (version : List Char) (addr : α)
    (ip : IP) (port : Nat) (zone : List Char) : SockAddr α :=
  if version = t.v4 then .made afInet addr false (ipToSockaddr net afInet ip port [])
  else if version = t.v6 then .made afInet6 addr true (ipToSockaddr net afInet6 ip port zone)
  else if version = t.any then .made afInet6 addr false (ipToSockaddr net afInet6 ip port zone)
  else { addr := some addr, err := some .unsupportedProtocol }

/-- `GetTCPSockAddr` -/
def getTCPSockAddr (net : NetSystem) (proto addr : List Char) : SockAddr TCPAddr :=
  match net.resolveTCPAddr proto addr with
  | .error err => { err := some (.wrapped tcpTransport.resolving err) }
  | .ok tcpAddr =>
    match determineTCPProto proto tcpAddr with
    | .error err => { addr := some tcpAddr, err := some err }
    | .ok version =>
      sockAddrOf net tcpTransport version tcpAddr tcpAddr.ip tcpAddr.port tcpAddr.zone

/-- `GetUDPSockAddr` -/
def getUDPSockAddr (net : NetSystem) (proto addr : List Char) : SockAddr UDPAddr :=
  match net.resolveUDPAddr proto addr with
  | .error err => { err := some (.wrapped udpTransport.resolving err) }
  | .ok udpAddr =>
    match determineUDPProto proto udpAddr with
    | .error err => { addr := some udpAddr, err := some err }
    | .ok version =>
      sockAddrOf net udpTransport version udpAddr udpAddr.ip udpAddr.port udpAddr.zone

/-! ## From a socket address -/

def ipv4InIPv6Prefix : List UInt8 :=
  [0x00, 0x00, 0x00, 0x00, 0x00, 0x00, 0x00, 0x00, 0x00, 0x00, 0xff, 0xff]

/-- The loop of `int2decimal`, which writes the digits from the last one on. -/
def decimalDigits (value : Nat) (digits : List Char) : List Char :=
  if value > 0 then decimalDigits (value / 10) (Nat.digitChar (value % 10) :: digits) else digits
termination_by value

def int2decimal (value : Nat) : List Char := if value = 0 then ['0'] else decimalDigits value []

def ip6ZoneToString (net : NetSystem) (zone : Nat) : List Char :=
  if zone = 0 then []
  else match net.interfaceByIndex zone with
    | .ok name => name
    | .error _ => int2decimal zone

/-- The address is written into a slice of the byte pool. -/
def sockaddrInet4ToIP (slice : Block 16) (sa : SockaddrInet4) : IP :=
  let ip := copyBytes (slice.bytes.take 12) ipv4InIPv6Prefix ++ slice.bytes.drop 12
  ⟨ip.take 12 ++ copyBytes (ip.drop 12) sa.addr.bytes⟩

def sockaddrInet6ToIPAndZone (net : NetSystem) (slice : Block 16) (sa : SockaddrInet6) :
    IP × List Char :=
  (⟨copyBytes slice.bytes sa.addr.bytes⟩, ip6ZoneToString net sa.zoneId.toNat)

def sockaddrToTCPOrUnixAddr (net : NetSystem) (slice : Block 16) : Option Sockaddr → Option Addr
  | some (.inet4 sa) => some (.tcp ⟨sockaddrInet4ToIP slice sa, sa.port, []⟩)
  | some (.inet6 sa) =>
    let (ip, zone) := sockaddrInet6ToIPAndZone net slice sa
    some (.tcp ⟨ip, sa.port, zone⟩)
  | some (.unix name) => some (.unix name "unix".toList)
  | none => none

def sockaddrToUDPAddr (net : NetSystem) (slice : Block 16) : Option Sockaddr → Option Addr
  | some (.inet4 sa) => some (.udp ⟨sockaddrInet4ToIP slice sa, sa.port, []⟩)
  | some (.inet6 sa) =>
    let (ip, zone) := sockaddrInet6ToIPAndZone net slice sa
    some (.udp ⟨ip, sa.port, zone⟩)
  | _ => none

/-! ## What the conversions do -/

namespace IP

variable {ip : IP} {ip4 : List UInt8}

/-- An IPv4 address in either form equals the mapped form of its four bytes. -/
theorem equal_of_to4 (v4 : ip.to4 = some ip4) :
    ip4.length = 4 ∧ equal ⟨v4InV6Prefix ++ ip4⟩ ip = true := by
  unfold to4 at v4
  split_ifs at v4 with short mapped
  · cases v4
    refine ⟨short, ?_⟩
    have long : (v4InV6Prefix ++ ip.bytes).length = 16 := by
      rw [length_append, short]
      rfl
    simp only [equal, long, short]
    simp [v4InV6Prefix]
  · cases v4
    obtain ⟨long, start⟩ := mapped
    have size : (ip.bytes.drop 12).length = 4 := by
      rw [length_drop, long]
    refine ⟨size, ?_⟩
    have same : v4InV6Prefix ++ ip.bytes.drop 12 = ip.bytes := by
      rw [← start, take_append_drop]
    rw [same, equal, if_pos rfl]
    exact decide_eq_true rfl

theorem bytes_ne_nil_of_to4 (v4 : ip.to4 = some ip4) : ip.bytes.length ≠ 0 := by
  intro empty
  rw [to4, empty] at v4
  cases v4

/-- Only an IPv4 address equals the wildcard of IPv4. -/
theorem equal_v4zero_of_to4 (long : ip.bytes.length = 16) (v6 : ip.to4 = none) :
    ip.equal v4zero = false := by
  have size : v4zero.bytes.length = 16 := rfl
  rw [equal, long, size, if_pos rfl, decide_eq_false_iff_not]
  intro same
  rw [show ip = v4zero from congrArg IP.mk same] at v6
  cases v6

end IP

theorem sockaddrInet4ToIP_eq (slice : Block 16) (sa : SockaddrInet4) :
    sockaddrInet4ToIP slice sa = ⟨IP.v4InV6Prefix ++ sa.addr.bytes⟩ := by
  have start : copyBytes (slice.bytes.take 12) ipv4InIPv6Prefix = IP.v4InV6Prefix := by
    apply copyBytes_of_length
    rw [length_take, slice.length]
    rfl
  have rest : copyBytes (slice.bytes.drop 12) sa.addr.bytes = sa.addr.bytes := by
    apply copyBytes_of_length
    rw [length_drop, slice.length, sa.addr.length]
  have twelve : IP.v4InV6Prefix.length = 12 := rfl
  rw [sockaddrInet4ToIP, start, take_left' twelve, drop_left' twelve, rest]

section
variable {α : Type} {net : NetSystem} {t : Transport} {ip : IP}

/-- An IPv4 address goes into a socket address of its family. -/
theorem sockAddrOf_v4 (v4 : ip.to4 = some ip4) (addr : α) (port : Nat) (zone : List Char) :
    sockAddrOf net t t.v4 addr ip port zone =
      .made afInet addr false (.ok (.inet4 ⟨port, Block.zero.copy ip4⟩)) := by
  have made : ipToSockaddrInet4 ip port = .ok ⟨port, Block.zero.copy ip4⟩ := by
    rw [ipToSockaddrInet4, if_neg (IP.bytes_ne_nil_of_to4 v4), v4]
  rw [sockAddrOf, if_pos rfl, ipToSockaddr, if_pos rfl, made]
  rfl

/-- An IPv6 address goes into one of its family when its zone is an interface. -/
theorem sockAddrOf_v6 (names : t.v6 ≠ t.v4) (long : ip.bytes.length = 16) (v6 : ip.to4 = none)
    (addr : α) (port : Nat) (zone : List Char) :
    sockAddrOf net t t.v6 addr ip port zone = .made afInet6 addr true
      (match net.interfaceByName zone with
      | .error err => .error (.wrapped "interfaceByName" err)
      | .ok index => .ok (.inet6 ⟨port, UInt32.ofNat index, Block.zero.copy ip.bytes⟩)) := by
  have other : ¬ (ip.bytes.length = 0 ∨ ip.equal .v4zero = true) := by
    rw [long, IP.equal_v4zero_of_to4 long v6]
    decide
  have wide : ip.to16 = some ip.bytes := by
    rw [IP.to16, long]
    rfl
  rw [sockAddrOf, if_neg names, if_pos rfl, ipToSockaddr, if_neg (by decide), if_pos rfl,
    ipToSockaddrInet6, if_neg other, wide]
  cases net.interfaceByName zone with
  | error err => rfl
  | ok index => rfl

theorem determineProto_v4 (v4 : ip.to4 = some ip4) (proto : List Char) :
    determineProto t proto ip = .ok t.v4 := by
  rw [determineProto, v4, if_pos (some_ne_none ip4)]

theorem determineProto_v6 (long : ip.bytes.length = 16) (v6 : ip.to4 = none) (proto : List Char) :
    determineProto t proto ip = .ok t.v6 := by
  have wide : ip.to16 ≠ none := by
    rw [IP.to16, long]
    exact some_ne_none _
  rw [determineProto, v6, if_neg (not_not.mpr rfl), if_pos wide]

end

/-! ## Round trips -/

/-- The conversion succeeds and the address that comes back is the same. -/
def TCPRoundTrips (net : NetSystem) (slice : Block 16) (proto text : List Char) (a : TCPAddr) :
    Prop :=
  (getTCPSockAddr net proto text).err = none ∧ ∃ back : TCPAddr,
    sockaddrToTCPOrUnixAddr net slice (getTCPSockAddr net proto text).sockAddr = some (.tcp back) ∧
    back.ip.equal a.ip = true ∧ back.port = a.port ∧ back.zone = a.zone

def UDPRoundTrips (net : NetSystem) (slice : Block 16) (proto text : List Char) (a : UDPAddr) :
    Prop :=
  (getUDPSockAddr net proto text).err = none ∧ ∃ back : UDPAddr,
    sockaddrToUDPAddr net slice (getUDPSockAddr net proto text).sockAddr = some (.udp back) ∧
    back.ip.equal a.ip = true ∧ back.port = a.port ∧ back.zone = a.zone

section
variable {net : NetSystem} {slice : Block 16} {proto text : List Char} {a : UDPAddr}
  {version : List Char} {index : Nat} {err : Error}

theorem getTCPSockAddr_eq {a : TCPAddr} (resolved : net.resolveTCPAddr proto text = .ok a)
    (determined : determineProto tcpTransport proto a.ip = .ok version) :
    getTCPSockAddr net proto text = sockAddrOf net tcpTransport version a a.ip a.port a.zone := by
  simp only [getTCPSockAddr, resolved, determineTCPProto, determined]

theorem getUDPSockAddr_eq (resolved : net.resolveUDPAddr proto text = .ok a)
    (determined : determineProto udpTransport proto a.ip = .ok version) :
    getUDPSockAddr net proto text = sockAddrOf net udpTransport version a a.ip a.port a.zone := by
  simp only [getUDPSockAddr, resolved, determineUDPProto, determined]

theorem TCPRoundTrips.of_v4 {a : TCPAddr} (v4 : a.ip.to4 = some ip4) (unzoned : a.zone = [])
    (resolved : net.resolveTCPAddr proto text = .ok a) : TCPRoundTrips net slice proto text a := by
  obtain ⟨four, equal⟩ := IP.equal_of_to4 v4
  rw [TCPRoundTrips, getTCPSockAddr_eq resolved (determineProto_v4 v4 proto), sockAddrOf_v4 v4]
  refine ⟨rfl, _, rfl, ?_, rfl, unzoned.symm⟩
  rw [sockaddrInet4ToIP_eq, Block.copy_of_length _ four]
  exact equal

theorem UDPRoundTrips.of_v4 (v4 : a.ip.to4 = some ip4) (unzoned : a.zone = [])
    (resolved : net.resolveUDPAddr proto text = .ok a) : UDPRoundTrips net slice proto text a := by
  obtain ⟨four, equal⟩ := IP.equal_of_to4 v4
  rw [UDPRoundTrips, getUDPSockAddr_eq resolved (determineProto_v4 v4 proto), sockAddrOf_v4 v4]
  refine ⟨rfl, _, rfl, ?_, rfl, unzoned.symm⟩
  rw [sockaddrInet4ToIP_eq, Block.copy_of_length _ four]
  exact equal

/-- The error of looking up the zone is returned. -/
theorem getTCPSockAddr_err {a : TCPAddr} (long : a.ip.bytes.length = 16) (v6 : a.ip.to4 = none)
    (unknown : net.interfaceByName a.zone = .error err)
    (resolved : net.resolveTCPAddr proto text = .ok a) :
    (getTCPSockAddr net proto text).err = some (.wrapped "interfaceByName" err) := by
  rw [getTCPSockAddr_eq resolved (determineProto_v6 long v6 proto),
    sockAddrOf_v6 (by decide) long v6, unknown]
  rfl

theorem getUDPSockAddr_err (long : a.ip.bytes.length = 16) (v6 : a.ip.to4 = none)
    (unknown : net.interfaceByName a.zone = .error err)
    (resolved : net.resolveUDPAddr proto text = .ok a) :
    (getUDPSockAddr net proto text).err = some (.wrapped "interfaceByName" err) := by
  rw [getUDPSockAddr_eq resolved (determineProto_v6 long v6 proto),
    sockAddrOf_v6 (by decide) long v6, unknown]
  rfl

end

/-- The round trip without a zone succeeds for the IPv4 addresses, in either form, and for no
other address. -/
theorem roundTrips_iff_to4 (net : NetSystem) (unnamed : ∃ err, net.interfaceByName [] = .error err)
    (slice : Block 16) {ip : IP} (size : ip.bytes.length = 4 ∨ ip.bytes.length = 16) (port : Nat)
    (proto text : List Char) :
    (net.resolveTCPAddr proto text = .ok ⟨ip, port, []⟩ →
      (TCPRoundTrips net slice proto text ⟨ip, port, []⟩ ↔ ip.to4 ≠ none)) ∧
    (net.resolveUDPAddr proto text = .ok ⟨ip, port, []⟩ →
      (UDPRoundTrips net slice proto text ⟨ip, port, []⟩ ↔ ip.to4 ≠ none)) := by
  obtain ⟨err, unknown⟩ := unnamed
  cases v4 : ip.to4 with
  | some ip4 =>
    refine ⟨fun resolved => ⟨fun _ => some_ne_none ip4, fun _ => ?_⟩,
      fun resolved => ⟨fun _ => some_ne_none ip4, fun _ => ?_⟩⟩
    · exact TCPRoundTrips.of_v4 v4 rfl resolved
    · exact UDPRoundTrips.of_v4 v4 rfl resolved
  | none =>
    have long : ip.bytes.length = 16 := by
      refine size.resolve_left fun short => ?_
      rw [IP.to4, if_pos short] at v4
      cases v4
    refine ⟨fun resolved => ⟨fun trip => ?_, fun some' => absurd rfl some'⟩,
      fun resolved => ⟨fun trip => ?_, fun some' => absurd rfl some'⟩⟩
    · have failed := getTCPSockAddr_err long v4 unknown resolved
      rw [trip.1] at failed
      cases failed
    · have failed := getUDPSockAddr_err long v4 unknown resolved
      rw [trip.1] at failed
      cases failed

/-- A system with the loopback interface, and the two addresses of the local host. -/
def localhost : NetSystem where
  resolveTCPAddr := fun _ address =>
    if address = "127.0.0.1:80".toList then .ok ⟨⟨IP.v4InV6Prefix ++ [127, 0, 0, 1]⟩, 80, []⟩
    else if address = "[::1]:80".toList then .ok ⟨⟨List.replicate 15 0 ++ [1]⟩, 80, []⟩
    else .error (.external 0)
  resolveUDPAddr := fun _ address =>
    if address = "127.0.0.1:80".toList then .ok ⟨⟨IP.v4InV6Prefix ++ [127, 0, 0, 1]⟩, 80, []⟩
    else if address = "[::1]:80".toList then .ok ⟨⟨List.replicate 15 0 ++ [1]⟩, 80, []⟩
    else .error (.external 0)
  interfaceByName := fun name => if name = "lo".toList then .ok 1 else .error (.external 0)
  interfaceByIndex := fun index => if index = 1 then .ok "lo".toList else .error (.external 0)

theorem roundTrips_iff_to4_localhost :
    TCPRoundTrips localhost Block.zero "tcp".toList "127.0.0.1:80".toList
      ⟨⟨IP.v4InV6Prefix ++ [127, 0, 0, 1]⟩, 80, []⟩ ∧
    UDPRoundTrips localhost Block.zero "udp".toList "127.0.0.1:80".toList
      ⟨⟨IP.v4InV6Prefix ++ [127, 0, 0, 1]⟩, 80, []⟩ := by
  have unnamed : ∃ err, localhost.interfaceByName [] = .error err := ⟨_, rfl⟩
  constructor
  · exact ((roundTrips_iff_to4 localhost unnamed Block.zero (.inr rfl) 80 _ _).1 rfl).mpr
      (by decide)
  · exact ((roundTrips_iff_to4 localhost unnamed Block.zero (.inr rfl) 80 _ _).2 rfl).mpr
      (by decide)

/-- No socket address is made for `[::1]:80`, since an interface with an empty name is looked up. -/
theorem not_roundTrips :
    localhost.interfaceByName [] = .error (.external 0) ∧
    (getTCPSockAddr localhost "tcp".toList "[::1]:80".toList).err =
      some (.wrapped "interfaceByName" (.external 0)) ∧
    (getUDPSockAddr localhost "udp".toList "[::1]:80".toList).err =
      some (.wrapped "interfaceByName" (.external 0)) ∧
    ¬ TCPRoundTrips localhost Block.zero "tcp".toList "[::1]:80".toList
      ⟨⟨List.replicate 15 0 ++ [1]⟩, 80, []⟩ ∧
    ¬ UDPRoundTrips localhost Block.zero "udp".toList "[::1]:80".toList
      ⟨⟨List.replicate 15 0 ++ [1]⟩, 80, []⟩ := by
  refine ⟨rfl, rfl, rfl, fun trip => ?_, fun trip => ?_⟩
  · cases trip.1
  · cases trip.1

end Gain
