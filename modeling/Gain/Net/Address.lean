import Mathlib.Init

/-! # Network addresses

The addresses of package `net` and their text: an IPv4 address in dotted form, also
when it is stored in the sixteen bytes of a mapped one, and an IPv6 address in groups
with the longest run of zeros left out.
-/

namespace Gain

/-- `net.IP` -/
structure IP where
  bytes : List UInt8
  deriving DecidableEq, Repr

namespace IP

/-- `v4InV6Prefix` -/
def v4InV6Prefix : List UInt8 := List.replicate 10 0 ++ [0xff, 0xff]

/-- `To4` -/
def to4 (ip : IP) : Option (List UInt8) :=
  if ip.bytes.length = 4 then some ip.bytes
  else if ip.bytes.length = 16 ∧ ip.bytes.take 12 = v4InV6Prefix then some (ip.bytes.drop 12)
  else none

def decimal (b : UInt8) : List Char := Nat.toDigits 10 b.toNat

/-- The text of a byte of an address that is neither. -/
def hexByte (b : UInt8) : List Char := [Nat.digitChar (b.toNat / 16), Nat.digitChar (b.toNat % 16)]

/-- The 16-bit groups of an IPv6 address. -/
def groups : List UInt8 → List Nat
  | hi :: lo :: rest => (hi.toNat * 256 + lo.toNat) :: groups rest
  | _ => []

/-- The first longest run of at least two zero groups; 255 when there is none. -/
def zeroRun (gs : List Nat) : Nat × Nat :=
  (List.range 8).foldl (fun run i =>
    let l := ((gs.drop i).takeWhile (· = 0)).length
    if l ≥ 2 ∧ l > run.2 - run.1 then (i, i + l) else run) (255, 255)

def joinGroups (gs : List Nat) : List Char := [':'].intercalate (gs.map (Nat.toDigits 16))

def string6 (bytes : List UInt8) : List Char :=
  let gs := groups bytes
  let (start, stop) := zeroRun gs
  if start < 8 then joinGroups (gs.take start) ++ [':', ':'] ++ joinGroups (gs.drop stop)
  else joinGroups gs

/-- `String` of an address; the text of no address is what `ipEmptyString` makes it. -/
def string (ip : IP) : List Char :=
  if ip.bytes.length = 0 then []
  else if ip.bytes.length ≠ 4 ∧ ip.bytes.length ≠ 16 then '?' :: ip.bytes.flatMap hexByte
  else match ip.to4 with
    | some p4 => ['.'].intercalate (p4.map decimal)
    | none => string6 ip.bytes

end IP

/-- `net.TCPAddr` -/
structure TCPAddr where
  ip : IP
  port : Nat
  zone : List Char := []
  deriving DecidableEq, Repr

/-- `net.JoinHostPort` -/
def joinHostPort (host port : List Char) : List Char :=
  if ':' ∈ host then ['['] ++ host ++ [']', ':'] ++ port else host ++ [':'] ++ port

/-- `String` -/
def TCPAddr.string (a : TCPAddr) : List Char :=
  let port := Nat.toDigits 10 a.port
  if a.zone ≠ [] then joinHostPort (a.ip.string ++ ['%'] ++ a.zone) port
  else joinHostPort a.ip.string port

example : (TCPAddr.string ⟨⟨[10, 0, 0, 1]⟩, 80, []⟩, TCPAddr.string ⟨⟨[0xfe, 0x80, 0, 0, 0, 0, 0, 0,
    0, 0, 0, 0, 0, 0, 0, 1]⟩, 8080, ['e', 't', 'h', '0']⟩) =
    ("10.0.0.1:80".toList, "[fe80::1%eth0]:8080".toList) := by decide +kernel

end Gain
