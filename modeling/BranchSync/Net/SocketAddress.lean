import BranchSync.Net.InternetAddress

/-!
# Socket addresses in text

A socket address is an internet address with the number of the service on that host, written
`127.0.0.1:7420` or `[::1]:7420`. An IPv6 address may carry a zone, written `%3` inside the
brackets; zone zero is not written.
-/

namespace BranchSync.Net

open Text.Scan

/-- An address that a server can listen on. -/
inductive SocketAddress where
  | v4 (ip : Ipv4) (service : UInt16)
  | v6 (ip : Ipv6) (service : UInt16) (zone : UInt32)
  deriving DecidableEq

namespace SocketAddress

/-- The number of a service: any count of digits, with a value below 2^16. -/
def serviceForm : NumberForm := ⟨10, none, true, 65536⟩

/-- The number of a zone: any count of digits, with a value below 2^32. -/
def zoneForm : NumberForm := ⟨10, none, true, 4294967296⟩

/-- Read a colon and the number of a service. -/
def readService : Reader UInt16 := fun input => do
  let ((), input) ← char ':' input
  let (n, input) ← number serviceForm input
  pure (.ofNat n, input)

/-- Read an IPv4 address with a service. -/
def readV4 : Reader SocketAddress := fun input => do
  let (ip, input) ← Ipv4.read input
  let (service, input) ← readService input
  pure (.v4 ip service, input)

/-- Read a zone. -/
def readZone : Reader UInt32 := fun input => do
  let ((), input) ← char '%' input
  let (n, input) ← number zoneForm input
  pure (.ofNat n, input)

/-- Read a bracketed IPv6 address with a service. -/
def readV6 : Reader SocketAddress := fun input => do
  let ((), input) ← char '[' input
  let (ip, input) ← Ipv6.read input
  let (zone, input) := (readZone input).getD (0, input)
  let ((), input) ← char ']' input
  let (service, input) ← readService input
  pure (.v6 ip service zone, input)

/-- Read a text that is a socket address from its first character to its last. -/
def ofText? (s : String) : Option SocketAddress :=
  match (readV4 s.toList).or (readV6 s.toList) with
  | some (address, []) => some address
  | _ => none

/-- The canonical text of a socket address. -/
def display : SocketAddress → String
  | .v4 ip service => s!"{ip.display}:{service.toNat}"
  | .v6 ip service zone =>
    if zone = 0 then s!"[{ip.display}]:{service.toNat}"
    else s!"[{ip.display}%{zone.toNat}]:{service.toNat}"

end SocketAddress

end BranchSync.Net
