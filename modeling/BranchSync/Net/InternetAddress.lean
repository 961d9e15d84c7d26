import BranchSync.Text.Scan

/-!
# Internet addresses in text

An IPv4 address is four decimal numbers joined by dots. An IPv6 address is eight groups of
hexadecimal digits joined by colons, where one run of zero groups may be left out as `::` and
the last two groups may be written as an IPv4 address. The written form is canonical: digits
are lowercase without leading zeros, the first of the longest runs of at least two zero groups
is left out, and an address that stands for an IPv4 address shows it.
-/

namespace BranchSync.Net

open Text.Scan

/-- An IPv4 address: four octets. -/
structure Ipv4 where
  a : UInt8
  b : UInt8
  c : UInt8
  d : UInt8
  deriving DecidableEq, Repr

/-- The number of groups of an IPv6 address. -/
def groupCount : Nat := 8

/-- An IPv6 address: eight groups of sixteen bits. -/
structure Ipv6 where
  groups : List UInt16
  length_groups : groups.length = groupCount
  deriving DecidableEq

/-- One of the four numbers of an IPv4 address. -/
def octetForm : NumberForm := ⟨10, some 3, false, 256⟩

/-- One group of an IPv6 address. -/
def groupForm : NumberForm := ⟨16, some 4, true, 65536⟩

namespace Ipv4

/-- Read an IPv4 address at the start of the input. -/
def read : Reader Ipv4 := fun input => do
  let (a, input) ← number octetForm input
  let ((), input) ← char '.' input
  let (b, input) ← number octetForm input
  let ((), input) ← char '.' input
  let (c, input) ← number octetForm input
  let ((), input) ← char '.' input
  let (d, input) ← number octetForm input
  pure (⟨.ofNat a, .ofNat b, .ofNat c, .ofNat d⟩, input)

/-- The decimal numbers joined by dots. -/
def display (ip : Ipv4) : String :=
  s!"{ip.a.toNat}.{ip.b.toNat}.{ip.c.toNat}.{ip.d.toNat}"

/-- The two groups that an IPv4 address fills at the end of an IPv6 address. -/
def groups (ip : Ipv4) : List UInt16 :=
  [.ofNat (ip.a.toNat * 256 + ip.b.toNat), .ofNat (ip.c.toNat * 256 + ip.d.toNat)]

/-- The IPv4 address that two groups stand for. -/
def ofGroups (high low : UInt16) : Ipv4 :=
  ⟨.ofNat (high.toNat / 256), .ofNat (high.toNat % 256), .ofNat (low.toNat / 256),
    .ofNat (low.toNat % 256)⟩

end Ipv4

namespace Ipv6

/-- Read the separator that precedes every group but the first. -/
def separator (first : Bool) : Reader Unit := fun input =>
  if first then some ((), input) else char ':' input

/-- Read up to `room` groups. An IPv4 address may stand for the last two where two fit, and
ends the groups; the answer tells whether it did. -/
def readGroups (first : Bool) : Nat → List Char → List UInt16 × Bool × List Char
  | 0, input => ([], false, input)
  | room + 1, input =>
    let embedded := if room = 0 then none else do
      let ((), input) ← separator first input
      Ipv4.read input
    match embedded with
    | some (ip, rest) => (ip.groups, true, rest)
    | none =>
      match (do let ((), input) ← separator first input; number groupForm input) with
      | none => ([], false, input)
      | some (group, rest) =>
        let (groups, isEmbedded, rest) := readGroups false room rest
        (.ofNat group :: groups, isEmbedded, rest)

/-- The address with the given groups before and after a run of zeros. -/
def ofParts? (head tail : List UInt16) : Option Ipv6 :=
  let groups := head ++ List.replicate (groupCount - head.length - tail.length) 0 ++ tail
  if h : groups.length = groupCount then some ⟨groups, h⟩ else none

/-- Read an IPv6 address at the start of the input. -/
def read : Reader Ipv6 := fun input =>
  let (head, isEmbedded, input) := readGroups true groupCount input
  if head.length = groupCount then (ofParts? head []).map fun ip => (ip, input)
  else if isEmbedded then none
  else do
    let ((), input) ← char ':' input
    let ((), input) ← char ':' input
    let (tail, _, input) := readGroups true (groupCount - (head.length + 1)) input
    (ofParts? head tail).map fun ip => (ip, input)

/-- A group in lowercase hexadecimal without leading zeros. -/
def displayGroup (group : UInt16) : String :=
  String.ofList (Nat.toDigits 16 group.toNat)

/-- Groups joined by colons. -/
def displayGroups (groups : List UInt16) : String :=
  String.intercalate ":" (groups.map displayGroup)

/-- The number of zero groups at the front. -/
def leadingZeros (groups : List UInt16) : Nat :=
  (groups.takeWhile (· == 0)).length

/-- The start and length of the first of the longest runs of zero groups, where `start` is the
place of the first group given. -/
def longestZeroRun (start : Nat) : List UInt16 → Nat × Nat
  | [] => (start, 0)
  | group :: rest =>
    let here := leadingZeros (group :: rest)
    let later := longestZeroRun (start + 1) rest
    if later.2 > here then later else (start, here)

/-- The canonical text of an address. -/
def display (ip : Ipv6) : String :=
  match ip.groups with
  | [0, 0, 0, 0, 0, 0xffff, high, low] => "::ffff:" ++ (Ipv4.ofGroups high low).display
  | groups =>
    let (start, length) := longestZeroRun 0 groups
    if length > 1 then
      displayGroups (groups.take start) ++ "::" ++ displayGroups (groups.drop (start + length))
    else displayGroups groups

end Ipv6

end BranchSync.Net
