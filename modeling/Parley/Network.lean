import Parley.Failure
import Parley.Text.Digits

/-!
# Addresses and the local network

Servers listen at addresses of this host, and clients connect to them. Whether the host's
network carries a connection to such an address at all is a property of the host: listening
needs no route, connecting does.

**Hosts** are named by four octets, or by eight groups of sixteen bits. As text, groups are
hexadecimal and stand between colons. Two colons in a row stand once for all the groups that are
missing, of which there must be one, and the last two groups may be spelled as four octets.
-/

namespace Parley

/-- Where a host is. -/
inductive Host
  | ipv4 (a b c d : UInt8)
  /-- The scope says where the groups are to be taken. -/
  | ipv6 (groups : Vector UInt16 8) (scope : UInt32)
  deriving DecidableEq, Repr

namespace Host

/-- One to three digits up to 255, without a leading zero. -/
def octet? (digits : List Char) : Option UInt8 :=
  if 3 < digits.length || digits.length ≠ 1 && digits.head? == some '0' then none
  else ((Digits.number? 10 digits).filter (· < 256)).map UInt8.ofNat

/-- Reads four octets, as in `127.0.0.1`. -/
def octets? (text : List Char) : Option (UInt8 × UInt8 × UInt8 × UInt8) := do
  let [a, b, c, d] := text.splitOn '.' | none
  return (← octet? a, ← octet? b, ← octet? c, ← octet? d)

/-- One to four hexadecimal digits. -/
def group? (digits : List Char) : Option UInt16 :=
  if 4 < digits.length then none else (Digits.number? 16 digits).map UInt16.ofNat

/-- Two octets as a group. -/
def pair (high low : UInt8) : UInt16 := high.toUInt16 <<< 8 ||| low.toUInt16

/-- The last part of a host: a group, or two groups spelled as four octets. -/
def last? (part : List Char) : Option (List UInt16) :=
  match octets? part with
  | some (a, b, c, d) => some [pair a b, pair c d]
  | none => (group? part).map fun group => [group]

/-- The groups up to the end of a host. -/
def groupsOf? : List (List Char) → Option (List UInt16)
  | [] => some []
  | [part] => last? part
  | part :: parts => do return (← group? part) :: (← groupsOf? parts)

/-- What is between colons; there is nothing in no text. -/
def parts (text : List Char) : List (List Char) :=
  if text.isEmpty then [] else text.splitOn ':'

/-- What is on either side of the first two colons in a row. -/
def aroundGap? : List Char → Option (List Char × List Char)
  | [] => none
  | ':' :: ':' :: rest => some ([], rest)
  | char :: rest => (aroundGap? rest).map fun (front, back) => (char :: front, back)

/-- All groups of a host, those that the gap stands for included. -/
def allGroups? (text : List Char) : Option (List UInt16) :=
  match aroundGap? text with
  | none => groupsOf? (parts text)
  | some (front, back) => do
    let front ← (parts front).mapM group?
    let back ← groupsOf? (parts back)
    let given := front.length + back.length
    if given < 8 then return front ++ List.replicate (8 - given) 0 ++ back else none

/-- Reads eight groups and what may follow a percent sign, as in `fe80::1%3`. -/
def groups? (text : List Char) : Option Host := do
  let (groups, scope) ← match text.splitOn '%' with
    | [groups] => some (groups, 0)
    | [groups, scope] =>
      ((Digits.number? 10 scope).filter (· < UInt32.size)).map fun scope =>
        (groups, UInt32.ofNat scope)
    | _ => none
  let groups ← allGroups? groups
  if h : groups.length = 8 then return .ipv6 ⟨groups.toArray, h⟩ scope else none

/-- The octets of groups that are there to spell them. -/
def mapped? (groups : Vector UInt16 8) : Option (UInt8 × UInt8 × UInt8 × UInt8) :=
  match groups.toList with
  | [0, 0, 0, 0, 0, 0xffff, high, low] =>
    some ((high >>> 8).toUInt8, high.toUInt8, (low >>> 8).toUInt8, low.toUInt8)
  | _ => none

/-- The first of the longest runs of zeros: how many groups are in front of it, and its length. -/
def longestRun (groups : List UInt16) : Nat × Nat :=
  let runs := (List.range groups.length).map fun start =>
    ((groups.drop start).takeWhile (· = 0)).length
  let length := runs.foldl max 0
  (runs.findIdx (· = length), length)

/-- Groups between colons as text. -/
def groupsText (groups : List UInt16) : String :=
  ":".intercalate (groups.map fun group => .ofList (Nat.toDigits 16 group.toNat))

def octetsText (a b c d : UInt8) : String := s!"{a}.{b}.{c}.{d}"

/-- The host as text; a gap stands for the longest run of zeros. -/
def text : Host → String
  | ipv4 a b c d => octetsText a b c d
  | ipv6 groups _ =>
    match mapped? groups with
    | some (a, b, c, d) => "::ffff:" ++ octetsText a b c d
    | none =>
      let groups := groups.toList
      let (start, length) := longestRun groups
      if length < 2 then groupsText groups
      else groupsText (groups.take start) ++ "::" ++ groupsText (groups.drop (start + length))

/-- The octets are of this host: a loopback address or none in particular. -/
def isLocalOctets (a b c d : UInt8) : Bool := a == 127 || (a, b, c, d) == (0, 0, 0, 0)

/-- The address is of this host: a loopback address or none in particular. -/
def isLocal : Host → Bool
  | ipv4 a b c d => isLocalOctets a b c d
  | ipv6 groups _ =>
    match mapped? groups with
    | some (a, b, c, d) => isLocalOctets a b c d
    | none => (groups.toList.take 7).all (· == 0) && groups[7] ≤ 1

end Host

/-- A host and the number of a socket there. -/
structure Address where
  host : Host
  socket : UInt16
  deriving DecidableEq, Repr

namespace Address

/-- Digits up to 65535; leading zeros do not count. -/
def socket? (digits : List Char) : Option UInt16 :=
  ((Digits.number? 10 digits).filter (· < 65536)).map UInt16.ofNat

/-- Reads a host and a socket number, as in `127.0.0.1:80`. Groups are in brackets. -/
def parse? (text : String) : Option Address :=
  match text.toList with
  | '[' :: chars => do
    let [host, ':' :: socket] := chars.splitOn ']' | none
    return ⟨← Host.groups? host, ← socket? socket⟩
  | chars => do
    let [host, socket] := chars.splitOn ':' | none
    let (a, b, c, d) ← Host.octets? host
    return ⟨.ipv4 a b c d, ← socket? socket⟩

/-- The groups of loopback, a link with its scope, a host spelled by octets, and no gap at all. -/
example :
    parse? "[::1]:80" = some ⟨.ipv6 #v[0, 0, 0, 0, 0, 0, 0, 1] 0, 80⟩ ∧
      parse? "[fe80::A:0b%3]:0443" = some ⟨.ipv6 #v[0xfe80, 0, 0, 0, 0, 0, 0xa, 0xb] 3, 443⟩ ∧
      parse? "[::ffff:10.0.0.2]:1" =
        some ⟨.ipv6 #v[0, 0, 0, 0, 0, 0xffff, 0xa00, 2] 0, 1⟩ ∧
      parse? "[1:2:3:4:5:6:7::8]:1" = none := by
  decide +kernel

end Address

/-- The network of this host. -/
structure Network where
  /-- A connection to an address of this host can be made. -/
  carries : Bool
  deriving DecidableEq, Repr

namespace Network

/-- Connects to an address where somebody listens or nobody does. -/
def connect (network : Network) (listening : Bool) : Except Failure Unit :=
  if !network.carries then .error .noRoute
  else if listening then .ok ()
  else .error .refused

/-- Listens at an address where somebody listens already or nobody does. -/
def listen (address : Address) (taken : Bool) : Except Failure Unit :=
  if !address.host.isLocal then .error .addressNotAvailable
  else if taken then .error .addressInUse
  else .ok ()

end Network

end Parley
