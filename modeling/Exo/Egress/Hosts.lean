import Mathlib.Data.List.Sort
import Exo.Library.Checks

/-!
# Host names

The proxies compare host names as text, after bringing them into one form: lower case, no dot at the
end, no address literal.
-/

namespace Exo.Egress

open Library

inductive IpAddr where
  | v4 (a b c d : UInt8)
  | v6 (bits : BitVec 128)
  deriving DecidableEq

def hexValue (c : Char) : ℕ :=
  if c.isDigit then c.toNat - '0'.toNat else c.toLower.toNat - 'a'.toNat + 10

def isRadixDigit (radix : ℕ) (c : Char) : Bool :=
  c.isAlphanum && decide (hexValue c < radix)

/-- A number at the start of a text, as the address parser of the standard library reads it. -/
def readNumber (radix maxDigits bound : ℕ) (allowZeroPrefix : Bool) (text : List Char) :
    Option (ℕ × List Char) :=
  let digits := text.takeWhile (isRadixDigit radix)
  let value := digits.foldl (fun value digit ↦ value * radix + hexValue digit) 0
  if digits.isEmpty || maxDigits < digits.length || bound ≤ value ||
      (! allowZeroPrefix && digits.head? == some '0' && 1 < digits.length) then none
  else some (value, text.drop digits.length)

def readGivenChar (c : Char) (text : List Char) : Option (List Char) :=
  if text.head? = some c then some text.tail else none

def readIpv4 (text : List Char) : Option (IpAddr × List Char) := do
  let (a, text) ← readNumber 10 3 256 false text
  let (b, text) ← readNumber 10 3 256 false (← readGivenChar '.' text)
  let (c, text) ← readNumber 10 3 256 false (← readGivenChar '.' text)
  let (d, text) ← readNumber 10 3 256 false (← readGivenChar '.' text)
  return (.v4 (.ofNat a) (.ofNat b) (.ofNat c) (.ofNat d), text)

/-- The groups of an IPv6 address up to a limit, and whether an IPv4 address ended them. -/
def readGroups (i : ℕ) : ℕ → List Char → List ℕ × Bool × List Char
  | 0, text => ([], false, text)
  | limit + 1, text =>
    let separated := if i = 0 then some text else readGivenChar ':' text
    match (if 0 < limit then separated.bind readIpv4 else none) with
    | some (.v4 a b c d, rest) =>
      ([a.toNat * 256 + b.toNat, c.toNat * 256 + d.toNat], true, rest)
    | _ =>
      match separated.bind (readNumber 16 4 65536 true) with
      | some (group, rest) =>
        let (groups, ipv4, rest) := readGroups (i + 1) limit rest
        (group :: groups, ipv4, rest)
      | none => ([], false, text)

def ofGroups (groups : List ℕ) : IpAddr :=
  .v6 (BitVec.ofNat 128 (groups.foldl (fun bits group ↦ bits * 65536 + group) 0))

def readIpv6 (text : List Char) : Option (IpAddr × List Char) := do
  let (head, ipv4, text) := readGroups 0 8 text
  if head.length = 8 then return (ofGroups head, text)
  guard (! ipv4)
  let text ← readGivenChar ':' (← readGivenChar ':' text)
  let (tail, _, text) := readGroups 0 (7 - head.length) text
  return (ofGroups (head ++ List.replicate (8 - head.length - tail.length) 0 ++ tail), text)

/-- `str::parse::<IpAddr>`. -/
def parseIpAddr (text : String) : Option IpAddr := do
  let (address, rest) ← (readIpv4 text.toList).or (readIpv6 text.toList)
  guard rest.isEmpty
  return address

def toAsciiLowercase (text : String) : String := .ofList (text.toList.map Char.toLower)

def isLabel (label : List Char) : Bool :=
  ! label.isEmpty && label.length ≤ 63 && label.head? != some '-' && label.getLast? != some '-' &&
    label.all fun c ↦ c.isAlphanum || c == '-'

def canonicalEgressHost (host : String) : Except String String := do
  ensure (! host.isEmpty && host.utf8ByteSize ≤ 253 && host.toList.getLast? != some '.')
    "invalid egress hostname"
  let host := toAsciiLowercase host
  ensure (parseIpAddr host).isNone "IP literals are not egress hostnames"
  ensure ((host.toList.splitOn '.').all isLabel) "expected an exact ASCII hostname"
  return host

/-- `canonical_egress_host(name)? == host`. -/
def ensureHost (host message name : String) : Except String Unit := do
  let canonical ← canonicalEgressHost name
  ensure (canonical == host) message

def maxAllowedHosts : ℕ := 128

/-- The set is kept as a list without repetitions. -/
def canonicalEgressHosts (hosts : List String) : Except String (List String) := do
  ensure (hosts.length ≤ maxAllowedHosts) "too many allowed hosts"
  let hosts ← hosts.mapM canonicalEgressHost
  return hosts.dedup

end Exo.Egress
