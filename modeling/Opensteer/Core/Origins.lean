import Opensteer.Core.Json
import Opensteer.Framework.Decimal

/-!
# Loopback hostnames

`isLoopbackHostname` of `packages/core/src/origins.ts`: whether a URL's hostname is this computer.
A hostname is made bare of a trailing dot, of brackets and of letter case; an IPv6 literal is read
as its eight groups.
-/

namespace Opensteer

namespace Origins

def dot : UInt16 := 0x2e
def colon : UInt16 := 0x3a
def openBracket : UInt16 := 0x5b
def closeBracket : UInt16 := 0x5d

/-- `toLowerCase`, which looks at brackets for no other unit's sake. -/
structure LowerCase where
  toLowerCase : Text → Text
  openBracket : ∀ text, toLowerCase (openBracket :: text) = openBracket :: toLowerCase text
  closeBracket : ∀ text, toLowerCase (text ++ [closeBracket]) = toLowerCase text ++ [closeBracket]

def loopbackIpv4Prefix : Nat := 127
def ipv4MappedIpv6Marker : Nat := 0xffff
def ipv6GroupCount : Nat := 8

/-- What `ipv4Pattern` captures: four parts of one to three digits. -/
def ipv4Pattern (address : Text) : Option (List Text) :=
  let parts := address.splitOn dot
  if parts.length = 4 && parts.all fun part =>
      1 ≤ part.length && part.length ≤ 3 && part.all Decimal.isDigit then some parts
  else none

/-- A digit, or a letter from a to f. -/
def isHexDigit (unit : UInt16) : Bool := Decimal.isDigit unit || (0x61 ≤ unit && unit ≤ 0x66)

def hexDigit (unit : UInt16) : Nat :=
  if Decimal.isDigit unit then unit.toNat - 0x30 else unit.toNat - 0x57

/-- `Number.parseInt(part, 16)`, of hexadecimal digits. -/
def parseHex (part : Text) : Nat := part.foldl (fun n unit => 16 * n + hexDigit unit) 0

/-- `ipv6GroupPattern.test` -/
def ipv6GroupPattern (part : Text) : Bool :=
  1 ≤ part.length && part.length ≤ 4 && part.all isHexDigit

/-- The pattern's captures as numbers. -/
def octets (address : Text) : Option (List Nat) :=
  (ipv4Pattern address).map (·.map Decimal.value)

def isLoopbackIpv4 (address : Text) : Bool :=
  match octets address with
  | none => false
  | some octets => octets.all (· ≤ 255) && octets[0]? = some loopbackIpv4Prefix

/-- The two groups of a dotted quad. -/
def quadGroups : List Nat → List Nat
  | [a, b, c, d] => [a <<< 8 ||| b, c <<< 8 ||| d]
  | _ => []

def parseIpv6Groups (half : Text) : Option (List Nat) :=
  if half = [] then some []
  else
    let parts := half.splitOn colon
    let last := (parts.getLast?).getD []
    let dotted := last.contains dot
    let quad := if dotted then octets last else none
    let parts := if dotted then parts.dropLast else parts
    if dotted && quad.all (·.any (255 < ·)) then none
    else
      (parts.mapM fun part => if ipv6GroupPattern part then some (parseHex part) else none).bind
        fun groups =>
          let groups := groups ++ (quad.map quadGroups).getD []
          if groups.length ≤ ipv6GroupCount then some groups else none

/-- `address.split("::")` -/
def splitPairs : Text → List Text
  | [] => [[]]
  | [unit] => [[unit]]
  | unit :: next :: rest =>
    if unit = colon ∧ next = colon then [] :: splitPairs rest
    else (splitPairs (next :: rest)).modifyHead (unit :: ·)

def ipv6Groups (address : Text) : Option (List Nat) :=
  if ¬address.contains colon then none
  else
    match splitPairs address with
    | [only] =>
      (parseIpv6Groups only).bind fun head =>
        if ipv6GroupCount ≠ head.length then none else some head
    | [before, after] =>
      (parseIpv6Groups before).bind fun head =>
        (parseIpv6Groups after).bind fun tail =>
          if ipv6GroupCount < head.length + tail.length + 1 then none
          else some (head ++ List.replicate (ipv6GroupCount - head.length - tail.length) 0 ++ tail)
    | _ => none

/-- The groups of `::1`, or of an IPv4 loopback address mapped into IPv6. -/
def isLoopbackGroups (groups : List Nat) : Bool :=
  groups.zipIdx.all (fun (group, index) => group = if index = ipv6GroupCount - 1 then 1 else 0) ||
    ((groups.take 5).all (· = 0) && groups[5]? = some ipv4MappedIpv6Marker &&
      (groups[6]?).any fun group => group >>> 8 = loopbackIpv4Prefix)

def localhost : Text := units "localhost"

/-- `.replace(/\.$/u, "")` -/
def withoutDot (hostname : Text) : Text :=
  if hostname.getLast? = some dot then hostname.dropLast else hostname

/-- `.replace(/^\[|\]$/gu, "")` -/
def withoutBrackets (hostname : Text) : Text :=
  let hostname := if hostname.head? = some openBracket then hostname.tail else hostname
  if hostname.getLast? = some closeBracket then hostname.dropLast else hostname

/-- `isLoopbackHostname`, of the hostname made bare. -/
def isLoopbackHost (host : Text) : Bool :=
  if host = localhost ∨ (dot :: localhost) <:+ host then host ≠ dot :: localhost
  else
    match ipv6Groups host with
    | some groups => isLoopbackGroups groups
    | none => isLoopbackIpv4 host

def isLoopbackHostname (lower : LowerCase) (hostname : Text) : Bool :=
  isLoopbackHost (lower.toLowerCase (withoutBrackets (withoutDot hostname)))

end Origins

end Opensteer
