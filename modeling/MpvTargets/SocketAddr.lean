import Mathlib.Algebra.Ring.Nat
import Mathlib.Data.List.Basic

/-! `str::parse::<SocketAddr>` of the standard library: a dotted IPv4 address or a bracketed IPv6
address (with `::`, an embedded IPv4 tail and a numeric scope), followed by a colon and a decimal
port. Every reader returns what it read and the rest of the input, or fails without consuming. -/

namespace MpvTargets

inductive SocketAddr where
  | v4 (octets : List UInt8) (port : UInt16)
  | v6 (segments : List UInt16) (scope : UInt32) (port : UInt16)
  deriving DecidableEq, Repr

namespace SocketAddr

/-- `char::to_digit` for radix 10 and 16. -/
def toDigit (radix : Nat) (char : Char) : Option Nat :=
  let digit :=
    if '0' ≤ char ∧ char ≤ '9' then some (char.toNat - '0'.toNat)
    else if 'a' ≤ char ∧ char ≤ 'f' then some (char.toNat - 'a'.toNat + 10)
    else if 'A' ≤ char ∧ char ≤ 'F' then some (char.toNat - 'A'.toNat + 10)
    else none
  digit.filter fun value => value < radix

/-- `read_number`: all digits that follow, bounded in count where `maxDigits` is given and in value by
`bound`. A leading zero of a longer number is refused unless `allowZeroPrefix`. -/
def readNumber (radix bound : Nat) (maxDigits : Option Nat) (allowZeroPrefix : Bool)
    (input : List Char) : Option (Nat × List Char) :=
  let digits := (input.takeWhile fun char => (toDigit radix char).isSome).filterMap (toDigit radix)
  let rest := input.dropWhile fun char => (toDigit radix char).isSome
  let value := digits.foldl (fun result digit => result * radix + digit) 0
  if digits.isEmpty then none
  else if maxDigits.any (· < digits.length) then none
  else if !allowZeroPrefix && input.head? == some '0' && 1 < digits.length then none
  else if value ≤ bound then some (value, rest) else none

def readGivenChar (expected : Char) : List Char → Option (List Char)
  | [] => none
  | char :: rest => if char = expected then some rest else none

/-- `read_separator`: before every element but the first stands the separator. -/
def readSeparator {α : Type} (separator : Char) (first : Bool)
    (read : List Char → Option (α × List Char)) (input : List Char) : Option (α × List Char) :=
  if first then read input else (readGivenChar separator input).bind read

def readOctet : List Char → Option (Nat × List Char) := readNumber 10 255 (some 3) false

/-- `read_ipv4_addr`. -/
def readIpv4 (input : List Char) : Option (List Nat × List Char) := do
  let (a, input) ← readSeparator '.' true readOctet input
  let (b, input) ← readSeparator '.' false readOctet input
  let (c, input) ← readSeparator '.' false readOctet input
  let (d, input) ← readSeparator '.' false readOctet input
  return ([a, b, c, d], input)

/-- `read_groups` with room for `room` more groups: the groups read, and whether the last two came
from an embedded IPv4 address. -/
def readGroups : (room : Nat) → (first : Bool) → List Char → (List Nat × Bool) × List Char
  | 0, _, input => (([], false), input)
  | room + 1, first, input =>
      let embedded := if 0 < room then readSeparator ':' first readIpv4 input else none
      match embedded with
      | some (octets, rest) =>
          (([octets.getD 0 0 * 256 + octets.getD 1 0, octets.getD 2 0 * 256 + octets.getD 3 0], true),
            rest)
      | none =>
          match readSeparator ':' first (readNumber 16 65535 (some 4) true) input with
          | none => (([], false), input)
          | some (group, rest) =>
              let ((groups, ipv4), rest) := readGroups room false rest
              ((group :: groups, ipv4), rest)

/-- `read_ipv6_addr`: eight groups, or fewer around one `::`, before which no IPv4 part may stand. -/
def readIpv6 (input : List Char) : Option (List Nat × List Char) :=
  let ((head, headIpv4), rest) := readGroups 8 true input
  if head.length = 8 then some (head, rest)
  else if headIpv4 then none
  else do
    let rest ← readGivenChar ':' rest
    let rest ← readGivenChar ':' rest
    let ((tail, _), rest) := readGroups (8 - (head.length + 1)) true rest
    return (head ++ List.replicate (8 - head.length - tail.length) 0 ++ tail, rest)

def readPort (input : List Char) : Option (Nat × List Char) :=
  (readGivenChar ':' input).bind (readNumber 10 65535 none true)

def readScopeId (input : List Char) : Option (Nat × List Char) :=
  (readGivenChar '%' input).bind (readNumber 10 4294967295 none true)

def readV4 (input : List Char) : Option (SocketAddr × List Char) := do
  let (octets, input) ← readIpv4 input
  let (port, input) ← readPort input
  return (.v4 (octets.map UInt8.ofNat) (UInt16.ofNat port), input)

def readV6 (input : List Char) : Option (SocketAddr × List Char) := do
  let input ← readGivenChar '[' input
  let (segments, input) ← readIpv6 input
  let (scope, input) := (readScopeId input).getD (0, input)
  let input ← readGivenChar ']' input
  let (port, input) ← readPort input
  return (.v6 (segments.map UInt16.ofNat) (UInt32.ofNat scope) (UInt16.ofNat port), input)

/-- The whole text must be one address. -/
def parse (text : String) : Option SocketAddr :=
  match readV4 text.toList with
  | some (address, rest) => if rest.isEmpty then some address else none
  | none =>
      match readV6 text.toList with
      | some (address, rest) => if rest.isEmpty then some address else none
      | none => none

example : parse "127.0.0.1:9876" = some (.v4 [127, 0, 0, 1] 9876) := by decide

example : parse "[fe80::1%2]:80" = some (.v6 [0xfe80, 0, 0, 0, 0, 0, 0, 1] 2 80) := by decide

end SocketAddr

end MpvTargets
