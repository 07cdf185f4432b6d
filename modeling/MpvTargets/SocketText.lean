import MpvTargets.SocketAddr

/-! The text of socket addresses, as the standard library prints them. -/

namespace MpvTargets

/-- `Ipv4Addr` and `Ipv6Addr`. -/
inductive IpAddr where
  | v4 (octets : List UInt8)
  | v6 (segments : List UInt16)
  deriving DecidableEq, Repr

namespace IpAddr

def localhostV4 : IpAddr := .v4 [127, 0, 0, 1]

def localhostV6 : IpAddr := .v6 [0, 0, 0, 0, 0, 0, 0, 1]

def isUnspecified : IpAddr → Bool
  | v4 octets => octets == [0, 0, 0, 0]
  | v6 segments => segments == [0, 0, 0, 0, 0, 0, 0, 0]

/-- Parts with a separator between them. -/
def joined (separator : Char) : List (List Char) → List Char
  | [] => []
  | [part] => part
  | part :: rest => part ++ separator :: joined separator rest

def octetsText (octets : List UInt8) : List Char :=
  joined '.' (octets.map fun octet => Nat.toDigits 10 octet.toNat)

/-- `fmt_subslice`. -/
def segmentsText (segments : List UInt16) : List Char :=
  joined ':' (segments.map fun segment => Nat.toDigits 16 segment.toNat)

structure Span where
  start : Nat
  length : Nat
  deriving DecidableEq, Repr

/-- The first of the longest runs of zero segments, from `index` on. -/
def zeroSpan (longest current : Span) (index : Nat) : List UInt16 → Span
  | [] => longest
  | segment :: rest =>
      if segment = 0 then
        let current := ⟨if current.length = 0 then index else current.start, current.length + 1⟩
        zeroSpan (if longest.length < current.length then current else longest) current (index + 1) rest
      else zeroSpan longest ⟨0, 0⟩ (index + 1) rest

/-- An address mapped from IPv4 ends in its dotted form, and `::` stands for the longest run of more than
one zero segment. -/
def v6Text (segments : List UInt16) : List Char :=
  match segments with
  | [0, 0, 0, 0, 0, 0xffff, high, low] =>
      "::ffff:".toList ++ octetsText [(high >>> 8).toUInt8, high.toUInt8, (low >>> 8).toUInt8, low.toUInt8]
  | _ =>
      let zeroes := zeroSpan ⟨0, 0⟩ ⟨0, 0⟩ 0 segments
      if 1 < zeroes.length then
        segmentsText (segments.take zeroes.start) ++ "::".toList ++
          segmentsText (segments.drop (zeroes.start + zeroes.length))
      else segmentsText segments

/-- `IpAddr::to_string`. -/
def text : IpAddr → List Char
  | v4 octets => octetsText octets
  | v6 segments => v6Text segments

end IpAddr

namespace SocketAddr

def ip : SocketAddr → IpAddr
  | v4 octets _ => .v4 octets
  | v6 segments _ _ => .v6 segments

def port : SocketAddr → UInt16
  | v4 _ port | v6 _ _ port => port

/-- `set_ip`; an address of the same family keeps its scope. -/
def setIp (address : SocketAddr) (ip : IpAddr) : SocketAddr :=
  match address, ip with
  | v4 _ port, .v4 octets => v4 octets port
  | v6 _ scope port, .v6 segments => v6 segments scope port
  | address, .v4 octets => v4 octets address.port
  | address, .v6 segments => v6 segments 0 address.port

/-- The address within the brackets, with a scope that is not zero. -/
def hostText : SocketAddr → List Char
  | v4 octets _ => (IpAddr.v4 octets).text
  | v6 segments scope _ =>
      (IpAddr.v6 segments).text ++ (if scope = 0 then [] else '%' :: Nat.toDigits 10 scope.toNat)

/-- `SocketAddr::to_string`. -/
def text (address : SocketAddr) : List Char :=
  match address with
  | v4 _ port => address.hostText ++ ':' :: Nat.toDigits 10 port.toNat
  | v6 _ _ port => '[' :: (address.hostText ++ ']' :: ':' :: Nat.toDigits 10 port.toNat)

example : (parse "[fe80::1%2]:80").map text = some "[fe80::1%2]:80".toList := by decide

example : (parse "[1:0:0:2:0:0:0:3]:9").map text = some "[1:0:0:2::3]:9".toList := by decide

end SocketAddr

end MpvTargets
