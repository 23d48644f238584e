import NameServer.Address.V4

/-!
# IPv6 addresses

Eight groups of up to four hexadecimal digits. `::` stands once for a run of
at least one zero group, and the last two groups may be an IPv4 address.
-/

namespace NameServer

structure Ipv6 where
  groups : List UInt16
  eight : groups.length = 8
  deriving DecidableEq, Repr

namespace Ipv6

def ofGroups? (groups : List UInt16) : Option Ipv6 :=
  if h : groups.length = 8 then some ⟨groups, h⟩ else none

def readGroup (cs : List Char) : Option (UInt16 × List Char) :=
  let digits := cs.takeWhile Text.isHexDigit
  if digits = [] ∨ 4 < digits.length then none
  else some ((Text.ofHexadecimal digits).toUInt16, cs.dropWhile Text.isHexDigit)

/-- Past the colon that every group but the first has before it. -/
def readColon (first : Bool) (cs : List Char) : Option (List Char) :=
  if first then some cs
  else match cs with
    | ':' :: cs => some cs
    | _ => none

def ofIpv4 (ip : Ipv4) : List UInt16 :=
  [ip.a.toUInt16 * 256 + ip.b.toUInt16, ip.c.toUInt16 * 256 + ip.d.toUInt16]

structure Run where
  groups : List UInt16
  endsInIpv4 : Bool
  rest : List Char

/-- Reads up to `limit` groups, and an IPv4 address where two are left. -/
def readRun : (limit : Nat) → (first : Bool) → List Char → Run
  | 0, _, cs => ⟨[], false, cs⟩
  | limit + 1, first, cs =>
    match (readColon first cs).bind Ipv4.read, limit with
    | some (ip, cs), _ + 1 => ⟨ofIpv4 ip, true, cs⟩
    | _, _ =>
      match (readColon first cs).bind readGroup with
      | none => ⟨[], false, cs⟩
      | some (group, cs) =>
        let run := readRun limit false cs
        { run with groups := group :: run.groups }

def read (cs : List Char) : Option (Ipv6 × List Char) :=
  let head := readRun 8 true cs
  if head.groups.length = 8 then
    (ofGroups? head.groups).map (·, head.rest)
  else if head.endsInIpv4 then none
  else match head.rest with
    | ':' :: ':' :: rest =>
      let tail := readRun (7 - head.groups.length) true rest
      let zeros := List.replicate (8 - head.groups.length - tail.groups.length) 0
      (ofGroups? (head.groups ++ zeros ++ tail.groups)).map (·, tail.rest)
    | _ => none

def zeros (groups : List UInt16) : Nat := (groups.takeWhile (· == 0)).length

/-- Start and length of the first longest run of zero groups. -/
def longestZeros : List UInt16 → Nat × Nat
  | [] => (0, 0)
  | group :: groups =>
    let here := zeros (group :: groups)
    let (start, length) := longestZeros groups
    if length ≤ here then (0, here) else (start + 1, length)

def groupsText : List UInt16 → List Char
  | [] => []
  | [group] => Text.hexadecimal group.toNat
  | group :: next :: groups => Text.hexadecimal group.toNat ++ ':' :: groupsText (next :: groups)

/-- The IPv4 address of an IPv4-mapped one. -/
def mapped? (ip : Ipv6) : Option Ipv4 :=
  match ip.groups with
  | [0, 0, 0, 0, 0, 0xFFFF, high, low] =>
    some ⟨(high / 256).toUInt8, high.toUInt8, (low / 256).toUInt8, low.toUInt8⟩
  | _ => none

def toText (ip : Ipv6) : List Char :=
  match ip.mapped? with
  | some v4 => "::ffff:".toList ++ v4.toText
  | none =>
    let (start, length) := longestZeros ip.groups
    if length ≤ 1 then groupsText ip.groups
    else groupsText (ip.groups.take start) ++ ':' :: ':' ::
      groupsText (ip.groups.drop (start + length))

/-- ::1 -/
def isLoopback (ip : Ipv6) : Bool := ip.groups == [0, 0, 0, 0, 0, 0, 0, 1]

/-- fc00::/7 -/
def isUniqueLocal (ip : Ipv6) : Bool := ip.groups.head?.any fun group => group / 512 == 126

end Ipv6

end NameServer
