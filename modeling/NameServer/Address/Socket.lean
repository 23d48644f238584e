import NameServer.Address.V6

/-!
# Socket addresses

An IPv4 address and a port, or an IPv6 address in brackets, with an optional
numeric scope, and a port.
-/

namespace NameServer

inductive SocketAddress where
  | v4 (ip : Ipv4) (port : UInt16)
  | v6 (ip : Ipv6) (scope : UInt32) (port : UInt16)
  deriving DecidableEq, Repr

namespace SocketAddress

/-- A decimal number below `bound` after the character `mark`; leading zeros are allowed. -/
def readNumber (mark : Char) (bound : Nat) : List Char → Option (Nat × List Char)
  | [] => none
  | c :: cs =>
    let digits := cs.takeWhile Char.isDigit
    if c = mark ∧ digits ≠ [] ∧ Text.ofDecimal digits < bound then
      some (Text.ofDecimal digits, cs.dropWhile Char.isDigit)
    else none

def readPort (cs : List Char) : Option UInt16 :=
  match readNumber ':' UInt16.size cs with
  | some (port, []) => some port.toUInt16
  | _ => none

def v4OfText? (cs : List Char) : Option SocketAddress := do
  let (ip, cs) ← Ipv4.read cs
  return .v4 ip (← readPort cs)

def v6OfText? : List Char → Option SocketAddress
  | '[' :: cs => do
    let (ip, cs) ← Ipv6.read cs
    let (scope, cs) := (readNumber '%' UInt32.size cs).getD (0, cs)
    match cs with
    | ']' :: cs => return .v6 ip scope.toUInt32 (← readPort cs)
    | _ => none
  | _ => none

def ofString? (s : String) : Option SocketAddress := v4OfText? s.toList <|> v6OfText? s.toList

def toText : SocketAddress → List Char
  | .v4 ip port => ip.toText ++ ':' :: Text.decimal port.toNat
  | .v6 ip scope port =>
    let zone := if scope = 0 then [] else '%' :: Text.decimal scope.toNat
    '[' :: (ip.toText ++ zone ++ ']' :: ':' :: Text.decimal port.toNat)

def toString (address : SocketAddress) : String := String.ofList address.toText

instance : ToString SocketAddress := ⟨toString⟩

def host : SocketAddress → String
  | .v4 ip _ => String.ofList ip.toText
  | .v6 ip _ _ => String.ofList ip.toText

/-- Whether the host is a loopback address or one of a private network. -/
def isPrivate : SocketAddress → Bool
  | .v4 ip _ => ip.isLoopback || ip.isPrivate
  | .v6 ip _ _ => ip.isLoopback || ip.isUniqueLocal

end SocketAddress

end NameServer
