import NameServer.Text.Case
import NameServer.Text.Digits
import NameServer.Text.Split

/-!
# Tunnel hostnames

Two forms are served. A legacy hostname is `guid.domain`, and all of them have
one address. A tunnel hostname is `address-id.domain`: the address and the id
of the proxy entry together name a session, the id alone the entry it runs on.
Both may hold hyphens; the split is the one with the longest address.
-/

namespace NameServer

namespace Hostname

/-- Letters of either case, digits and the hyphen, and the two letters from outside ASCII that
have an ASCII letter as their other case: the Kelvin sign and the long s. -/
def isHostChar (c : Char) : Bool :=
  c.isAlphanum || c == '-' || c == '\u212A' || c == '\u017F'

def isLabel (cs : List Char) : Bool := cs != [] && cs.all isHostChar

def isDomain (cs : List Char) : Bool := (Text.split '.' cs).all isLabel

end Hostname

structure LegacyHost where
  guid : String
  domain : String
  deriving DecidableEq, Repr

namespace LegacyHost

def isGuid (cs : List Char) : Bool :=
  (Text.split '-' cs).map List.length == [8, 4, 4, 4, 12] &&
    (Text.split '-' cs).all fun group => group.all Text.isHexDigit

def ofString? (hostname : String) : Option LegacyHost :=
  match Text.cut '.' hostname.toList with
  | none => none
  | some (guid, domain) =>
    if isGuid guid && Hostname.isDomain domain then
      some ⟨String.ofList guid, String.ofList domain⟩
    else none

end LegacyHost

structure TunnelHost where
  address : String
  entryId : String
  domain : String
  deriving DecidableEq, Repr

namespace TunnelHost

def maxAddress : Nat := 128

def isAddress (cs : List Char) : Bool :=
  3 ≤ cs.length && cs.length ≤ maxAddress && cs.all Hostname.isHostChar

def isEntryId (cs : List Char) : Bool :=
  1 ≤ cs.length && cs.length ≤ 32 && cs.all Hostname.isHostChar && cs.head? != some '-'

def splitAt? (label : List Char) (length : Nat) : Option (List Char × List Char) :=
  match label.drop length with
  | '-' :: entryId =>
    if isAddress (label.take length) && isEntryId entryId then some (label.take length, entryId)
    else none
  | _ => none

/-- Address and entry id of a first label, with the longest address that leaves an id. -/
def splitLabel? (label : List Char) : Option (List Char × List Char) :=
  (List.range (maxAddress + 1)).reverse.findSome? (splitAt? label)

def ofString? (hostname : String) : Option TunnelHost :=
  match Text.cut '.' hostname.toList with
  | none => none
  | some (label, domain) =>
    match splitLabel? label with
    | none => none
    | some (address, entryId) =>
      if Hostname.isDomain domain then
        some ⟨String.ofList address, String.ofList entryId, String.ofList domain⟩
      else none

def key (host : TunnelHost) : String := Text.lowered (host.address ++ "-" ++ host.entryId)

end TunnelHost

end NameServer
