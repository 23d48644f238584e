import NameServer.Address.Socket
import NameServer.Table
import NameServer.Text.Blank

/-!
# Configuration

The settings of a server with their defaults. Durations are whole seconds.
-/

namespace NameServer

/-- How long an answer of each kind may be kept, in seconds. -/
structure AnswerTtls where
  legacy : UInt32 := 300
  tunnel : UInt32 := 30
  challenge : UInt32 := 60
  negative : UInt32 := 5
  deriving DecidableEq, Repr

structure LegacySettings where
  enabled : Bool := true
  address : Ipv4 := ⟨203, 0, 113, 42⟩
  deriving DecidableEq, Repr

structure AcmeSettings where
  challenge1 : Option String := none
  challenge2 : Option String := none
  ttl : Option Nat := none
  tokensPath : Option String := none
  deriving DecidableEq, Repr

structure CacheSettings where
  enabled : Bool := true
  sliding : Nat := 300
  absolute : Nat := 3600
  maxEntries : Nat := 10000
  deriving DecidableEq, Repr

structure SessionSettings where
  statePath : Option String := none
  cleanupInterval : Nat := 300
  deriving DecidableEq, Repr

structure Config where
  dnsAddress : SocketAddress := .v4 ⟨0, 0, 0, 0⟩ 53
  apiAddress : SocketAddress := .v4 ⟨127, 0, 0, 1⟩ 8080
  apiTimeout : Nat := 10
  zones : List String := ["tunnel4.com"]
  ttls : AnswerTtls := {}
  legacy : LegacySettings := {}
  /-- In an order that stands for the arbitrary one of a hash map. It tells only where two ids differ in nothing but
  case. -/
  proxies : Table String := .empty
  acme : AcmeSettings := {}
  cache : CacheSettings := {}
  sessions : SessionSettings := {}
  deriving DecidableEq

def AnswerTtls.standard : AnswerTtls := {}

def LegacySettings.standard : LegacySettings := {}

def CacheSettings.standard : CacheSettings := {}

def SessionSettings.standard : SessionSettings := {}

def Config.standard : Config := {}

def tokensOf (challenges : List (Option String)) : List String :=
  (challenges.filterMap id).filter fun token => Text.trimmed token != ""

def AcmeSettings.tokens (acme : AcmeSettings) : List String :=
  tokensOf [acme.challenge1, acme.challenge2]

def Config.tokenTtl (config : Config) : Nat := config.acme.ttl.getD config.ttls.challenge.toNat

end NameServer
