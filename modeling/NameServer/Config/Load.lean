import NameServer.Config.Basic
import NameServer.Disk
import NameServer.Json.Decode
import NameServer.Zone

/-!
# Loading a configuration

A configuration is a JSON record in which every field has a default. It is
usable when there is a zone, every zone is a name, the control interface is on
a private address, and the cache can hold an entry. Loading puts the zones
into normal form.
-/

namespace NameServer

inductive ConfigError where
  | unreadable
  | invalidJson
  | noZones
  | emptyZone
  | invalidZone
  | publicApi (host : String)
  | noCacheEntries
  deriving DecidableEq, Repr

def ConfigError.message : ConfigError → String
  | unreadable => "an IO error occurred"
  | invalidJson => "invalid JSON"
  | noZones => "invalid configuration: at least one authoritative zone is required"
  | emptyZone => "invalid configuration: authoritative zones can't be empty"
  | invalidZone => "DNS error"
  | publicApi host => "API bind address (" ++ host ++ ") must be a loopback or private IP"
  | noCacheEntries => "invalid configuration: session_cache.max_entries must be at least 1"

open Json

/-! ## Records -/

def Ipv4.decode : Decoder Ipv4 := Decoder.parsed Ipv4.ofString?

def SocketAddress.decode : Decoder SocketAddress := Decoder.parsed SocketAddress.ofString?

def AnswerTtls.shape : Shape AnswerTtls :=
  AnswerTtls.mk <$> .defaulted "legacy_a" standard.legacy Decoder.u32
    <*> .defaulted "new_a" standard.tunnel Decoder.u32
    <*> .defaulted "txt" standard.challenge Decoder.u32
    <*> .defaulted "negative" standard.negative Decoder.u32

def LegacySettings.shape : Shape LegacySettings :=
  LegacySettings.mk <$> .defaulted "enabled" standard.enabled Decoder.bool
    <*> .defaulted "static_ip" standard.address Ipv4.decode

def AcmeSettings.shape : Shape AcmeSettings :=
  AcmeSettings.mk <$> .defaulted "challenge_1" none (Decoder.nullable Decoder.text)
    <*> .defaulted "challenge_2" none (Decoder.nullable Decoder.text)
    <*> .defaulted "ttl" none (Decoder.nullable Decoder.u64)
    <*> .defaulted "tokens_path" none (Decoder.nullable Decoder.text)

def CacheSettings.shape : Shape CacheSettings :=
  CacheSettings.mk <$> .defaulted "enabled" standard.enabled Decoder.bool
    <*> .defaulted "sliding_expiration" standard.sliding Decoder.u64
    <*> .defaulted "absolute_expiration" standard.absolute Decoder.u64
    <*> .defaulted "max_entries" standard.maxEntries Decoder.u64

def SessionSettings.shape : Shape SessionSettings :=
  SessionSettings.mk <$> .defaulted "state_path" none (Decoder.nullable Decoder.text)
    <*> .defaulted "cleanup_interval" standard.cleanupInterval Decoder.u64

namespace Config

def shape : Shape Config :=
  Config.mk <$> .defaulted "dns_udp_bind_addr" standard.dnsAddress SocketAddress.decode
    <*> .defaulted "api_bind_addr" standard.apiAddress SocketAddress.decode
    <*> .defaulted "api_timeout" standard.apiTimeout Decoder.u64
    <*> .defaulted "authoritative_zones" standard.zones (Decoder.list Decoder.text)
    <*> .defaulted "response_ttl_seconds" {} AnswerTtls.shape.decode
    <*> .defaulted "legacy_mode" {} LegacySettings.shape.decode
    <*> .defaulted "entry_ip_address_map" .empty (Decoder.table Decoder.text)
    <*> .defaulted "acme" {} AcmeSettings.shape.decode
    <*> .defaulted "session_cache" {} CacheSettings.shape.decode
    <*> .defaulted "session_store" {} SessionSettings.shape.decode

/-! ## Checks -/

def checkZone (zone : String) : Except ConfigError String :=
  let name := Zone.normalize zone
  if name = "" then .error .emptyZone
  else if !Zone.isName name.toList then .error .invalidZone
  else .ok name

def checkZones : List String → Except ConfigError (List String)
  | [] => .ok []
  | zone :: zones => do
    let name ← checkZone zone
    let names ← checkZones zones
    return name :: names

def check (config : Config) : Except ConfigError Config := do
  if config.zones = [] then throw .noZones
  let zones ← checkZones config.zones
  if !config.apiAddress.isPrivate then throw (.publicApi config.apiAddress.host)
  if config.cache.maxEntries = 0 then throw .noCacheEntries
  return { config with zones }

def ofText (bytes : List UInt8) : Except ConfigError Config :=
  match decodeAll shape.decode bytes with
  | .error _ => .error .invalidJson
  | .ok config => config.check

/-- A directory opens like a file but holds no JSON. -/
def ofPlace : Place → Except ConfigError Config
  | .file bytes => ofText bytes
  | .directory => .error .invalidJson
  | .absent | .nowhere => .error .unreadable

end Config

end NameServer
