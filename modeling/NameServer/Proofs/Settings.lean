import NameServer.Challenge.Tokens
import NameServer.Config.Load
import NameServer.Proofs.Records

/-!
# What settings and token files mean

Every field of a configuration, of its sections and of a token file with the
name, the kind of value and the default it has.
-/

namespace NameServer

open Json Document

/-! ## Sections -/

structure AnswerTtls.Given (find : String → Option Document) (ttls : AnswerTtls) : Prop where
  legacy : Field find "legacy_a" IsU32 300 ttls.legacy
  tunnel : Field find "new_a" IsU32 30 ttls.tunnel
  challenge : Field find "txt" IsU32 60 ttls.challenge
  negative : Field find "negative" IsU32 5 ttls.negative

def AnswerTtls.meaning : Document → AnswerTtls → Prop :=
  IsRecord ["legacy_a", "new_a", "txt", "negative"] Given

structure LegacySettings.Given (find : String → Option Document) (legacy : LegacySettings) : Prop where
  enabled : Field find "enabled" IsBool true legacy.enabled
  address : Field find "static_ip" (IsParsed Ipv4.ofString?) ⟨203, 0, 113, 42⟩ legacy.address

def LegacySettings.meaning : Document → LegacySettings → Prop := IsRecord ["enabled", "static_ip"] Given

structure AcmeSettings.Given (find : String → Option Document) (acme : AcmeSettings) : Prop where
  challenge1 : Field find "challenge_1" (IsOption IsText) none acme.challenge1
  challenge2 : Field find "challenge_2" (IsOption IsText) none acme.challenge2
  ttl : Field find "ttl" (IsOption IsU64) none acme.ttl
  tokensPath : Field find "tokens_path" (IsOption IsText) none acme.tokensPath

def AcmeSettings.meaning : Document → AcmeSettings → Prop :=
  IsRecord ["challenge_1", "challenge_2", "ttl", "tokens_path"] Given

structure CacheSettings.Given (find : String → Option Document) (cache : CacheSettings) : Prop where
  enabled : Field find "enabled" IsBool true cache.enabled
  sliding : Field find "sliding_expiration" IsU64 300 cache.sliding
  absolute : Field find "absolute_expiration" IsU64 3600 cache.absolute
  maxEntries : Field find "max_entries" IsU64 10000 cache.maxEntries

def CacheSettings.meaning : Document → CacheSettings → Prop :=
  IsRecord ["enabled", "sliding_expiration", "absolute_expiration", "max_entries"] Given

structure SessionSettings.Given (find : String → Option Document) (sessions : SessionSettings) : Prop where
  statePath : Field find "state_path" (IsOption IsText) none sessions.statePath
  cleanupInterval : Field find "cleanup_interval" IsU64 300 sessions.cleanupInterval

def SessionSettings.meaning : Document → SessionSettings → Prop := IsRecord ["state_path", "cleanup_interval"] Given

structure TokenFile.Given (find : String → Option Document) (file : TokenFile) : Prop where
  challenge1 : Field find "challenge_1" (IsOption IsText) none file.challenge1
  challenge2 : Field find "challenge_2" (IsOption IsText) none file.challenge2

def TokenFile.meaning : Document → TokenFile → Prop := IsRecord ["challenge_1", "challenge_2"] Given

/-! ## Configurations -/

structure Config.Given (find : String → Option Document) (config : Config) : Prop where
  dnsAddress : Field find "dns_udp_bind_addr" (IsParsed SocketAddress.ofString?) (.v4 ⟨0, 0, 0, 0⟩ 53) config.dnsAddress
  apiAddress : Field find "api_bind_addr" (IsParsed SocketAddress.ofString?) (.v4 ⟨127, 0, 0, 1⟩ 8080) config.apiAddress
  apiTimeout : Field find "api_timeout" IsU64 10 config.apiTimeout
  zones : Field find "authoritative_zones" (IsList IsText) ["tunnel4.com"] config.zones
  ttls : Field find "response_ttl_seconds" AnswerTtls.meaning ⟨300, 30, 60, 5⟩ config.ttls
  legacy : Field find "legacy_mode" LegacySettings.meaning ⟨true, ⟨203, 0, 113, 42⟩⟩ config.legacy
  proxies : Field find "entry_ip_address_map" (IsTable IsText) .empty config.proxies
  acme : Field find "acme" AcmeSettings.meaning ⟨none, none, none, none⟩ config.acme
  cache : Field find "session_cache" CacheSettings.meaning ⟨true, 300, 3600, 10000⟩ config.cache
  sessions : Field find "session_store" SessionSettings.meaning ⟨none, 300⟩ config.sessions

def Config.meaning : Document → Config → Prop :=
  IsRecord ["dns_udp_bind_addr", "api_bind_addr", "api_timeout", "authoritative_zones", "response_ttl_seconds",
    "legacy_mode", "entry_ip_address_map", "acme", "session_cache", "session_store"] Given

/-! ## Decoding them -/

theorem Ipv4.reads_decode : decode.Reads (IsParsed ofString?) := Decoder.reads_parsed _

theorem SocketAddress.reads_decode : decode.Reads (IsParsed ofString?) := Decoder.reads_parsed _

section
open Json.Decoder Json.Shape

theorem AnswerTtls.reads_decode : shape.decode.Reads meaning := by
  have hshape : Follows shape _ := (follows_defaulted reads_u32 ..).map _
    |>.seq (follows_defaulted reads_u32 ..)
    |>.seq (follows_defaulted reads_u32 ..)
    |>.seq (follows_defaulted reads_u32 ..)
  refine hshape.reads_decode rfl (by decide) fun find ttls => ?_
  constructor
  · rintro ⟨_, hlegacy, _, htunnel, _, hchallenge, _, hnegative, rfl⟩
    exact ⟨hlegacy, htunnel, hchallenge, hnegative⟩
  · exact fun h => ⟨_, h.legacy, _, h.tunnel, _, h.challenge, _, h.negative, rfl⟩

theorem LegacySettings.reads_decode : shape.decode.Reads meaning := by
  have hshape : Follows shape _ := (follows_defaulted reads_bool ..).map _
    |>.seq (follows_defaulted Ipv4.reads_decode ..)
  refine hshape.reads_decode rfl (by decide) fun find legacy => ?_
  constructor
  · rintro ⟨_, henabled, _, haddress, rfl⟩
    exact ⟨henabled, haddress⟩
  · exact fun h => ⟨_, h.enabled, _, h.address, rfl⟩

theorem AcmeSettings.reads_decode : shape.decode.Reads meaning := by
  have hshape : Follows shape _ := (follows_defaulted reads_nullable_text ..).map _
    |>.seq (follows_defaulted reads_nullable_text ..)
    |>.seq (follows_defaulted reads_nullable_u64 ..)
    |>.seq (follows_defaulted reads_nullable_text ..)
  refine hshape.reads_decode rfl (by decide) fun find acme => ?_
  constructor
  · rintro ⟨_, hchallenge1, _, hchallenge2, _, httl, _, htokensPath, rfl⟩
    exact ⟨hchallenge1, hchallenge2, httl, htokensPath⟩
  · exact fun h => ⟨_, h.challenge1, _, h.challenge2, _, h.ttl, _, h.tokensPath, rfl⟩

theorem CacheSettings.reads_decode : shape.decode.Reads meaning := by
  have hshape : Follows shape _ := (follows_defaulted reads_bool ..).map _
    |>.seq (follows_defaulted reads_u64 ..)
    |>.seq (follows_defaulted reads_u64 ..)
    |>.seq (follows_defaulted reads_u64 ..)
  refine hshape.reads_decode rfl (by decide) fun find cache => ?_
  constructor
  · rintro ⟨_, henabled, _, hsliding, _, habsolute, _, hmaxEntries, rfl⟩
    exact ⟨henabled, hsliding, habsolute, hmaxEntries⟩
  · exact fun h => ⟨_, h.enabled, _, h.sliding, _, h.absolute, _, h.maxEntries, rfl⟩

theorem SessionSettings.reads_decode : shape.decode.Reads meaning := by
  have hshape : Follows shape _ := (follows_defaulted reads_nullable_text ..).map _
    |>.seq (follows_defaulted reads_u64 ..)
  refine hshape.reads_decode rfl (by decide) fun find sessions => ?_
  constructor
  · rintro ⟨_, hstatePath, _, hcleanupInterval, rfl⟩
    exact ⟨hstatePath, hcleanupInterval⟩
  · exact fun h => ⟨_, h.statePath, _, h.cleanupInterval, rfl⟩

theorem TokenFile.reads_decode : shape.decode.Reads meaning := by
  have hshape : Follows shape _ := (follows_defaulted reads_nullable_text ..).map _
    |>.seq (follows_defaulted reads_nullable_text ..)
  refine hshape.reads_decode rfl (by decide) fun find file => ?_
  constructor
  · rintro ⟨_, hchallenge1, _, hchallenge2, rfl⟩
    exact ⟨hchallenge1, hchallenge2⟩
  · exact fun h => ⟨_, h.challenge1, _, h.challenge2, rfl⟩

theorem Config.reads_decode : shape.decode.Reads meaning := by
  have hshape : Follows shape _ := (follows_defaulted SocketAddress.reads_decode ..).map _
    |>.seq (follows_defaulted SocketAddress.reads_decode ..)
    |>.seq (follows_defaulted reads_u64 ..)
    |>.seq (follows_defaulted (reads_list reads_text) ..)
    |>.seq (follows_defaulted AnswerTtls.reads_decode ..)
    |>.seq (follows_defaulted LegacySettings.reads_decode ..)
    |>.seq (follows_defaulted (reads_table reads_text) ..)
    |>.seq (follows_defaulted AcmeSettings.reads_decode ..)
    |>.seq (follows_defaulted CacheSettings.reads_decode ..)
    |>.seq (follows_defaulted SessionSettings.reads_decode ..)
  refine hshape.reads_decode rfl (by decide) fun find config => ?_
  constructor
  · rintro ⟨_, hdnsAddress, _, hapiAddress, _, hapiTimeout, _, hzones, _, httls, _, hlegacy, _, hproxies, _, hacme, _,
      hcache, _, hsessions, rfl⟩
    exact ⟨hdnsAddress, hapiAddress, hapiTimeout, hzones, httls, hlegacy, hproxies, hacme, hcache, hsessions⟩
  · exact fun h => ⟨_, h.dnsAddress, _, h.apiAddress, _, h.apiTimeout, _, h.zones, _, h.ttls, _, h.legacy, _,
      h.proxies, _, h.acme, _, h.cache, _, h.sessions, rfl⟩

end

end NameServer
