import NameServer.Proofs.Authority
import NameServer.Proofs.Settings

/-!
# Configurations that load

A text loads when it denotes a configuration that is usable: there are zones,
they are names, the control interface is inside, and the cache has room.
Otherwise the first complaint is the error. What is loaded has its zones in
normal form and nothing else changed, and would load again as it is.
-/

namespace NameServer

/-! ## Inside -/

def Ipv4.toNat (ip : Ipv4) : Nat := ip.octets.foldl (fun n octet => 256 * n + octet.toNat) 0

def Ipv6.toNat (ip : Ipv6) : Nat := ip.groups.foldl (fun n group => 65536 * n + group.toNat) 0

/-- An address and the base of a network have the same first `length` bits. -/
def Ipv4.InNetwork (ip base : Ipv4) (length : Nat) : Prop := ip.toNat >>> (32 - length) = base.toNat >>> (32 - length)

def Ipv6.InNetwork (ip base : Ipv6) (length : Nat) : Prop :=
  ip.toNat >>> (128 - length) = base.toNat >>> (128 - length)

/-- 127.0.0.0/8, 10.0.0.0/8, 172.16.0.0/12 and 192.168.0.0/16. -/
def Ipv4.innerNetworks : List (Ipv4 × Nat) :=
  [(⟨127, 0, 0, 0⟩, 8), (⟨10, 0, 0, 0⟩, 8), (⟨172, 16, 0, 0⟩, 12), (⟨192, 168, 0, 0⟩, 16)]

/-- ::1/128 and fc00::/7. -/
def Ipv6.innerNetworks : List (Ipv6 × Nat) :=
  [(⟨[0, 0, 0, 0, 0, 0, 0, 1], rfl⟩, 128), (⟨[0xFC00, 0, 0, 0, 0, 0, 0, 0], rfl⟩, 7)]

/-- The address is one of the host itself, or of a private network. -/
def SocketAddress.IsInner : SocketAddress → Prop
  | .v4 ip _ => ∃ network ∈ Ipv4.innerNetworks, ip.InNetwork network.1 network.2
  | .v6 ip _ _ => ∃ network ∈ Ipv6.innerNetworks, ip.InNetwork network.1 network.2

theorem Ipv4.toNat_eq (ip : Ipv4) :
    ip.toNat = ((ip.a.toNat * 256 + ip.b.toNat) * 256 + ip.c.toNat) * 256 + ip.d.toNat := by
  simp only [toNat, octets, List.foldl_cons, List.foldl_nil]
  omega

theorem Ipv4.isInner_iff (ip : Ipv4) : (ip.isLoopback || ip.isPrivate) = true ↔
    ∃ network ∈ innerNetworks, ip.InNetwork network.1 network.2 := by
  have ha := ip.a.toNat_lt
  have hb := ip.b.toNat_lt
  have hc := ip.c.toNat_lt
  have hd := ip.d.toNat_lt
  simp [innerNetworks, InNetwork, toNat_eq, Nat.shiftRight_eq_div_pow, isLoopback, isPrivate, ← UInt8.toNat_inj]
  omega

theorem Ipv6.isInner_iff (ip : Ipv6) : (ip.isLoopback || ip.isUniqueLocal) = true ↔
    ∃ network ∈ innerNetworks, ip.InNetwork network.1 network.2 := by
  obtain ⟨groups, height⟩ := ip
  match groups, height with
  | [a, b, c, d, e, f, g, h], height =>
    have ha := a.toNat_lt
    have hb := b.toNat_lt
    have hc := c.toNat_lt
    have hd := d.toNat_lt
    have he := e.toNat_lt
    have hf := f.toNat_lt
    have hg := g.toNat_lt
    have hh := h.toNat_lt
    simp [innerNetworks, InNetwork, toNat, Nat.shiftRight_eq_div_pow, isLoopback, isUniqueLocal, ← UInt16.toNat_inj]
    omega

theorem SocketAddress.isPrivate_iff (address : SocketAddress) : address.isPrivate = true ↔ address.IsInner := by
  cases address with
  | v4 ip _ => exact ip.isInner_iff
  | v6 ip _ _ => exact ip.isInner_iff

instance (address : SocketAddress) : Decidable address.IsInner := decidable_of_iff _ address.isPrivate_iff

/-! ## Normal form -/

namespace Zone

theorem normalize_normalize (zone : String) : normalize (normalize zone) = normalize zone := by
  have htrim : ∀ cs, Text.trimEnd (· == '.') (Text.trimEnd (· == '.') cs) = Text.trimEnd (· == '.') cs := by
    intro cs
    rw [Text.trimEnd, Text.trimEnd, List.reverse_reverse, List.dropWhile_idempotent]
  rw [normalize, normalText, normalize, normalText, String.toList_ofList, Text.trimDots_lower, htrim, Text.lower_lower]

/-- Its normal form is not empty, and is a name. -/
def Nameable (zone : String) : Prop := normalize zone ≠ "" ∧ isName (normalize zone).toList = true

theorem isName_standard : isName "tunnel4.com".toList = true := by
  simp [isName, readLabels]
  decide +kernel

theorem nameable_normalize {zone : String} : Nameable (normalize zone) ↔ Nameable zone := by
  rw [Nameable, normalize_normalize, Nameable]

end Zone

namespace Config

open Json (Denotes decodeAll decodeAll_ok_iff)

structure Usable (config : Config) : Prop where
  zones : config.zones ≠ []
  names : ∀ zone ∈ config.zones, Zone.Nameable zone
  inner : config.apiAddress.IsInner
  room : 1 ≤ config.cache.maxEntries

theorem usable_standard : standard.Usable where
  zones := by decide
  names := by
    have hnormal : Zone.normalize "tunnel4.com" = "tunnel4.com" := by decide +kernel
    intro zone hzone
    rw [List.mem_singleton.mp hzone, Zone.Nameable, hnormal]
    exact ⟨by decide, Zone.isName_standard⟩
  inner := by decide
  room := by decide

def normalized (config : Config) : Config := { config with zones := config.zones.map Zone.normalize }

theorem Usable.normalized {config : Config} (h : config.Usable) : config.normalized.Usable where
  zones := by simpa [Config.normalized] using h.zones
  names := by
    intro zone hzone
    obtain ⟨zone', hzone', rfl⟩ := List.mem_map.mp hzone
    exact Zone.nameable_normalize.mpr (h.names zone' hzone')
  inner := h.inner
  room := h.room

theorem normalized_normalized (config : Config) : config.normalized.normalized = config.normalized := by
  have hzones : (config.zones.map Zone.normalize).map Zone.normalize = config.zones.map Zone.normalize := by
    rw [List.map_map]
    exact List.map_congr_left fun zone _ => Zone.normalize_normalize zone
  rw [normalized, normalized, hzones]

/-! ## Complaints -/

def zoneComplaints (zone : String) : List ConfigError :=
  if Zone.normalize zone = "" then [.emptyZone]
  else if Zone.isName (Zone.normalize zone).toList then [] else [.invalidZone]

/-- Everything that is wrong with a configuration, in order. -/
def complaints (config : Config) : List ConfigError :=
  (if config.zones ≠ [] then [] else [.noZones]) ++
    (config.zones.flatMap zoneComplaints ++
      ((if config.apiAddress.IsInner then [] else [.publicApi config.apiAddress.host]) ++
        (if 1 ≤ config.cache.maxEntries then [] else [.noCacheEntries])))

theorem zoneComplaints_eq_nil_iff (zone : String) : zoneComplaints zone = [] ↔ Zone.Nameable zone := by
  unfold zoneComplaints Zone.Nameable
  by_cases hempty : Zone.normalize zone = ""
  · simp [hempty]
  · simp [hempty]

theorem complaints_of_names {config : Config} (hsome : config.zones ≠ [])
    (hnames : ∀ zone ∈ config.zones, Zone.Nameable zone) : config.complaints =
      (if config.apiAddress.IsInner then [] else [.publicApi config.apiAddress.host]) ++
        (if 1 ≤ config.cache.maxEntries then [] else [.noCacheEntries]) := by
  have hzones : config.zones.flatMap zoneComplaints = [] :=
    List.flatMap_eq_nil_iff.mpr fun zone hzone => (zoneComplaints_eq_nil_iff zone).mpr (hnames zone hzone)
  rw [complaints, if_pos hsome, hzones, List.nil_append, List.nil_append]

theorem complaints_eq_nil_iff (config : Config) : config.complaints = [] ↔ config.Usable := by
  simp only [complaints, List.append_eq_nil_iff, List.flatMap_eq_nil_iff, zoneComplaints_eq_nil_iff,
    ite_eq_left_iff, List.cons_ne_nil, imp_false, not_not]
  exact ⟨fun ⟨hzones, hnames, hinner, hroom⟩ => ⟨hzones, hnames, hinner, hroom⟩,
    fun h => ⟨h.zones, h.names, h.inner, h.room⟩⟩

theorem reports_checkZone (zone : String) : Reports (checkZone zone) (zoneComplaints zone) := by
  unfold checkZone zoneComplaints
  simp only
  split
  · exact reports_error _
  · cases Zone.isName (Zone.normalize zone).toList with
    | false => exact reports_error _
    | true => exact reports_ok _

theorem reports_checkZones : ∀ zones : List String, Reports (checkZones zones) (zones.flatMap zoneComplaints)
  | [] => reports_ok []
  | zone :: zones => by
    have hzones := (reports_checkZone zone).bind fun name =>
      (reports_checkZones zones).bind fun names => reports_ok (name :: names)
    rwa [List.append_nil] at hzones

theorem reports_check (config : Config) : Reports config.check config.complaints := by
  have hinner : (!config.apiAddress.isPrivate) = true ↔ ¬ config.apiAddress.IsInner := by
    rw [← SocketAddress.isPrivate_iff, Bool.not_eq_true', Bool.not_eq_true]
  have hroom : config.cache.maxEntries = 0 ↔ ¬ 1 ≤ config.cache.maxEntries := by omega
  have hlast := fun zones => (reports_ok { config with zones }).checked hroom ConfigError.noCacheEntries
  have hafter := fun zones => (hlast zones).checked hinner (.publicApi config.apiAddress.host)
  have hsome : config.zones = [] ↔ ¬ config.zones ≠ [] := not_not.symm
  have hchecks := ((reports_checkZones config.zones).bind hafter).checked hsome .noZones
  rwa [List.append_nil] at hchecks

theorem check_ok_iff (config checked : Config) :
    config.check = .ok checked ↔ config.Usable ∧ checked = config.normalized := by
  rw [← complaints_eq_nil_iff, ← config.reports_check.exists_ok_iff]
  constructor
  · exact fun h => ⟨⟨checked, h⟩, (check_ok h).1⟩
  · rintro ⟨⟨checked', h⟩, rfl⟩
    rw [h, (check_ok h).1]
    rfl

/-! ## Texts -/

theorem ofText_ok_iff (bytes : List UInt8) (config : Config) : ofText bytes = .ok config ↔
    ∃ decoded, Denotes bytes meaning decoded ∧ decoded.Usable ∧ config = decoded.normalized := by
  simp only [← decodeAll_ok_iff reads_decode, ofText]
  cases decodeAll shape.decode bytes with
  | error fault => simp
  | ok decoded => simp [check_ok_iff]

theorem ofText_error_iff (bytes : List UInt8) (error : ConfigError) : ofText bytes = .error error ↔
    (¬ ∃ decoded, Denotes bytes meaning decoded) ∧ error = .invalidJson ∨
      ∃ decoded, Denotes bytes meaning decoded ∧ decoded.complaints.head? = some error := by
  simp only [← decodeAll_ok_iff reads_decode, ofText]
  cases decodeAll shape.decode bytes with
  | error fault => simp [eq_comm]
  | ok decoded => simp [reports_check decoded error]

/-- **What loads is usable, and what doesn't fails with the first complaint.** -/
theorem ofText_usable_or_first_complaint (bytes : List UInt8) :
    (∀ config, ofText bytes = .ok config ↔
      ∃ decoded, Denotes bytes meaning decoded ∧ decoded.Usable ∧ config = decoded.normalized) ∧
    (∀ error, ofText bytes = .error error ↔
      (¬ ∃ decoded, Denotes bytes meaning decoded) ∧ error = .invalidJson ∨
        ∃ decoded, Denotes bytes meaning decoded ∧ decoded.complaints.head? = some error) ∧
    ∀ config, ofText bytes = .ok config → config.check = .ok config ∧ config.Usable ∧ config.normalized = config := by
  refine ⟨ofText_ok_iff bytes, ofText_error_iff bytes, fun config h => ?_⟩
  obtain ⟨decoded, _, husable, rfl⟩ := (ofText_ok_iff bytes config).mp h
  have hnormal := decoded.normalized_normalized
  exact ⟨(check_ok_iff ..).mpr ⟨husable.normalized, hnormal.symm⟩, husable.normalized, hnormal⟩

/-! A text with a fault of each kind but the first: a zone with an empty label, one of dots only, an IPv4-mapped
loopback address, and no room. Texts with one fault, the last of them a number that is not one. And a text that sets
every field. -/

def faultyText : String :=
  "\x7b\"authoritative_zones\":[\"Tunnel4.Com.\",\"a..b\",\"..\"],\"api_bind_addr\":\"[::ffff:127.0.0.1]:80\"," ++
    "\"session_cache\":\x7b\"max_entries\":0\x7d\x7d"

def mappedLoopback : SocketAddress := .v6 ⟨[0, 0, 0, 0, 0, 0xFFFF, 0x7F00, 1], rfl⟩ 0 80

def faultyConfig : Config where
  zones := ["Tunnel4.Com.", "a..b", ".."]
  apiAddress := mappedLoopback
  cache := { maxEntries := 0 }

def zonelessText : String := "\x7b\"authoritative_zones\":[]\x7d"

def zonelessConfig : Config where
  zones := []

def publicText : String := "\x7b\"api_bind_addr\":\"8.8.8.8:80\"\x7d"

def publicConfig : Config where
  apiAddress := .v4 ⟨8, 8, 8, 8⟩ 80

def roomlessText : String := "\x7b\"session_cache\":\x7b\"max_entries\":0\x7d\x7d"

def roomlessConfig : Config where
  cache := { maxEntries := 0 }

def mistypedText : String := "\x7b\"session_cache\":\x7b\"max_entries\":\"1\"\x7d\x7d"

def fullText : String :=
  "\x7b\"dns_udp_bind_addr\":\"192.0.2.1:5353\",\"api_bind_addr\":\"10.0.0.1:9090\",\"api_timeout\":20," ++
    "\"authoritative_zones\":[\"Example.ORG.\",\"tunnel4.com\"],\"response_ttl_seconds\":" ++
    "\x7b\"legacy_a\":301,\"new_a\":31,\"txt\":61,\"negative\":6\x7d,\"legacy_mode\":" ++
    "\x7b\"enabled\":false,\"static_ip\":\"203.0.113.7\"\x7d,\"entry_ip_address_map\":" ++
    "\x7b\"e1\":\"203.0.113.10\",\"e2\":\"203.0.113.20\"\x7d,\"acme\":" ++
    "\x7b\"challenge_1\":\"first\",\"challenge_2\":\" second \",\"ttl\":120,\"tokens_path\":\"tokens\"\x7d," ++
    "\"session_cache\":\x7b\"enabled\":false,\"sliding_expiration\":400,\"absolute_expiration\":4000," ++
    "\"max_entries\":20\x7d,\"session_store\":\x7b\"state_path\":\"state\",\"cleanup_interval\":500\x7d\x7d"

def fullConfig : Config where
  dnsAddress := .v4 ⟨192, 0, 2, 1⟩ 5353
  apiAddress := .v4 ⟨10, 0, 0, 1⟩ 9090
  apiTimeout := 20
  zones := ["Example.ORG.", "tunnel4.com"]
  ttls := ⟨301, 31, 61, 6⟩
  legacy := ⟨false, ⟨203, 0, 113, 7⟩⟩
  proxies := (Table.empty.insert "e2" "203.0.113.20").insert "e1" "203.0.113.10"
  acme := ⟨some "first", some " second ", some 120, some "tokens"⟩
  cache := ⟨false, 400, 4000, 20⟩
  sessions := ⟨some "state", 500⟩

section
open Json (chars_append denotes_of_chars)
open String (toList_ofList)

theorem denotes_faultyText : Denotes (Text.toUtf8 faultyText) meaning faultyConfig := by
  have hchars : faultyText.toList = _ := chars_append toList_ofList toList_ofList
  exact denotes_of_chars reads_decode hchars (by decide +kernel)

theorem denotes_zonelessText : Denotes (Text.toUtf8 zonelessText) meaning zonelessConfig :=
  denotes_of_chars reads_decode toList_ofList (by decide +kernel)

theorem denotes_publicText : Denotes (Text.toUtf8 publicText) meaning publicConfig :=
  denotes_of_chars reads_decode toList_ofList (by decide +kernel)

theorem denotes_roomlessText : Denotes (Text.toUtf8 roomlessText) meaning roomlessConfig :=
  denotes_of_chars reads_decode toList_ofList (by decide +kernel)

theorem denotes_fullText : Denotes (Text.toUtf8 fullText) meaning fullConfig := by
  have hchars : fullText.toList = _ :=
    chars_append (chars_append (chars_append (chars_append (chars_append (chars_append (chars_append toList_ofList
      toList_ofList) toList_ofList) toList_ofList) toList_ofList) toList_ofList) toList_ofList) toList_ofList
  exact denotes_of_chars reads_decode hchars (by decide +kernel)

end

theorem not_denotes_mistypedText : ¬ ∃ decoded, Denotes (Text.toUtf8 mistypedText) meaning decoded := by
  have hnone : (decodeAll shape.decode (Text.toUtf8 mistypedText)).toOption = none := by
    rw [decodeAll, Text.ofUtf8_toUtf8]
    decide +kernel
  rintro ⟨decoded, h⟩
  rw [← decodeAll_ok_iff reads_decode] at h
  rw [h] at hnone
  cases hnone

theorem complaints_faultyConfig :
    faultyConfig.complaints = [.invalidZone, .emptyZone, .publicApi "::ffff:127.0.0.1", .noCacheEntries] := by
  have hgood : zoneComplaints "Tunnel4.Com." = [] := by
    have hnormal : Zone.normalize "Tunnel4.Com." = "tunnel4.com" := by decide +kernel
    simp only [zoneComplaints, hnormal, Zone.isName_standard]
    rfl
  have hgap : zoneComplaints "a..b" = [.invalidZone] := by
    have hnormal : Zone.normalize "a..b" = "a..b" := by decide +kernel
    have hname : Zone.isName "a..b".toList = false := by simp [Zone.isName, Zone.readLabels]; decide +kernel
    simp only [zoneComplaints, hnormal, hname]
    rfl
  have hdots : zoneComplaints ".." = [.emptyZone] := if_pos (by decide +kernel)
  have hzones : faultyConfig.zones.flatMap zoneComplaints = [.invalidZone, .emptyZone] := by
    simp [faultyConfig, hgood, hgap, hdots]
  rw [complaints, hzones]
  decide +kernel

theorem complaints_publicConfig : publicConfig.complaints = [.publicApi "8.8.8.8"] := by
  have hnames : ∀ zone ∈ publicConfig.zones, Zone.Nameable zone := usable_standard.names
  rw [complaints_of_names (by decide) hnames]
  decide +kernel

theorem complaints_roomlessConfig : roomlessConfig.complaints = [.noCacheEntries] := by
  have hnames : ∀ zone ∈ roomlessConfig.zones, Zone.Nameable zone := usable_standard.names
  rw [complaints_of_names (by decide) hnames]
  decide +kernel

theorem usable_fullConfig : fullConfig.Usable where
  zones := by decide
  names := by
    have hnormal : Zone.normalize "Example.ORG." = "example.org" := by decide +kernel
    have hname : Zone.isName "example.org".toList = true := by simp [Zone.isName, Zone.readLabels]; decide +kernel
    intro zone hzone
    simp only [fullConfig, List.mem_cons, List.not_mem_nil, or_false] at hzone
    rcases hzone with rfl | rfl
    · rw [Zone.Nameable, hnormal]
      exact ⟨by decide, hname⟩
    · exact usable_standard.names _ (List.mem_singleton.mpr rfl)
  inner := by decide
  room := by decide

/-- What the full text loads as. -/
def loadedConfig : Config := { fullConfig with zones := ["example.org", "tunnel4.com"] }

theorem ofText_usable_or_first_complaint_faulty :
    (Denotes (Text.toUtf8 faultyText) meaning faultyConfig ∧
      faultyConfig.complaints = [.invalidZone, .emptyZone, .publicApi "::ffff:127.0.0.1", .noCacheEntries] ∧
      ofText (Text.toUtf8 faultyText) = .error .invalidZone) ∧
    ofText (Text.toUtf8 mistypedText) = .error .invalidJson ∧ ofText (Text.toUtf8 zonelessText) = .error .noZones ∧
    ofText (Text.toUtf8 publicText) = .error (.publicApi "8.8.8.8") ∧
    ofText (Text.toUtf8 roomlessText) = .error .noCacheEntries ∧
    ofText (Text.toUtf8 fullText) = .ok loadedConfig ∧ loadedConfig.Usable ∧ loadedConfig.check = .ok loadedConfig := by
  have hfails : ∀ {text config error}, Denotes (Text.toUtf8 text) meaning config →
      config.complaints.head? = some error → ofText (Text.toUtf8 text) = .error error := fun hd hc =>
    ((ofText_usable_or_first_complaint _).2.1 _).mpr (.inr ⟨_, hd, hc⟩)
  have hmistyped : ofText (Text.toUtf8 mistypedText) = .error .invalidJson :=
    ((ofText_usable_or_first_complaint _).2.1 _).mpr (.inl ⟨not_denotes_mistypedText, rfl⟩)
  have hnormal : loadedConfig = fullConfig.normalized := by decide +kernel
  have hfull : ofText (Text.toUtf8 fullText) = .ok loadedConfig :=
    ((ofText_usable_or_first_complaint _).1 _).mpr ⟨fullConfig, denotes_fullText, usable_fullConfig, hnormal⟩
  obtain ⟨hcheck, husable, _⟩ := (ofText_usable_or_first_complaint _).2.2 _ hfull
  refine ⟨⟨denotes_faultyText, complaints_faultyConfig, hfails denotes_faultyText ?_⟩, hmistyped,
    hfails denotes_zonelessText rfl, hfails denotes_publicText ?_, hfails denotes_roomlessText ?_, hfull, husable, hcheck⟩
  · rw [complaints_faultyConfig]
    rfl
  · rw [complaints_publicConfig]
    rfl
  · rw [complaints_roomlessConfig]
    rfl

end Config

end NameServer
