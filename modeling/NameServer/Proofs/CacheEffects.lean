import NameServer.Proofs.Staleness
import NameServer.Proofs.Tiers

/-!
# What a packet changes

A packet that asks for the address of a tunnel hostname changes the cache at
the key of that hostname, and any other packet changes nothing. So all keys in
the cache are keys of tunnel hostnames, and all values addresses.
-/

namespace NameServer

/-! ## Keys -/

namespace TunnelHost

/-- An address and the id of a proxy entry with a hyphen between them, in lower case and without dots. -/
structure IsKey (key : String) : Prop where
  lower : Text.lowered key = key
  dotless : '.' ∉ key.toList
  parts : ∃ address entryId, isAddress address = true ∧ isEntryId entryId = true ∧
    key.toList = address ++ '-' :: entryId

theorem parts_of_splitLabel? {label address entryId : List Char} (h : splitLabel? label = some (address, entryId)) :
    isAddress address = true ∧ isEntryId entryId = true := by
  obtain ⟨n, _, hn⟩ := List.exists_of_findSome?_eq_some h
  unfold splitAt? at hn
  split at hn
  · split at hn
    · next hparts =>
      cases hn
      exact Bool.and_eq_true_iff.mp hparts
    · cases hn
  · cases hn

theorem dot_notMem_of_isHostChar {cs : List Char} (h : cs.all Hostname.isHostChar = true) : '.' ∉ cs := by
  intro hdot
  exact absurd (List.all_eq_true.mp h '.' hdot) (by decide)

theorem isKey_key {hostname : String} {host : TunnelHost} (h : ofString? hostname = some host) : IsKey host.key := by
  have hsplit := splitLabel?_key h
  obtain ⟨haddress, hentry⟩ := parts_of_splitLabel? hsplit
  have hkey := eq_of_splitLabel? hsplit
  refine ⟨Text.lowered_lowered _, ?_, _, _, haddress, hentry, hkey⟩
  simp only [isAddress, isEntryId, Bool.and_eq_true] at haddress hentry
  rw [hkey, List.mem_append, List.mem_cons]
  rintro (hdot | hdot | hdot)
  · exact dot_notMem_of_isHostChar haddress.2 hdot
  · exact absurd hdot (by decide)
  · exact dot_notMem_of_isHostChar hentry.1.2 hdot

end TunnelHost

/-! ## Lookups -/

namespace Cache

variable {c : Cache} {now : Nat} {key address : String}

theorem get_of_live (h : c.live? now key = some address) : ∃ e, c.entries.get? key = some e ∧ e.address = address ∧
    (c.get now key).2 = { c with entries := c.entries.insert key { e with usedAt := now } } := by
  have hget := (c.get_eq_live? now key).trans h
  obtain ⟨e, he, ha, hx⟩ := get_eq_some hget
  have hon : c.enabled = true := by
    cases hon : c.enabled with
    | true => rfl
    | false =>
      rw [get_disabled hon] at hget
      cases hget
  rcases get_cases hon now key with ⟨e', he', _, heq⟩ | ⟨hexpired, _⟩
  · cases he.symm.trans he'
    exact ⟨e, he, ha, by rw [heq]⟩
  · rw [hexpired e he] at hx
    cases hx

/-- A lookup leaves the other entries as they are, in their order. -/
theorem erase_get (c : Cache) (now : Nat) (key : String) :
    (c.get now key).2.entries.erase key = c.entries.erase key := by
  cases hon : c.enabled with
  | false => rw [get_disabled hon]
  | true =>
    rcases get_cases hon now key with ⟨e, _, _, h⟩ | ⟨_, h⟩
    · rw [h]
      exact Table.erase_insert_self ..
    · rw [h]
      exact Table.erase_erase_self ..

theorem contains_of_get (h : (c.get now key).2.entries.contains key = true) : c.entries.contains key = true := by
  obtain ⟨e', he'⟩ := Option.isSome_iff_exists.mp h
  obtain ⟨e, he, _⟩ := entry_of_get he'
  exact Option.isSome_iff_exists.mpr ⟨e, he⟩

end Cache

/-! ## Effects -/

namespace Server

/-- The first question of a packet is for the address of a tunnel hostname in a zone of the server, and not for
one that is served as a legacy hostname. -/
def Asks (s : Server) (packet : List UInt8) (host : TunnelHost) : Prop :=
  ∃ request q, Message.decode packet = .ok request ∧ request.questions.head? = some q ∧ q.qtype = typeA ∧
    Zone.Within s.config.zones q.name ∧ ¬ s.IsLegacy q ∧ TunnelHost.ofString? (hostnameOf q) = some host

/-- What the store has for a tunnel hostname or, if that is nothing, what the proxy entries have. -/
def behind (s : Server) (host : TunnelHost) : Option Ipv4 :=
  s.store.address? host.key <|> s.proxies.address? host.entryId

/-- What a packet may change, by what is asked for and which tier has it. -/
structure Touches (s : Server) (packet : List UInt8) (s' : Server) : Prop where
  frame : s' = { s with cache := s'.cache }
  unasked : (∀ host, ¬ s.Asks packet host) → s'.cache = s.cache
  cached : ∀ host ip, s.Asks packet host → (s.cache.live? s.now host.key).bind addressOf? = some ip →
    ∃ e, s.cache.entries.get? host.key = some e ∧ addressOf? e.address = some ip ∧
      s'.cache = { s.cache with entries := s.cache.entries.insert host.key { e with usedAt := s.now } }
  found : ∀ host ip, s.Asks packet host → (s.cache.live? s.now host.key).bind addressOf? = none →
    s.behind host = some ip → s'.cache = (s.cache.get s.now host.key).2.insert s.now host.key (toString ip)
  missing : ∀ host, s.Asks packet host → (s.cache.live? s.now host.key).bind addressOf? = none →
    s.behind host = none → s'.cache.emptied = s.cache.emptied ∧
      s'.cache.entries.erase host.key = s.cache.entries.erase host.key ∧
      (s'.cache.entries.contains host.key = true → s.cache.entries.contains host.key = true)

variable {s : Server} {packet : List UInt8} {host : TunnelHost} {ip : Ipv4}

theorem tunnelHost?_eq_some_iff {q : Question} : s.tunnelHost? q = some host ↔ q.qtype = typeA ∧
    Zone.Within s.config.zones q.name ∧ ¬ s.IsLegacy q ∧ TunnelHost.ofString? (hostnameOf q) = some host := by
  rw [tunnelHost?, ← serves_hostnameOf, not_isLegacy_iff]
  split
  · next h => simp [h]
  · next h =>
    refine iff_of_false (Option.some_ne_none host ·.symm) ?_
    rintro ⟨hA, hz, hl, _⟩
    exact h ⟨hz, hA, hl⟩

theorem asked?_eq_some_iff : s.asked? packet = some host ↔ s.Asks packet host := by
  unfold asked? Asks
  cases Message.decode packet with
  | error _ => simp
  | ok request => simp [Option.bind_eq_some_iff, tunnelHost?_eq_some_iff]

theorem answersTo_of_asked? (h : s.asked? packet = some host) :
    ∃ owner, ∀ s' : Server, s'.config = s.config → s'.answersTo packet =
      ((s'.resolved host).address.map (.address owner s'.config.ttls.tunnel)).toList := by
  obtain ⟨request, q, hd, hq, hrest⟩ := asked?_eq_some_iff.mp h
  refine ⟨q.name, fun s' hconfig => ?_⟩
  rw [IsLegacy, ← hconfig] at hrest
  rw [answersTo, hd]
  show (s'.respond request).reply.answers = _
  rw [respond_of_served hq hrest.2.1]
  show (s'.answer q).records = _
  rw [(answer_of_tunnelHost? (tunnelHost?_eq_some_iff.mpr hrest)).2]

theorem resolved_of_cached (h : (s.cache.live? s.now host.key).bind addressOf? = some ip) :
    (s.resolved host).cache = (s.cache.get s.now host.key).2 := by
  rw [← Cache.get_eq_live?] at h
  simp only [resolved, resolve, h]

theorem resolved_of_uncached (h : (s.cache.live? s.now host.key).bind addressOf? = none) :
    (s.resolved host).cache = match s.behind host with
      | some ip => (s.cache.get s.now host.key).2.insert s.now host.key (toString ip)
      | none => (s.cache.get s.now host.key).2 := by
  rw [← Cache.get_eq_live?] at h
  simp only [resolved, resolve, h, behind]
  cases (s.store.address? host.key <|> s.proxies.address? host.entryId) <;> rfl

theorem touches_handle (s : Server) (packet : List UInt8) : s.Touches packet (s.handle packet).server where
  frame := s.handle_server packet
  unasked hnot := by
    have hasked : s.asked? packet = none :=
      Option.eq_none_iff_forall_ne_some.mpr fun host h => hnot host (asked?_eq_some_iff.mp h)
    rw [(handle_of_not_asked hasked).1]
  cached host ip ha hip := by
    obtain ⟨address, hlive, haddress⟩ := Option.bind_eq_some_iff.mp hip
    obtain ⟨e, he, hea, hget⟩ := Cache.get_of_live hlive
    rw [(handle_of_asked? (asked?_eq_some_iff.mpr ha)).1]
    exact ⟨e, he, hea ▸ haddress, (resolved_of_cached hip).trans hget⟩
  found host ip ha hnone hip := by
    rw [(handle_of_asked? (asked?_eq_some_iff.mpr ha)).1]
    show (s.resolved host).cache = _
    rw [resolved_of_uncached hnone, hip]
  missing host ha hnone hbehind := by
    rw [(handle_of_asked? (asked?_eq_some_iff.mpr ha)).1]
    show (s.resolved host).cache.emptied = _ ∧ (s.resolved host).cache.entries.erase host.key = _ ∧
      ((s.resolved host).cache.entries.contains host.key = true → _)
    rw [resolved_of_uncached hnone, hbehind]
    exact ⟨Cache.emptied_get .., Cache.erase_get .., Cache.contains_of_get⟩

/-- **A packet changes its own key and nothing else.** So in a run from an empty cache each key is one of a tunnel
hostname, and each value reads as the address that a query found and wrote there. -/
theorem touches_own_key (s : Server) :
    (∀ packet, s.Touches packet (s.handle packet).server) ∧
    (s.cache.entries = .empty → ∀ ops key e, (s.after ops).cache.entries.get? key = some e →
      TunnelHost.IsKey key ∧ ∃ before packet between ip, ops = before ++ .query packet :: between ∧
        (s.after before).Finds packet key ip ∧ e.address = toString ip ∧ addressOf? e.address = some ip) := by
  refine ⟨s.touches_handle, fun hempty ops key e he => ?_⟩
  rcases entry_of_after he with ⟨e₀, h₀, _⟩ | ⟨before, packet, between, ip, hops, hf, hea, _, _⟩
  · rw [hempty] at h₀
    cases h₀
  · obtain ⟨host, hasked, rfl⟩ := hf.asked
    obtain ⟨hostname, hhost⟩ := ofString?_of_asked? hasked
    exact ⟨TunnelHost.isKey_key hhost, before, packet, between, ip, hops, hf, hea, hea ▸ addressOf?_toString ip⟩

/-! The cache after a query for an address, which the time and the entry's end leave as it is. -/

theorem touches_own_key_entryRun : entryServer.cache.entries = .empty ∧ ∃ e,
    (entryServer.after entryRun).cache.entries.get? "app-e1" = some e ∧ TunnelHost.IsKey "app-e1" ∧
    addressOf? e.address = some ⟨203, 0, 113, 10⟩ := by
  have hentry : (entryServer.after entryRun).cache.entries.get? "app-e1" = some ⟨"203.0.113.10", 0, 0⟩ := by
    rw [after_entryRun]
    decide +kernel
  obtain ⟨hkey, _, _, _, ip, _, _, haddress, hread⟩ := (touches_own_key entryServer).2 rfl entryRun "app-e1" _ hentry
  have hip : addressOf? "203.0.113.10" = some ⟨203, 0, 113, 10⟩ := addressOf?_toString ⟨203, 0, 113, 10⟩
  exact ⟨rfl, _, hentry, hkey, hip⟩

end Server

end NameServer
