import NameServer.Proofs.CacheEntries
import NameServer.Proofs.Hostnames
import NameServer.Server.Answer

/-!
# What a query asks for

Of all that a packet can be, only an address query for a tunnel hostname looks
into the cache and changes it. What it finds is the address in the cache, or
else the one that the store and the proxy entries give for its key.
-/

namespace NameServer

/-! ## Addresses as text -/

theorem Text.trim_eq_self {cs : List Char} (h : ∀ c ∈ cs, isBlank c = false) : trim cs = cs := by
  have hd : ∀ {cs : List Char}, (∀ c ∈ cs, isBlank c = false) → cs.dropWhile isBlank = cs := by
    intro cs h
    cases cs with
    | nil => rfl
    | cons c cs => rw [List.dropWhile_cons, h c (List.mem_cons_self ..)]; rfl
  rw [trim, trimEnd, hd h, hd fun c hc => h c (List.mem_reverse.mp hc), List.reverse_reverse]

theorem Text.not_isBlank_of_isDigit {c : Char} (h : c.isDigit = true) : isBlank c = false := by
  obtain ⟨hlo, hhi⟩ := Char.isDigit_iff_toNat.mp h
  simp only [Char.reduceToNat] at hlo hhi
  simp [isBlank]
  omega

theorem addressOf?_toString (ip : Ipv4) : addressOf? (toString ip) = some ip := by
  have hblank : ∀ c ∈ ip.toText, Text.isBlank c = false := by
    have hdot : Text.isBlank '.' = false := rfl
    have hn : ∀ {n : Nat} {c : Char}, c ∈ Text.decimal n → Text.isBlank c = false :=
      fun h => Text.not_isBlank_of_isDigit (Text.isDigit_of_mem_decimal h)
    intro c hc
    simp only [Ipv4.toText, List.mem_append, List.mem_cons] at hc
    rcases hc with h | rfl | h | rfl | h | rfl | h
    · exact hn h
    · exact hdot
    · exact hn h
    · exact hdot
    · exact hn h
    · exact hdot
    · exact hn h
  show Ipv4.ofText? (Text.trim (String.ofList ip.toText).toList) = some ip
  rw [String.toList_ofList, Text.trim_eq_self hblank, Ipv4.ofText?_toText]

/-! ## Keys -/

namespace TunnelHost

/-- The proxy entry that a key runs on. -/
def entryOf? (key : String) : Option String :=
  (splitLabel? key.toList).map fun (_, entryId) => String.ofList entryId

theorem entryOf?_key {hostname : String} {host : TunnelHost} (h : ofString? hostname = some host) :
    entryOf? host.key = some (Text.lowered host.entryId) := by
  rw [entryOf?, splitLabel?_key h]
  rfl

end TunnelHost

theorem Proxies.address?_lowered (proxies : Proxies) (entryId : String) :
    proxies.address? (Text.lowered entryId) = proxies.address? entryId := by
  rw [address?, address?, get?, get?, Text.lowered_lowered]

/-! ## Resolving -/

section
variable (cache : Cache) (store : Store) (proxies : Proxies) (now : Nat) (key entryId : String)

theorem resolve_cases :
    (∃ address ip, (cache.get now key).1 = some address ∧ addressOf? address = some ip ∧
      resolve cache store proxies now key entryId = ⟨some ip, (cache.get now key).2, false⟩) ∨
    (∃ ip, (store.address? key <|> proxies.address? entryId) = some ip ∧
      resolve cache store proxies now key entryId =
        ⟨some ip, (cache.get now key).2.insert now key (toString ip), true⟩) ∨
    (store.address? key <|> proxies.address? entryId) = none ∧
      resolve cache store proxies now key entryId = ⟨none, (cache.get now key).2, true⟩ := by
  unfold resolve
  cases hc : (cache.get now key).1.bind addressOf? with
  | some ip =>
    obtain ⟨address, ha, hip⟩ := Option.bind_eq_some_iff.mp hc
    exact .inl ⟨address, ip, ha, hip, by simp only [hc]⟩
  | none =>
    cases hl : (store.address? key <|> proxies.address? entryId) with
    | some ip => exact .inr (.inl ⟨ip, rfl, by simp only [hc]⟩)
    | none => exact .inr (.inr ⟨rfl, by simp only [hc]⟩)

theorem resolve_address :
    (resolve cache store proxies now key entryId).address =
      ((cache.get now key).1.bind addressOf? <|> (store.address? key <|> proxies.address? entryId)) := by
  unfold resolve
  cases hc : (cache.get now key).1.bind addressOf? with
  | some ip => simp [hc]
  | none => cases hl : (store.address? key <|> proxies.address? entryId) <;> simp [hc]

theorem resolve_emptied : (resolve cache store proxies now key entryId).cache.emptied = cache.emptied := by
  rcases resolve_cases cache store proxies now key entryId with ⟨_, _, _, _, e⟩ | ⟨_, _, e⟩ | ⟨_, e⟩ <;> rw [e] <;> simp

end

namespace Server

/-- What the store gives for a key or, if that is nothing, what the proxy entries give for the entry
that the key runs on. -/
def addressAt (s : Server) (key : String) : Option Ipv4 :=
  s.store.address? key <|> (TunnelHost.entryOf? key).bind s.proxies.address?

def resolved (s : Server) (host : TunnelHost) : Resolution :=
  resolve s.cache s.store s.proxies s.now host.key host.entryId

variable {s : Server} {host : TunnelHost} {hostname : String}

theorem addressAt_key (s : Server) (h : TunnelHost.ofString? hostname = some host) :
    s.addressAt host.key = (s.store.address? host.key <|> s.proxies.address? host.entryId) := by
  rw [addressAt, TunnelHost.entryOf?_key h, Option.bind_some, Proxies.address?_lowered]

theorem entry_of_hit {ip : Ipv4} (hip : (s.resolved host).address = some ip)
    (hhit : (s.resolved host).askedStore = false) :
    ∃ e, s.cache.entries.get? host.key = some e ∧ addressOf? e.address = some ip ∧
      s.cache.isExpired s.now e = false := by
  unfold resolved at hip hhit
  rcases resolve_cases s.cache s.store s.proxies s.now host.key host.entryId with
    ⟨address, ip', ha, hip', h⟩ | ⟨ip', _, h⟩ | ⟨_, h⟩
  · rw [h] at hip
    cases hip
    obtain ⟨e, he, rfl, hx⟩ := Cache.get_eq_some ha
    exact ⟨e, he, hip', hx⟩
  · rw [h] at hhit
    cases hhit
  · rw [h] at hip
    cases hip

theorem entry_of_resolved (h : TunnelHost.ofString? hostname = some host) {key : String} {e' : CacheEntry}
    (he : (s.resolved host).cache.entries.get? key = some e') :
    (∃ e, s.cache.entries.get? key = some e ∧ e.Keeps e') ∨
    (s.resolved host).askedStore = true ∧ key = host.key ∧
      ∃ ip, s.addressAt key = some ip ∧ e' = ⟨toString ip, s.now, s.now⟩ := by
  unfold resolved at he ⊢
  rcases resolve_cases s.cache s.store s.proxies s.now host.key host.entryId with
    ⟨_, _, _, _, hr⟩ | ⟨ip, hip, hr⟩ | ⟨_, hr⟩
  · rw [hr] at he
    exact .inl (Cache.entry_of_get he)
  · rw [hr] at he ⊢
    rcases Cache.entry_of_insert he with hold | ⟨rfl, hnew⟩
    · exact .inl (Cache.entry_of_get hold)
    · exact .inr ⟨rfl, rfl, ip, (addressAt_key s h).trans hip, hnew⟩
  · rw [hr] at he
    exact .inl (Cache.entry_of_get he)

/-! ## Answering -/

/-- The tunnel hostname that a question has looked up, whether it is found or not. -/
def tunnelHost? (s : Server) (q : Question) : Option TunnelHost :=
  if Zone.serves s.config.zones (hostnameOf q) = true ∧ q.qtype = typeA ∧
      (s.config.legacy.enabled && (LegacyHost.ofString? (hostnameOf q)).isSome) = false then
    TunnelHost.ofString? (hostnameOf q)
  else none

def asked? (s : Server) (packet : List UInt8) : Option TunnelHost :=
  match Message.decode packet with
  | .error _ => none
  | .ok request => request.questions.head?.bind s.tunnelHost?

def answersTo (s : Server) (packet : List UInt8) : List Record :=
  match Message.decode packet with
  | .error _ => []
  | .ok request => (s.respond request).reply.answers

theorem ofString?_of_tunnelHost? {q : Question} (h : s.tunnelHost? q = some host) :
    TunnelHost.ofString? (hostnameOf q) = some host := by
  unfold tunnelHost? at h
  split at h
  · exact h
  · cases h

theorem answer_of_tunnelHost? {q : Question} (h : s.tunnelHost? q = some host) :
    Zone.serves s.config.zones (hostnameOf q) = true ∧
    s.answer q = ⟨((s.resolved host).address.map (.address q.name s.config.ttls.tunnel)).toList,
      (s.resolved host).cache, (s.resolved host).askedStore⟩ := by
  have hhost := ofString?_of_tunnelHost? h
  unfold tunnelHost? at h
  split at h
  · next hq =>
    obtain ⟨hz, hA, hlegacy⟩ := hq
    refine ⟨hz, ?_⟩
    rw [answer, if_pos hA, answerAddress]
    simp only [hlegacy, hhost, Bool.false_eq_true, if_false]
    rfl
  · cases h

theorem answer_of_no_tunnelHost {q : Question} (hz : Zone.serves s.config.zones (hostnameOf q) = true)
    (h : s.tunnelHost? q = none) : (s.answer q).cache = s.cache ∧ (s.answer q).askedStore = false := by
  unfold answer
  split
  · next hA =>
    unfold answerAddress
    simp only
    split
    · exact ⟨rfl, rfl⟩
    · next hlegacy =>
      have hhost : TunnelHost.ofString? (hostnameOf q) = none := by
        rw [tunnelHost?, if_pos ⟨hz, hA, by simpa using hlegacy⟩] at h
        exact h
      rw [hhost]
      exact ⟨rfl, rfl⟩
  · split <;> exact ⟨rfl, rfl⟩

theorem respond_of_tunnelHost? {request : Message} (h : request.questions.head?.bind s.tunnelHost? = some host) :
    (s.respond request).cache = (s.resolved host).cache ∧
      (s.respond request).askedStore = (s.resolved host).askedStore ∧
      ∃ owner, (s.respond request).reply.answers =
        ((s.resolved host).address.map (.address owner s.config.ttls.tunnel)).toList := by
  unfold respond
  cases hq : request.questions with
  | nil => rw [hq] at h; cases h
  | cons q qs =>
    rw [hq] at h
    obtain ⟨hz, ha⟩ := answer_of_tunnelHost? (s := s) (q := q) h
    simp only [hz, ha]
    exact ⟨rfl, rfl, q.name, rfl⟩

theorem respond_of_no_tunnelHost {request : Message} (h : request.questions.head?.bind s.tunnelHost? = none) :
    (s.respond request).cache = s.cache ∧ (s.respond request).askedStore = false := by
  unfold respond
  cases hq : request.questions with
  | nil => exact ⟨rfl, rfl⟩
  | cons q qs =>
    rw [hq] at h
    simp only
    split
    · exact ⟨rfl, rfl⟩
    · next hz => exact answer_of_no_tunnelHost (by simpa using hz) h

variable {packet : List UInt8}

theorem ofString?_of_asked? (h : s.asked? packet = some host) : ∃ hostname, TunnelHost.ofString? hostname = some host := by
  unfold asked? at h
  split at h
  · cases h
  · obtain ⟨q, _, hq⟩ := Option.bind_eq_some_iff.mp h
    exact ⟨_, ofString?_of_tunnelHost? hq⟩

theorem handle_server (s : Server) (packet : List UInt8) :
    (s.handle packet).server = { s with cache := (s.handle packet).server.cache } := by
  unfold handle
  split <;> rfl

theorem handle_of_asked? (h : s.asked? packet = some host) :
    (s.handle packet).server = { s with cache := (s.resolved host).cache } ∧
      (s.handle packet).askedStore = (s.resolved host).askedStore := by
  unfold asked? at h
  unfold handle
  cases hd : Message.decode packet with
  | error _ => rw [hd] at h; cases h
  | ok request =>
    rw [hd] at h
    obtain ⟨hc, hs, _⟩ := respond_of_tunnelHost? h
    simp only [hc, hs]
    exact ⟨trivial, trivial⟩

theorem handle_of_not_asked (h : s.asked? packet = none) :
    (s.handle packet).server = s ∧ (s.handle packet).askedStore = false := by
  unfold asked? at h
  unfold handle
  cases hd : Message.decode packet with
  | error _ => exact ⟨rfl, rfl⟩
  | ok request =>
    rw [hd] at h
    obtain ⟨hc, hs⟩ := respond_of_no_tunnelHost h
    simp only [hc, hs]
    exact ⟨trivial, trivial⟩

theorem address_of_answersTo (h : s.asked? packet = some host) {record : Record} {ip : Ipv4}
    (hr : record ∈ s.answersTo packet) (hip : record.data = .address ip) : (s.resolved host).address = some ip := by
  unfold asked? at h
  unfold answersTo at hr
  cases hd : Message.decode packet with
  | error _ => rw [hd] at h; cases h
  | ok request =>
    rw [hd] at h hr
    obtain ⟨_, _, owner, ha⟩ := respond_of_tunnelHost? h
    simp only [ha, Option.mem_toList, Option.map_eq_some_iff] at hr
    obtain ⟨ip', hip', rfl⟩ := hr
    cases hip
    exact hip'

/-- An address query for `app-e1.tunnel4.com`. -/
def appQuery : List UInt8 :=
  [0, 7, 1, 0, 0, 1, 0, 0, 0, 0, 0, 0, 6, 97, 112, 112, 45, 101, 49, 7, 116, 117, 110, 110, 101, 108, 52, 3, 99,
    111, 109, 0, 0, 1, 0, 1]

end Server

end NameServer
