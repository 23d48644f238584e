import Mathlib.Data.List.DropRight
import NameServer.Proofs.Replies
import NameServer.Proofs.Resolution
import NameServer.Proofs.Zones

/-!
# Where an address comes from

The cache, the session store and the proxy entries are asked in this order, and
the first value that is an address is the answer. What a tier holds is said
here without the lookups that change the cache, and what a reply says from the
questions alone.
-/

namespace NameServer

/-! ## Tiers -/

/-- The address under a key that has not expired. A cache that is off has none. -/
def Cache.live? (c : Cache) (now : Nat) (key : String) : Option String :=
  if c.enabled then
    ((c.entries.get? key).filter fun e => now - e.usedAt < c.sliding && now - e.writtenAt < c.absolute).map
      CacheEntry.address
  else none

theorem Cache.get_eq_live? (c : Cache) (now : Nat) (key : String) : (c.get now key).1 = c.live? now key := by
  have hlive : ∀ e : CacheEntry,
      (decide (now - e.usedAt < c.sliding) && decide (now - e.writtenAt < c.absolute)) = !c.isExpired now e := by
    intro e
    simp only [isExpired, Bool.not_or, ← decide_not, Nat.not_le]
  unfold get live?
  simp only [hlive]
  cases c.enabled with
  | false => rfl
  | true =>
    cases c.entries.get? key with
    | none => rfl
    | some e => cases hx : c.isExpired now e <;> simp [hx]

/-- The address of the session under a hostname. A store that can't be reached has none. -/
def Store.held? (store : Store) (hostname : String) : Option String :=
  if store.reachable then (store.sessions.get? hostname).map Session.address else none

theorem Store.address?_eq (store : Store) {key : String} (hk : Text.lowered key = key) :
    store.address? key = (store.held? key).bind addressOf? := by
  unfold address? find held?
  rw [Sessions.find, hk]
  cases store.reachable with
  | false => rfl
  | true => cases store.sessions.get? key <;> rfl

/-- The value of the first entry whose id is the same but for letter case. -/
def Proxies.entry? (proxies : Proxies) (id : String) : Option String :=
  (proxies.addresses.entries.find? fun e => Text.lowered e.1 == Text.lowered id).map Prod.snd

theorem Proxies.lowered_of_ofTable {table : Table String} {e : String × String}
    (he : e ∈ (ofTable table).addresses.entries) : Text.lowered e.1 = e.1 := by
  obtain ⟨⟨id, address⟩, _, rfl⟩ := List.mem_map.mp (Table.mem_of_mem_ofList he)
  exact Text.lowered_lowered id

theorem Proxies.get?_eq_entry? {proxies : Proxies} (h : ∀ e ∈ proxies.addresses.entries, Text.lowered e.1 = e.1)
    (id : String) : proxies.get? id = proxies.entry? id := by
  -- the ids are in lower case already, so the first that is the same is the one that is looked up
  have hsame : ∀ l : List (String × String), (∀ e ∈ l, Text.lowered e.1 = e.1) →
      l.lookup (Text.lowered id) = (l.find? fun e => Text.lowered e.1 == Text.lowered id).map Prod.snd := by
    intro l hl
    induction l with
    | nil => rfl
    | cons e l ih =>
      have he := hl e (List.mem_cons_self ..)
      rw [List.lookup_cons, List.find?_cons, he, BEq.comm]
      by_cases hid : e.1 = Text.lowered id
      · simp [hid]
      · rw [beq_false_of_ne hid]
        exact ih fun e' he' => hl e' (List.mem_cons_of_mem _ he')
  exact hsame _ h

namespace Server

/-- What the tiers hold for a tunnel hostname, in the order in which they are asked. -/
def tiers (s : Server) (host : TunnelHost) : List (Option String) :=
  [s.cache.live? s.now host.key, s.store.held? host.key, s.proxies.entry? host.entryId]

def firstAddress (s : Server) (host : TunnelHost) : Option Ipv4 :=
  (s.tiers host).findSome? fun value => value.bind addressOf?

/-- The address in the cache that a query for a key is answered with. -/
def cached? (s : Server) (key : String) : Option Ipv4 := (s.cache.live? s.now key).bind addressOf?

theorem resolved_eq {hostname : String} {host : TunnelHost} (s : Server)
    (hhost : TunnelHost.ofString? hostname = some host) :
    (s.resolved host).address = (s.cached? host.key <|> s.addressAt host.key) := by
  rw [resolved, resolve_address, cached?, Cache.get_eq_live?, addressAt_key s hhost]

/-- **The first usable tier decides.** -/
theorem resolved_address {s : Server} {table : Table String} (hp : s.proxies = .ofTable table) (host : TunnelHost) :
    (s.resolved host).address = s.firstAddress host := by
  have hids : ∀ e ∈ s.proxies.addresses.entries, Text.lowered e.1 = e.1 := by
    rw [hp]
    exact fun e he => Proxies.lowered_of_ofTable he
  have hstore : s.store.address? host.key = (s.store.held? host.key).bind addressOf? :=
    s.store.address?_eq (Text.lowered_lowered _)
  have hproxy : s.proxies.address? host.entryId = (s.proxies.entry? host.entryId).bind addressOf? := by
    rw [Proxies.address?, Proxies.get?_eq_entry? hids]
  have hfirst : s.firstAddress host =
      ((s.cache.live? s.now host.key).bind addressOf? <|>
        (s.store.address? host.key <|> s.proxies.address? host.entryId)) := by
    rw [hstore, hproxy, firstAddress, tiers]
    simp only [List.findSome?_cons, List.findSome?_nil]
    cases (s.cache.live? s.now host.key).bind addressOf? with
    | some ip => rfl
    | none =>
      cases (s.store.held? host.key).bind addressOf? with
      | some ip => rfl
      | none => cases (s.proxies.entry? host.entryId).bind addressOf? <;> rfl
  rw [hfirst, ← Cache.get_eq_live?]
  exact resolve_address ..

end Server

/-! ## What the questions ask for -/

theorem hostnameOf_normalText (q : Question) : Zone.normalText (Server.hostnameOf q) = Zone.normalText q.name := by
  rw [Zone.normalText, Zone.normalText, Server.hostnameOf, String.toList_ofList, Text.trimEnd, Text.trimEnd,
    List.reverse_reverse, List.dropWhile_idempotent]

namespace Server

/-- Legacy hostnames are served, and the question is for one. -/
def IsLegacy (s : Server) (q : Question) : Prop :=
  s.config.legacy.enabled = true ∧ ∃ host, LegacyHost.ofString? (hostnameOf q) = some host

/-- What a question in a zone is answered with: a response code and records. -/
structure Answers (s : Server) (q : Question) (code : UInt16) (records : List Record) : Prop where
  legacy : q.qtype = typeA → s.IsLegacy q → code = 0 ∧
    records = [⟨Name.bare q.name, typeA, classIn, s.config.ttls.legacy, .address s.config.legacy.address⟩]
  tunnel : q.qtype = typeA → ¬ s.IsLegacy q → ∀ host ip, TunnelHost.ofString? (hostnameOf q) = some host →
    s.firstAddress host = some ip → code = 0 ∧
      records = [⟨Name.bare q.name, typeA, classIn, s.config.ttls.tunnel, .address ip⟩]
  noAddress : q.qtype = typeA → ¬ s.IsLegacy q →
    (∀ host, TunnelHost.ofString? (hostnameOf q) = some host → s.firstAddress host = none) → code = 3 ∧ records = []
  otherType : q.qtype ≠ typeA → q.qtype ≠ typeTxt → code = 3 ∧ records = []

structure Resolves (s : Server) (questions : List Question) (code : UInt16) (records : List Record) : Prop where
  refused : (∀ q, questions.head? = some q → ¬ Zone.Within s.config.zones q.name) → code = 5 ∧ records = []
  answered : ∀ q, questions.head? = some q → Zone.Within s.config.zones q.name → s.Answers q code records

variable {s : Server} {q : Question} {table : Table String}

theorem serves_hostnameOf (zones : List String) (q : Question) :
    Zone.serves zones (hostnameOf q) = true ↔ Zone.Within zones q.name := by
  rw [Zone.serves_iff, Zone.Within, Zone.Within, hostnameOf_normalText]

theorem not_isLegacy_iff : ¬ s.IsLegacy q ↔
    (s.config.legacy.enabled && (LegacyHost.ofString? (hostnameOf q)).isSome) = false := by
  rw [IsLegacy, ← Option.isSome_iff_exists, ← Bool.and_eq_true, Bool.not_eq_true]

/-! ## Records -/

theorem records_of_isLegacy (hA : q.qtype = typeA) (h : s.IsLegacy q) :
    (s.answer q).records = [.address q.name s.config.ttls.legacy s.config.legacy.address] := by
  obtain ⟨hon, host, hhost⟩ := h
  rw [answer, if_pos hA, answerAddress]
  simp [hon, hhost]

theorem records_of_tunnelHost (hp : s.proxies = .ofTable table) (hA : q.qtype = typeA) (h : ¬ s.IsLegacy q)
    {host : TunnelHost} (hhost : TunnelHost.ofString? (hostnameOf q) = some host) :
    (s.answer q).records = ((s.firstAddress host).map (.address q.name s.config.ttls.tunnel)).toList := by
  rw [answer, if_pos hA, answerAddress]
  simp only [not_isLegacy_iff.mp h, Bool.false_eq_true, if_false, hhost]
  rw [← resolved_address hp]
  rfl

theorem records_of_no_host (hA : q.qtype = typeA) (h : ¬ s.IsLegacy q)
    (hhost : TunnelHost.ofString? (hostnameOf q) = none) : (s.answer q).records = [] := by
  rw [answer, if_pos hA, answerAddress]
  simp only [not_isLegacy_iff.mp h, Bool.false_eq_true, if_false, hhost]

theorem records_of_otherType (hA : q.qtype ≠ typeA) (hT : q.qtype ≠ typeTxt) : (s.answer q).records = [] := by
  rw [answer, if_neg hA, if_neg hT]

theorem answers_answer (hp : s.proxies = .ofTable table) (q : Question) :
    s.Answers q (if (s.answer q).records.isEmpty then .nameError else .noError : ResponseCode).toWord
      ((s.answer q).records.map Record.bare) where
  legacy hA hl := by
    rw [records_of_isLegacy hA hl]
    exact ⟨rfl, rfl⟩
  tunnel hA hl host ip hhost hip := by
    rw [records_of_tunnelHost hp hA hl hhost, hip]
    exact ⟨rfl, rfl⟩
  noAddress hA hl hnone := by
    cases hhost : TunnelHost.ofString? (hostnameOf q) with
    | none =>
      rw [records_of_no_host hA hl hhost]
      exact ⟨rfl, rfl⟩
    | some host =>
      rw [records_of_tunnelHost hp hA hl hhost, hnone host hhost]
      exact ⟨rfl, rfl⟩
  otherType hA hT := by
    rw [records_of_otherType hA hT]
    exact ⟨rfl, rfl⟩

/-! ## Replies -/

theorem respond_of_served {request : Message} (hq : request.questions.head? = some q)
    (hz : Zone.Within s.config.zones q.name) :
    (s.respond request).reply = request.reply (if (s.answer q).records.isEmpty then .nameError else .noError) true
      (s.answer q).records := by
  unfold respond
  cases hqs : request.questions with
  | nil => simp [hqs] at hq
  | cons q' qs =>
    rw [hqs] at hq
    cases hq
    simp [(serves_hostnameOf s.config.zones q).mpr hz]

theorem respond_of_refused {request : Message}
    (h : ∀ q, request.questions.head? = some q → ¬ Zone.Within s.config.zones q.name) :
    (s.respond request).reply = request.reply .refused false [] := by
  unfold respond
  cases hqs : request.questions with
  | nil => rfl
  | cons q qs =>
    have hz : Zone.serves s.config.zones (hostnameOf q) = false := by
      rw [← Bool.not_eq_true, serves_hostnameOf]
      exact h q (by rw [hqs]; rfl)
    simp [hz]

/-- **A reply is what the tiers say.** A packet that can be read, and whose reply can be written, is replied to
by the zones, the hostname schemes and the first usable tier alone. -/
theorem reply_resolves (hp : s.proxies = .ofTable table) {packet bytes : List UInt8} {request : Message}
    (hd : Message.decode packet = .ok request) (he : (s.respond request).reply.encode = .ok bytes) :
    (s.handle packet).reply = bytes ∧ ∃ r, Message.decode bytes = .ok r ∧
      s.Resolves request.questions r.flags.responseCode r.answers := by
  refine ⟨?_, (s.respond request).reply.bare, ?_, ?_, ?_⟩
  · simp [handle, hd, Message.writeReply, he]
  · obtain ⟨code, answers, hr, _, _, ha⟩ := s.respond_cases request
    apply Message.decode_of_encode he
    rw [hr]
    exact fun r hr => (ha r hr).1
  · intro h
    rw [respond_of_refused h]
    exact ⟨responseCode_reply request .refused false [], rfl⟩
  · intro q hq hz
    rw [respond_of_served hq hz]
    have hcode := responseCode_reply request (if (s.answer q).records.isEmpty then .nameError else .noError) true
      (s.answer q).records
    show s.Answers q (request.reply _ true (s.answer q).records).flags.responseCode _
    rw [hcode]
    exact answers_answer hp q

/-! A server whose cache holds no address for a key and whose store can't be reached, asked in mixed case. -/

def troubledServer : Server where
  config := {}
  cache := { Cache.ofSettings {} with entries := Table.empty.insert "app-e1" ⟨"unknown", 0, 0⟩ }
  store := { reachable := false }
  proxies := .ofTable (Table.empty.insert "e1" " 203.0.113.10")
  tokens := []

def mixedCaseQuestion : Question := ⟨"App-E1.Tunnel4.com", typeA, classIn⟩

def mixedCaseRequest : Message := ⟨7, ⟨0x0100⟩, [mixedCaseQuestion], []⟩

theorem reply_resolves_troubled : ∃ packet bytes r, Message.decode packet = .ok mixedCaseRequest ∧
    (troubledServer.respond mixedCaseRequest).reply.encode = .ok bytes ∧
    (troubledServer.handle packet).reply = bytes ∧ Message.decode bytes = .ok r ∧
    r.answers = [⟨"App-E1.Tunnel4.com", typeA, classIn, 30, .address ⟨203, 0, 113, 10⟩⟩] := by
  have hquery : ∃ packet, mixedCaseRequest.encode = .ok packet := ⟨_, rfl⟩
  obtain ⟨packet, hpacket⟩ := hquery
  have hd := Message.decode_of_encode hpacket fun r hr => nomatch hr
  have hreply : (troubledServer.respond mixedCaseRequest).reply = ⟨7, ⟨0x8500⟩, mixedCaseRequest.questions,
      [.address "App-E1.Tunnel4.com" 30 ⟨203, 0, 113, 10⟩]⟩ := by decide +kernel
  have hencoded : ∃ bytes, (troubledServer.respond mixedCaseRequest).reply.encode = .ok bytes := by
    rw [hreply]
    exact ⟨_, rfl⟩
  obtain ⟨bytes, hbytes⟩ := hencoded
  obtain ⟨hh, r, hr, hresolves⟩ := reply_resolves rfl hd hbytes
  have hz : Zone.Within troubledServer.config.zones mixedCaseQuestion.name :=
    ⟨"tunnel4.com", by decide, ["app-e1".toList], by decide +kernel⟩
  have hscheme : ¬ troubledServer.IsLegacy mixedCaseQuestion := by
    rw [not_isLegacy_iff]
    decide +kernel
  have hhost : TunnelHost.ofString? (hostnameOf mixedCaseQuestion) = some ⟨"App", "E1", "Tunnel4.com"⟩ := by
    decide +kernel
  have hfirst : troubledServer.firstAddress ⟨"App", "E1", "Tunnel4.com"⟩ = some ⟨203, 0, 113, 10⟩ := by
    decide +kernel
  have hanswer := (hresolves.answered mixedCaseQuestion rfl hz).tunnel rfl hscheme _ _ hhost hfirst
  exact ⟨packet, bytes, r, hd, hbytes, hh, hr, hanswer.2⟩

end Server

end NameServer
