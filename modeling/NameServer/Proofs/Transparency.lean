import NameServer.Proofs.Run
import NameServer.Proofs.StateFile

/-!
# What the cache doesn't change

As long as sessions don't expire and proxy entries stay, each entry in the
cache is the address that the store and the proxy entries give for its key
now. So a server answers and keeps its sessions as it would without a cache.
-/

namespace NameServer

/-- Expired sessions stay in the store, and the proxy entries stay as they are. -/
def Operation.isQuiet : Operation → Bool
  | .sweep _ | .proxies _ => false
  | _ => true

namespace Server

/-- Each entry in the cache is what the store and the proxy entries give now, and the store can be written. -/
structure Coherent (s : Server) : Prop where
  filed : s.store.sessions.Filed
  writable : s.store.Writable
  entries : ∀ key e, s.cache.entries.get? key = some e →
    Text.lowered key = key ∧ ∃ ip, e.address = toString ip ∧ s.addressAt key = some ip

variable {s : Server} {op : Operation} {key : String}

/-! ## Steps of the store -/

theorem store_of_step (hw : s.store.Writable) (hq : op.isQuiet = true) :
    (s.step op).2.proxies = s.proxies ∧ (s.step op).2.store.Writable ∧
    ((s.step op).2.store.sessions = s.store.sessions ∨
    (∃ event session, op = .opened event ∧ (s.opened event).1 = .ok session ∧
      Text.lowered session.hostname = session.hostname ∧
      (s.step op).2.store.sessions = (s.store.sessions.put session).2) ∨
    ∃ event, op = .closed event ∧
      (∀ session, (s.store.sessions.remove event.id).1 = some session → (s.closed event).1 = .ok session) ∧
      (s.step op).2.store.sessions = (s.store.sessions.remove event.id).2) := by
  cases op with
  | query packet =>
    simp only [step]
    rw [handle_server]
    exact ⟨rfl, hw, .inl rfl⟩
  | opened event =>
    rcases SessionState.opened_cases ⟨s.store, s.cache⟩ s.config.zones s.proxies event with
      h | ⟨address, _, ⟨error, herr, _⟩ | h⟩
    · simp only [step]
      rw [opened, h]
      exact ⟨rfl, hw, .inl rfl⟩
    -- a store that can be written doesn't fail
    · cases (Store.put_writable hw _).1.symm.trans herr
    · let session := event.session s.config.zones address
      obtain ⟨_, hs, hw'⟩ := Store.put_writable hw session
      have hok : (s.opened event).1 = .ok session := by rw [opened, h]
      have hstore : (s.step (.opened event)).2.store = (s.store.put session).2 := by rw [step, opened, h]; rfl
      have hl : Text.lowered session.hostname = session.hostname := Zone.lowered_sessionName ..
      rw [hstore]
      exact ⟨rfl, hw', .inr (.inl ⟨event, session, rfl, hok, hl, hs⟩)⟩
  | closed event =>
    obtain ⟨hret, hs, hw'⟩ := Store.remove_writable hw event.id
    have hstore : (s.step (.closed event)).2.store = (s.store.remove event.id).2 ∧
        ∀ session, (s.store.sessions.remove event.id).1 = some session → (s.closed event).1 = .ok session := by
      rcases SessionState.closed_cases ⟨s.store, s.cache⟩ event with
        ⟨error, herr, _⟩ | ⟨hnone, h⟩ | ⟨session, hsome, h⟩
      · cases hret.symm.trans herr
      · rw [step, closed, h]
        refine ⟨rfl, fun session hsession => ?_⟩
        cases hnone.symm.trans hsession
      · rw [step, closed, h]
        exact ⟨rfl, fun session' hsession => congrArg Except.ok (Option.some.inj (hsome.symm.trans hsession))⟩
    rw [hstore.1]
    exact ⟨rfl, hw', .inr (.inr ⟨event, rfl, hstore.2, hs⟩)⟩
  | evict segment =>
    simp only [step]
    rw [evict_server]
    exact ⟨rfl, hw, .inl rfl⟩
  | sweep _ | proxies _ => cases hq
  | clear | tokens _ | tokenFile _ | advance _ => exact ⟨rfl, hw, .inl rfl⟩

theorem filed_step (hf : s.store.sessions.Filed) (hw : s.store.Writable) (hq : op.isQuiet = true) :
    (s.step op).2.store.sessions.Filed := by
  obtain ⟨_, _, h | ⟨_, session, _, _, _, h⟩ | ⟨event, _, _, h⟩⟩ := store_of_step hw hq
  · rw [h]; exact hf
  · rw [h]; exact hf.put session
  · rw [h]; exact hf.remove event.id

theorem sessions_of_undisturbed (hf : s.store.sessions.Filed) (hw : s.store.Writable) (hq : op.isQuiet = true)
    (hd : ¬ s.Disturbs key op) : (s.step op).2.store.sessions.get? key = s.store.sessions.get? key := by
  obtain ⟨_, _, h | ⟨event, session, rfl, hok, hl, h⟩ | ⟨event, rfl, hok, h⟩⟩ := store_of_step hw hq
  · rw [h]
  · rw [h]
    refine Sessions.get?_put hf (fun hk => hd ⟨session, hok, .inl ?_⟩) fun replaced hr hk =>
      hd ⟨session, hok, .inr ⟨replaced, hr, hk⟩⟩
    rw [hk, hl]
  · rw [h]
    exact Sessions.get?_remove hf fun session hs hk => hd ⟨session, hok session hs, hk⟩

theorem addressAt_of_undisturbed (hf : s.store.sessions.Filed) (hw : s.store.Writable) (hq : op.isQuiet = true)
    (hk : Text.lowered key = key) (hd : ¬ s.Disturbs key op) : (s.step op).2.addressAt key = s.addressAt key := by
  obtain ⟨hp, hw', _⟩ := store_of_step hw hq
  have hfind : (s.step op).2.store.find key = s.store.find key := by
    rw [Store.find, Store.find, hw.1, hw'.1, Sessions.find, Sessions.find, hk, sessions_of_undisturbed hf hw hq hd]
  rw [addressAt, addressAt, Store.address?, Store.address?, hfind, hp]

/-! ## Coherence -/

theorem lowered_of_finds {packet : List UInt8} {ip : Ipv4} (h : s.Finds packet key ip) : Text.lowered key = key := by
  obtain ⟨⟨host, _, rfl⟩, _, _⟩ := h
  exact Text.lowered_lowered _

/-- Where the address of an entry comes from: from before an operation that doesn't disturb the key, or from what is
current. -/
theorem entry_of_quiet (hf : s.store.sessions.Filed) (hw : s.store.Writable) (hq : op.isQuiet = true) {e : CacheEntry}
    (he : (s.step op).2.cache.entries.get? key = some e) :
    (∃ e₀, s.cache.entries.get? key = some e₀ ∧ e.address = e₀.address ∧ ¬ s.Disturbs key op ∧
      (Text.lowered key = key → (s.step op).2.addressAt key = s.addressAt key)) ∨
    ∃ ip, Text.lowered key = key ∧ e.address = toString ip ∧ (s.step op).2.addressAt key = some ip := by
  rcases entry_of_step he with ⟨e₀, h₀, hkeep, hd⟩ | ⟨packet, ip, rfl, hfound, rfl⟩
  · exact .inl ⟨e₀, h₀, hkeep.1, hd, fun hk => addressAt_of_undisturbed hf hw hq hk hd⟩
  · have hk := lowered_of_finds hfound
    exact .inr ⟨ip, hk, rfl, (addressAt_of_undisturbed hf hw hq hk not_false).trans hfound.found⟩

/-- **One operation.** Coherence is kept by every operation that leaves expired sessions and proxy entries. -/
theorem Coherent.step (h : s.Coherent) (hq : op.isQuiet = true) : (s.step op).2.Coherent where
  filed := filed_step h.filed h.writable hq
  writable := (store_of_step h.writable hq).2.1
  entries := by
    intro key e he
    rcases entry_of_quiet h.filed h.writable hq he with ⟨e₀, h₀, ha, _, hsame⟩ | ⟨ip, hk, ha, hip⟩
    · obtain ⟨hk, ip, ha₀, hip⟩ := h.entries key e₀ h₀
      exact ⟨hk, ip, ha.trans ha₀, (hsame hk).trans hip⟩
    · exact ⟨hk, ip, ha, hip⟩

theorem Coherent.address_resolved (h : s.Coherent) {hostname : String} {host : TunnelHost}
    (hhost : TunnelHost.ofString? hostname = some host) : (s.resolved host).address = s.addressAt host.key := by
  rcases resolve_cases s.cache s.store s.proxies s.now host.key host.entryId with
    ⟨address, ip, ha, hip, hr⟩ | ⟨ip, hip, hr⟩ | ⟨hnone, hr⟩
  -- a hit: the entry is what would be found without it
  · obtain ⟨e, he, rfl, _⟩ := Cache.get_eq_some ha
    obtain ⟨_, ip', hea, hip'⟩ := h.entries host.key e he
    rw [hea, addressOf?_toString] at hip
    rw [resolved, hr, hip', hip]
  · rw [resolved, hr, addressAt_key s hhost, hip]
  · rw [resolved, hr, addressAt_key s hhost, hnone]

/-! ## Without a cache -/

def uncached (s : Server) : Server :=
  { s with
    config := { s.config with cache := { s.config.cache with enabled := false } }
    cache := { s.cache.emptied with enabled := false } }

@[simp] theorem uncached_zones (s : Server) : s.uncached.config.zones = s.config.zones := rfl

@[simp] theorem uncached_legacy (s : Server) : s.uncached.config.legacy = s.config.legacy := rfl

theorem coherent_of_empty (hempty : s.cache.entries = .empty) (hf : s.store.sessions.Filed) (hw : s.store.Writable) :
    s.Coherent where
  filed := hf
  writable := hw
  entries := by
    intro key e he
    rw [hempty] at he
    cases he

theorem Coherent.uncached (h : s.Coherent) : s.uncached.Coherent := coherent_of_empty rfl h.filed h.writable

theorem uncached_of_cache {c : Cache} (h : c.emptied = s.cache.emptied) :
    ({ s with cache := c } : Server).uncached = s.uncached := by
  rw [Server.uncached, Server.uncached, h]

theorem resolved_uncached (s : Server) (host : TunnelHost) : (s.uncached.resolved host).cache = s.uncached.cache := by
  have hoff : s.uncached.cache.enabled = false := rfl
  rcases resolve_cases s.uncached.cache s.uncached.store s.uncached.proxies s.uncached.now host.key host.entryId with
    ⟨_, _, _, _, hr⟩ | ⟨_, _, hr⟩ | ⟨_, hr⟩
  · rw [resolved, hr, Cache.get_disabled hoff]
  · rw [resolved, hr, Cache.get_disabled hoff, Cache.insert_disabled hoff]
  · rw [resolved, hr, Cache.get_disabled hoff]

theorem handle_uncached_server (s : Server) (packet : List UInt8) : (s.uncached.handle packet).server = s.uncached := by
  cases ha : s.uncached.asked? packet with
  | none => exact (handle_of_not_asked ha).1
  | some host => rw [(handle_of_asked? ha).1, resolved_uncached]

/-! ## Replies -/

theorem Coherent.answerAddress_uncached (h : s.Coherent) (owner name : String) :
    (s.uncached.answerAddress owner name).records = (s.answerAddress owner name).records := by
  unfold answerAddress
  by_cases hl : (s.config.legacy.enabled && (LegacyHost.ofString? name).isSome) = true
  · rw [if_pos hl, uncached_legacy, if_pos hl]
    rfl
  · rw [if_neg hl, uncached_legacy, if_neg hl]
    cases hhost : TunnelHost.ofString? name with
    | none => rfl
    | some host =>
      show ((s.uncached.resolved host).address.map _).toList = ((s.resolved host).address.map _).toList
      rw [h.address_resolved hhost, h.uncached.address_resolved hhost]
      rfl

theorem Coherent.answer_uncached (h : s.Coherent) (q : Question) :
    (s.uncached.answer q).records = (s.answer q).records := by
  unfold answer
  split
  · exact h.answerAddress_uncached q.name (hostnameOf q)
  · split <;> rfl

theorem Coherent.respond_uncached (h : s.Coherent) (request : Message) :
    (s.uncached.respond request).reply = (s.respond request).reply := by
  unfold respond
  cases request.questions with
  | nil => rfl
  | cons q _ =>
    simp only [uncached_zones, h.answer_uncached q]
    split <;> rfl

theorem Coherent.handle_uncached (h : s.Coherent) (packet : List UInt8) :
    (s.uncached.handle packet).reply = (s.handle packet).reply := by
  unfold handle
  split
  · rfl
  · next request _ => simp only [h.respond_uncached request]

/-! ## Runs without a cache -/

theorem withSessions_uncached {state : SessionState} (h : state.cache.emptied = s.cache.emptied) :
    s.uncached.withSessions ⟨state.store, s.uncached.cache⟩ = (s.withSessions state).uncached := by
  simp only [withSessions, uncached, h]

theorem opened_uncached (s : Server) (event : SessionOpened) :
    s.uncached.opened event = ((s.opened event).1, (s.opened event).2.uncached) := by
  have hoff : SessionState.opened ⟨s.store, s.uncached.cache⟩ s.config.zones s.proxies event = _ :=
    SessionState.opened_of_empty rfl s.store s.cache s.config.zones s.proxies event
  show ((SessionState.opened ⟨s.store, s.uncached.cache⟩ s.config.zones s.proxies event).1,
    s.uncached.withSessions (SessionState.opened ⟨s.store, s.uncached.cache⟩ s.config.zones s.proxies event).2) = _
  have hcache : (SessionState.opened ⟨s.store, s.cache⟩ s.config.zones s.proxies event).2.cache.emptied =
      s.cache.emptied := s.emptied_opened event
  rw [hoff]
  exact congrArg (Prod.mk _) (withSessions_uncached hcache)

theorem closed_uncached (s : Server) (event : SessionClosed) :
    s.uncached.closed event = ((s.closed event).1, (s.closed event).2.uncached) := by
  have hoff : SessionState.closed ⟨s.store, s.uncached.cache⟩ event = _ :=
    SessionState.closed_of_empty rfl s.store s.cache event
  show ((SessionState.closed ⟨s.store, s.uncached.cache⟩ event).1,
    s.uncached.withSessions (SessionState.closed ⟨s.store, s.uncached.cache⟩ event).2) = _
  have hcache : (SessionState.closed ⟨s.store, s.cache⟩ event).2.cache.emptied = s.cache.emptied :=
    s.emptied_closed event
  rw [hoff]
  exact congrArg (Prod.mk _) (withSessions_uncached hcache)

theorem evict_uncached (s : Server) (segment : List Char) :
    (Api.evict s.uncached segment).2 = (Api.evict s segment).2.uncached := by
  rcases evict_cases s segment with ⟨hnone, h⟩ | ⟨text, hsome, h⟩
  · rw [h, Api.evict, hnone]
  · rw [h, Api.evict, hsome]
    rfl

/-- **One operation.** Without a cache a server says the same and comes to the same state. -/
theorem Coherent.step_uncached (h : s.Coherent) (hq : op.isQuiet = true) :
    s.uncached.step op = ((s.step op).1, (s.step op).2.uncached) := by
  cases op with
  | query packet =>
    simp only [Server.step]
    rw [h.handle_uncached, handle_uncached_server, handle_server, uncached_of_cache (s.emptied_handle packet)]
  | opened event =>
    simp only [Server.step]
    rw [opened_uncached]
  | closed event =>
    simp only [Server.step]
    rw [closed_uncached]
  | evict segment =>
    simp only [Server.step]
    rw [evict_uncached]
  | sweep _ | proxies _ => cases hq
  | clear | tokens _ | tokenFile _ | advance _ => rfl

theorem Coherent.run_uncached : ∀ {ops : List Operation} {s : Server}, s.Coherent →
    (∀ op ∈ ops, op.isQuiet = true) →
    s.uncached.outcomes ops = s.outcomes ops ∧ s.uncached.after ops = (s.after ops).uncached
  | [], _, _, _ => ⟨rfl, rfl⟩
  | op :: ops, s, h, hq => by
    have hop := hq op (List.mem_cons_self ..)
    obtain ⟨ho, ha⟩ := run_uncached (h.step hop) fun op' h' => hq op' (List.mem_cons_of_mem _ h')
    simp only [outcomes, after, h.step_uncached hop]
    exact ⟨congrArg _ ho, ha⟩

end Server

/-! ## Starting with and without a cache -/

def Config.withCache (config : Config) (enabled : Bool) : Config :=
  { config with cache := { config.cache with enabled } }

namespace Server

theorem start_uncached {config : Config} {stateFile tokenFile : Option Place} {s t : Server}
    (hs : start (config.withCache true) stateFile tokenFile = .ok s)
    (ht : start (config.withCache false) stateFile tokenFile = .ok t) : t = s.uncached := by
  cases stateFile with
  | none => rw [start_none hs, start_none ht]; rfl
  | some place =>
    obtain ⟨store, hl, rfl⟩ := start_some hs
    obtain ⟨store', hl', rfl⟩ := start_some ht
    cases hl.symm.trans hl'
    rfl

theorem coherent_of_start {config : Config} {stateFile tokenFile : Option Place} {s : Server}
    (hsaved : ∀ place, stateFile = some place → Store.Saved place)
    (h : start config stateFile tokenFile = .ok s) : s.Coherent := by
  cases stateFile with
  | none =>
    rw [start_none h]
    exact coherent_of_empty rfl Sessions.filed_empty ⟨rfl, fun _ h => nomatch h⟩
  | some place =>
    obtain ⟨store, hl, rfl⟩ := start_some h
    obtain ⟨_, _, _, hw⟩ := Store.load_ok hl
    exact coherent_of_empty rfl (Store.filed_of_load (hsaved place rfl) hl) hw

/-- **The cache is transparent.** Started with it and without it, on the same sessions, a server replies the
same to every packet, gives the same results of every event, and has the same sessions in the end. -/
theorem cache_transparent {config : Config} {stateFile tokenFile : Option Place} {s t : Server}
    (hsaved : ∀ place, stateFile = some place → Store.Saved place)
    (hs : start (config.withCache true) stateFile tokenFile = .ok s)
    (ht : start (config.withCache false) stateFile tokenFile = .ok t)
    {ops : List Operation} (hq : ∀ op ∈ ops, op.isQuiet = true) :
    s.outcomes ops = t.outcomes ops ∧ (s.after ops).store = (t.after ops).store := by
  obtain ⟨ho, ha⟩ := (coherent_of_start hsaved hs).run_uncached hq
  rw [start_uncached hs ht]
  exact ⟨ho.symm, (congrArg Server.store ha).symm⟩

/-! A server that loads a session from its state file and is asked for it, before and after the session moves
to another hostname. -/

def savedSession : Session :=
  ⟨"s1", "app-e1", "198.51.100.7", ⟨0, 0, by decide, by decide, by decide⟩, ⟨0, 0, by decide, by decide, by decide⟩⟩

def savedSessions : Sessions := (Sessions.put .empty savedSession).2

def savedFile : Place := .file (Store.stateText savedSessions)

theorem load_savedFile : Store.load savedFile = .ok ⟨savedSessions, .disk savedFile, true⟩ := by
  have hd : Store.decodeState (Store.stateText savedSessions) = .ok savedSessions := by
    rw [Store.decodeState_stateText]
    rfl
  rw [savedFile, Store.load, Store.ofState, hd]

def movingConfig : Config := { proxies := Table.empty.insert "e1" "203.0.113.10" }

def movingRun : List Operation :=
  [.query appQuery, .opened ⟨"s1", "other-e1.tunnel4.com", "e1", savedSession.createdAt, 60⟩, .query appQuery,
    .advance 5000, .closed ⟨"s1", none⟩, .evict "app-e1".toList, .query appQuery, .clear]

theorem cache_transparent_moving : ∃ s t, start (movingConfig.withCache true) (some savedFile) none = .ok s ∧
    start (movingConfig.withCache false) (some savedFile) none = .ok t ∧
    s.outcomes movingRun = t.outcomes movingRun ∧ (s.after movingRun).store = (t.after movingRun).store := by
  have hstart : ∀ config : Config, ∃ s, start config (some savedFile) none = .ok s := by
    intro config
    refine ⟨⟨config, Cache.ofSettings config.cache, ⟨savedSessions, .disk savedFile, true⟩,
      Proxies.ofTable config.proxies, config.acme.tokens, none, 0⟩, ?_⟩
    show (Store.load savedFile >>= _) = _
    rw [load_savedFile]
    rfl
  obtain ⟨s, hs⟩ := hstart (movingConfig.withCache true)
  obtain ⟨t, ht⟩ := hstart (movingConfig.withCache false)
  have hsaved : ∀ place, some savedFile = some place → Store.Saved place := by
    rintro _ ⟨⟩
    exact .file (.put .empty savedSession)
  exact ⟨s, t, hs, ht, cache_transparent hsaved hs ht (by decide)⟩

end Server

end NameServer
