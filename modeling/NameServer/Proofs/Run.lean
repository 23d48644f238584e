import NameServer.Api.Route
import NameServer.Proofs.Resolution
import NameServer.Proofs.SessionTable
import NameServer.Proofs.Zones

/-!
# Runs of a server

A run is a list of operations, done one after another. An entry in the cache
at the end of it goes back to the query that wrote it, and nothing between the
two can have taken the entry out: no event for its key, and no request that
drops it.
-/

namespace NameServer

inductive Operation where
  | query (packet : List UInt8)
  | opened (event : SessionOpened)
  | closed (event : SessionClosed)
  /-- The segment of a path that names a key, as the control interface takes it. -/
  | evict (segment : List Char)
  | clear
  | tokens (tokens : List String)
  /-- What the path of the token file leads to from now on, if the server has one. -/
  | tokenFile (place : Place)
  | sweep (now : Timestamp)
  | proxies (proxies : Proxies)
  | advance (milliseconds : Nat)

/-- What a server says to those who ask it and to those who open and close sessions. -/
inductive Outcome where
  | reply (bytes : List UInt8)
  | session (result : Except EventError Session)

namespace Server

def step (s : Server) : Operation → Option Outcome × Server
  | .query packet => (some (.reply (s.handle packet).reply), (s.handle packet).server)
  | .opened e => (some (.session (s.opened e).1), (s.opened e).2)
  | .closed e => (some (.session (s.closed e).1), (s.closed e).2)
  | .evict segment => (none, (Api.evict s segment).2)
  | .clear => (none, (Api.clearCache s).2)
  | .tokens tokens => (none, { s with tokens })
  | .tokenFile place => (none, { s with tokenFile := s.tokenFile.map fun _ => place })
  | .sweep now => (none, (s.sweep now).2)
  | .proxies proxies => (none, { s with proxies })
  | .advance milliseconds => (none, s.advance milliseconds)

def after (s : Server) : List Operation → Server
  | [] => s
  | op :: ops => (s.step op).2.after ops

def outcomes (s : Server) : List Operation → List (Option Outcome)
  | [] => []
  | op :: ops => (s.step op).1 :: (s.step op).2.outcomes ops

theorem after_append (s : Server) : ∀ ops more, s.after (ops ++ more) = (s.after ops).after more := by
  intro ops
  induction ops generalizing s with
  | nil => exact fun _ => rfl
  | cons op ops ih => exact ih (s.step op).2

/-! ## Starting -/

theorem start_none {config : Config} {tokenFile : Option Place} {s : Server}
    (h : start config none tokenFile = .ok s) :
    s = ⟨config, Cache.ofSettings config.cache, {}, Proxies.ofTable config.proxies, config.acme.tokens, tokenFile, 0⟩ :=
  (Except.ok.inj h).symm

theorem start_some {config : Config} {place : Place} {tokenFile : Option Place} {s : Server}
    (h : start config (some place) tokenFile = .ok s) :
    ∃ store, Store.load place = .ok store ∧ s = ⟨config, Cache.ofSettings config.cache, store,
      Proxies.ofTable config.proxies, config.acme.tokens, tokenFile, 0⟩ := by
  obtain ⟨store, hl, h⟩ := (bind_ok_iff (Store.load place) _ _).mp h
  exact ⟨store, hl, (Except.ok.inj h).symm⟩

/-! ## Operations that concern a key -/

/-- An event stores, replaces or takes out a session of a hostname, or a request drops its key from the
cache. -/
def Disturbs (s : Server) (key : String) : Operation → Prop
  | .opened e => ∃ session, (s.opened e).1 = .ok session ∧
      (session.hostname = key ∨ ∃ replaced ∈ (s.store.sessions.put session).1, replaced.hostname = key)
  | .closed e => ∃ session, (s.closed e).1 = .ok session ∧ session.hostname = key
  | .evict segment => (Target.segment? segment).map Text.lowered = some key
  | .clear => True
  | _ => False

def Undisturbed (s : Server) (key : String) : List Operation → Prop
  | [] => True
  | op :: ops => ¬ s.Disturbs key op ∧ (s.step op).2.Undisturbed key ops

/-- A packet has a hostname with a key looked up, and the address is found in the store or among the proxy
entries. -/
structure Finds (s : Server) (packet : List UInt8) (key : String) (ip : Ipv4) : Prop where
  asked : ∃ host, s.asked? packet = some host ∧ host.key = key
  askedStore : (s.handle packet).askedStore = true
  found : s.addressAt key = some ip

end Server

/-! ## Events -/

namespace Store

variable {store : Store} {session : Session} {id : String}

theorem commit_ok {α : Type} {changed : Bool} {result a : α} (h : (store.commit changed result).1 = .ok a) :
    a = result := by
  unfold commit at h
  split at h
  · simp only at h
    cases hs : store.save.1 with
    | error _ => rw [hs] at h; cases h
    | ok _ => rw [hs] at h; cases h; rfl
  · cases h; rfl

theorem put_ok {replaced : List Session} (h : (store.put session).1 = .ok replaced) :
    replaced = (store.sessions.put session).1 := by
  unfold put at h
  split at h
  · cases h
  · exact commit_ok h

theorem remove_ok {removed : Option Session} (h : (store.remove id).1 = .ok removed) :
    removed = (store.sessions.remove id).1 := by
  unfold remove at h
  split at h
  · cases h
  · exact commit_ok h

end Store

namespace SessionState

variable {state : SessionState} {zones : List String} {proxies : Proxies} {key : String} {e : CacheEntry}

theorem entry_of_forget : ∀ {hostnames : List String} {cache : Cache},
    (forget cache hostnames).entries.get? key = some e → cache.entries.get? key = some e ∧ key ∉ hostnames
  | [], _, h => ⟨h, List.not_mem_nil⟩
  | hostname :: hostnames, cache, h => by
    have h' : (forget (cache.remove hostname).2 hostnames).entries.get? key = some e := h
    obtain ⟨hr, hn⟩ := entry_of_forget h'
    simp only [Cache.remove] at hr
    obtain ⟨hk, hold⟩ := (Table.get?_erase_eq_some_iff ..).mp hr
    exact ⟨hold, List.not_mem_cons_of_ne_of_not_mem hk hn⟩

theorem emptied_forget : ∀ (hostnames : List String) (cache : Cache), (forget cache hostnames).emptied = cache.emptied
  | [], _ => rfl
  | hostname :: hostnames, cache => emptied_forget hostnames (cache.remove hostname).2

theorem forget_of_empty {cache : Cache} (h : cache.entries = .empty) : ∀ hostnames, forget cache hostnames = cache
  | [] => rfl
  | hostname :: hostnames => by
    have hr : (cache.remove hostname).2 = cache := by
      simp only [Cache.remove, h, Table.erase_empty]
      rw [← h]
    show forget (cache.remove hostname).2 hostnames = cache
    rw [hr]
    exact forget_of_empty h hostnames

theorem opened_cases (state : SessionState) (zones : List String) (proxies : Proxies) (event : SessionOpened) :
    state.opened zones proxies event = (.error (.unknownEntry event.entryId), state) ∨
    ∃ address, proxies.get? event.entryId = some address ∧
      ((∃ error, (state.store.put (event.session zones address)).1 = .error error ∧
        state.opened zones proxies event =
          (.error (.store error), { state with store := (state.store.put (event.session zones address)).2 })) ∨
      state.opened zones proxies event =
        (.ok (event.session zones address), ⟨(state.store.put (event.session zones address)).2, forget state.cache
          ((state.store.sessions.put (event.session zones address)).1.map Session.hostname ++
            [(event.session zones address).hostname])⟩)) := by
  unfold opened
  cases ha : proxies.get? event.entryId with
  | none => exact .inl rfl
  | some address =>
    refine .inr ⟨address, rfl, ?_⟩
    rcases hp : state.store.put (event.session zones address) with ⟨error | replaced, store⟩
    · exact .inl ⟨error, rfl, by simp only [hp]⟩
    · have hput : replaced = (state.store.sessions.put (event.session zones address)).1 :=
        Store.put_ok (congrArg Prod.fst hp)
      exact .inr (by simp only [hp, hput])

theorem closed_cases (state : SessionState) (event : SessionClosed) :
    (∃ error, (state.store.remove event.id).1 = .error error ∧
      state.closed event = (.error (.store error), { state with store := (state.store.remove event.id).2 })) ∨
    ((state.store.sessions.remove event.id).1 = none ∧
      state.closed event =
        (.error (.unknownSession event.id), { state with store := (state.store.remove event.id).2 })) ∨
    ∃ session, (state.store.sessions.remove event.id).1 = some session ∧
      state.closed event =
        (.ok session, ⟨(state.store.remove event.id).2, forget state.cache [session.hostname]⟩) := by
  unfold closed
  rcases hr : state.store.remove event.id with ⟨error | _ | session, store⟩
  · exact .inl ⟨error, rfl, rfl⟩
  · exact .inr (.inl ⟨(Store.remove_ok (congrArg Prod.fst hr)).symm, rfl⟩)
  · exact .inr (.inr ⟨session, (Store.remove_ok (congrArg Prod.fst hr)).symm, rfl⟩)

/-! What is in the cache doesn't matter to an event, and an empty one stays empty. -/

theorem opened_of_empty {empty : Cache} (h : empty.entries = .empty) (store : Store) (cache : Cache)
    (zones : List String) (proxies : Proxies) (event : SessionOpened) :
    opened ⟨store, empty⟩ zones proxies event =
      ((opened ⟨store, cache⟩ zones proxies event).1, ⟨(opened ⟨store, cache⟩ zones proxies event).2.store, empty⟩) := by
  unfold opened
  cases proxies.get? event.entryId with
  | none => rfl
  | some address =>
    rcases hp : store.put (event.session zones address) with ⟨error | replaced, store'⟩
    · simp only [hp]
    · simp only [hp, forget_of_empty h]

theorem closed_of_empty {empty : Cache} (h : empty.entries = .empty) (store : Store) (cache : Cache)
    (event : SessionClosed) :
    closed ⟨store, empty⟩ event = ((closed ⟨store, cache⟩ event).1, ⟨(closed ⟨store, cache⟩ event).2.store, empty⟩) := by
  unfold closed
  rcases hr : store.remove event.id with ⟨error | _ | session, store'⟩
  · rfl
  · rfl
  · simp only [forget_of_empty h]

end SessionState

/-! ## Steps -/

namespace Server

variable {s : Server} {key : String} {e' : CacheEntry}

theorem evict_cases (s : Server) (segment : List Char) :
    (Target.segment? segment = none ∧ (Api.evict s segment).2 = s) ∨
    ∃ text, Target.segment? segment = some text ∧
      (Api.evict s segment).2 = { s with cache := (s.cache.remove (Text.lowered text)).2 } := by
  unfold Api.evict
  split
  · next h => exact .inl ⟨h, rfl⟩
  · next text h => exact .inr ⟨text, h, rfl⟩

theorem evict_server (s : Server) (segment : List Char) :
    (Api.evict s segment).2 = { s with cache := (Api.evict s segment).2.cache } := by
  rcases evict_cases s segment with ⟨_, h⟩ | ⟨_, _, h⟩ <;> rw [h]

/-! Each operation leaves the entry of a key as it was, but for the time it was used at, if it doesn't
disturb the key. -/

theorem entry_of_query {packet : List UInt8} (he : (s.handle packet).server.cache.entries.get? key = some e') :
    (∃ e, s.cache.entries.get? key = some e ∧ e.Keeps e') ∨
    ∃ ip, s.Finds packet key ip ∧ e' = ⟨toString ip, s.now, s.now⟩ := by
  cases ha : s.asked? packet with
  | none =>
    rw [(handle_of_not_asked ha).1] at he
    exact .inl ⟨e', he, .refl e'⟩
  | some host =>
    obtain ⟨hs, hstore⟩ := handle_of_asked? ha
    obtain ⟨hostname, hhost⟩ := ofString?_of_asked? ha
    rw [hs] at he
    rcases entry_of_resolved hhost he with hold | ⟨hasked, rfl, ip, hip, hnew⟩
    · exact .inl hold
    · exact .inr ⟨ip, ⟨⟨host, ha, rfl⟩, hstore.trans hasked, hip⟩, hnew⟩

theorem entry_of_opened {event : SessionOpened} (he : (s.opened event).2.cache.entries.get? key = some e') :
    s.cache.entries.get? key = some e' ∧ ¬ s.Disturbs key (.opened event) := by
  simp only [Disturbs, opened] at he ⊢
  rcases SessionState.opened_cases ⟨s.store, s.cache⟩ s.config.zones s.proxies event with
    h | ⟨address, _, ⟨error, _, h⟩ | h⟩
  · rw [h] at he ⊢
    refine ⟨he, ?_⟩
    rintro ⟨_, hs, _⟩
    cases hs
  · rw [h] at he ⊢
    refine ⟨he, ?_⟩
    rintro ⟨_, hs, _⟩
    cases hs
  · rw [h] at he ⊢
    obtain ⟨hold, hn⟩ := SessionState.entry_of_forget he
    refine ⟨hold, ?_⟩
    rintro ⟨session, hs, hd⟩
    cases hs
    rcases hd with rfl | ⟨replaced, hr, rfl⟩
    · exact hn (List.mem_append_right _ (List.mem_singleton_self _))
    · exact hn (List.mem_append_left _ (List.mem_map_of_mem hr))

theorem entry_of_closed {event : SessionClosed} (he : (s.closed event).2.cache.entries.get? key = some e') :
    s.cache.entries.get? key = some e' ∧ ¬ s.Disturbs key (.closed event) := by
  simp only [Disturbs, closed] at he ⊢
  rcases SessionState.closed_cases ⟨s.store, s.cache⟩ event with ⟨error, _, h⟩ | ⟨_, h⟩ | ⟨session, _, h⟩
  · rw [h] at he ⊢
    refine ⟨he, ?_⟩
    rintro ⟨_, hs, _⟩
    cases hs
  · rw [h] at he ⊢
    refine ⟨he, ?_⟩
    rintro ⟨_, hs, _⟩
    cases hs
  · rw [h] at he ⊢
    obtain ⟨hold, hn⟩ := SessionState.entry_of_forget he
    refine ⟨hold, ?_⟩
    rintro ⟨session', hs, rfl⟩
    cases hs
    exact hn (List.mem_singleton_self _)

theorem entry_of_evict {segment : List Char} (he : (Api.evict s segment).2.cache.entries.get? key = some e') :
    s.cache.entries.get? key = some e' ∧ ¬ s.Disturbs key (.evict segment) := by
  rcases evict_cases s segment with ⟨hnone, hs⟩ | ⟨text, hsome, hs⟩
  · rw [hs] at he
    refine ⟨he, fun hd => ?_⟩
    rw [Disturbs, hnone] at hd
    cases hd
  · rw [hs] at he
    simp only [Cache.remove] at he
    obtain ⟨hk, hold⟩ := (Table.get?_erase_eq_some_iff ..).mp he
    refine ⟨hold, fun hd => ?_⟩
    rw [Disturbs, hsome] at hd
    exact hk (Option.some.inj hd).symm

/-- **Where entries come from.** After an operation that doesn't disturb a key, its entry is the one from
before, but for the time it was used at. Any other entry is what a query has just found. -/
theorem entry_of_step {op : Operation} (he : (s.step op).2.cache.entries.get? key = some e') :
    (∃ e, s.cache.entries.get? key = some e ∧ e.Keeps e' ∧ ¬ s.Disturbs key op) ∨
    ∃ packet ip, op = .query packet ∧ s.Finds packet key ip ∧ e' = ⟨toString ip, s.now, s.now⟩ := by
  cases op with
  | query packet =>
    rcases entry_of_query he with ⟨e, hold, hk⟩ | ⟨ip, hf, hnew⟩
    · exact .inl ⟨e, hold, hk, not_false⟩
    · exact .inr ⟨packet, ip, rfl, hf, hnew⟩
  | opened event =>
    obtain ⟨hold, hd⟩ := entry_of_opened he
    exact .inl ⟨e', hold, .refl e', hd⟩
  | closed event =>
    obtain ⟨hold, hd⟩ := entry_of_closed he
    exact .inl ⟨e', hold, .refl e', hd⟩
  | evict segment =>
    obtain ⟨hold, hd⟩ := entry_of_evict he
    exact .inl ⟨e', hold, .refl e', hd⟩
  | clear => cases he
  | tokens _ | tokenFile _ | sweep _ | proxies _ | advance _ => exact .inl ⟨e', he, .refl e', not_false⟩

theorem entry_of_after : ∀ {ops : List Operation} {s : Server},
    (s.after ops).cache.entries.get? key = some e' →
    (∃ e, s.cache.entries.get? key = some e ∧ e.Keeps e' ∧ s.Undisturbed key ops) ∨
    ∃ before packet between ip, ops = before ++ .query packet :: between ∧ (s.after before).Finds packet key ip ∧
      e'.address = toString ip ∧ e'.writtenAt = (s.after before).now ∧
      ((s.after before).step (.query packet)).2.Undisturbed key between
  | [], _, he => .inl ⟨e', he, .refl e', trivial⟩
  | op :: ops, s, he => by
    have he' : ((s.step op).2.after ops).cache.entries.get? key = some e' := he
    rcases entry_of_after he' with
      ⟨e, hold, hk, hu⟩ | ⟨before, packet, between, ip, rfl, hrest⟩
    -- still the entry from after the first operation, which may be the query itself
    · rcases entry_of_step hold with ⟨e₀, hold₀, hk₀, hd⟩ | ⟨packet, ip, rfl, hf, rfl⟩
      · exact .inl ⟨e₀, hold₀, ⟨hk.1.trans hk₀.1, hk.2.trans hk₀.2⟩, hd, hu⟩
      · exact .inr ⟨[], packet, ops, ip, rfl, hf, hk.1, hk.2, hu⟩
    · exact .inr ⟨op :: before, packet, between, ip, rfl, hrest⟩

/-! ## What no operation changes -/

theorem emptied_opened (s : Server) (event : SessionOpened) : (s.opened event).2.cache.emptied = s.cache.emptied := by
  unfold opened
  rcases SessionState.opened_cases ⟨s.store, s.cache⟩ s.config.zones s.proxies event with
    h | ⟨address, _, ⟨error, _, h⟩ | h⟩
  · rw [h]; rfl
  · rw [h]; rfl
  · rw [h]; exact SessionState.emptied_forget ..

theorem emptied_closed (s : Server) (event : SessionClosed) : (s.closed event).2.cache.emptied = s.cache.emptied := by
  unfold closed
  rcases SessionState.closed_cases ⟨s.store, s.cache⟩ event with ⟨error, _, h⟩ | ⟨_, h⟩ | ⟨session, _, h⟩
  · rw [h]; rfl
  · rw [h]; rfl
  · rw [h]; exact SessionState.emptied_forget ..

theorem emptied_evict (s : Server) (segment : List Char) :
    (Api.evict s segment).2.cache.emptied = s.cache.emptied := by
  rcases evict_cases s segment with ⟨_, hs⟩ | ⟨_, _, hs⟩ <;> rw [hs]
  exact Cache.emptied_remove ..

theorem emptied_handle (s : Server) (packet : List UInt8) :
    (s.handle packet).server.cache.emptied = s.cache.emptied := by
  cases ha : s.asked? packet with
  | none => rw [(handle_of_not_asked ha).1]
  | some host =>
    rw [(handle_of_asked? ha).1]
    exact resolve_emptied ..

theorem emptied_step (s : Server) (op : Operation) : (s.step op).2.cache.emptied = s.cache.emptied := by
  cases op with
  | query packet => exact s.emptied_handle packet
  | opened event => exact s.emptied_opened event
  | closed event => exact s.emptied_closed event
  | evict segment => exact s.emptied_evict segment
  | clear | tokens _ | tokenFile _ | sweep _ | proxies _ | advance _ => rfl

theorem emptied_after : ∀ (ops : List Operation) (s : Server), (s.after ops).cache.emptied = s.cache.emptied
  | [], _ => rfl
  | op :: ops, s => (emptied_after ops (s.step op).2).trans (s.emptied_step op)

theorem now_le_step (s : Server) (op : Operation) : s.now ≤ (s.step op).2.now := by
  cases op with
  | query packet =>
    have hnow : (s.handle packet).server.now = s.now := by rw [handle_server]
    exact Nat.le_of_eq hnow.symm
  | evict segment =>
    have hnow : (Api.evict s segment).2.now = s.now := by rw [evict_server]
    exact Nat.le_of_eq hnow.symm
  | advance milliseconds => exact Nat.le_add_right ..
  | opened _ | closed _ | clear | tokens _ | tokenFile _ | sweep _ | proxies _ => exact Nat.le_refl _

theorem now_le_after : ∀ (ops : List Operation) (s : Server), s.now ≤ (s.after ops).now
  | [], _ => Nat.le_refl _
  | op :: ops, s => Nat.le_trans (s.now_le_step op) (now_le_after ops (s.step op).2)

end Server

end NameServer
