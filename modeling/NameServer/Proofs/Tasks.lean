import NameServer.Proofs.Transparency

/-!
# Tasks

A server works on queries and events at the same time, and each of them in
steps: one use of the cache, the store or the proxy entries at a time. Nothing
is locked from one step to the next, so the steps of other tasks can come in
between. A task that isn't interrupted does what is done in one go elsewhere.
-/

namespace NameServer

/-- What a task does next, or what came of it. -/
inductive Task where
  | asksCache (host : TunnelHost)
  | asksStore (host : TunnelHost)
  | asksProxies (host : TunnelHost)
  /-- Writes an address to the cache that the store or the proxy entries had. -/
  | caches (host : TunnelHost) (ip : Ipv4)
  | answered (host : TunnelHost) (address : Option Ipv4)
  | opens (event : SessionOpened)
  | closes (event : SessionClosed)
  /-- The store has changed; the cache is still to lose these hostnames. -/
  | forgets (session : Session) (hostnames : List String)
  | done (result : Except EventError Session)

namespace SessionState

theorem forget_eq : ∀ (hostnames : List String) (cache : Cache),
    forget cache hostnames = { cache with entries := cache.entries.filter fun key _ => !hostnames.contains key }
  | [], cache => by
    have hall : (cache.entries.filter fun _ _ => true) = cache.entries :=
      Table.ext (List.filter_eq_self.mpr fun _ _ => rfl)
    exact congrArg (fun entries => { cache with entries }) hall.symm
  | hostname :: hostnames, cache => by
    show forget (cache.remove hostname).2 hostnames = _
    rw [forget_eq hostnames]
    congr 1
    apply Table.ext
    simp only [Cache.remove, Table.erase, Table.filter, List.filter_filter]
    apply List.filter_congr
    intro e _
    rw [List.contains_cons, Bool.not_or, Bool.and_comm]
    rfl

/-- What is removed at the end needn't be removed before. -/
theorem forget_filter (hostnames : List String) (last : String) (cache : Cache) :
    forget cache (hostnames.filter (· != last) ++ [last]) = forget cache (hostnames ++ [last]) := by
  have hsame : ∀ key, (hostnames.filter (· != last) ++ [last]).contains key = (hostnames ++ [last]).contains key := by
    intro key
    rw [Bool.eq_iff_iff, List.contains_iff_mem, List.contains_iff_mem]
    by_cases hk : key = last
    · simp [hk]
    · simp [hk]
  simp only [forget_eq, hsame]

end SessionState

namespace Task

/-- The hostnames that have another session now, or none, the one of the new session last. -/
def stale (session : Session) (replaced : List Session) : List String :=
  (replaced.map Session.hostname).filter (· != session.hostname) ++ [session.hostname]

def afterPut (session : Session) : Except FileError (List Session) → Task
  | .error error => .done (.error (.store error))
  | .ok replaced => .forgets session (stale session replaced)

def afterRemove (id : String) : Except FileError (Option Session) → Task
  | .error error => .done (.error (.store error))
  | .ok none => .done (.error (.unknownSession id))
  | .ok (some session) => .forgets session [session.hostname]

def step (s : Server) : Task → Task × Server
  | .asksCache host =>
    let (cached, cache) := s.cache.get s.now host.key
    (match cached.bind addressOf? with
      | some ip => .answered host (some ip)
      | none => .asksStore host, { s with cache })
  | .asksStore host =>
    (match s.store.address? host.key with
      | some ip => .caches host ip
      | none => .asksProxies host, s)
  | .asksProxies host =>
    (match s.proxies.address? host.entryId with
      | some ip => .caches host ip
      | none => .answered host none, s)
  | .caches host ip =>
    (.answered host (some ip), { s with cache := s.cache.insert s.now host.key (toString ip) })
  | .opens event =>
    match s.proxies.get? event.entryId with
    | none => (.done (.error (.unknownEntry event.entryId)), s)
    | some address =>
      let session := event.session s.config.zones address
      let (result, store) := s.store.put session
      (afterPut session result, { s with store })
  | .closes event =>
    let (result, store) := s.store.remove event.id
    (afterRemove event.id result, { s with store })
  | .forgets session (hostname :: hostnames) =>
    (.forgets session hostnames, { s with cache := (s.cache.remove hostname).2 })
  | .forgets session [] => (.done (.ok session), s)
  | .answered host address => (.answered host address, s)
  | .done result => (.done result, s)

/-- The task and the server after some steps without any other task. -/
def run (s : Server) (task : Task) : Nat → Task × Server
  | 0 => (task, s)
  | n + 1 => run (task.step s).2 (task.step s).1 n

/-! ## Tasks that aren't interrupted -/

theorem run_query (s : Server) (host : TunnelHost) : (asksCache host).run s 4 =
    (.answered host (s.resolved host).address, { s with cache := (s.resolved host).cache }) := by
  unfold Server.resolved resolve
  cases hc : (s.cache.get s.now host.key).1.bind addressOf? with
  | some ip => simp [run, step, hc]
  | none =>
    cases hs : s.store.address? host.key with
    | some ip => simp [run, step, hc, hs]
    | none =>
      cases hp : s.proxies.address? host.entryId with
      | some ip => simp [run, step, hc, hs, hp]
      | none => simp [run, step, hc, hs, hp]

theorem run_forgets (session : Session) : ∀ (hostnames : List String) (s : Server),
    (forgets session hostnames).run s (hostnames.length + 1) =
      (.done (.ok session), { s with cache := SessionState.forget s.cache hostnames })
  | [], _ => rfl
  | hostname :: hostnames, s => run_forgets session hostnames { s with cache := (s.cache.remove hostname).2 }

theorem run_opens (s : Server) (event : SessionOpened) :
    ∃ n, (opens event).run s n = (.done (s.opened event).1, (s.opened event).2) := by
  unfold Server.opened SessionState.opened
  cases ha : s.proxies.get? event.entryId with
  | none => exact ⟨1, by simp [run, step, ha, Server.withSessions]⟩
  | some address =>
    rcases hp : s.store.put (event.session s.config.zones address) with ⟨error | replaced, store⟩
    · exact ⟨1, by simp [run, step, ha, hp, afterPut, Server.withSessions]⟩
    · refine ⟨(stale (event.session s.config.zones address) replaced).length + 1 + 1, ?_⟩
      rw [run]
      simp only [step, ha, hp, afterPut]
      rw [run_forgets, stale, SessionState.forget_filter]
      rfl

theorem run_closes (s : Server) (event : SessionClosed) :
    ∃ n, (closes event).run s n = (.done (s.closed event).1, (s.closed event).2) := by
  unfold Server.closed SessionState.closed
  rcases hr : s.store.remove event.id with ⟨error | _ | session, store⟩
  · exact ⟨1, by simp [run, step, hr, afterRemove, Server.withSessions]⟩
  · exact ⟨1, by simp [run, step, hr, afterRemove, Server.withSessions]⟩
  · refine ⟨3, ?_⟩
    simp [run, step, hr, afterRemove, Server.withSessions, SessionState.forget]

end Task

end NameServer
