import NameServer.Proofs.Staleness
import NameServer.Proofs.Tasks

/-!
# Tasks side by side

However the steps of queries and events are mixed, the cache has what the
store and the proxy entries give for a key, unless an event is still to drop
the key, or a query was late: it wrote an address that an event has changed
since it was read. Nothing keeps a query from being late, and then what it
wrote is answered.
-/

namespace NameServer

structure System where
  server : Server
  /-- All tasks that were started, in that order. -/
  tasks : List Task

inductive Move where
  | query (packet : List UInt8)
  | opened (event : SessionOpened)
  | closed (event : SessionClosed)
  /-- One step of the task with this number. -/
  | run (task : Nat)
  | advance (milliseconds : Nat)
  deriving DecidableEq

/-! ## Tasks and keys -/

namespace Task

def host? : Task → Option TunnelHost
  | .asksCache host | .asksStore host | .asksProxies host | .caches host _ | .answered host _ => some host
  | _ => none

def isOver : Task → Bool
  | .answered _ _ | .done _ => true
  | _ => false

def willForget (key : String) : Task → Bool
  | .forgets _ hostnames => hostnames.contains key
  | _ => false

def isLate (s : Server) (key : String) : Task → Bool
  | .caches host ip => host.key == key && s.addressAt key != some ip
  | _ => false

end Task

namespace System

def idle (s : Server) : System := ⟨s, []⟩

def spawn (sys : System) (task : Task) : System := { sys with tasks := sys.tasks ++ [task] }

def move (sys : System) : Move → System
  | .query packet =>
    match sys.server.asked? packet with
    | some host => sys.spawn (.asksCache host)
    | none => sys
  | .opened event => sys.spawn (.opens event)
  | .closed event => sys.spawn (.closes event)
  | .run i =>
    match sys.tasks[i]? with
    | some task => ⟨(task.step sys.server).2, sys.tasks.set i (task.step sys.server).1⟩
    | none => sys
  | .advance milliseconds => { sys with server := sys.server.advance milliseconds }

def after (sys : System) : List Move → System
  | [] => sys
  | m :: ms => (sys.move m).after ms

/-- No event is still to drop the key from the cache. -/
def isSettled (sys : System) (key : String) : Bool := sys.tasks.all fun task => !task.willForget key

def staysSettled (sys : System) (key : String) : List Move → Bool
  | [] => sys.isSettled key
  | m :: ms => sys.isSettled key && (sys.move m).staysSettled key ms

/-- A query writes back an address that isn't the current one any more, and no event is still to drop it. -/
def isLate (sys : System) (key : String) : Move → Bool
  | .run i => sys.isSettled key && sys.tasks[i]?.any fun task => task.isLate sys.server key
  | _ => false

def isTimely (sys : System) (key : String) : List Move → Bool
  | [] => true
  | m :: ms => !sys.isLate key m && (sys.move m).isTimely key ms

end System

/-- The entry of a key in the cache is what the store and the proxy entries give for it now. -/
def Server.IsCurrent (s : Server) (key : String) : Prop :=
  ∀ e, s.cache.entries.get? key = some e → ∃ ip, e.address = toString ip ∧ s.addressAt key = some ip

/-! ## One step of a task -/

theorem Cache.get_insert {c : Cache} (hon : c.enabled = true) (hsliding : 0 < c.sliding) (habsolute : 0 < c.absolute)
    (now : Nat) (key address : String) : ((c.insert now key address).get now key).1 = some address := by
  have hentry : (c.insert now key address).entries.get? key = some ⟨address, now, now⟩ := by
    rw [insert_entries hon]
    exact Table.get?_insert_self ..
  have hinsert : c.insert now key address = { c with entries := (c.insert now key address).entries } := by
    simp [insert, hon]
  have hlive : (c.insert now key address).isExpired now ⟨address, now, now⟩ = false := by
    rw [hinsert, isExpired_eq_false_iff]
    simpa using ⟨hsliding, habsolute⟩
  have hon' : (c.insert now key address).enabled = true := by
    rw [hinsert]
    exact hon
  rcases get_cases hon' now key with ⟨e, he, _, hget⟩ | ⟨hexpired, _⟩
  · cases hentry.symm.trans he
    rw [hget]
  · rw [hexpired _ hentry] at hlive
    cases hlive

namespace Task

variable {s : Server} {key : String} {task : Task}

theorem opens_cases (hw : s.store.Writable) (event : SessionOpened) :
    (opens event).step s = (.done (.error (.unknownEntry event.entryId)), s) ∨
    ∃ session, Text.lowered session.hostname = session.hostname ∧ (opens event).step s =
      (.forgets session (stale session (s.store.sessions.put session).1),
        { s with store := (s.store.put session).2 }) := by
  cases ha : s.proxies.get? event.entryId with
  | none => exact .inl (by simp only [step, ha])
  | some address =>
    refine .inr ⟨event.session s.config.zones address, Zone.lowered_sessionName .., ?_⟩
    simp only [step, ha, (Store.put_writable hw _).1, afterPut]

theorem closes_eq (hw : s.store.Writable) (event : SessionClosed) : (closes event).step s =
    (afterRemove event.id (.ok (s.store.sessions.remove event.id).1),
      { s with store := (s.store.remove event.id).2 }) := by
  simp only [step, (Store.remove_writable hw _).1]

theorem fixed_step (hw : s.store.Writable) (task : Task) :
    (task.step s).2.config = s.config ∧ (task.step s).2.proxies = s.proxies := by
  cases task with
  | opens event => rcases opens_cases hw event with h | ⟨_, _, h⟩ <;> rw [h] <;> exact ⟨rfl, rfl⟩
  | forgets session hostnames => cases hostnames <;> exact ⟨rfl, rfl⟩
  | asksCache _ | asksStore _ | asksProxies _ | caches _ _ | answered _ _ | closes _ | done _ => exact ⟨rfl, rfl⟩

theorem mem_stale {session : Session} {replaced : List Session} :
    key ∈ stale session replaced ↔ key = session.hostname ∨ ∃ old ∈ replaced, old.hostname = key := by
  simp only [stale, List.mem_append, List.mem_filter, List.mem_map, List.mem_singleton, bne_iff_ne]
  constructor
  · rintro (⟨h, _⟩ | h)
    · exact .inr h
    · exact .inl h
  · rintro (h | h)
    · exact .inr h
    · by_cases hk : key = session.hostname
      · exact .inr hk
      · exact .inl ⟨h, hk⟩

/-- **What a step does to the store.** The session of a key stays unless the task is to drop the key after it. -/
theorem store_step (hf : s.store.sessions.Filed) (hw : s.store.Writable) (key : String) (task : Task) :
    (task.step s).2.store.sessions.Filed ∧ (task.step s).2.store.Writable ∧
    ((task.step s).1.willForget key = true ∨
      (task.step s).2.store.sessions.get? key = s.store.sessions.get? key) := by
  cases task with
  | opens event =>
    rcases opens_cases hw event with h | ⟨session, hl, h⟩
    · rw [h]
      exact ⟨hf, hw, .inr rfl⟩
    · obtain ⟨_, hs, hw'⟩ := Store.put_writable hw session
      rw [h]
      simp only [hs]
      refine ⟨hf.put session, hw', ?_⟩
      by_cases hkey : key ∈ stale session (s.store.sessions.put session).1
      · exact .inl (List.contains_iff_mem.mpr hkey)
      · rw [mem_stale, not_or] at hkey
        refine .inr (Sessions.get?_put hf ?_ fun old hold hk => hkey.2 ⟨old, hold, hk⟩)
        rw [hl]
        exact hkey.1
  | closes event =>
    obtain ⟨_, hs, hw'⟩ := Store.remove_writable hw event.id
    rw [closes_eq hw]
    simp only [hs]
    refine ⟨hf.remove event.id, hw', ?_⟩
    by_cases hkey : ∃ session, (s.store.sessions.remove event.id).1 = some session ∧ session.hostname = key
    · obtain ⟨session, hr, rfl⟩ := hkey
      rw [hr]
      exact .inl (List.contains_iff_mem.mpr (List.mem_singleton_self _))
    · exact .inr (Sessions.get?_remove hf fun session hr hk => hkey ⟨session, hr, hk⟩)
  | forgets session hostnames => cases hostnames <;> exact ⟨hf, hw, .inr rfl⟩
  | asksCache _ | asksStore _ | asksProxies _ | caches _ _ | answered _ _ | done _ => exact ⟨hf, hw, .inr rfl⟩

/-- **What a step does to the cache.** An entry was there before, unless a query has just written it. A key that
the task is still to drop keeps its entry only as long as that is so. -/
theorem entry_of_step (hw : s.store.Writable) {e' : CacheEntry}
    (he : (task.step s).2.cache.entries.get? key = some e') :
    (∃ e, s.cache.entries.get? key = some e ∧ e.Keeps e' ∧
      (task.willForget key = true → (task.step s).1.willForget key = true)) ∨
    ∃ host ip, task = .caches host ip ∧ host.key = key ∧ e' = ⟨toString ip, s.now, s.now⟩ := by
  have hno : ∀ {next : Task}, false = true → next.willForget key = true := fun h => nomatch h
  cases task with
  | asksCache host =>
    obtain ⟨e, hold, hk⟩ := Cache.entry_of_get he
    exact .inl ⟨e, hold, hk, hno⟩
  | caches host ip =>
    rcases Cache.entry_of_insert he with hold | ⟨hk, hnew⟩
    · exact .inl ⟨e', hold, .refl e', hno⟩
    · exact .inr ⟨host, ip, rfl, hk.symm, hnew⟩
  | opens event =>
    rcases opens_cases hw event with h | ⟨_, _, h⟩
    · rw [h] at he
      exact .inl ⟨e', he, .refl e', hno⟩
    · rw [h] at he
      exact .inl ⟨e', he, .refl e', hno⟩
  | forgets session hostnames =>
    cases hostnames with
    | nil => exact .inl ⟨e', he, .refl e', hno⟩
    | cons hostname hostnames =>
      simp only [step, Cache.remove] at he
      obtain ⟨hk, hold⟩ := (Table.get?_erase_eq_some_iff ..).mp he
      refine .inl ⟨e', hold, .refl e', fun hforget => ?_⟩
      rw [willForget, List.contains_cons, Bool.or_eq_true, beq_iff_eq] at hforget
      exact hforget.resolve_left hk
  | asksStore _ | asksProxies _ | answered _ _ | closes _ | done _ => exact .inl ⟨e', he, .refl e', hno⟩

theorem host?_step (hw : s.store.Writable) {host : TunnelHost} (h : (task.step s).1.host? = some host) :
    task.host? = some host := by
  cases task with
  | asksCache asked =>
    simp only [step] at h
    cases hc : (s.cache.get s.now asked.key).1.bind addressOf? <;> rw [hc] at h <;> exact h
  | asksStore asked =>
    simp only [step] at h
    cases ha : s.store.address? asked.key <;> rw [ha] at h <;> exact h
  | asksProxies asked =>
    simp only [step] at h
    cases ha : s.proxies.address? asked.entryId <;> rw [ha] at h <;> exact h
  | caches _ _ | answered _ _ => exact h
  | opens event => rcases opens_cases hw event with e | ⟨_, _, e⟩ <;> rw [e] at h <;> cases h
  | closes event =>
    rw [closes_eq hw] at h
    cases hr : (s.store.sessions.remove event.id).1 <;> rw [hr] at h <;> cases h
  | forgets session hostnames => cases hostnames <;> cases h
  | done _ => cases h

/-! ## A query on its way -/

/-- Where a query can be while nothing changes for its key. -/
def OnTrack (s : Server) (host : TunnelHost) : Task → Prop
  | .asksCache asked | .asksStore asked => asked = host
  | .asksProxies asked => asked = host ∧ s.store.address? host.key = none
  | .caches asked ip => asked = host ∧ s.addressAt host.key = some ip
  | .answered asked address => asked = host ∧ address = s.addressAt host.key
  | _ => False

/-- The most steps that a query still takes. -/
def stepsLeft : Task → Nat
  | .asksCache _ => 4
  | .asksStore _ => 3
  | .asksProxies _ => 2
  | .caches _ _ => 1
  | _ => 0

variable {host : TunnelHost}

theorem OnTrack.congr {t : Server} (h : task.OnTrack s host)
    (hstore : t.store.address? host.key = s.store.address? host.key) (hproxies : t.proxies = s.proxies) :
    task.OnTrack t host := by
  have haddress : t.addressAt host.key = s.addressAt host.key := by
    rw [Server.addressAt, Server.addressAt, hstore, hproxies]
  cases task with
  | asksCache _ | asksStore _ => exact h
  | asksProxies _ => exact ⟨h.1, hstore.trans h.2⟩
  | caches _ _ => exact ⟨h.1, haddress.trans h.2⟩
  | answered _ _ => exact ⟨h.1, h.2.trans haddress.symm⟩
  | opens _ | closes _ | forgets _ _ | done _ => exact h.elim

/-- A query that is on its way comes a step closer to the answer, or has it. -/
theorem OnTrack.step {hostname : String} (hhost : TunnelHost.ofString? hostname = some host)
    (hcurrent : s.IsCurrent host.key) (h : task.OnTrack s host) :
    (task.step s).1.OnTrack (task.step s).2 host ∧ (task.step s).1.stepsLeft ≤ task.stepsLeft - 1 := by
  have haddress := Server.addressAt_key s hhost
  cases task with
  | asksCache asked =>
    cases h
    cases hc : (s.cache.get s.now host.key).1 with
    | none =>
      have hstep : (asksCache host).step s = (.asksStore host, { s with cache := (s.cache.get s.now host.key).2 }) := by
        simp only [Task.step, hc, Option.bind_none]
      rw [hstep]
      exact ⟨rfl, Nat.le_refl _⟩
    | some address =>
      obtain ⟨e, he, rfl, _⟩ := Cache.get_eq_some hc
      obtain ⟨ip, hip, hfound⟩ := hcurrent e he
      have hstep : (asksCache host).step s =
          (.answered host (some ip), { s with cache := (s.cache.get s.now host.key).2 }) := by
        simp only [Task.step, hc, Option.bind_some, hip, addressOf?_toString]
      rw [hstep]
      exact ⟨⟨rfl, hfound.symm⟩, Nat.zero_le _⟩
  | asksStore asked =>
    cases h
    cases ha : s.store.address? host.key with
    | none =>
      have hstep : (asksStore host).step s = (.asksProxies host, s) := by simp only [Task.step, ha]
      rw [hstep]
      exact ⟨⟨rfl, ha⟩, Nat.le_refl _⟩
    | some ip =>
      have hstep : (asksStore host).step s = (.caches host ip, s) := by simp only [Task.step, ha]
      rw [ha] at haddress
      rw [hstep]
      exact ⟨⟨rfl, haddress⟩, by simp [stepsLeft]⟩
  | asksProxies asked =>
    obtain ⟨rfl, hnone⟩ := h
    rw [hnone] at haddress
    cases ha : s.proxies.address? asked.entryId with
    | none =>
      have hstep : (asksProxies asked).step s = (.answered asked none, s) := by simp only [Task.step, ha]
      rw [ha] at haddress
      rw [hstep]
      exact ⟨⟨rfl, haddress.symm⟩, Nat.zero_le _⟩
    | some ip =>
      have hstep : (asksProxies asked).step s = (.caches asked ip, s) := by simp only [Task.step, ha]
      rw [ha] at haddress
      rw [hstep]
      exact ⟨⟨rfl, haddress⟩, Nat.le_refl _⟩
  | caches asked ip =>
    obtain ⟨rfl, hip⟩ := h
    exact ⟨⟨rfl, hip.symm⟩, Nat.zero_le _⟩
  | answered asked address => exact ⟨h, Nat.zero_le _⟩
  | opens _ | closes _ | forgets _ _ | done _ => exact h.elim

theorem eq_of_onTrack (h : task.OnTrack s host) (hleft : task.stepsLeft = 0) :
    task = .answered host (s.addressAt host.key) := by
  cases task with
  | asksCache _ | asksStore _ | asksProxies _ | caches _ _ => cases hleft
  | answered _ _ => rw [h.1, h.2]
  | opens _ | closes _ | forgets _ _ | done _ => exact h.elim

end Task

/-! ## Runs -/

namespace System

variable {sys : System} {key : String}

/-- What holds between any two steps, for one key. -/
structure Sound (sys : System) (key : String) : Prop where
  filed : sys.server.store.sessions.Filed
  writable : sys.server.store.Writable
  hosts : ∀ task ∈ sys.tasks, ∀ host, task.host? = some host → ∃ hostname, TunnelHost.ofString? hostname = some host
  current : sys.isSettled key = true → sys.server.IsCurrent key

theorem sound_idle {s : Server} (h : s.Coherent) (key : String) : (idle s).Sound key where
  filed := h.filed
  writable := h.writable
  hosts := fun _ h => nomatch h
  current := fun _ e he => (h.entries key e he).2

theorem Sound.spawn (h : sys.Sound key) {task : Task}
    (hhost : ∀ host, task.host? = some host → ∃ hostname, TunnelHost.ofString? hostname = some host) :
    (sys.spawn task).Sound key where
  filed := h.filed
  writable := h.writable
  hosts := by
    intro t ht
    rcases List.mem_append.mp ht with ht | ht
    · exact h.hosts t ht
    · rw [List.mem_singleton.mp ht]
      exact hhost
  current := by
    intro hs
    rw [isSettled, System.spawn, List.all_append, Bool.and_eq_true] at hs
    exact h.current hs.1

theorem move_run {i : Nat} {task : Task} (hi : sys.tasks[i]? = some task) :
    sys.move (.run i) = ⟨(task.step sys.server).2, sys.tasks.set i (task.step sys.server).1⟩ := by
  simp only [move, hi]

theorem mem_set_of_mem {i : Nat} {old new task : Task} (hi : sys.tasks[i]? = some old) (h : task ∈ sys.tasks) :
    task = old ∨ task ∈ sys.tasks.set i new := by
  obtain ⟨j, hj⟩ := List.getElem?_of_mem h
  by_cases hij : i = j
  · subst hij
    exact .inl (Option.some.inj (hj.symm.trans hi))
  · right
    rw [← List.getElem?_set_ne hij] at hj
    exact List.mem_of_getElem? hj

/-- When a task's step leaves nothing to be dropped, nothing was to be dropped before but by that task. -/
theorem settled_of_run {i : Nat} {task : Task} (hi : sys.tasks[i]? = some task)
    (hs : (sys.move (.run i)).isSettled key = true) :
    (task.step sys.server).1.willForget key = false ∧ (task.willForget key = false → sys.isSettled key = true) := by
  rw [move_run hi] at hs
  have hall := List.all_eq_true.mp hs
  have hnew : (task.step sys.server).1 ∈ sys.tasks.set i (task.step sys.server).1 :=
    List.mem_set (List.getElem?_eq_some_iff.mp hi).1 _
  refine ⟨by simpa using hall _ hnew, fun hforget => List.all_eq_true.mpr fun t ht => ?_⟩
  rcases mem_set_of_mem hi ht with rfl | ht
  · simp [hforget]
  · exact hall t ht

theorem address?_of_step {s : Server} (hf : s.store.sessions.Filed) (hw : s.store.Writable)
    (hk : Text.lowered key = key) {task : Task} (hforget : (task.step s).1.willForget key = false) :
    (task.step s).2.store.address? key = s.store.address? key := by
  obtain ⟨_, hw', hstore⟩ := Task.store_step hf hw key task
  have hget := hstore.resolve_left (by simp [hforget])
  rw [Store.address?, Store.address?, Store.find, Store.find, hw.1, hw'.1, Sessions.find, Sessions.find, hk, hget]

/-- **One step of a task.** -/
theorem Sound.run (h : sys.Sound key) (hk : Text.lowered key = key) {i : Nat} {task : Task}
    (hi : sys.tasks[i]? = some task) (htimely : sys.isSettled key = true → task.isLate sys.server key = false) :
    (sys.move (.run i)).Sound key where
  filed := by
    rw [move_run hi]
    exact (Task.store_step h.filed h.writable key task).1
  writable := by
    rw [move_run hi]
    exact (Task.store_step h.filed h.writable key task).2.1
  hosts := by
    rw [move_run hi]
    intro t ht host hhost
    have hmem := List.mem_of_getElem? hi
    rcases List.mem_or_eq_of_mem_set ht with ht | rfl
    · exact h.hosts t ht host hhost
    · exact h.hosts task hmem host (Task.host?_step h.writable hhost)
  current := by
    intro hs e' he'
    obtain ⟨hforget, hbefore⟩ := settled_of_run hi hs
    rw [move_run hi] at he' ⊢
    have haddress : (task.step sys.server).2.addressAt key = sys.server.addressAt key := by
      rw [Server.addressAt, Server.addressAt, address?_of_step h.filed h.writable hk hforget,
        (Task.fixed_step h.writable task).2]
    rcases Task.entry_of_step h.writable he' with ⟨e, he, hkeep, hstill⟩ | ⟨host, ip, rfl, rfl, rfl⟩
    · have hfree : task.willForget key = false := by
        rw [← Bool.not_eq_true]
        intro hwill
        rw [hstill hwill] at hforget
        cases hforget
      obtain ⟨ip, hip, hfound⟩ := h.current (hbefore hfree) e he
      exact ⟨ip, hkeep.1.trans hip, haddress.trans hfound⟩
    · have hlate := htimely (hbefore rfl)
      refine ⟨ip, rfl, haddress.trans ?_⟩
      simpa [Task.isLate] using hlate

/-- **One move.** -/
theorem Sound.move (h : sys.Sound key) (hk : Text.lowered key = key) {m : Move} {ms : List Move}
    (htimely : sys.isTimely key (m :: ms) = true) : (sys.move m).Sound key := by
  cases m with
  | query packet =>
    unfold System.move
    simp only
    split
    · next host ha =>
      apply h.spawn
      rintro _ ⟨⟩
      exact Server.ofString?_of_asked? ha
    · exact h
  | opened event => exact h.spawn fun _ hh => nomatch hh
  | closed event => exact h.spawn fun _ hh => nomatch hh
  | run i =>
    cases hi : sys.tasks[i]? with
    | none =>
      simp only [System.move, hi]
      exact h
    | some task =>
      apply h.run hk hi
      intro hs
      have hfirst := (Bool.and_eq_true_iff.mp htimely).1
      simpa [isLate, hs, hi] using hfirst
  | advance milliseconds => exact ⟨h.filed, h.writable, h.hosts, h.current⟩

theorem Sound.after (hk : Text.lowered key = key) : ∀ {ms : List Move} {sys : System}, sys.Sound key →
    sys.isTimely key ms = true → (sys.after ms).Sound key
  | [], _, h, _ => h
  | m :: ms, sys, h, ht => by
    show ((sys.move m).after ms).Sound key
    exact Sound.after hk (h.move hk ht) (Bool.and_eq_true_iff.mp ht).2

/-! ## Queries in a run -/

variable {host : TunnelHost} {hostname : String} {n : Nat} {task : Task}

theorem isSettled_of_stays {ms : List Move} (h : sys.staysSettled key ms = true) : sys.isSettled key = true := by
  cases ms with
  | nil => exact h
  | cons _ _ => exact (Bool.and_eq_true_iff.mp h).1

theorem getElem?_spawn (hn : sys.tasks[n]? = some task) (other : Task) : (sys.spawn other).tasks[n]? = some task := by
  rw [System.spawn, List.getElem?_append_left (List.getElem?_eq_some_iff.mp hn).1]
  exact hn

theorem getElem?_move (hn : sys.tasks[n]? = some task) {m : Move} (hm : m ≠ .run n) :
    (sys.move m).tasks[n]? = some task := by
  cases m with
  | query packet =>
    unfold System.move
    simp only
    split
    · exact getElem?_spawn hn _
    · exact hn
  | opened event => exact getElem?_spawn hn _
  | closed event => exact getElem?_spawn hn _
  | advance milliseconds => exact hn
  | run i =>
    cases hi : sys.tasks[i]? with
    | none =>
      simp only [System.move, hi]
      exact hn
    | some other =>
      rw [move_run hi, List.getElem?_set_ne fun hin => hm (congrArg Move.run hin)]
      exact hn

/-- A move that leaves a key settled doesn't change what the store has for it. -/
theorem fixed_move (h : sys.Sound key) (hk : Text.lowered key = key) {m : Move}
    (hnext : (sys.move m).isSettled key = true) :
    (sys.move m).server.store.address? key = sys.server.store.address? key ∧
      (sys.move m).server.proxies = sys.server.proxies := by
  cases m with
  | query packet =>
    unfold System.move
    simp only
    split <;> exact ⟨rfl, rfl⟩
  | opened _ | closed _ | advance _ => exact ⟨rfl, rfl⟩
  | run i =>
    cases hi : sys.tasks[i]? with
    | none =>
      simp only [System.move, hi]
      exact ⟨trivial, trivial⟩
    | some task =>
      have hforget := (settled_of_run hi hnext).1
      rw [move_run hi]
      exact ⟨address?_of_step h.filed h.writable hk hforget, (Task.fixed_step h.writable task).2⟩

/-- A query that has started is on its way after every move that leaves its key settled. -/
theorem onTrack_move (hhost : TunnelHost.ofString? hostname = some host) (h : sys.Sound host.key)
    (hn : sys.tasks[n]? = some task) (htrack : task.OnTrack sys.server host)
    (hsettled : sys.isSettled host.key = true) (m : Move) (hnext : (sys.move m).isSettled host.key = true) :
    ∃ next, (sys.move m).tasks[n]? = some next ∧ next.OnTrack (sys.move m).server host ∧
      next.stepsLeft ≤ task.stepsLeft - [m].count (.run n) := by
  by_cases hm : m = .run n
  · subst hm
    obtain ⟨hstep, hleft⟩ := htrack.step hhost (h.current hsettled)
    rw [move_run hn]
    refine ⟨(task.step sys.server).1, ?_, hstep, ?_⟩
    · exact List.getElem?_set_self (List.getElem?_eq_some_iff.mp hn).1
    · simpa using hleft
  · obtain ⟨hstore, hproxies⟩ := fixed_move h (Text.lowered_lowered _) hnext
    refine ⟨task, getElem?_move hn hm, htrack.congr hstore hproxies, ?_⟩
    simp [hm]

theorem onTrack_after (hhost : TunnelHost.ofString? hostname = some host) :
    ∀ (ms : List Move) {sys : System} {task : Task}, sys.Sound host.key → sys.tasks[n]? = some task →
    task.OnTrack sys.server host → sys.staysSettled host.key ms = true → sys.isTimely host.key ms = true →
    ∃ last, (sys.after ms).tasks[n]? = some last ∧ last.OnTrack (sys.after ms).server host ∧
      last.stepsLeft ≤ task.stepsLeft - ms.count (.run n)
  | [], _, task, _, hn, htrack, _, _ => ⟨task, hn, htrack, Nat.le_refl _⟩
  | m :: ms, sys, task, h, hn, htrack, hsettled, htimely => by
    obtain ⟨hnow, hstays⟩ := Bool.and_eq_true_iff.mp hsettled
    have hsound := h.move (Text.lowered_lowered _) htimely
    obtain ⟨next, hn', htrack', hleft⟩ := onTrack_move hhost h hn htrack hnow m (isSettled_of_stays hstays)
    obtain ⟨last, hlast, hlasttrack, hlastleft⟩ :=
      onTrack_after hhost ms hsound hn' htrack' hstays (Bool.and_eq_true_iff.mp htimely).2
    refine ⟨last, hlast, hlasttrack, ?_⟩
    have hcount : (m :: ms).count (.run n) = [m].count (.run n) + ms.count (.run n) := by
      rw [← List.count_append]
      rfl
    omega

theorem addressAt_after (hk : Text.lowered key = key) : ∀ (ms : List Move) {sys : System}, sys.Sound key →
    sys.staysSettled key ms = true → sys.isTimely key ms = true →
    (sys.after ms).server.addressAt key = sys.server.addressAt key
  | [], _, _, _, _ => rfl
  | m :: ms, sys, h, hsettled, htimely => by
    have hstays := (Bool.and_eq_true_iff.mp hsettled).2
    obtain ⟨hstore, hproxies⟩ := fixed_move h hk (isSettled_of_stays hstays)
    have hrest := addressAt_after hk ms (h.move hk htimely) hstays (Bool.and_eq_true_iff.mp htimely).2
    refine hrest.trans ?_
    rw [Server.addressAt, Server.addressAt, hstore, hproxies]

theorem after_append (sys : System) : ∀ ms more, sys.after (ms ++ more) = (sys.after ms).after more := by
  intro ms
  induction ms generalizing sys with
  | nil => exact fun _ => rfl
  | cons m ms ih => exact ih (sys.move m)

theorem isTimely_append (key : String) : ∀ (ms more : List Move) (sys : System), sys.isTimely key (ms ++ more) =
    (sys.isTimely key ms && (sys.after ms).isTimely key more)
  | [], _, _ => rfl
  | m :: ms, more, sys => by
    rw [List.cons_append, isTimely, isTimely, isTimely_append key ms more (sys.move m), Bool.and_assoc]
    rfl

/-- **Queries are answered with what is current,** whatever other tasks do in between, if no query was late for the
key and no event changes it meanwhile. -/
theorem answers_current {s : Server} (h : s.Coherent) {before rest : List Move} {packet : List UInt8}
    (hsys : (idle s).after before = sys) (hasked : sys.server.asked? packet = some host)
    (htimely : (idle s).isTimely host.key (before ++ .query packet :: rest) = true)
    (hsettled : sys.staysSettled host.key (.query packet :: rest) = true)
    (hruns : 4 ≤ rest.count (.run sys.tasks.length)) :
    (sys.after (.query packet :: rest)).tasks[sys.tasks.length]? =
        some (.answered host (sys.server.addressAt host.key)) ∧
      (sys.after (.query packet :: rest)).server.addressAt host.key = sys.server.addressAt host.key := by
  have hkey : Text.lowered host.key = host.key := Text.lowered_lowered _
  rw [isTimely_append, hsys, Bool.and_eq_true] at htimely
  have hsound := (sound_idle h host.key).after hkey htimely.1
  rw [hsys] at hsound
  obtain ⟨hostname, hhost⟩ := Server.ofString?_of_asked? hasked
  have hspawn : sys.move (.query packet) = sys.spawn (.asksCache host) := by simp only [System.move, hasked]
  have hnew : (sys.move (.query packet)).tasks[sys.tasks.length]? = some (.asksCache host) := by
    rw [hspawn]
    exact List.getElem?_concat_length
  obtain ⟨last, hlast, htrack, hleft⟩ := onTrack_after hhost rest (hsound.move hkey htimely.2) hnew rfl
    (Bool.and_eq_true_iff.mp hsettled).2 (Bool.and_eq_true_iff.mp htimely.2).2
  have haddress := addressAt_after hkey _ hsound hsettled htimely.2
  have hanswered := Task.eq_of_onTrack htrack (by rw [Task.stepsLeft] at hleft; omega)
  refine ⟨?_, haddress⟩
  rw [← haddress]
  exact hlast.trans (congrArg some hanswered)

/-- **A late query is believed.** What it writes is the answer to the next query for the same key, whatever the store
and the proxy entries have. -/
theorem late_answer {packet : List UInt8} {ip : Ipv4} (hn : sys.tasks[n]? = some (.caches host ip))
    (hon : sys.server.cache.enabled = true) (hsliding : 0 < sys.server.cache.sliding)
    (habsolute : 0 < sys.server.cache.absolute) (hasked : sys.server.asked? packet = some host) :
    (sys.after [.run n, .query packet, .run sys.tasks.length]).tasks[sys.tasks.length]? =
        some (.answered host (some ip)) ∧
      (sys.after [.run n, .query packet, .run sys.tasks.length]).server.addressAt host.key =
        sys.server.addressAt host.key := by
  let written : Server :=
    { sys.server with cache := sys.server.cache.insert sys.server.now host.key (toString ip) }
  let tasks := sys.tasks.set n (.answered host (some ip)) ++ [.asksCache host]
  have hlength : (sys.tasks.set n (.answered host (some ip))).length = sys.tasks.length := List.length_set ..
  have hwritten : written.asked? packet = some host := hasked
  have hnew : tasks[sys.tasks.length]? = some (.asksCache host) := by
    rw [← hlength]
    exact List.getElem?_concat_length
  have hspawned : (sys.move (.run n)).move (.query packet) = ⟨written, tasks⟩ := by
    rw [move_run hn]
    show System.move ⟨written, _⟩ (.query packet) = _
    simp only [System.move, hwritten]
    rfl
  have hhit := Cache.get_insert hon hsliding habsolute sys.server.now host.key (toString ip)
  have hstep : (Task.asksCache host).step written =
      (.answered host (some ip), { written with cache := (written.cache.get written.now host.key).2 }) := by
    simp only [Task.step, written, hhit, Option.bind_some, addressOf?_toString]
  show (((sys.move (.run n)).move (.query packet)).move (.run sys.tasks.length)).tasks[_]? = _ ∧
    (((sys.move (.run n)).move (.query packet)).move (.run sys.tasks.length)).server.addressAt _ = _
  rw [hspawned, move_run hnew, hstep]
  exact ⟨List.getElem?_set_self (List.getElem?_eq_some_iff.mp hnew).1, rfl⟩

/-! A session is closed while a query that found it is on its way. If the query is done before the cache loses the
hostname, the next one is answered with the proxy entry; if it is late, the next one is answered with the closed
session. -/

def twoEntries : Server where
  config := {}
  cache := Cache.ofSettings {}
  store := {}
  proxies := ⟨(Table.empty.insert "e2" "203.0.113.11").insert "e1" "203.0.113.10"⟩
  tokens := []

def movedSession : SessionOpened := ⟨"s1", "app-e1.tunnel4.com", "e2", Server.savedSession.createdAt, 60⟩

def openingRun : List Move := [.opened movedSession, .run 0, .run 0, .run 0]

/-- The query finds the session in the store before the session is closed. -/
def closingRun : List Move := [.run 1, .run 1, .closed ⟨"s1", none⟩, .run 2]

def timelyRun : List Move := openingRun ++ .query Server.appQuery :: (closingRun ++ [.run 1, .run 2, .run 2])

def lateRun : List Move := openingRun ++ .query Server.appQuery :: (closingRun ++ [.run 2, .run 2, .run 1])

/-- Another session is opened while the next query is on its way. -/
def nextRun : List Move :=
  [.run 3, .opened ⟨"s2", "other-e1.tunnel4.com", "e1", Server.savedSession.createdAt, 60⟩, .run 4, .run 3,
    .advance 5000, .run 4, .run 3, .run 3, .run 4]

theorem move_appQuery (h : sys.server.config = {}) :
    sys.move (.query Server.appQuery) = sys.spawn (.asksCache Server.appHost) := by
  have hasked : sys.server.asked? Server.appQuery = some Server.appHost := by
    rw [Server.asked?, Server.decode_appQuery]
    simp only
    unfold Server.tunnelHost?
    rw [h]
    decide +kernel
  simp only [System.move, hasked]

theorem after_appQuery (h : sys.server.config = {}) (ms : List Move) :
    sys.after (.query Server.appQuery :: ms) = (sys.spawn (.asksCache Server.appHost)).after ms := by
  rw [after, move_appQuery h]

theorem isTimely_appQuery (h : sys.server.config = {}) (key : String) (ms : List Move) :
    sys.isTimely key (.query Server.appQuery :: ms) =
      (sys.spawn (.asksCache Server.appHost)).isTimely key ms := by
  rw [isTimely, move_appQuery h]
  rfl

/-- The query has started, and the session is open. -/
def asking : System := ((idle twoEntries).after openingRun).spawn (.asksCache Server.appHost)

theorem after_asking (ms : List Move) :
    (idle twoEntries).after (openingRun ++ .query Server.appQuery :: ms) = asking.after ms := by
  rw [after_append, after_appQuery rfl]
  rfl

theorem answers_current_timely : ∃ sys, (idle twoEntries).after timelyRun = sys ∧
    (sys.after (.query Server.appQuery :: nextRun)).tasks[sys.tasks.length]? =
        some (.answered Server.appHost (sys.server.addressAt Server.appHost.key)) ∧
      (sys.after (.query Server.appQuery :: nextRun)).server.addressAt Server.appHost.key =
        sys.server.addressAt Server.appHost.key := by
  have hcoherent : twoEntries.Coherent :=
    Server.coherent_of_empty rfl Sessions.filed_empty ⟨rfl, fun _ h => nomatch h⟩
  have hsys : (idle twoEntries).after timelyRun = asking.after (closingRun ++ [.run 1, .run 2, .run 2]) :=
    after_asking _
  refine ⟨_, hsys, answers_current hcoherent hsys ?_ ?_ ?_ ?_⟩
  · rw [Server.asked?, Server.decode_appQuery]
    decide +kernel
  · rw [timelyRun, List.append_assoc, List.cons_append, isTimely_append, isTimely_appQuery rfl, isTimely_append,
      isTimely_appQuery rfl]
    decide +kernel
  · rw [staysSettled, move_appQuery rfl]
    decide +kernel
  · decide +kernel

theorem late_query_answered : ((idle twoEntries).after lateRun).tasks.all Task.isOver = true ∧
    (((idle twoEntries).after lateRun).after [.query Server.appQuery, .run 3]).tasks[3]? =
      some (.answered Server.appHost (some ⟨203, 0, 113, 11⟩)) ∧
    ((idle twoEntries).after lateRun).server.addressAt Server.appHost.key = some ⟨203, 0, 113, 10⟩ := by
  rw [lateRun, after_asking, after_appQuery rfl]
  exact ⟨by decide +kernel, rfl, by decide +kernel⟩

end System

end NameServer
