import NameServer.Proofs.SessionHistory
import NameServer.Proofs.StateFile

/-!
# Restarts

What a store writes out is read back as the same sessions, and what it doesn't
write out has not changed. So at any time the state file stands for the
sessions in memory, and a store that is loaded from it goes on as if it had
never stopped.
-/

namespace NameServer

/-! ## The order of sessions -/

section
variable {α β : Type} [BEq β] [LawfulBEq β] {f : α → β} {l l' : List α}

theorem find?_perm (hp : l.Perm l') (hd : (l.map f).Nodup) (b : β) :
    (l.find? fun a => f a == b) = l'.find? fun a => f a == b := by
  have hd' : (l'.map f).Nodup := (hp.map f).nodup_iff.mp hd
  apply Option.ext
  intro a
  rw [find?_key_eq_some_iff hd, find?_key_eq_some_iff hd', hp.mem_iff]

theorem filter_key_perm (hp : l.Perm l') (hd : (l.map f).Nodup) (b : β) (keep : α → Bool) :
    (l.filter fun a => f a == b && keep a) = l'.filter fun a => f a == b && keep a := by
  have hd' : (l'.map f).Nodup := (hp.map f).nodup_iff.mp hd
  have hsplit : ∀ l : List α, (l.filter fun a => f a == b && keep a) = (l.filter fun a => f a == b).filter keep := by
    intro l
    rw [List.filter_filter]
    apply List.filter_congr
    intro a _
    exact Bool.and_comm ..
  rw [hsplit, hsplit, filter_key_eq_toList_find? b hd, filter_key_eq_toList_find? b hd', find?_perm hp hd]

end

theorem Table.get?_perm {α : Type} {t u : Table α} (hp : t.entries.Perm u.entries) (key : String) :
    t.get? key = u.get? key := by
  apply Option.ext
  intro value
  rw [get?_eq_some_iff, get?_eq_some_iff, hp.mem_iff]

namespace Sessions

variable {sessions other : Sessions}

theorem put_fst (sessions : Sessions) (session : Session) : (sessions.put session).1 =
    (sessions.entries.filter fun e => e.2.id == session.id && e.1 != Text.lowered session.hostname).map Prod.snd ++
      (sessions.get? (Text.lowered session.hostname)).toList := rfl

theorem distinctIds_iff : sessions.DistinctIds ↔ (sessions.entries.map fun e => e.2.id).Nodup := by
  rw [DistinctIds, Table.values, List.map_map]
  rfl

/-- **The order of sessions doesn't matter** to a call as long as no two of them have the same id. -/
theorem DistinctIds.call_perm (h : sessions.DistinctIds) (hp : sessions.entries.Perm other.entries) (c : Call) :
    (sessions.call c).1 = (other.call c).1 ∧ (sessions.call c).2.entries.Perm (other.call c).2.entries := by
  have hd := distinctIds_iff.mp h
  cases c with
  | put session =>
    constructor
    · show Reply.replaced (sessions.put session).1 = .replaced (other.put session).1
      rw [put_fst, put_fst, Table.get?_perm hp, filter_key_perm hp hd]
    · exact ((hp.filter _).filter _).cons _
  | remove id =>
    have hfind := find?_perm hp hd id
    show Reply.removed (sessions.remove id).1 = .removed (other.remove id).1 ∧
      (sessions.remove id).2.entries.Perm (other.remove id).2.entries
    rw [remove_eq, remove_eq, hfind]
    cases other.entries.find? fun e => e.2.id == id with
    | none => exact ⟨rfl, hp⟩
    | some e => exact ⟨rfl, hp.filter _⟩
  | dropExpired now =>
    have hlive := hp.filter fun e => !e.2.isExpired now
    constructor
    · show Reply.dropped (sessions.entries.length - (sessions.entries.filter _).length) = _
      rw [hp.length_eq, hlive.length_eq]
      rfl
    · exact hlive
  | find hostname => exact ⟨congrArg Reply.found (Table.get?_perm hp _), hp⟩

theorem DistinctIds.replies_perm : ∀ (calls : List Call) {sessions other : Sessions}, sessions.DistinctIds →
    sessions.entries.Perm other.entries → sessions.replies calls = other.replies calls ∧
      (sessions.after calls).entries.Perm (other.after calls).entries
  | [], _, _, _, hp => ⟨rfl, hp⟩
  | c :: calls, _, _, h, hp => by
    obtain ⟨hreply, hnext⟩ := h.call_perm hp c
    obtain ⟨hreplies, hafter⟩ := replies_perm calls (h.call c) hnext
    exact ⟨List.cons_eq_cons.mpr ⟨hreply, hreplies⟩, hafter⟩

theorem dropExpired_of_zero (sessions : Sessions) (now : Timestamp) (h : (sessions.dropExpired now).1 = 0) :
    (sessions.dropExpired now).2 = sessions := by
  have hsize : sessions.entries.length - (sessions.entries.filter fun e => !e.2.isExpired now).length = 0 := h
  have hle := List.length_filter_le (fun e => !e.2.isExpired now) sessions.entries
  apply Table.ext
  apply List.filter_sublist.eq_of_length
  show (sessions.entries.filter fun e => !e.2.isExpired now).length = _
  omega

theorem remove_of_none (sessions : Sessions) (id : String) (h : (sessions.remove id).1 = none) :
    (sessions.remove id).2 = sessions := by
  rcases remove_cases sessions id with e | ⟨_, _, _, _, e⟩
  · rw [e]
  · rw [e] at h
    cases h

end Sessions

/-! ## Stores with a state file -/

namespace Store

open Sessions (Call Reply)

def call (store : Store) : Call → Except FileError Reply × Store
  | .put session => ((store.put session).1.map .replaced, (store.put session).2)
  | .remove id => ((store.remove id).1.map .removed, (store.remove id).2)
  | .dropExpired now => ((store.dropExpired now).1.map .dropped, (store.dropExpired now).2)
  | .find hostname => ((store.find hostname).map .found, store)

def after (store : Store) : List Call → Store
  | [] => store
  | c :: cs => (store.call c).2.after cs

def replies (store : Store) : List Call → List (Except FileError Reply)
  | [] => []
  | c :: cs => (store.call c).1 :: (store.call c).2.replies cs

/-- The store can be reached, and its state file has the sessions that it holds. -/
structure Durable (store : Store) : Prop where
  reachable : store.reachable = true
  saved : ∃ content, store.backing = .disk (.file content) ∧ decodeState content = .ok store.sessions

variable {store : Store}

theorem Durable.load (h : store.Durable) : ∃ place, store.backing = .disk place ∧ load place = .ok store := by
  obtain ⟨content, hb, hd⟩ := h.saved
  refine ⟨.file content, hb, ?_⟩
  have hstore : store = ⟨store.sessions, .disk (.file content), true⟩ := by rw [← hb, ← h.reachable]
  rw [Store.load, ofState, hd]
  exact congrArg Except.ok hstore.symm

theorem durable_of_state {content : List UInt8} (h : ofState content = .ok store) : store.Durable := by
  unfold ofState at h
  split at h
  · next sessions hd =>
    cases h
    exact ⟨rfl, content, rfl, hd⟩
  · cases h

theorem durable_of_load {place : Place} (h : Store.load place = .ok store) : store.Durable := by
  cases place with
  | file content => exact durable_of_state h
  | absent =>
    rw [load_absent] at h
    cases h
    exact ⟨rfl, _, rfl, decodeState_of_stateText .empty⟩
  | directory => cases h
  | nowhere => cases h

theorem commit_map {α β : Type} (store : Store) (changed : Bool) (result : α) (f : α → β) :
    ((store.commit changed result).1.map f, (store.commit changed result).2) = store.commit changed (f result) := by
  cases changed with
  | false => rfl
  | true =>
    rw [commit, commit, if_pos rfl, if_pos rfl]
    rcases store.save with ⟨_ | _, _⟩ <;> rfl

/-- What a store does for a call: the call on its sessions, and then it saves them if that changed any. -/
theorem call_eq_commit (h : store.reachable = true) (c : Call) : ∃ changed,
    store.call c = { store with sessions := (store.sessions.call c).2 }.commit changed (store.sessions.call c).1 ∧
    (changed = false → (store.sessions.call c).2 = store.sessions) := by
  have hreach : (!store.reachable) = false := by rw [h]; rfl
  cases c with
  | put session =>
    refine ⟨true, ?_, Bool.noConfusion⟩
    rw [call, put, hreach]
    exact commit_map { store with sessions := (store.sessions.put session).2 } true _ Reply.replaced
  | remove id =>
    refine ⟨(store.sessions.remove id).1.isSome, ?_, fun e => Sessions.remove_of_none _ _ (by simpa using e)⟩
    rw [call, remove, hreach]
    exact commit_map { store with sessions := (store.sessions.remove id).2 } _ _ Reply.removed
  | dropExpired now =>
    refine ⟨(store.sessions.dropExpired now).1 != 0, ?_, fun e => Sessions.dropExpired_of_zero _ _ (by simpa using e)⟩
    rw [call, dropExpired, hreach]
    exact commit_map { store with sessions := (store.sessions.dropExpired now).2 } _ _ Reply.dropped
  | find hostname =>
    refine ⟨false, ?_, fun _ => rfl⟩
    rw [call, find, if_pos h]
    rfl

/-- **One call.** It replies as on the sessions alone, and the state file is up to date after it. -/
theorem Durable.call (h : store.Durable) (c : Call) : (store.call c).1 = .ok (store.sessions.call c).1 ∧
    (store.call c).2.sessions = (store.sessions.call c).2 ∧ (store.call c).2.Durable := by
  obtain ⟨content, hb, hd⟩ := h.saved
  obtain ⟨changed, heq, hsame⟩ := call_eq_commit h.reachable c
  cases changed with
  | false =>
    rw [heq, hsame rfl]
    exact ⟨rfl, rfl, h⟩
  | true =>
    have hcommit : store.call c = (.ok (store.sessions.call c).1,
        ⟨(store.sessions.call c).2, .disk (.file (stateText (store.sessions.call c).2)), store.reachable⟩) := by
      rw [heq, commit, if_pos rfl, save, hb]
      rfl
    rw [hcommit]
    exact ⟨rfl, rfl, h.reachable, _, rfl, decodeState_of_stateText _⟩

theorem Durable.after : ∀ (calls : List Call) {store : Store}, store.Durable →
    store.replies calls = (store.sessions.replies calls).map .ok ∧
      (store.after calls).sessions = store.sessions.after calls ∧ (store.after calls).Durable
  | [], _, h => ⟨rfl, rfl, h⟩
  | c :: calls, store, h => by
    obtain ⟨hreply, hsessions, hdurable⟩ := h.call c
    obtain ⟨hreplies, hafter, hlast⟩ := Durable.after calls hdurable
    rw [hsessions] at hreplies hafter
    exact ⟨List.cons_eq_cons.mpr ⟨hreply, hreplies⟩, hafter, hlast⟩

/-- **Restarts can't be observed.** A store with a state file replies to every call as the sessions alone would,
in whatever order they are held. After every call, the state file is loaded as the store that wrote it. -/
theorem restart_unobservable {place : Place} {store : Store} (hload : Store.load place = .ok store)
    (hids : store.sessions.DistinctIds) {sessions : Sessions}
    (hsame : sessions.entries.Perm store.sessions.entries) (calls : List Call) :
    store.replies calls = (sessions.replies calls).map .ok ∧
    (sessions.after calls).entries.Perm (store.after calls).sessions.entries ∧
    ∃ saved, (store.after calls).backing = .disk saved ∧ Store.load saved = .ok (store.after calls) := by
  obtain ⟨hreplies, hafter, hdurable⟩ := Durable.after calls (durable_of_load hload)
  obtain ⟨hsamereplies, hperm⟩ := hids.replies_perm calls hsame.symm
  refine ⟨?_, ?_, hdurable.load⟩
  · rw [hreplies, hsamereplies]
  · rw [hafter]
    exact hperm.symm

/-! Two sessions, one of them with a fraction of a second behind UTC. A call that removes nothing doesn't save. -/

def earlyLimit : Timestamp := ⟨63745056000123400000, -570, by decide, by decide, by decide⟩

def lateLimit : Timestamp := ⟨clockLimit - 1, 90, by decide, by decide, by decide⟩

def quotedSession : Session := ⟨"s\"1\"", "app-e1", "198.51.100.7", earlyLimit, earlyLimit⟩

def lastingSession : Session := ⟨"s2", "\u0001ü-e2", "203.0.113.10", earlyLimit, lateLimit⟩

def twoSessions : Sessions := ⟨[("app-e1", quotedSession), ("\u0001ü-e2", lastingSession)], by decide⟩

def twoSessionsTurned : Sessions := ⟨twoSessions.entries.reverse, by decide⟩

def restartRun : List Call :=
  [.find "APP-E1", .remove "s1", .put ⟨"s2", "Other-E2", "203.0.113.11", earlyLimit, lateLimit⟩,
    .dropExpired earlyLimit, .dropExpired lateLimit, .find "other-e2"]

theorem restart_unobservable_twoSessions : ∃ store, Store.load (.file (stateText twoSessions)) = .ok store ∧
    store.replies restartRun = (twoSessionsTurned.replies restartRun).map .ok ∧
    (twoSessionsTurned.after restartRun).entries.Perm (store.after restartRun).sessions.entries ∧
    ∃ saved, (store.after restartRun).backing = .disk saved ∧ Store.load saved = .ok (store.after restartRun) := by
  have hload : Store.load (.file (stateText twoSessions)) =
      .ok ⟨twoSessions, .disk (.file (stateText twoSessions)), true⟩ := by
    rw [Store.load, ofState, decodeState_of_stateText]
  have hids : twoSessions.DistinctIds := by
    unfold Sessions.DistinctIds
    decide
  exact ⟨_, hload, restart_unobservable hload hids (List.reverse_perm _) restartRun⟩

end Store

end NameServer
