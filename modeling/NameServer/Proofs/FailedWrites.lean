import NameServer.Proofs.CacheEffects
import NameServer.Proofs.Interleaving
import NameServer.Proofs.Restart

/-!
# Writes that fail

A store changes its sessions first and then writes them out, and it doesn't
take the change back when the write fails. So a call that fails in this way is
done all the same as far as lookups go. An event that fails has changed the
store but leaves the cache as it is.
-/

namespace NameServer

open Sessions (Call)

/-! ## Lookups after a call -/

namespace Sessions

variable (sessions : Sessions) (hostname : String)

theorem find_put (session : Session) : (sessions.put session).2.find hostname =
    if Text.lowered hostname = Text.lowered session.hostname then some session.filed
    else (sessions.find hostname).filter fun held => held.id != session.id := by
  simp only [put, find]
  split
  · next hk =>
    rw [hk, Table.get?_insert_self]
    rfl
  · next hk =>
    rw [Table.get?_insert_of_ne _ _ hk]
    apply Option.ext
    intro held
    rw [Option.filter_eq_some_iff, Table.get?_filter_eq_some_iff]
    simp [hk]

theorem find_remove (id : String) : (sessions.remove id).2.find hostname =
    if (sessions.entries.find? fun e => e.2.id == id).map Prod.fst = some (Text.lowered hostname) then none
    else sessions.find hostname := by
  rw [remove_eq, find, find]
  cases sessions.entries.find? fun e => e.2.id == id with
  | none => simp
  | some e =>
    by_cases hk : Text.lowered hostname = e.1
    · simp [hk]
    · simp [Table.get?_erase_of_ne _ hk, Ne.symm hk]

/-- Whether a lookup finds the same before and after a call. -/
def Call.spares : Call → Bool
  | .put session =>
    if Text.lowered hostname = Text.lowered session.hostname then sessions.find hostname = some session.filed
    else (sessions.find hostname).all fun held => held.id != session.id
  | .remove id =>
    (sessions.entries.find? fun e => e.2.id == id).all fun e => e.1 != Text.lowered hostname
  | .dropExpired now => (sessions.find hostname).all fun held => !held.isExpired now
  | .find _ => true

theorem Call.spares_iff (c : Call) : c.spares sessions hostname = true ↔
    (sessions.call c).2.find hostname = sessions.find hostname := by
  have hfilter : ∀ p : Session → Bool,
      (sessions.find hostname).all p = true ↔ (sessions.find hostname).filter p = sessions.find hostname := by
    intro p
    rw [← Option.filter_beq_self, beq_iff_eq]
  cases c with
  | put session =>
    rw [spares, Sessions.call, find_put]
    split
    · rw [decide_eq_true_iff, eq_comm]
    · exact hfilter _
  | remove id =>
    rw [spares, Sessions.call, find_remove]
    cases hfirst : sessions.entries.find? fun e => e.2.id == id with
    | none => simp
    | some e =>
      have hheld : sessions.get? e.1 = some e.2 := (Table.get?_eq_some_iff ..).mpr (List.mem_of_find?_eq_some hfirst)
      by_cases hk : e.1 = Text.lowered hostname
      · rw [Sessions.find, ← hk, hheld]
        simp
      · simp [hk]
  | dropExpired now =>
    rw [spares, Sessions.call, hfilter, Sessions.find, Sessions.find, get?_dropExpired]
  | find other => exact iff_of_true rfl rfl

end Sessions

/-! ## Stores -/

namespace Store

variable {store : Store} {error : FileError}

theorem save_cases (store : Store) :
    (∃ backing, store.save = (.ok (), { store with backing })) ∨ store.save = (.error .io, store) := by
  unfold save
  split
  · exact .inl ⟨store.backing, rfl⟩
  · split
    · next place' _ => exact .inl ⟨.disk place', rfl⟩
    · exact .inr rfl

theorem commit_cases {α : Type} (store : Store) (changed : Bool) (result : α) :
    (∃ backing, store.commit changed result = (.ok result, { store with backing })) ∨
    store.commit changed result = (.error .io, store) := by
  cases changed with
  | false => exact .inl ⟨store.backing, rfl⟩
  | true =>
    rw [commit, if_pos rfl]
    rcases save_cases store with ⟨backing, hsave⟩ | hsave
    · rw [hsave]
      exact .inl ⟨backing, rfl⟩
    · rw [hsave]
      exact .inr rfl

/-- The sessions that a call leaves don't depend on whether they can be saved. -/
theorem call_cases (h : store.reachable = true) (c : Call) :
    (∃ backing, store.call c = (.ok (store.sessions.call c).1, ⟨(store.sessions.call c).2, backing, true⟩)) ∨
    store.call c = (.error .io, ⟨(store.sessions.call c).2, store.backing, true⟩) := by
  obtain ⟨changed, heq, _⟩ := call_eq_commit h c
  rw [heq, ← h]
  exact commit_cases { store with sessions := (store.sessions.call c).2 } changed (store.sessions.call c).1

theorem sessions_after : ∀ (calls : List Call) {store : Store}, store.reachable = true →
    (store.after calls).sessions = store.sessions.after calls ∧ (store.after calls).reachable = true
  | [], _, h => ⟨rfl, h⟩
  | c :: calls, store, h => by
    show ((store.call c).2.after calls).sessions = (store.sessions.call c).2.after calls ∧
      ((store.call c).2.after calls).reachable = true
    rcases call_cases h c with ⟨backing, hcall⟩ | hcall
    · rw [hcall]
      exact sessions_after calls rfl
    · rw [hcall]
      exact sessions_after calls rfl

/-- A call whose write failed is done all the same, but for the state file. -/
structure DoneUnsaved (store : Store) (c : Call) : Prop where
  state : (store.call c).2 = { store with sessions := (store.sessions.call c).2 }
  spared : ∀ hostname, (store.call c).2.find hostname = store.find hostname ↔ c.spares store.sessions hostname = true
  later : ∀ more hostname, ((store.call c).2.after more).find hostname =
    .ok ((store.sessions.after (c :: more)).find hostname)

theorem doneUnsaved (h : store.reachable = true) {c : Call} (herror : (store.call c).1 = .error error) :
    store.DoneUnsaved c := by
  have hstate : (store.call c).2 = { store with sessions := (store.sessions.call c).2 } := by
    rcases call_cases h c with ⟨backing, hcall⟩ | hcall
    · rw [hcall] at herror
      cases herror
    · rw [hcall, h]
  refine ⟨hstate, fun hostname => ?_, fun more hostname => ?_⟩
  · rw [hstate, Call.spares_iff, find, find, h]
    simp
  · obtain ⟨hsessions, hreachable⟩ := sessions_after (c :: more) h
    show (store.after (c :: more)).find hostname = _
    rw [find, hreachable, hsessions]
    rfl

end Store

/-! ## Events -/

namespace Server

variable {s : Server} {op : Operation} {error : FileError}

/-- The call that an event makes to the store. -/
def callOf? (s : Server) : Operation → Option Call
  | .opened event => (s.proxies.get? event.entryId).map fun address => .put (event.session s.config.zones address)
  | .closed event => some (.remove event.id)
  | _ => none

theorem step_of_error (h : (s.step op).1 = some (.session (.error (.store error)))) :
    ∃ c, s.callOf? op = some c ∧ (s.store.call c).1 = .error error ∧
      (s.step op).2 = { s with store := (s.store.call c).2 } := by
  cases op with
  | opened event =>
    rw [step, opened] at h ⊢
    rcases SessionState.opened_cases ⟨s.store, s.cache⟩ s.config.zones s.proxies event with
      heq | ⟨address, haddress, ⟨error', herror, heq⟩ | heq⟩
    · rw [heq] at h
      cases h
    · rw [heq] at h ⊢
      cases h
      refine ⟨.put (event.session s.config.zones address), by rw [callOf?, haddress]; rfl, ?_, rfl⟩
      exact congrArg (Except.map _) herror
    · rw [heq] at h
      cases h
  | closed event =>
    rw [step, closed] at h ⊢
    rcases SessionState.closed_cases ⟨s.store, s.cache⟩ event with ⟨error', herror, heq⟩ | ⟨_, heq⟩ | ⟨_, _, heq⟩
    · rw [heq] at h ⊢
      cases h
      exact ⟨.remove event.id, rfl, congrArg (Except.map _) herror, rfl⟩
    · rw [heq] at h
      cases h
    · rw [heq] at h
      cases h
  | query _ | evict _ | clear | tokens _ | tokenFile _ | sweep _ | proxies _ | advance _ => cases h

theorem answersTo_eq_iff {s' : Server} {packet : List UInt8} {host : TunnelHost} (hasked : s.asked? packet = some host)
    (hconfig : s'.config = s.config) (hcached : s'.cached? host.key = s.cached? host.key) :
    s'.answersTo packet = s.answersTo packet ↔
      (s.cached? host.key).isSome = true ∨ s'.addressAt host.key = s.addressAt host.key := by
  obtain ⟨owner, hanswers⟩ := answersTo_of_asked? hasked
  obtain ⟨hostname, hhost⟩ := ofString?_of_asked? hasked
  rw [hanswers s' hconfig, hanswers s rfl, hconfig, resolved_eq s' hhost, resolved_eq s hhost, hcached]
  cases s.cached? host.key with
  | some ip => simp
  | none =>
    cases s'.addressAt host.key <;> cases s.addressAt host.key <;> simp [Record.address]

/-- An event whose write failed has changed the store and nothing else. A later query is answered as without the
event exactly if the cache has an address by then, or what is behind the cache has the same one. -/
structure DoneUnsaved (s : Server) (op : Operation) (c : Call) : Prop where
  state : (s.step op).2 = { s with store := (s.store.call c).2 }
  answers : ∀ wait packet host, s.asked? packet = some host →
    (((s.step op).2.advance wait).answersTo packet = (s.advance wait).answersTo packet ↔
      ((s.advance wait).cached? host.key).isSome = true ∨ (s.step op).2.addressAt host.key = s.addressAt host.key)

/-- **A failed write isn't taken back.** A call that fails to save what it changed is done all the same, and so is
the call of an event that fails with it. -/
theorem failed_write_done (h : s.store.reachable = true) :
    (∀ c error, (s.store.call c).1 = .error error → s.store.DoneUnsaved c) ∧
    ∀ op error, (s.step op).1 = some (.session (.error (.store error))) →
      ∃ c, s.callOf? op = some c ∧ s.store.DoneUnsaved c ∧ s.DoneUnsaved op c := by
  refine ⟨fun c error herror => Store.doneUnsaved h herror, fun op error hfailed => ?_⟩
  obtain ⟨c, hc, herror, hstate⟩ := step_of_error hfailed
  refine ⟨c, hc, Store.doneUnsaved h herror, hstate, fun wait packet host hasked => ?_⟩
  rw [hstate]
  exact answersTo_eq_iff (s := s.advance wait) hasked rfl rfl

/-! The directory of a state file is gone when a session is closed. The store fails and forgets the session. -/

def stuckServer : Server :=
  let s := (System.twoEntries.opened System.movedSession).2
  { s with store := { s.store with backing := .disk .nowhere } }

theorem stuck_closed : (stuckServer.store.call (.remove "s1")).1 = .error .io ∧
    (stuckServer.store.call (.remove "s1")).2.find "other-e1" = stuckServer.store.find "other-e1" ∧
    (stuckServer.step (.closed ⟨"s1", none⟩)).1 = some (.session (.error (.store .io))) ∧
    (stuckServer.step (.closed ⟨"s1", none⟩)).2 =
      { stuckServer with store := (stuckServer.store.call (.remove "s1")).2 } ∧
    ((stuckServer.step (.closed ⟨"s1", none⟩)).2.advance 1000).answersTo appQuery ≠
      (stuckServer.advance 1000).answersTo appQuery := by
  have hremove : (stuckServer.store.call (.remove "s1")).1 = .error .io := by decide +kernel
  have hclosed : (stuckServer.step (.closed ⟨"s1", none⟩)).1 = some (.session (.error (.store .io))) := rfl
  obtain ⟨hcalls, hevents⟩ := failed_write_done (s := stuckServer) rfl
  obtain ⟨c, hc, _, hdone⟩ := hevents _ _ hclosed
  cases hc
  have hasked : stuckServer.asked? appQuery = some appHost := by
    rw [asked?, decode_appQuery]
    decide +kernel
  refine ⟨hremove, ((hcalls _ _ hremove).spared "other-e1").mpr (by decide +kernel), hclosed, hdone.state, ?_⟩
  rw [ne_eq, hdone.answers 1000 appQuery appHost hasked]
  decide +kernel

theorem stuck_session_forgotten :
    (∃ session, stuckServer.store.find "app-e1" = .ok (some session)) ∧
    (stuckServer.store.remove "s1").1 = .error .io ∧
    (stuckServer.store.remove "s1").2.find "app-e1" = .ok none ∧
    (stuckServer.closed ⟨"s1", none⟩).1 = .error (.store .io) ∧
    stuckServer.answersTo appQuery = [.address "app-e1.tunnel4.com" 30 ⟨203, 0, 113, 11⟩] ∧
    (stuckServer.closed ⟨"s1", none⟩).2.answersTo appQuery =
      [.address "app-e1.tunnel4.com" 30 ⟨203, 0, 113, 10⟩] := by
  refine ⟨⟨_, rfl⟩, ?_⟩
  rw [answersTo, answersTo, decode_appQuery]
  decide +kernel

end Server

end NameServer
