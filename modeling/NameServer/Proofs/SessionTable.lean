import NameServer.Proofs.Tables
import NameServer.Session.Store

/-!
# Sessions under their hostnames

Every operation keeps each session under its own hostname, and reports the
sessions that it takes away. So a hostname that none of them has is still
looked up as before.
-/

namespace NameServer

namespace Sessions

variable {sessions : Sessions} {key : String}

/-- Each session is under its own hostname. -/
def Filed (sessions : Sessions) : Prop :=
  ∀ key session, sessions.get? key = some session → session.hostname = key

theorem filed_empty : Filed .empty := fun _ _ h => nomatch h

theorem Filed.filter (h : Filed sessions) (keep : String → Session → Bool) : Filed (Table.filter sessions keep) :=
  fun key session hs => h key session ((Table.get?_filter_eq_some_iff ..).mp hs).1

theorem Filed.put (h : Filed sessions) (session : Session) : Filed (sessions.put session).2 := by
  intro key found hs
  simp only [Sessions.put] at hs
  rcases (Table.get?_insert_eq_some_iff ..).mp hs with ⟨hk, rfl⟩ | ⟨_, hold⟩
  · exact hk.symm
  · exact h.filter _ key found hold

theorem remove_cases (sessions : Sessions) (id : String) : sessions.remove id = (none, sessions) ∨
    ∃ hostname session, sessions.get? hostname = some session ∧ session.id = id ∧
      sessions.remove id = (some session, sessions.erase hostname) := by
  unfold Sessions.remove
  split
  · exact .inl rfl
  · next hostname session hf =>
    have hid := List.find?_some hf
    have hs := (Table.get?_eq_some_iff ..).mpr (List.mem_of_find?_eq_some hf)
    exact .inr ⟨hostname, session, hs, by simpa using hid, rfl⟩

theorem Filed.remove (h : Filed sessions) (id : String) : Filed (sessions.remove id).2 := by
  rcases remove_cases sessions id with e | ⟨hostname, session, _, _, e⟩
  · rw [e]; exact h
  · rw [e]; exact h.filter _

theorem Filed.dropExpired (h : Filed sessions) (now : Timestamp) : Filed (sessions.dropExpired now).2 := h.filter _

theorem get?_put (hf : Filed sessions) {session : Session} (hk : key ≠ Text.lowered session.hostname)
    (hr : ∀ replaced ∈ (sessions.put session).1, replaced.hostname ≠ key) :
    (sessions.put session).2.get? key = sessions.get? key := by
  simp only [Sessions.put] at hr ⊢
  rw [Table.get?_insert_of_ne _ _ hk]
  refine Table.get?_filter_of_keep fun found hfound => ?_
  -- what is not kept has the same id, so it is one of the replaced
  refine Classical.byContradiction fun hkeep => ?_
  have hsame : found.id = session.id ∧ key ≠ Text.lowered session.hostname := by simpa using hkeep
  refine hr found (List.mem_append_left _ (List.mem_map.mpr ⟨(key, found), ?_, rfl⟩)) (hf key found hfound)
  refine List.mem_filter.mpr ⟨(Table.get?_eq_some_iff ..).mp hfound, ?_⟩
  simp [hsame.1, hsame.2]

theorem get?_remove (hf : Filed sessions) {id : String}
    (hr : ∀ session, (sessions.remove id).1 = some session → session.hostname ≠ key) :
    (sessions.remove id).2.get? key = sessions.get? key := by
  rcases remove_cases sessions id with e | ⟨hostname, session, hs, _, e⟩
  · rw [e]
  · rw [e] at hr ⊢
    refine Table.get?_erase_of_ne sessions fun hk => hr session rfl ?_
    rw [hk]
    exact hf hostname session hs

theorem get?_dropExpired (sessions : Sessions) (now : Timestamp) (key : String) :
    (sessions.dropExpired now).2.get? key = (sessions.get? key).filter fun s => !s.isExpired now := by
  apply Option.ext
  intro session
  rw [Option.filter_eq_some_iff]
  exact Table.get?_filter_eq_some_iff ..

end Sessions

namespace Store

/-- The store can be reached, and its state file can be written. -/
def Writable (store : Store) : Prop :=
  store.reachable = true ∧ ∀ place, store.backing = .disk place → ∀ content, (place.write content).isSome = true

variable {store : Store}

theorem commit_writable {α : Type} (h : store.Writable) (changed : Bool) (result : α) :
    (store.commit changed result).1 = .ok result ∧ (store.commit changed result).2.sessions = store.sessions ∧
      (store.commit changed result).2.Writable := by
  unfold commit
  split
  · unfold save
    cases hb : store.backing with
    | memory => exact ⟨rfl, rfl, h⟩
    | disk place =>
      obtain ⟨place', hp⟩ := Option.isSome_iff_exists.mp (h.2 place hb (stateText store.sessions))
      simp only [hp]
      refine ⟨rfl, trivial, h.1, fun next hnext content => ?_⟩
      cases hnext
      cases place with
      | file _ => cases hp; rfl
      | absent => cases hp; rfl
      | directory => cases hp
      | nowhere => cases hp
  · exact ⟨rfl, rfl, h⟩

theorem put_writable (h : store.Writable) (session : Session) :
    (store.put session).1 = .ok (store.sessions.put session).1 ∧
      (store.put session).2.sessions = (store.sessions.put session).2 ∧ (store.put session).2.Writable := by
  have hreach : (!store.reachable) = false := by rw [h.1]; rfl
  rw [put, hreach]
  have hw : Writable { store with sessions := (store.sessions.put session).2 } := h
  exact commit_writable hw true _

theorem remove_writable (h : store.Writable) (id : String) :
    (store.remove id).1 = .ok (store.sessions.remove id).1 ∧
      (store.remove id).2.sessions = (store.sessions.remove id).2 ∧ (store.remove id).2.Writable := by
  have hreach : (!store.reachable) = false := by rw [h.1]; rfl
  rw [remove, hreach]
  have hw : Writable { store with sessions := (store.sessions.remove id).2 } := h
  exact commit_writable hw _ _

theorem dropExpired_writable (h : store.Writable) (now : Timestamp) :
    (store.dropExpired now).1 = .ok (store.sessions.dropExpired now).1 ∧
      (store.dropExpired now).2.sessions = (store.sessions.dropExpired now).2 ∧
      (store.dropExpired now).2.Writable := by
  have hreach : (!store.reachable) = false := by rw [h.1]; rfl
  rw [dropExpired, hreach]
  have hw : Writable { store with sessions := (store.sessions.dropExpired now).2 } := h
  exact commit_writable hw _ _

theorem sweep_writable (h : store.Writable) (now : Timestamp) :
    (store.sweep now).2.sessions = (store.sessions.dropExpired now).2 ∧ (store.sweep now).2.Writable := by
  obtain ⟨hresult, hrest⟩ := dropExpired_writable h now
  unfold sweep
  rcases hdrop : store.dropExpired now with ⟨error | count, store'⟩
  · rw [hdrop] at hresult
    cases hresult
  · rw [hdrop] at hrest
    exact hrest

end Store

end NameServer
