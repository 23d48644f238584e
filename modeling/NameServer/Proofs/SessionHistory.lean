import Mathlib.Data.List.Nodup
import NameServer.Proofs.SessionTable

/-!
# What becomes of a session

A session that was put is held until a call displaces it: a put with its id or
its hostname, a removal of its id, or an expiry after its end. So what is held
can be told from the calls alone, and a session that leaves is reported by the
call that it leaves at.
-/

namespace NameServer

/-! ## Values with distinct keys -/

section
variable {α β : Type} [BEq β] [LawfulBEq β] {f : α → β} {l : List α}

theorem find?_key_eq_some_iff (hd : (l.map f).Nodup) {b : β} {a : α} :
    l.find? (fun a => f a == b) = some a ↔ a ∈ l ∧ f a = b := by
  constructor
  · intro h
    exact ⟨List.mem_of_find?_eq_some h, by simpa using List.find?_some h⟩
  · rintro ⟨ha, rfl⟩
    cases h : l.find? fun x => f x == f a with
    | none => exact absurd (beq_self_eq_true (f a)) (List.find?_eq_none.mp h a ha)
    | some a' =>
      have hf : f a' = f a := by simpa using List.find?_some h
      rw [List.inj_on_of_nodup_map hd (List.mem_of_find?_eq_some h) ha hf]

theorem filter_key_eq_toList_find? (b : β) : ∀ {l : List α}, (l.map f).Nodup →
    l.filter (fun a => f a == b) = (l.find? fun a => f a == b).toList
  | [], _ => rfl
  | a :: l, hd => by
    rw [List.map_cons, List.nodup_cons] at hd
    by_cases ha : f a = b
    · have hnone : l.filter (fun a => f a == b) = [] := by
        rw [List.filter_eq_nil_iff]
        intro a' ha'
        simp only [beq_iff_eq]
        intro he
        exact hd.1 (List.mem_map.mpr ⟨a', ha', he.trans ha.symm⟩)
      simp [ha, hnone]
    · simp [ha, filter_key_eq_toList_find? b hd.2]

end

namespace Table

variable {α : Type}

theorem values_filter {t : Table α} {keep : String → α → Bool} (f : α → Bool)
    (h : ∀ key value, t.get? key = some value → keep key value = f value) :
    (t.filter keep).values = t.values.filter f := by
  rw [values, values, filter, List.filter_map]
  congr 1
  apply List.filter_congr
  rintro ⟨key, value⟩ he
  exact h key value ((get?_eq_some_iff ..).mpr he)

theorem mem_values_iff {t : Table α} {value : α} : value ∈ t.values ↔ ∃ key, t.get? key = some value := by
  simp only [values, List.mem_map, get?_eq_some_iff]
  constructor
  · rintro ⟨⟨key, _⟩, he, rfl⟩
    exact ⟨key, he⟩
  · rintro ⟨key, he⟩
    exact ⟨(key, value), he, rfl⟩

end Table

def Session.filed (s : Session) : Session := { s with hostname := Text.lowered s.hostname }

namespace Sessions

/-! ## Calls -/

inductive Call where
  | put (session : Session)
  | remove (id : String)
  | dropExpired (now : Timestamp)
  | find (hostname : String)
  deriving DecidableEq

inductive Reply where
  | replaced (sessions : List Session)
  | removed (session : Option Session)
  | dropped (count : Nat)
  | found (session : Option Session)
  deriving DecidableEq

def call (sessions : Sessions) : Call → Reply × Sessions
  | .put session => (.replaced (sessions.put session).1, (sessions.put session).2)
  | .remove id => (.removed (sessions.remove id).1, (sessions.remove id).2)
  | .dropExpired now => (.dropped (sessions.dropExpired now).1, (sessions.dropExpired now).2)
  | .find hostname => (.found (sessions.find hostname), sessions)

def after (sessions : Sessions) : List Call → Sessions
  | [] => sessions
  | c :: cs => (sessions.call c).2.after cs

def replies (sessions : Sessions) : List Call → List Reply
  | [] => []
  | c :: cs => (sessions.call c).1 :: (sessions.call c).2.replies cs

/-! ## What calls do to a session, said without the table -/

/-- The session that a call files. -/
def Call.files : Call → Option Session
  | .put session => some session.filed
  | _ => none

/-- Whether a session that is held has to leave when a call is made. -/
def Call.displaces : Call → Session → Bool
  | .put session, held => held.id == session.id || held.hostname == Text.lowered session.hostname
  | .remove id, held => held.id == id
  | .dropExpired now, held => held.isExpired now
  | .find _, _ => false

/-- A reply names the sessions that left, or counts them if they expired. -/
def Reply.Accounts : Reply → List Session → Prop
  | .replaced sessions, gone => sessions.Perm gone
  | .removed session, gone => session.toList = gone
  | .dropped count, gone => count = gone.length
  | .found _, gone => gone = []

/-- For each call the sessions, held before it, that it displaces. -/
def departures (sessions : Sessions) : List Call → List (List Session)
  | [] => []
  | c :: cs => sessions.values.filter c.displaces :: (sessions.call c).2.departures cs

def DistinctIds (sessions : Sessions) : Prop := (sessions.values.map Session.id).Nodup

/-- Each session is under its own hostname, which is in lower case, and under its own id. -/
structure Indexed (sessions : Sessions) : Prop where
  filed : sessions.Filed
  lowered : ∀ session ∈ sessions.values, Text.lowered session.hostname = session.hostname
  distinctIds : sessions.DistinctIds

theorem indexed_empty : Indexed .empty where
  filed := filed_empty
  lowered := fun _ h => nomatch h
  distinctIds := List.nodup_nil

variable {sessions : Sessions} {session : Session} {c : Call}

theorem Filed.get?_eq_some_iff (h : sessions.Filed) (key : String) :
    sessions.get? key = some session ↔ session ∈ sessions.values ∧ session.hostname = key := by
  rw [Table.mem_values_iff]
  constructor
  · intro hs
    exact ⟨⟨key, hs⟩, h key session hs⟩
  · rintro ⟨⟨key', hs⟩, rfl⟩
    rw [h key' session hs]
    exact hs

theorem Filed.hostname_eq (h : sessions.Filed) :
    sessions.values.map Session.hostname = sessions.entries.map Prod.fst := by
  rw [Table.values, List.map_map]
  apply List.map_congr_left
  rintro ⟨key, session⟩ he
  exact h key session ((Table.get?_eq_some_iff ..).mpr he)

theorem Filed.toList_get? (h : sessions.Filed) (key : String) :
    (sessions.get? key).toList = sessions.values.filter fun s => s.hostname == key := by
  have hd : (sessions.values.map Session.hostname).Nodup := by
    rw [h.hostname_eq]
    exact sessions.distinct
  rw [filter_key_eq_toList_find? key hd]
  congr 1
  apply Option.ext
  intro session
  rw [h.get?_eq_some_iff, find?_key_eq_some_iff hd]

theorem remove_eq (sessions : Sessions) (id : String) : sessions.remove id =
    ((sessions.entries.find? fun e => e.2.id == id).map Prod.snd,
      ((sessions.entries.find? fun e => e.2.id == id).map fun e => Table.erase sessions e.1).getD sessions) := by
  unfold Sessions.remove
  split
  · next h =>
    have hfind : (sessions.entries.find? fun e => e.2.id == id) = none := h
    rw [hfind]
    rfl
  · next hostname session h =>
    have hfind : (sessions.entries.find? fun e => e.2.id == id) = some (hostname, session) := h
    rw [hfind]
    rfl

theorem remove_fst (sessions : Sessions) (id : String) :
    (sessions.remove id).1 = sessions.values.find? fun s => s.id == id := by
  rw [remove_eq, Table.values, List.find?_map]
  rfl

theorem DistinctIds.toList_remove (h : sessions.DistinctIds) (id : String) :
    (sessions.remove id).1.toList = sessions.values.filter fun s => s.id == id := by
  rw [remove_fst, filter_key_eq_toList_find? id h]

/-! ## One call -/

theorem DistinctIds.filter (h : sessions.DistinctIds) (keep : String → Session → Bool) :
    DistinctIds (Table.filter sessions keep) :=
  h.sublist ((List.filter_sublist.map _).map _)

theorem DistinctIds.call (h : sessions.DistinctIds) (c : Call) : (sessions.call c).2.DistinctIds := by
  cases c with
  | put session =>
    let others := Table.filter sessions fun hostname s =>
      s.id != session.id || hostname == Text.lowered session.hostname
    have hothers : DistinctIds (others.erase (Text.lowered session.hostname)) := (h.filter _).filter _
    refine List.nodup_cons.mpr ⟨fun hm => ?_, hothers⟩
    obtain ⟨s, hs, hid⟩ := List.mem_map.mp hm
    obtain ⟨⟨key, s'⟩, he, rfl⟩ := List.mem_map.mp hs
    -- what stays is at another hostname, so its id is another one
    obtain ⟨he, hkey⟩ := List.mem_filter.mp he
    have hkept := (List.mem_filter.mp he).2
    simp only [bne_iff_ne, ne_eq, Bool.or_eq_true, beq_iff_eq] at hkey hkept
    rcases hkept with hkept | hkept
    · exact hkept hid
    · exact hkey hkept
  | remove id =>
    rcases remove_cases sessions id with e | ⟨_, _, _, _, e⟩
    · show (sessions.remove id).2.DistinctIds
      rw [e]
      exact h
    · show (sessions.remove id).2.DistinctIds
      rw [e]
      exact h.filter _
  | dropExpired now => exact h.filter _
  | find hostname => exact h

theorem Filed.values_put (h : sessions.Filed) (session : Session) : (sessions.put session).2.values =
    session.filed :: sessions.values.filter fun s => !(Call.put session).displaces s := by
  show session.filed :: Table.values (Table.erase (Table.filter sessions _) _) = _
  rw [Table.erase, Table.values_filter (fun s => s.hostname != Text.lowered session.hostname),
    Table.values_filter (fun s => s.id != session.id || s.hostname == Text.lowered session.hostname),
    List.filter_filter]
  · congr 1
    apply List.filter_congr
    intro s _
    simp only [Call.displaces, Bool.not_or, bne]
    cases s.id == session.id <;> cases s.hostname == Text.lowered session.hostname <;> rfl
  · intro key s hs
    rw [h key s hs]
  · intro key s hs
    rw [(h.filter _) key s hs]

theorem Indexed.values_remove (h : sessions.Indexed) (id : String) :
    (sessions.remove id).2.values = sessions.values.filter fun s => !(s.id == id) := by
  rcases remove_cases sessions id with e | ⟨hostname, session, hs, hid, e⟩
  · have hnone := h.distinctIds.toList_remove id
    rw [e] at hnone ⊢
    refine (List.filter_eq_self.mpr fun s hs => ?_).symm
    have hmem : ¬ (s.id == id) = true := List.filter_eq_nil_iff.mp hnone.symm s hs
    simpa using hmem
  · rw [e]
    refine Table.values_filter _ fun key s hs' => ?_
    -- the same id is at no other hostname
    have hmem := Table.mem_values_iff.mpr ⟨_, hs⟩
    have hmem' := Table.mem_values_iff.mpr ⟨_, hs'⟩
    rw [Bool.eq_iff_iff]
    simp only [bne_iff_ne, ne_eq, Bool.not_eq_true', beq_eq_false_iff_ne, not_iff_not]
    constructor
    · rintro rfl
      rw [hs] at hs'
      cases hs'
      exact hid
    · intro hid'
      have hsame := List.inj_on_of_nodup_map h.distinctIds hmem' hmem (hid'.trans hid.symm)
      rw [← h.filed key s hs', hsame]
      exact h.filed hostname session hs

/-- **One call.** What it files comes to the front, and of the rest it leaves what it doesn't displace. -/
theorem Indexed.values_call (h : sessions.Indexed) (c : Call) :
    (sessions.call c).2.values = c.files.toList ++ sessions.values.filter fun s => !c.displaces s := by
  cases c with
  | put session => exact h.filed.values_put session
  | remove id => exact h.values_remove id
  | dropExpired now => exact Table.values_filter _ fun _ _ _ => rfl
  | find hostname => exact (List.filter_eq_self.mpr fun _ _ => rfl).symm

theorem Indexed.call (h : sessions.Indexed) (c : Call) : (sessions.call c).2.Indexed where
  filed := by
    cases c with
    | put session => exact h.filed.put session
    | remove id => exact h.filed.remove id
    | dropExpired now => exact h.filed.dropExpired now
    | find hostname => exact h.filed
  lowered := by
    intro session hs
    rw [h.values_call, List.mem_append] at hs
    rcases hs with hs | hs
    · cases c with
      | put session =>
        cases List.mem_singleton.mp hs
        exact Text.lowered_lowered _
      | remove _ | dropExpired _ | find _ => cases hs
    · exact h.lowered session (List.mem_filter.mp hs).1
  distinctIds := h.distinctIds.call c

theorem Filed.put_fst_perm (h : sessions.Filed) (session : Session) :
    (sessions.put session).1.Perm (sessions.values.filter (Call.put session).displaces) := by
  show (Table.values (Table.filter sessions _) ++ (sessions.get? (Text.lowered session.hostname)).toList).Perm _
  rw [h.toList_get?,
    Table.values_filter (fun s => s.id == session.id && s.hostname != Text.lowered session.hostname)]
  · have hsplit := List.filter_append_perm (fun s => s.hostname == Text.lowered session.hostname)
      (sessions.values.filter (Call.put session).displaces)
    refine List.Perm.trans ?_ hsplit
    refine List.perm_append_comm.trans (List.Perm.of_eq ?_)
    rw [List.filter_filter, List.filter_filter]
    congr 1
    · apply List.filter_congr
      intro s _
      simp only [Call.displaces]
      cases s.id == session.id <;> cases s.hostname == Text.lowered session.hostname <;> rfl
    · apply List.filter_congr
      intro s _
      simp only [Call.displaces, bne]
      cases s.id == session.id <;> cases s.hostname == Text.lowered session.hostname <;> rfl
  · intro key s hs
    rw [h key s hs]

theorem dropExpired_fst (sessions : Sessions) (now : Timestamp) :
    (sessions.dropExpired now).1 = (sessions.values.filter fun s => s.isExpired now).length := by
  show sessions.size - Table.size (Table.filter sessions fun _ s => !s.isExpired now) = _
  have hsize : ∀ t : Sessions, t.size = t.values.length := fun t => (List.length_map ..).symm
  have hlive : (Table.filter sessions fun _ s => !s.isExpired now).values =
      sessions.values.filter fun s => !s.isExpired now := Table.values_filter _ fun _ _ _ => rfl
  have hsplit := (List.filter_append_perm (fun s => s.isExpired now) sessions.values).length_eq
  rw [List.length_append] at hsplit
  rw [hsize, hsize, hlive]
  omega

/-- A reply tells what leaves. -/
theorem Indexed.accounts_call (h : sessions.Indexed) (c : Call) :
    (sessions.call c).1.Accounts (sessions.values.filter c.displaces) := by
  cases c with
  | put session => exact h.filed.put_fst_perm session
  | remove id => exact h.distinctIds.toList_remove id
  | dropExpired now => exact dropExpired_fst sessions now
  | find hostname => exact List.filter_eq_nil_iff.mpr fun _ _ => Bool.false_ne_true

/-! ## Runs -/

theorem Indexed.after : ∀ {calls : List Call} {sessions : Sessions}, sessions.Indexed → (sessions.after calls).Indexed
  | [], _, h => h
  | c :: calls, sessions, h => by
    show ((sessions.call c).2.after calls).Indexed
    exact (h.call c).after

theorem Indexed.mem_values_after : ∀ {calls : List Call} {sessions : Sessions}, sessions.Indexed →
    (session ∈ (sessions.after calls).values ↔
      (∃ before c later, calls = before ++ c :: later ∧ c.files = some session ∧
        ∀ c' ∈ later, c'.displaces session = false) ∨
      session ∈ sessions.values ∧ ∀ c ∈ calls, c.displaces session = false)
  | [], _, _ => by
    simp [Sessions.after]
  | c :: calls, sessions, h => by
    show session ∈ ((sessions.call c).2.after calls).values ↔ _
    rw [(h.call c).mem_values_after, h.values_call, List.mem_append, List.mem_filter, Option.mem_toList]
    simp only [Bool.not_eq_true']
    constructor
    · rintro (⟨before, c', later, rfl, hf, hl⟩ | ⟨hf | ⟨hs, hd⟩, hl⟩)
      · exact .inl ⟨c :: before, c', later, rfl, hf, hl⟩
      · exact .inl ⟨[], c, calls, rfl, hf, hl⟩
      · exact .inr ⟨hs, List.forall_mem_cons.mpr ⟨hd, hl⟩⟩
    · rintro (⟨before, c', later, hcalls, hf, hl⟩ | ⟨hs, hl⟩)
      · rcases List.cons_eq_append_iff.mp hcalls with ⟨rfl, hcons⟩ | ⟨before', rfl, rfl⟩
        · cases hcons
          exact .inr ⟨.inl hf, hl⟩
        · exact .inl ⟨before', c', later, rfl, hf, hl⟩
      · obtain ⟨hd, hl⟩ := List.forall_mem_cons.mp hl
        exact .inr ⟨.inr ⟨hs, hd⟩, hl⟩

theorem Indexed.accounts_replies : ∀ {calls : List Call} {sessions : Sessions}, sessions.Indexed →
    List.Forall₂ Reply.Accounts (sessions.replies calls) (sessions.departures calls)
  | [], _, _ => .nil
  | c :: _, _, h => .cons (h.accounts_call c) (Indexed.accounts_replies (h.call c))

theorem Indexed.balance : ∀ (calls : List Call) {sessions : Sessions}, sessions.Indexed →
    ((sessions.departures calls).flatten ++ (sessions.after calls).values).Perm
      (sessions.values ++ calls.filterMap Call.files)
  | [], _, _ => by simp [departures, Sessions.after]
  | c :: calls, sessions, h => by
    show (sessions.values.filter c.displaces ++ ((sessions.call c).2.departures calls).flatten ++
      ((sessions.call c).2.after calls).values).Perm _
    have hrest := balance calls (h.call c)
    rw [h.values_call] at hrest
    have hsplit := List.filter_append_perm c.displaces sessions.values
    have hfiles : (c :: calls).filterMap Call.files = c.files.toList ++ calls.filterMap Call.files := by
      cases hc : c.files <;> simp [hc]
    rw [List.perm_iff_count]
    intro session
    have hr := hrest.count_eq session
    have hs := hsplit.count_eq session
    simp only [hfiles, List.count_append] at hr hs ⊢
    omega

/-- **No session is lost silently.** A lookup finds the session that was put last under a hostname, in any letter
case, if no call since then displaced it, and otherwise none. Each session that was put is either held or reported
by the one call that displaced it. -/
theorem loses_nothing (calls : List Call) :
    (after .empty calls).Indexed ∧
    (∀ hostname session, (after .empty calls).find hostname = some session ↔
      ∃ before last later, calls = before ++ .put last :: later ∧ session = last.filed ∧
        Text.lowered last.hostname = Text.lowered hostname ∧ ∀ c ∈ later, c.displaces session = false) ∧
    List.Forall₂ Reply.Accounts (replies .empty calls) (departures .empty calls) ∧
    ((departures .empty calls).flatten ++ (after .empty calls).values).Perm (calls.filterMap Call.files) := by
  refine ⟨indexed_empty.after, fun hostname session => ?_, indexed_empty.accounts_replies,
    Indexed.balance calls indexed_empty⟩
  rw [find, indexed_empty.after.filed.get?_eq_some_iff, indexed_empty.mem_values_after]
  constructor
  · rintro ⟨⟨before, c, later, rfl, hf, hl⟩ | ⟨hs, _⟩, hk⟩
    · cases c with
      | put last =>
        cases hf
        exact ⟨before, last, later, rfl, rfl, hk, hl⟩
      | remove _ | dropExpired _ | find _ => cases hf
    · cases hs
  · rintro ⟨before, last, later, rfl, rfl, hk, hl⟩
    exact ⟨.inl ⟨before, .put last, later, rfl, rfl, hl⟩, hk⟩

end Sessions

end NameServer
