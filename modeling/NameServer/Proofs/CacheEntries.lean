import NameServer.Cache
import NameServer.Proofs.Tables

/-!
# What is in the cache

Where the entries come from that a key has after an operation on the cache.
No operation changes the address of an entry or when it was written: a lookup
only changes when it was used.
-/

namespace NameServer

def CacheEntry.Keeps (e e' : CacheEntry) : Prop := e'.address = e.address ∧ e'.writtenAt = e.writtenAt

theorem CacheEntry.Keeps.refl (e : CacheEntry) : e.Keeps e := ⟨rfl, rfl⟩

namespace Cache

variable {c : Cache} {now : Nat} {key other : String}

/-! ## Looking up -/

theorem isExpired_eq_false_iff {e : CacheEntry} :
    c.isExpired now e = false ↔ now - e.usedAt < c.sliding ∧ now - e.writtenAt < c.absolute := by
  simp only [isExpired, Bool.or_eq_false_iff, decide_eq_false_iff_not, Nat.not_le]

theorem get_disabled (h : c.enabled = false) : c.get now key = (none, c) := by
  rw [get, h]
  rfl

theorem get_cases (hon : c.enabled = true) (now : Nat) (key : String) :
    (∃ e, c.entries.get? key = some e ∧ c.isExpired now e = false ∧
      c.get now key = (some e.address, { c with entries := c.entries.insert key { e with usedAt := now } })) ∨
    (∀ e, c.entries.get? key = some e → c.isExpired now e = true) ∧
      c.get now key = (none, { c with entries := c.entries.erase key }) := by
  unfold get
  rw [if_neg (by simp [hon])]
  cases he : c.entries.get? key with
  | none =>
    refine .inr ⟨fun e h => ?_, ?_⟩
    · cases h
    · rw [Table.erase_eq_self he]
  | some e =>
    cases hx : c.isExpired now e with
    | false => exact .inl ⟨e, rfl, hx, by simp [hx]⟩
    | true =>
      refine .inr ⟨?_, by simp [hx]⟩
      rintro _ ⟨⟩
      exact hx

theorem get_eq_some {address : String} (h : (c.get now key).1 = some address) :
    ∃ e, c.entries.get? key = some e ∧ e.address = address ∧ c.isExpired now e = false := by
  cases hon : c.enabled with
  | false =>
    rw [get_disabled hon] at h
    cases h
  | true =>
    rcases get_cases hon now key with ⟨e, he, hx, hget⟩ | ⟨_, hget⟩
    · rw [hget] at h
      exact ⟨e, he, Option.some.inj h, hx⟩
    · rw [hget] at h
      cases h

theorem entry_of_get {e' : CacheEntry} (h : (c.get now other).2.entries.get? key = some e') :
    ∃ e, c.entries.get? key = some e ∧ e.Keeps e' := by
  cases hon : c.enabled with
  | false =>
    rw [get_disabled hon] at h
    exact ⟨e', h, .refl e'⟩
  | true =>
    rcases get_cases hon now other with ⟨e, he, _, hget⟩ | ⟨_, hget⟩
    · rw [hget] at h
      rcases (Table.get?_insert_eq_some_iff ..).mp h with ⟨rfl, rfl⟩ | ⟨_, hold⟩
      · exact ⟨e, he, rfl, rfl⟩
      · exact ⟨e', hold, .refl e'⟩
    · rw [hget] at h
      exact ⟨e', ((Table.get?_erase_eq_some_iff ..).mp h).2, .refl e'⟩

/-! ## Writing -/

def live (c : Cache) (now : Nat) : Table CacheEntry := c.entries.filter fun _ e => !c.isExpired now e

theorem makeRoom_cases (c : Cache) (now : Nat) (key : String) :
    (c.entries.contains key = true ∨ c.size < c.capacity) ∧ c.makeRoom now key = c.entries ∨
    c.entries.contains key = false ∧ c.capacity ≤ c.size ∧
      ((c.live now).size < c.capacity ∧ c.makeRoom now key = c.live now ∨
        c.capacity ≤ (c.live now).size ∧ c.makeRoom now key = (c.live now).dropOldest) := by
  unfold makeRoom
  by_cases hroom : (c.entries.contains key || decide (c.size < c.capacity)) = true
  · left
    rw [if_pos hroom]
    simpa using hroom
  · right
    rw [if_neg hroom]
    simp only [Bool.or_eq_true, decide_eq_true_eq, not_or, Bool.not_eq_true, Nat.not_lt] at hroom
    refine ⟨hroom.1, hroom.2, ?_⟩
    by_cases hlive : (c.live now).size < c.capacity
    · exact .inl ⟨hlive, if_pos hlive⟩
    · exact .inr ⟨Nat.not_lt.mp hlive, if_neg hlive⟩

theorem makeRoom_sublist (c : Cache) (now : Nat) (key : String) :
    (c.makeRoom now key).entries.Sublist c.entries.entries := by
  rcases c.makeRoom_cases now key with ⟨_, h⟩ | ⟨_, _, ⟨_, h⟩ | ⟨_, h⟩⟩
  · simp only [h, List.Sublist.refl]
  · rw [h]
    exact List.filter_sublist
  · rw [h]
    exact (List.dropLast_sublist _).trans List.filter_sublist

theorem get?_of_makeRoom {e : CacheEntry} (h : (c.makeRoom now other).get? key = some e) :
    c.entries.get? key = some e := by
  rw [Table.get?_eq_some_iff] at h ⊢
  exact (c.makeRoom_sublist now other).subset h

theorem insert_disabled {address : String} (h : c.enabled = false) : c.insert now key address = c := by
  rw [insert, h]
  rfl

theorem insert_entries (hon : c.enabled = true) (now : Nat) (key address : String) :
    (c.insert now key address).entries = (c.makeRoom now key).insert key ⟨address, now, now⟩ := by
  simp [insert, hon]

theorem entry_of_insert {address : String} {e : CacheEntry}
    (h : (c.insert now other address).entries.get? key = some e) :
    c.entries.get? key = some e ∨ key = other ∧ e = ⟨address, now, now⟩ := by
  cases hon : c.enabled with
  | false =>
    rw [insert_disabled hon] at h
    exact .inl h
  | true =>
    rw [insert_entries hon] at h
    rcases (Table.get?_insert_eq_some_iff ..).mp h with hnew | ⟨_, hold⟩
    · exact .inr hnew
    · exact .inl (get?_of_makeRoom hold)

/-! ## Settings -/

/-- The cache without its entries, which is what no operation changes. -/
def emptied (c : Cache) : Cache := { c with entries := .empty }

@[simp] theorem emptied_get (c : Cache) (now : Nat) (key : String) : (c.get now key).2.emptied = c.emptied := by
  unfold get
  split
  · rfl
  · split
    · rfl
    · split <;> rfl

@[simp] theorem emptied_insert (c : Cache) (now : Nat) (key address : String) :
    (c.insert now key address).emptied = c.emptied := by
  unfold insert
  split <;> rfl

@[simp] theorem emptied_remove (c : Cache) (key : String) : (c.remove key).2.emptied = c.emptied := rfl

theorem absolute_of_emptied {c d : Cache} (h : d.emptied = c.emptied) : d.absolute = c.absolute := by
  have := congrArg Cache.absolute h
  exact this

end Cache

end NameServer
