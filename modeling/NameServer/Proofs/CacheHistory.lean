import Mathlib.Data.Finset.Card
import NameServer.Proofs.CacheEntries

/-!
# What a cache was used for

A history is a list of calls with their times, the latest call first. From it
alone one can tell what a lookup finds: the value of the latest insert, as long
as both times allow it and not too many other keys were used since.
-/

namespace NameServer.Cache

inductive Call where
  | insert (key address : String)
  | get (key : String)
  | remove (key : String)
  | clear
  deriving DecidableEq

/-- Whether a call writes a key or takes it out, whatever is in the cache. -/
def Call.overrides (key : String) : Call → Bool
  | .insert other _ => other == key
  | .get _ => false
  | .remove other => other == key
  | .clear => true

def call (c : Cache) (now : Nat) : Call → Cache
  | .insert key address => c.insert now key address
  | .get key => (c.get now key).2
  | .remove key => (c.remove key).2
  | .clear => c.clear.2

def after (c : Cache) : List (Nat × Call) → Cache
  | [] => c
  | (now, call) :: earlier => (c.after earlier).call now call

def used? (c : Cache) (now : Nat) : Call → Option String
  | .insert key _ => some key
  | .get key => (c.get now key).1.map fun _ => key
  | .remove _ => none
  | .clear => none

/-- The keys that were inserted or found, each with its time, the latest first. -/
def uses (c : Cache) : List (Nat × Call) → List (String × Nat)
  | [] => []
  | (now, call) :: earlier =>
    match (c.after earlier).used? now call with
    | none => c.uses earlier
    | some key => (key, now) :: c.uses earlier

/-- The keys that were inserted or found after a key last was. -/
def usedSince (c : Cache) (history : List (Nat × Call)) (key : String) : List String :=
  ((c.uses history).map Prod.fst).takeWhile (· != key)

variable {c : Cache} {now : Nat} {key other address : String} {earlier : List (Nat × Call)} {op : Call}

/-! ## Settings -/

@[simp] theorem emptied_call (c : Cache) (now : Nat) (op : Call) : (c.call now op).emptied = c.emptied := by
  cases op with
  | insert key address => exact emptied_insert ..
  | get key => exact emptied_get ..
  | remove key => exact emptied_remove ..
  | clear => rfl

theorem emptied_after (c : Cache) : ∀ history, (c.after history).emptied = c.emptied
  | [] => rfl
  | (now, op) :: earlier => (emptied_call _ now op).trans (emptied_after c earlier)

@[simp] theorem enabled_after (c : Cache) (history : List (Nat × Call)) : (c.after history).enabled = c.enabled := by
  have h := congrArg Cache.enabled (c.emptied_after history)
  exact h

@[simp] theorem capacity_after (c : Cache) (history : List (Nat × Call)) :
    (c.after history).capacity = c.capacity := by
  have h := congrArg Cache.capacity (c.emptied_after history)
  exact h

@[simp] theorem isExpired_after (c : Cache) (history : List (Nat × Call)) (now : Nat) (e : CacheEntry) :
    (c.after history).isExpired now e = c.isExpired now e := by
  have h := congrArg (Cache.isExpired · now e) (c.emptied_after history)
  exact h

/-! ## Uses -/

theorem uses_of_not_used (h : (c.after earlier).used? now op = none) : c.uses ((now, op) :: earlier) = c.uses earlier := by
  simp [uses, h]

theorem uses_of_used (h : (c.after earlier).used? now op = some key) :
    c.uses ((now, op) :: earlier) = (key, now) :: c.uses earlier := by
  simp [uses, h]

theorem usedSince_of_not_used (h : (c.after earlier).used? now op = none) (key : String) :
    c.usedSince ((now, op) :: earlier) key = c.usedSince earlier key := by
  rw [usedSince, usedSince, uses_of_not_used h]

theorem usedSince_of_used (h : (c.after earlier).used? now op = some other) (hne : other ≠ key) :
    c.usedSince ((now, op) :: earlier) key = other :: c.usedSince earlier key := by
  simp [usedSince, uses_of_used h, hne]

theorem usedSince_subset (h : (c.after earlier).used? now op ≠ some key) :
    c.usedSince earlier key ⊆ c.usedSince ((now, op) :: earlier) key ∧
      (c.uses ((now, op) :: earlier)).lookup key = (c.uses earlier).lookup key := by
  cases hu : (c.after earlier).used? now op with
  | none =>
    rw [usedSince_of_not_used hu, uses_of_not_used hu]
    exact ⟨List.Subset.refl _, rfl⟩
  | some other =>
    have hne : other ≠ key := fun e => h (by rw [hu, e])
    rw [usedSince_of_used hu hne, uses_of_used hu, List.lookup_cons, beq_false_of_ne (Ne.symm hne)]
    exact ⟨List.subset_cons_self _ _, rfl⟩

/-! ## Calls -/

/-- A call moves an entry of the key that it uses to the front, and otherwise only takes entries away. -/
theorem entries_of_call (hon : c.enabled = true) (now : Nat) (op : Call) :
    c.used? now op = none ∧ (c.call now op).entries.entries.Sublist c.entries.entries ∨
    ∃ key e kept, c.used? now op = some key ∧ (c.call now op).entries.entries = (key, e) :: kept ∧
      kept.Sublist c.entries.entries ∧ (∀ a ∈ kept, a.1 ≠ key) ∧ e.usedAt = now ∧
      (e.writtenAt = now ∨ ∃ e₀, (key, e₀) ∈ c.entries.entries ∧ e₀.writtenAt = e.writtenAt) := by
  have herase : ∀ (t : Table CacheEntry) (key : String), ∀ a ∈ (t.erase key).entries, a.1 ≠ key := by
    intro t key a ha
    simpa using (List.mem_filter.mp ha).2
  cases op with
  | insert key address =>
    refine .inr ⟨key, ⟨address, now, now⟩, ((c.makeRoom now key).erase key).entries, rfl, ?_, ?_, herase _ _, rfl, .inl rfl⟩
    · rw [call, insert_entries hon]
      rfl
    · exact List.filter_sublist.trans (c.makeRoom_sublist now key)
  | get key =>
    rcases get_cases hon now key with ⟨e, he, _, h⟩ | ⟨_, h⟩
    · refine .inr ⟨key, { e with usedAt := now }, (c.entries.erase key).entries, ?_, ?_, List.filter_sublist, herase _ _,
        rfl, .inr ⟨e, (Table.get?_eq_some_iff ..).mp he, rfl⟩⟩
      · simp [used?, h]
      · simp only [call, h]
        rfl
    · refine .inl ⟨by simp [used?, h], ?_⟩
      simp only [call, h]
      exact List.filter_sublist
  | remove key => exact .inl ⟨rfl, List.filter_sublist⟩
  | clear => exact .inl ⟨rfl, List.nil_sublist _⟩

/-- Where the entry of a key comes from: an insert, a lookup that found it, or from before. -/
theorem entry_of_call {e' : CacheEntry} (hon : c.enabled = true) (he : (c.call now op).entries.get? key = some e') :
    op = .insert key e'.address ∧ e' = ⟨e'.address, now, now⟩ ∨
    (op = .get key ∧ c.used? now op = some key ∧ ∃ e, c.entries.get? key = some e ∧ e' = { e with usedAt := now }) ∨
    op.overrides key = false ∧ c.used? now op ≠ some key ∧ c.entries.get? key = some e' := by
  cases op with
  | insert other address =>
    rw [call, insert_entries hon] at he
    rcases (Table.get?_insert_eq_some_iff ..).mp he with ⟨rfl, rfl⟩ | ⟨hk, hold⟩
    · exact .inl ⟨rfl, rfl⟩
    · refine .inr (.inr ⟨?_, ?_, get?_of_makeRoom hold⟩)
      · simp [Call.overrides, Ne.symm hk]
      · simp [used?, Ne.symm hk]
  | get other =>
    rcases get_cases hon now other with ⟨e, hold, _, h⟩ | ⟨_, h⟩
    · simp only [call, h] at he
      rcases (Table.get?_insert_eq_some_iff ..).mp he with ⟨rfl, rfl⟩ | ⟨hk, hsame⟩
      · exact .inr (.inl ⟨rfl, by simp [used?, h], e, hold, rfl⟩)
      · exact .inr (.inr ⟨rfl, by simp [used?, h, Ne.symm hk], hsame⟩)
    · simp only [call, h] at he
      exact .inr (.inr ⟨rfl, by simp [used?, h], ((Table.get?_erase_eq_some_iff ..).mp he).2⟩)
  | remove other =>
    obtain ⟨hk, hold⟩ := (Table.get?_erase_eq_some_iff ..).mp he
    exact .inr (.inr ⟨by simp [Call.overrides, Ne.symm hk], by simp [used?], hold⟩)
  | clear => cases he

theorem held_of_used (hon : c.enabled = true) (h : c.used? now op = some key) :
    ∃ e, (c.call now op).entries.get? key = some e := by
  rcases entries_of_call hon now op with ⟨hnot, _⟩ | ⟨other, e, kept, hused, hentries, _⟩
  · rw [hnot] at h
    cases h
  · rw [hused] at h
    cases h
    refine ⟨e, (Table.get?_eq_some_iff ..).mpr ?_⟩
    rw [hentries]
    exact List.mem_cons_self ..

/-! ## Histories -/

section
variable (hon : c.enabled = true) (hempty : c.entries = .empty)
include hon hempty

/-- An entry tells the latest insert of its key and the latest use. -/
theorem entry_of_history {key : String} : ∀ {history : List (Nat × Call)} {e : CacheEntry},
    (c.after history).entries.get? key = some e →
    history.find? (·.2.overrides key) = some (e.writtenAt, .insert key e.address) ∧
      (c.uses history).lookup key = some e.usedAt
  | [], e, he => by
    rw [after, hempty] at he
    cases he
  | (now, op) :: earlier, e', he => by
    have hon' : (c.after earlier).enabled = true := by simp [hon]
    rcases entry_of_call hon' he with ⟨hop, hnew⟩ | ⟨hop, hused, e, hold, rfl⟩ | ⟨hkeep, hused, hold⟩
    · have hused : (c.after earlier).used? now op = some key := by rw [hop]; rfl
      rw [uses_of_used hused, hop, hnew]
      simp [Call.overrides]
    · obtain ⟨hwritten, _⟩ := entry_of_history hold
      rw [uses_of_used hused, hop]
      exact ⟨hwritten, List.lookup_cons_self⟩
    · obtain ⟨hwritten, hlast⟩ := entry_of_history hold
      rw [(usedSince_subset hused).2, hlast]
      simp [hkeep, hwritten]

/-- The entries stand in the order of their last use, the latest first. -/
theorem ordered_after : ∀ history : List (Nat × Call),
    (c.after history).entries.entries.Pairwise fun a b => a.1 ∈ c.usedSince history b.1
  | [] => by
    rw [after, hempty]
    exact .nil
  | (now, op) :: earlier => by
    have ih := ordered_after earlier
    have hon' : (c.after earlier).enabled = true := by simp [hon]
    rcases entries_of_call hon' now op with ⟨hused, hsub⟩ | ⟨key, e, kept, hused, hentries, hsub, hne, _⟩
    · simp only [usedSince_of_not_used hused]
      exact ih.sublist hsub
    · rw [after, hentries, List.pairwise_cons]
      constructor
      · intro b hb
        rw [usedSince_of_used hused (Ne.symm (hne b hb))]
        exact List.mem_cons_self ..
      · refine List.Pairwise.imp_of_mem ?_ (ih.sublist hsub)
        intro a b _ hb hab
        rw [usedSince_of_used hused (Ne.symm (hne b hb))]
        exact List.mem_cons_of_mem _ hab

end

/-! ## What stays -/

theorem card_toFinset_le {l m : List String} (h : l ⊆ m) : l.toFinset.card ≤ m.toFinset.card := by
  apply Finset.card_le_card
  intro k hk
  exact List.mem_toFinset.mpr (h (List.mem_toFinset.mp hk))

/-- A live entry stays when room is made, unless too many keys were used after its own. -/
theorem get?_makeRoom {e : CacheEntry} (he : c.entries.get? key = some e) (hlive : c.isExpired now e = false)
    {since : List String} (hsince : c.entries.entries.Pairwise fun a b => b.1 = key → a.1 ∈ since)
    (hfew : (other :: since).toFinset.card < c.capacity) : (c.makeRoom now other).get? key = some e := by
  have hmem : (c.live now).get? key = some e := by
    rw [live, Table.get?_filter_eq_some_iff, hlive]
    exact ⟨he, rfl⟩
  rcases c.makeRoom_cases now other with ⟨_, h⟩ | ⟨hother, _, ⟨_, h⟩ | ⟨hfull, h⟩⟩
  · rw [h, he]
  · rw [h, hmem]
  · rw [h, Table.get?_eq_some_iff]
    rw [Table.get?_eq_some_iff] at hmem
    have hne : (c.live now).entries ≠ [] := List.ne_nil_of_mem hmem
    have hsplit := List.dropLast_append_getLast hne
    rw [← hsplit, List.mem_append, List.mem_singleton] at hmem
    rcases hmem with hmem | hlast
    · exact hmem
    -- the entry is the last one, so all the others were used since
    · exfalso
      have hpair : (c.live now).entries.Pairwise fun a b => b.1 = key → a.1 ∈ since := hsince.sublist List.filter_sublist
      rw [← hsplit, ← hlast, List.pairwise_append] at hpair
      have hsub : other :: (c.live now).dropOldest.entries.map Prod.fst ⊆ other :: since := by
        apply List.cons_subset_cons
        intro k hk
        obtain ⟨a, ha, rfl⟩ := List.mem_map.mp hk
        exact hpair.2.2 a ha (key, e) (List.mem_singleton_self _) rfl
      have hnot : other ∉ (c.live now).dropOldest.entries.map Prod.fst := by
        have hnone : c.entries.get? other = none := by simpa [Table.contains] using hother
        intro hk
        exact Table.notMem_keys hnone
          ((((List.dropLast_sublist _).trans List.filter_sublist).map Prod.fst).subset hk)
      have hnodup := List.nodup_cons.mpr ⟨hnot, (c.live now).dropOldest.distinct⟩
      have hcard := card_toFinset_le hsub
      rw [List.toFinset_card_of_nodup hnodup, List.length_cons, List.length_map] at hcard
      have hlen : (c.live now).dropOldest.entries.length = (c.live now).size - 1 := List.length_dropLast ..
      omega

theorem get?_call {e : CacheEntry} (hon : c.enabled = true) (he : c.entries.get? key = some e)
    (hlive : c.isExpired now e = false) (hkeep : op.overrides key = false) (hused : c.used? now op ≠ some key)
    (hroom : ∀ other, c.used? now op = some other → (c.makeRoom now other).get? key = some e) :
    (c.call now op).entries.get? key = some e := by
  cases op with
  | insert other address =>
    have hne : key ≠ other := fun e => by simp [Call.overrides, e] at hkeep
    rw [call, insert_entries hon, Table.get?_insert_of_ne _ _ hne, hroom other rfl]
  | get other =>
    rcases get_cases hon now other with ⟨e₀, he₀, _, h⟩ | ⟨hdead, h⟩
    · have hne : key ≠ other := fun e => hused (by simp [used?, h, e])
      simp only [call, h]
      rw [Table.get?_insert_of_ne _ _ hne, he]
    · have hne : key ≠ other := by
        rintro rfl
        rw [hdead e he] at hlive
        cases hlive
      simp only [call, h]
      rw [Table.get?_erase_of_ne _ hne, he]
  | remove other =>
    have hne : key ≠ other := fun e => by simp [Call.overrides, e] at hkeep
    simp only [call, remove]
    rw [Table.get?_erase_of_ne _ hne, he]
  | clear => cases hkeep

section
variable (hon : c.enabled = true) (hempty : c.entries = .empty)
include hon hempty

theorem held_after {written used : Nat} (hwrite : now - written < c.absolute) (huse : now - used < c.sliding) :
    ∀ {history : List (Nat × Call)}, (∀ past ∈ history, past.1 ≤ now) →
      history.find? (·.2.overrides key) = some (written, .insert key address) →
      (c.uses history).lookup key = some used → (c.usedSince history key).toFinset.card < c.capacity →
      (c.after history).entries.get? key = some ⟨address, written, used⟩
  | [], _, hwritten, _, _ => by cases hwritten
  | (time, op) :: earlier, hclock, hwritten, hlast, hfew => by
    have hon' : (c.after earlier).enabled = true := by simp [hon]
    by_cases hused : (c.after earlier).used? time op = some key
    -- a call that uses the key leaves an entry, and the history tells which one
    · obtain ⟨e, he⟩ := held_of_used hon' hused
      have hheld : (c.after ((time, op) :: earlier)).entries.get? key = some e := he
      obtain ⟨hinsert, huses⟩ := entry_of_history hon hempty hheld
      rw [hwritten] at hinsert
      rw [hlast] at huses
      cases hinsert
      cases huses
      exact hheld
    · cases hkeep : op.overrides key with
      | true =>
        rw [List.find?_cons, hkeep] at hwritten
        cases hwritten
        exact absurd rfl hused
      | false =>
        rw [List.find?_cons, hkeep] at hwritten
        obtain ⟨hsince, hsame⟩ := usedSince_subset hused
        rw [hsame] at hlast
        have hheld := held_after hwrite huse (fun past hpast => hclock past (List.mem_cons_of_mem _ hpast)) hwritten hlast
          (Nat.lt_of_le_of_lt (card_toFinset_le hsince) hfew)
        have htime : time ≤ now := hclock (time, op) (List.mem_cons_self ..)
        have hlive : (c.after earlier).isExpired time ⟨address, written, used⟩ = false := by
          rw [isExpired_after, isExpired_eq_false_iff]
          exact ⟨Nat.lt_of_le_of_lt (Nat.sub_le_sub_right htime used) huse,
            Nat.lt_of_le_of_lt (Nat.sub_le_sub_right htime written) hwrite⟩
        have hbefore : (c.after earlier).entries.entries.Pairwise fun a b => b.1 = key → a.1 ∈ c.usedSince earlier key :=
          (ordered_after hon hempty earlier).imp fun hab hb => hb ▸ hab
        refine get?_call hon' hheld hlive hkeep hused fun other hother => get?_makeRoom hheld hlive hbefore ?_
        have hne : other ≠ key := fun e => hused (by rw [hother, e])
        rw [← usedSince_of_used hother hne, capacity_after]
        exact hfew

end

/-- **A lookup is decided by history.** It finds the value of the latest insert of a key only if the key was not
taken out since, and both the insert and the latest use are recent enough. This is enough to find it when besides
fewer other keys than there is room for were used since. -/
theorem get_after (hon : c.enabled = true) (hempty : c.entries = .empty) {history : List (Nat × Call)} {now : Nat}
    (hclock : (now :: history.map Prod.fst).Pairwise (· ≥ ·)) (key address : String) :
    (((c.after history).get now key).1 = some address → ∃ written used,
      history.find? (·.2.overrides key) = some (written, .insert key address) ∧
      (c.uses history).lookup key = some used ∧ now - written < c.absolute ∧ now - used < c.sliding) ∧
    ∀ written used, history.find? (·.2.overrides key) = some (written, .insert key address) →
      (c.uses history).lookup key = some used → now - written < c.absolute → now - used < c.sliding →
      (c.usedSince history key).toFinset.card < max 1 c.maxEntries →
      ((c.after history).get now key).1 = some address := by
  have hon' : (c.after history).enabled = true := by simp [hon]
  have hbefore : ∀ past ∈ history, past.1 ≤ now := by
    intro past hpast
    exact (List.pairwise_cons.mp hclock).1 past.1 (List.mem_map_of_mem hpast)
  constructor
  · intro h
    obtain ⟨e, he, rfl, hlive⟩ := get_eq_some h
    obtain ⟨hwritten, hused⟩ := entry_of_history hon hempty he
    rw [isExpired_after, isExpired_eq_false_iff] at hlive
    exact ⟨e.writtenAt, e.usedAt, hwritten, hused, hlive.2, hlive.1⟩
  · intro written used hwritten hlast hwrite huse hfew
    have hheld := held_after hon hempty hwrite huse hbefore hwritten hlast hfew
    rcases get_cases hon' now key with ⟨e, he, _, h⟩ | ⟨hdead, _⟩
    · rw [hheld] at he
      cases he
      rw [h]
    · exfalso
      have hlive : (c.after history).isExpired now ⟨address, written, used⟩ = false := by
        rw [isExpired_after, isExpired_eq_false_iff]
        exact ⟨huse, hwrite⟩
      rw [hdead _ hheld] at hlive
      cases hlive

/-! A cache with room for two keys, one of which is looked up again and again. -/

def pairCache : Cache := { enabled := true, sliding := 300, absolute := 1000, maxEntries := 2 }

def pairHistory : List (Nat × Call) :=
  [(600, .insert "c" "10.0.0.3"), (400, .get "a"), (250, .get "a"), (200, .insert "b" "10.0.0.2"),
    (0, .insert "a" "10.0.0.1")]

theorem get_after_pairHistory : (650 :: pairHistory.map Prod.fst).Pairwise (· ≥ ·) ∧
    ((pairCache.after pairHistory).get 650 "a").1 = some "10.0.0.1" ∧ ∃ written used,
      pairHistory.find? (·.2.overrides "a") = some (written, .insert "a" "10.0.0.1") ∧
      (pairCache.uses pairHistory).lookup "a" = some used ∧ 650 - written < 1000 ∧ 650 - used < 300 := by
  have hclock : (650 :: pairHistory.map Prod.fst).Pairwise (· ≥ ·) := by decide
  obtain ⟨honly, hif⟩ := get_after (c := pairCache) rfl rfl hclock "a" "10.0.0.1"
  have hfound := hif 0 400 (by decide) (by decide +kernel) (by decide) (by decide) (by decide +kernel)
  exact ⟨hclock, hfound, honly hfound⟩

end NameServer.Cache
