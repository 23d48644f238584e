import NameServer.Proofs.CacheHistory

/-!
# What an insert takes out of the cache

The entries are at most as many as there is room for, and those used later come
first. So an insert that finds no room takes out what has expired, even if it
was used last, and only otherwise the entry whose last use is the oldest.
-/

namespace NameServer.Cache

/-- What holds of a cache that has been in use until now. -/
structure Tidy (c : Cache) (now : Nat) : Prop where
  distinct : (c.entries.entries.map Prod.fst).Nodup
  size_le : c.size ≤ max 1 c.maxEntries
  times : ∀ a ∈ c.entries.entries, a.2.writtenAt ≤ a.2.usedAt ∧ a.2.usedAt ≤ now
  recency : c.entries.entries.Pairwise fun a b => b.2.usedAt ≤ a.2.usedAt

variable {c : Cache} {now later : Nat} {key address : String} {op : Call}

/-! ## Room -/

theorem size_erase_le (t : Table CacheEntry) (key : String) : (t.erase key).size ≤ t.size := List.length_filter_le ..

theorem size_insert (t : Table CacheEntry) (key : String) (e : CacheEntry) :
    (t.insert key e).size = (t.erase key).size + 1 := rfl

theorem size_makeRoom (h : c.size ≤ c.capacity) : ((c.makeRoom now key).erase key).size < c.capacity := by
  have hpos : 1 ≤ c.capacity := Nat.le_max_left ..
  rcases c.makeRoom_cases now key with ⟨hroom, he⟩ | ⟨_, _, ⟨hlive, he⟩ | ⟨_, he⟩⟩
  · rw [he]
    rcases hroom with hheld | hlt
    · obtain ⟨e, hkey⟩ := Option.isSome_iff_exists.mp hheld
      exact Nat.lt_of_lt_of_le (Table.size_erase_lt hkey) h
    · exact Nat.lt_of_le_of_lt (size_erase_le ..) hlt
  · rw [he]
    exact Nat.lt_of_le_of_lt (size_erase_le ..) hlive
  · rw [he]
    have hlive : (c.live now).size ≤ c.size := List.length_filter_le ..
    have hdrop : (c.live now).dropOldest.size = (c.live now).size - 1 := List.length_dropLast ..
    have := size_erase_le (c.live now).dropOldest key
    omega

theorem size_call (hon : c.enabled = true) (h : c.size ≤ c.capacity) (now : Nat) (op : Call) :
    (c.call now op).size ≤ c.capacity := by
  cases op with
  | insert key address =>
    rw [call, size, insert_entries hon, size_insert]
    exact size_makeRoom h
  | get key =>
    rcases get_cases hon now key with ⟨e, he, _, hget⟩ | ⟨_, hget⟩
    · simp only [call, hget, size]
      rw [size_insert]
      exact Nat.lt_of_lt_of_le (Table.size_erase_lt he) h
    · simp only [call, hget]
      exact Nat.le_trans (size_erase_le ..) h
  | remove key => exact Nat.le_trans (size_erase_le ..) h
  | clear => exact Nat.zero_le _

/-! ## Order -/

theorem Tidy.mono (h : c.Tidy now) (hle : now ≤ later) : c.Tidy later where
  distinct := h.distinct
  size_le := h.size_le
  times := fun a ha => ⟨(h.times a ha).1, Nat.le_trans (h.times a ha).2 hle⟩
  recency := h.recency

/-- **One call.** A cache stays tidy. -/
theorem Tidy.call (h : c.Tidy now) (hon : c.enabled = true) (op : Call) : (c.call now op).Tidy now := by
  have hsize : (c.call now op).size ≤ max 1 (c.call now op).maxEntries := by
    have hcapacity := congrArg Cache.capacity (emptied_call c now op)
    have hle := size_call hon h.size_le now op
    exact Nat.le_trans hle (Nat.le_of_eq hcapacity.symm)
  rcases entries_of_call hon now op with ⟨_, hsub⟩ | ⟨key, e, kept, _, hentries, hsub, _, hused, hwritten⟩
  · exact ⟨(c.call now op).entries.distinct, hsize, fun a ha => h.times a (hsub.subset ha), h.recency.sublist hsub⟩
  · refine ⟨(c.call now op).entries.distinct, hsize, ?_, ?_⟩
    · rw [hentries]
      intro a ha
      rcases List.mem_cons.mp ha with rfl | ha
      · refine ⟨?_, Nat.le_of_eq hused⟩
        simp only [hused]
        rcases hwritten with hnow | ⟨e₀, he₀, hsame⟩
        · exact Nat.le_of_eq hnow
        · have htimes := h.times _ he₀
          exact hsame ▸ Nat.le_trans htimes.1 htimes.2
      · exact h.times a (hsub.subset ha)
    · rw [hentries, List.pairwise_cons]
      refine ⟨fun b hb => ?_, h.recency.sublist hsub⟩
      simp only [hused]
      exact (h.times b (hsub.subset hb)).2

theorem tidy_after (hon : c.enabled = true) (hempty : c.entries = .empty) : ∀ {history : List (Nat × Call)} {now : Nat},
    (now :: history.map Prod.fst).Pairwise (· ≥ ·) → (c.after history).Tidy now
  | [], now, _ => by
    have hnone : c.entries.entries = [] := by rw [hempty]; rfl
    refine ⟨c.entries.distinct, ?_, ?_, ?_⟩ <;> simp [after, size, Table.size, hnone]
  | (time, op) :: earlier, now, hclock => by
    obtain ⟨hle, hearlier⟩ := List.pairwise_cons.mp hclock
    have hon' : (c.after earlier).enabled = true := by simp [hon]
    have h := (tidy_after hon hempty hearlier).call hon' op
    exact h.mono (hle time (List.mem_cons_self ..))

/-! ## What goes -/

/-- What an insert of a key leaves of the other entries. -/
structure Spares (c : Cache) (history : List (Nat × Call)) (now : Nat) (key : String)
    (rest : List (String × CacheEntry)) : Prop where
  room : (c.after history).entries.contains key = true ∨ (c.after history).size < max 1 c.maxEntries →
    rest = (c.after history).entries.entries.filter fun a => a.1 != key
  expired : (c.after history).entries.contains key = false → max 1 c.maxEntries ≤ (c.after history).size →
    (∃ a ∈ (c.after history).entries.entries, c.isExpired now a.2 = true) →
    rest = (c.after history).entries.entries.filter fun a => !c.isExpired now a.2
  oldest : (c.after history).entries.contains key = false → max 1 c.maxEntries ≤ (c.after history).size →
    (∀ a ∈ (c.after history).entries.entries, c.isExpired now a.2 = false) →
    ∃ gone, (c.after history).entries.entries = rest ++ [gone] ∧
      (c.uses history).lookup gone.1 = some gone.2.usedAt ∧ ∀ a ∈ rest, a.1 ∈ c.usedSince history gone.1

theorem live_entries (c : Cache) (now : Nat) :
    (c.live now).entries = c.entries.entries.filter fun a => !c.isExpired now a.2 := rfl

theorem makeRoom_of_room (h : c.entries.contains key = true ∨ c.size < c.capacity) :
    c.makeRoom now key = c.entries := by
  rcases c.makeRoom_cases now key with ⟨_, he⟩ | ⟨hnot, hfull, _⟩
  · exact he
  · rcases h with hheld | hlt
    · rw [hheld] at hnot
      cases hnot
    · omega

theorem makeRoom_of_full (now : Nat) (hnot : c.entries.contains key = false) (hfull : c.capacity ≤ c.size) :
    (c.live now).size < c.capacity ∧ c.makeRoom now key = c.live now ∨
      c.capacity ≤ (c.live now).size ∧ c.makeRoom now key = (c.live now).dropOldest := by
  rcases c.makeRoom_cases now key with ⟨hheld | hlt, _⟩ | ⟨_, _, h⟩
  · rw [hheld] at hnot
    cases hnot
  · omega
  · exact h

theorem makeRoom_of_expired (hnot : c.entries.contains key = false) (hfull : c.capacity ≤ c.size)
    (hle : c.size ≤ c.capacity) (hx : ∃ a ∈ c.entries.entries, c.isExpired now a.2 = true) :
    c.makeRoom now key = c.live now := by
  have hlt : (c.live now).size < c.size := by
    obtain ⟨a, ha, hdead⟩ := hx
    exact List.length_filter_lt_length_iff_exists.mpr ⟨a, ha, by simp [hdead]⟩
  rcases makeRoom_of_full now hnot hfull with ⟨_, he⟩ | ⟨hlive, _⟩
  · exact he
  · omega

theorem makeRoom_of_live (hnot : c.entries.contains key = false) (hfull : c.capacity ≤ c.size)
    (hx : ∀ a ∈ c.entries.entries, c.isExpired now a.2 = false) : c.makeRoom now key = c.entries.dropOldest := by
  have hall : c.live now = c.entries := by
    apply Table.ext
    rw [live_entries]
    apply List.filter_eq_self.mpr
    intro a ha
    simp [hx a ha]
  rcases makeRoom_of_full now hnot hfull with ⟨hlive, _⟩ | ⟨_, he⟩
  · rw [hall] at hlive
    exact absurd hfull (Nat.not_le.mpr hlive)
  · rw [he, hall]

/-- **The cache evicts no wrong entry.** It is tidy at any time, and an insert puts a new entry before those that
it spares. -/
theorem insert_after (hon : c.enabled = true) (hempty : c.entries = .empty) {history : List (Nat × Call)} {now : Nat}
    (hclock : (now :: history.map Prod.fst).Pairwise (· ≥ ·)) (key address : String) :
    (c.after history).Tidy now ∧ ∃ rest,
      ((c.after history).insert now key address).entries.entries = (key, ⟨address, now, now⟩) :: rest ∧
      c.Spares history now key rest := by
  have htidy := tidy_after hon hempty hclock
  have hon' : (c.after history).enabled = true := by simp [hon]
  refine ⟨htidy, (((c.after history).makeRoom now key).erase key).entries, ?_, ?_⟩
  · rw [insert_entries hon']
    rfl
  have hcapacity : max 1 c.maxEntries = (c.after history).capacity := (c.capacity_after history).symm
  have hle : (c.after history).size ≤ (c.after history).capacity := htidy.size_le
  -- a key that is not held is not among what is left either
  have habsent : (c.after history).entries.contains key = false →
      ((c.after history).makeRoom now key).erase key = (c.after history).makeRoom now key := by
    intro hnot
    apply Table.erase_eq_self
    have hnone : (c.after history).entries.get? key = none := by simpa [Table.contains] using hnot
    cases he : ((c.after history).makeRoom now key).get? key with
    | none => rfl
    | some e =>
      rw [get?_of_makeRoom he] at hnone
      cases hnone
  constructor
  · intro hroom
    rw [hcapacity] at hroom
    rw [makeRoom_of_room hroom]
    rfl
  · intro hnot hfull hx
    rw [hcapacity] at hfull
    simp only [← isExpired_after c history] at hx ⊢
    rw [habsent hnot, makeRoom_of_expired hnot hfull hle hx, live_entries]
  · intro hnot hfull hx
    rw [hcapacity] at hfull
    simp only [← isExpired_after c history] at hx
    rw [habsent hnot, makeRoom_of_live hnot hfull hx]
    have hne : (c.after history).entries.entries ≠ [] := by
      intro hnil
      have hpos : 1 ≤ (c.after history).capacity := Nat.le_max_left ..
      rw [size, Table.size, hnil, List.length_nil] at hfull
      omega
    have hsplit := List.dropLast_append_getLast hne
    refine ⟨(c.after history).entries.entries.getLast hne, hsplit.symm, ?_, ?_⟩
    · have hmem := List.getLast_mem hne
      exact (entry_of_history hon hempty ((Table.get?_eq_some_iff ..).mpr hmem)).2
    · have hordered := ordered_after hon hempty history
      rw [← hsplit, List.pairwise_append] at hordered
      exact fun a ha => hordered.2.2 a ha _ (List.mem_singleton_self _)

/-! A full cache in which the key that was used last has reached its absolute time. -/

def agedHistory : List (Nat × Call) :=
  [(990, .get "a"), (900, .insert "b" "10.0.0.2"), (750, .get "a"), (500, .get "a"), (250, .get "a"),
    (0, .insert "a" "10.0.0.1")]

theorem insert_after_agedHistory : (1000 :: agedHistory.map Prod.fst).Pairwise (· ≥ ·) ∧
    (pairCache.after agedHistory).Tidy 1000 ∧
    ((pairCache.after agedHistory).insert 1000 "c" "10.0.0.3").entries.entries =
      [("c", ⟨"10.0.0.3", 1000, 1000⟩), ("b", ⟨"10.0.0.2", 900, 900⟩)] := by
  have hclock : (1000 :: agedHistory.map Prod.fst).Pairwise (· ≥ ·) := by decide
  obtain ⟨htidy, rest, hentries, hspares⟩ := insert_after (c := pairCache) rfl rfl hclock "c" "10.0.0.3"
  have hheld : (pairCache.after agedHistory).entries.entries =
      [("a", ⟨"10.0.0.1", 0, 990⟩), ("b", ⟨"10.0.0.2", 900, 900⟩)] := by decide +kernel
  have hrest : rest = [("b", ⟨"10.0.0.2", 900, 900⟩)] := by
    rw [hspares.expired (by decide +kernel) (by decide +kernel), hheld]
    · decide
    · rw [hheld]
      exact ⟨_, List.mem_cons_self .., by decide⟩
  rw [hrest] at hentries
  exact ⟨hclock, htidy, hentries⟩

end NameServer.Cache
