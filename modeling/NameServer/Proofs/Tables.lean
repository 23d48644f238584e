import NameServer.Table

/-!
# Entries of tables

Looking a key up finds its entry, because no other entry has the key. So each
operation is described by what can be looked up after it.
-/

namespace NameServer.Table

variable {α : Type}

theorem mem_iff_lookup {key : String} {value : α} : ∀ {l : List (String × α)}, (l.map Prod.fst).Nodup →
    (l.lookup key = some value ↔ (key, value) ∈ l)
  | [], _ => by simp
  | (k, v) :: l, hd => by
    rw [List.map_cons, List.nodup_cons] at hd
    rw [List.lookup_cons, List.mem_cons]
    by_cases hk : key = k
    · subst hk
      have hn : (key, value) ∉ l := fun h => hd.1 (List.mem_map.mpr ⟨_, h, rfl⟩)
      simp [hn, eq_comm]
    · have hne : (key, value) ≠ (k, v) := fun e => hk (congrArg Prod.fst e)
      rw [beq_false_of_ne hk]
      simp only [hne, false_or]
      exact mem_iff_lookup hd.2

theorem get?_eq_some_iff (t : Table α) (key : String) (value : α) :
    t.get? key = some value ↔ (key, value) ∈ t.entries :=
  mem_iff_lookup t.distinct

theorem get?_filter_eq_some_iff (t : Table α) (keep : String → α → Bool) (key : String) (value : α) :
    (t.filter keep).get? key = some value ↔ t.get? key = some value ∧ keep key value = true := by
  rw [get?_eq_some_iff, get?_eq_some_iff, filter, List.mem_filter]

theorem get?_filter_of_keep {t : Table α} {keep : String → α → Bool} {key : String}
    (h : ∀ value, t.get? key = some value → keep key value = true) : (t.filter keep).get? key = t.get? key := by
  apply Option.ext
  intro value
  rw [get?_filter_eq_some_iff]
  exact ⟨And.left, fun hv => ⟨hv, h value hv⟩⟩

theorem get?_erase_eq_some_iff (t : Table α) (key other : String) (value : α) :
    (t.erase other).get? key = some value ↔ key ≠ other ∧ t.get? key = some value := by
  by_cases h : key = other
  · rw [h, get?_erase_self]
    simp
  · rw [get?_erase_of_ne t h]
    simp [h]

theorem get?_insert_eq_some_iff (t : Table α) (key other : String) (value new : α) :
    (t.insert other new).get? key = some value ↔ key = other ∧ value = new ∨ key ≠ other ∧ t.get? key = some value := by
  by_cases h : key = other
  · rw [h, get?_insert_self]
    simp [eq_comm]
  · rw [get?_insert_of_ne t new h]
    simp [h]

theorem erase_eq_self {t : Table α} {key : String} (h : t.get? key = none) : t.erase key = t := by
  apply Table.ext
  apply List.filter_eq_self.mpr
  rintro ⟨k, v⟩ he
  simp only [bne_iff_ne, ne_eq]
  rintro rfl
  rw [(get?_eq_some_iff t k v).mpr he] at h
  cases h

theorem notMem_keys {t : Table α} {key : String} (h : t.get? key = none) : key ∉ t.entries.map Prod.fst := by
  rw [← erase_eq_self h]
  exact t.notMem_keys_erase key

theorem size_erase_lt {t : Table α} {key : String} {value : α} (h : t.get? key = some value) :
    (t.erase key).size < t.size := by
  apply List.length_filter_lt_length_iff_exists.mpr
  exact ⟨(key, value), (get?_eq_some_iff t key value).mp h, by simp⟩

theorem erase_erase_self (t : Table α) (key : String) : (t.erase key).erase key = t.erase key :=
  erase_eq_self (t.get?_erase_self key)

theorem erase_insert_self (t : Table α) (key : String) (value : α) : (t.insert key value).erase key = t.erase key := by
  apply Table.ext
  have hentries := congrArg Table.entries (t.erase_erase_self key)
  simp only [erase, filter] at hentries
  simp [erase, filter, insert, hentries]

theorem erase_empty (key : String) : (empty : Table α).erase key = empty := rfl

theorem mem_of_mem_ofList {entry : String × α} : ∀ {l : List (String × α)}, entry ∈ (ofList l).entries → entry ∈ l
  | [], h => h
  | (key, value) :: l, h => by
    rw [ofList] at h
    split at h
    · exact List.mem_cons_of_mem _ (mem_of_mem_ofList h)
    · rcases List.mem_cons.mp h with rfl | h
      · exact List.mem_cons_self ..
      · exact List.mem_cons_of_mem _ (mem_of_mem_ofList (List.mem_filter.mp h).1)

theorem ofList_entries (t : Table α) : ofList t.entries = t := by
  have hlist : ∀ {l : List (String × α)}, (l.map Prod.fst).Nodup → (ofList l).entries = l := by
    intro l hd
    induction l with
    | nil => rfl
    | cons e l ih =>
      rw [List.map_cons, List.nodup_cons] at hd
      have hl := ih hd.2
      have hnone : (ofList l).get? e.1 = none := by
        apply lookup_eq_none_of_notMem
        rw [hl]
        exact hd.1
      rw [ofList, contains, hnone, if_neg (by simp)]
      show e :: ((ofList l).erase e.1).entries = e :: l
      rw [erase_eq_self hnone, hl]
  exact Table.ext (hlist t.distinct)

end NameServer.Table
