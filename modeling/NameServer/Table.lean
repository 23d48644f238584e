/-!
# Tables with text keys

A table holds at most one value for a key. Writing a key moves it to the
front, so the most recently written ones come first.
-/

namespace NameServer

@[ext]
structure Table (α : Type) where
  entries : List (String × α)
  distinct : (entries.map Prod.fst).Nodup

namespace Table

variable {α β : Type}

def empty : Table α := ⟨[], List.nodup_nil⟩

instance : Inhabited (Table α) := ⟨empty⟩

instance [DecidableEq α] : DecidableEq (Table α) := fun a b =>
  decidable_of_iff (a.entries = b.entries) Table.ext_iff.symm

def size (t : Table α) : Nat := t.entries.length

def isEmpty (t : Table α) : Bool := t.entries.isEmpty

def get? (t : Table α) (key : String) : Option α := t.entries.lookup key

def contains (t : Table α) (key : String) : Bool := (t.get? key).isSome

def values (t : Table α) : List α := t.entries.map Prod.snd

theorem nodup_of_sublist {l₁ l₂ : List (String × α)} (h : l₁.Sublist l₂)
    (hd : (l₂.map Prod.fst).Nodup) : (l₁.map Prod.fst).Nodup :=
  (h.map Prod.fst).nodup hd

def filter (t : Table α) (keep : String → α → Bool) : Table α where
  entries := t.entries.filter fun e => keep e.1 e.2
  distinct := nodup_of_sublist List.filter_sublist t.distinct

def erase (t : Table α) (key : String) : Table α := t.filter fun k _ => k != key

theorem notMem_keys_erase (t : Table α) (key : String) :
    key ∉ (t.erase key).entries.map Prod.fst := by
  simp [erase, filter]

def insert (t : Table α) (key : String) (value : α) : Table α where
  entries := (key, value) :: (t.erase key).entries
  distinct := by
    rw [List.map_cons, List.nodup_cons]
    exact ⟨t.notMem_keys_erase key, (t.erase key).distinct⟩

/-- Without the entry that was written the longest ago. -/
def dropOldest (t : Table α) : Table α where
  entries := t.entries.dropLast
  distinct := nodup_of_sublist (List.dropLast_sublist _) t.distinct

/-- Of equal keys the last one stays, and the order is that of the list. -/
def ofList : List (String × α) → Table α
  | [] => empty
  | (key, value) :: entries =>
    let later := ofList entries
    if later.contains key then later else later.insert key value

/-! ## Looking up -/

@[simp] theorem get?_empty (key : String) : (empty : Table α).get? key = none := rfl

theorem lookup_filter_ne {l : List (String × α)} {key other : String} (h : key ≠ other) :
    (l.filter fun e => e.1 != other).lookup key = l.lookup key := by
  induction l with
  | nil => rfl
  | cons e l ih =>
    obtain ⟨k, v⟩ := e
    by_cases hk : k = other
    · subst hk
      simp [List.lookup_cons, ih, beq_false_of_ne h]
    · simp [hk, List.lookup_cons, ih]

theorem lookup_eq_none_of_notMem {l : List (String × α)} {key : String}
    (h : key ∉ l.map Prod.fst) : l.lookup key = none := by
  induction l with
  | nil => rfl
  | cons e l ih =>
    obtain ⟨k, v⟩ := e
    have hk : key ≠ k := fun e => h (by simp [e])
    simp [List.lookup_cons, beq_false_of_ne hk, ih fun m => h (by simp_all)]

@[simp] theorem get?_erase_self (t : Table α) (key : String) : (t.erase key).get? key = none :=
  lookup_eq_none_of_notMem (t.notMem_keys_erase key)

theorem get?_erase_of_ne (t : Table α) {key other : String} (h : key ≠ other) :
    (t.erase other).get? key = t.get? key :=
  lookup_filter_ne h

@[simp] theorem get?_insert_self (t : Table α) (key : String) (value : α) :
    (t.insert key value).get? key = some value := by
  simp [get?, insert]

theorem get?_insert_of_ne (t : Table α) {key other : String} (value : α) (h : key ≠ other) :
    (t.insert other value).get? key = t.get? key := by
  rw [← t.get?_erase_of_ne h]
  simp [get?, insert, List.lookup_cons, beq_false_of_ne h]

end Table

end NameServer
