import Mathlib.Data.List.Forall2
import NameServer.Json.Decode
import NameServer.Proofs.Failure

/-!
# What documents mean

What a value of each type looks like in a document, without a decoder. A record
has for each field what the member with its name means, or the item in its
place, and the default where there is none. A decoder takes a document for a
value exactly if that is what the document means.
-/

namespace NameServer.Json

/-! ## Values -/

namespace Document

variable {α : Type}

def IsText (d : Document) (value : String) : Prop := d = .text value

def IsBool (d : Document) (value : Bool) : Prop := d = .bool value

/-- A number without sign, fraction and exponent. -/
def IsNatural (max : Nat) (d : Document) (value : Nat) : Prop :=
  ∃ n : Numeral, d = .number n ∧ n.negative = false ∧ n.fraction = [] ∧ n.exponent = [] ∧
    value = Text.ofDecimal n.whole ∧ value ≤ max

def IsU32 (d : Document) (value : UInt32) : Prop := d.IsNatural (UInt32.size - 1) value.toNat

def IsU64 (d : Document) (value : Nat) : Prop := d.IsNatural (UInt64.size - 1) value

def IsParsed (parse : String → Option α) (d : Document) (a : α) : Prop :=
  ∃ value, d = .text value ∧ parse value = some a

def IsOption (meaning : Document → α → Prop) (d : Document) : Option α → Prop
  | none => d = .null
  | some a => meaning d a

def IsList (meaning : Document → α → Prop) (d : Document) (as : List α) : Prop :=
  ∃ items, d = .array items .closed ∧ List.Forall₂ meaning items as

/-- An object with any names. Of equal ones the last counts. -/
def IsTable (meaning : Document → α → Prop) (d : Document) (table : Table α) : Prop :=
  ∃ members entries, d = .object members .closed ∧
    List.Forall₂ (fun m e => m.1 = .ok e.1 ∧ meaning m.2 e.2) members entries ∧ table = Table.ofList entries

/-! ## Records -/

/-- Nothing in it keeps a reader from passing over it. -/
inductive Whole : Document → Prop
  | null : Whole .null
  | bool (value : Bool) : Whole (.bool value)
  | number (n : Numeral) : Whole (.number n)
  | text (value : String) : Whole (.text value)
  | garbled (fault : Fault) : Whole (.garbled fault)
  | array {items : List Document} : (∀ d ∈ items, Whole d) → Whole (.array items .closed)
  | object {members : List (Except Fault String × Document)} : (∀ m ∈ members, Whole m.2) →
      Whole (.object members .closed)

/-- The documents that a record with these names gets: from an object the member with the name, which comes once at
most, and from an array the item in the name's place. Other members have to be whole, and there are no more items. -/
inductive Gives (names : List String) : Document → (String → Option Document) → Prop
  | object {members : List (String × Document)} : ((members.map Prod.fst).filter (· ∈ names)).Nodup →
      (∀ m ∈ members, m.1 ∉ names → m.2.Whole) →
      Gives names (.object (members.map fun m => (.ok m.1, m.2)) .closed) fun name => members.lookup name
  | array {items : List Document} : items.length ≤ names.length →
      Gives names (.array items .closed) fun name => (names.zip items).lookup name

def IsRecord (names : List String) (given : (String → Option Document) → α → Prop) (d : Document) (a : α) : Prop :=
  ∃ find, d.Gives names find ∧ given find a

end Document

/-- A field that has to be there. -/
def Member {α : Type} (find : String → Option Document) (name : String) (meaning : Document → α → Prop)
    (value : α) : Prop :=
  ∃ d, find name = some d ∧ meaning d value

/-- A field that is its default if it isn't there. -/
def Field {α : Type} (find : String → Option Document) (name : String) (meaning : Document → α → Prop)
    (default value : α) : Prop :=
  match find name with
  | some d => meaning d value
  | none => value = default

/-- The text is a document with blanks around it, and this is what it means. -/
def Denotes {α : Type} (bytes : List UInt8) (meaning : Document → α → Prop) (a : α) : Prop :=
  ∃ d rest, Document.read (Text.ofUtf8 bytes) = (d, rest) ∧ Document.skipBlank rest = [] ∧ meaning d a

/-! ## Decoders -/

/-- A decoder takes documents for what they mean. -/
def Decoder.Reads {α : Type} (decode : Decoder α) (meaning : Document → α → Prop) : Prop :=
  ∀ d a, decode d = .ok a ↔ meaning d a

theorem Ending.read_ok_iff (ending : Ending) : ending.read = .ok () ↔ ending = .closed := by
  cases ending <;> simp [read]

theorem Ending.skip_ok_iff (ending : Ending) : ending.skip = .ok () ↔ ending = .closed := by
  cases ending <;> simp [skip]

namespace Decoder

open Document

variable {α : Type} {decode : Decoder α} {meaning : Document → α → Prop}

theorem refuse_ne_ok (d : Document) (a : α) : refuse d ≠ .ok a := by
  cases d <;> simp [refuse]

theorem reads_text : text.Reads IsText := by
  intro d value
  cases d <;> simp [text, IsText, refuse_ne_ok]

theorem reads_bool : bool.Reads IsBool := by
  intro d value
  cases d <;> simp [bool, IsBool, refuse_ne_ok]

theorem natural?_eq_some_iff (n : Numeral) (value : Nat) : n.natural? = some value ↔
    n.negative = false ∧ n.fraction = [] ∧ n.exponent = [] ∧ value = Text.ofDecimal n.whole ∧
      value ≤ Numeral.maxNatural := by
  simp only [Numeral.natural?, Option.ite_none_left_eq_some, Bool.or_eq_true, bne_iff_ne, decide_eq_true_eq, not_or,
    ne_eq, not_not, Bool.not_eq_true, Nat.not_lt, Option.some.injEq, and_assoc]
  constructor
  · rintro ⟨hn, hf, he, hv, rfl⟩
    exact ⟨hn, hf, he, rfl, hv⟩
  · rintro ⟨hn, hf, he, rfl, hv⟩
    exact ⟨hn, hf, he, hv, rfl⟩

theorem natural_number_ok_iff (max : Nat) (n : Numeral) (value : Nat) :
    natural max (.number n) = .ok value ↔ n.natural? = some value ∧ value ≤ max := by
  simp only [natural]
  cases n.natural? with
  | none => simp
  | some v =>
    by_cases hv : v ≤ max
    · simp only [hv, if_true, Except.ok.injEq, Option.some.injEq]
      exact ⟨fun h => ⟨h, h ▸ hv⟩, And.left⟩
    · simp only [hv, if_false, Option.some.injEq, reduceCtorEq, false_iff]
      rintro ⟨rfl, h⟩
      exact hv h

theorem reads_natural {max : Nat} (hmax : max ≤ Numeral.maxNatural) : (natural max).Reads (IsNatural max) := by
  intro d value
  cases d with
  | number n =>
    rw [natural_number_ok_iff, natural?_eq_some_iff]
    constructor
    · rintro ⟨⟨hn, hf, he, hv, _⟩, hle⟩
      exact ⟨n, rfl, hn, hf, he, hv, hle⟩
    · rintro ⟨_, ⟨⟩, hn, hf, he, hv, hle⟩
      exact ⟨⟨hn, hf, he, hv, Nat.le_trans hle hmax⟩, hle⟩
  | _ => simp [natural, IsNatural, refuse_ne_ok]

theorem reads_u64 : u64.Reads IsU64 := reads_natural (Nat.le_refl _)

theorem reads_u32 : u32.Reads IsU32 := by
  intro d value
  have hnatural : ∀ n, natural (UInt32.size - 1) d = .ok n ↔ d.IsNatural (UInt32.size - 1) n :=
    reads_natural (by decide) d
  show (Nat.toUInt32 <$> natural (UInt32.size - 1) d) = .ok value ↔ d.IsNatural (UInt32.size - 1) value.toNat
  rw [← hnatural]
  cases hd : natural (UInt32.size - 1) d with
  | error _ => simp
  | ok n =>
    obtain ⟨_, _, _, _, _, _, hn⟩ := (hnatural n).mp hd
    have hlt : n < UInt32.size := Nat.lt_of_le_pred (by decide) hn
    rw [map_ok_iff]
    simp only [Except.ok.injEq, exists_eq_left', ← UInt32.toNat_inj, Nat.toUInt32, UInt32.toNat_ofNat_of_lt' hlt]

theorem reads_parsed (parse : String → Option α) : (parsed parse).Reads (IsParsed parse) := by
  intro d a
  simp only [parsed, bind_ok_iff, reads_text _ _, IsText, IsParsed]
  refine exists_congr fun value => and_congr_right fun _ => ?_
  cases parse value <;> simp [pure, Except.pure, throw, throwThe, MonadExceptOf.throw]

theorem reads_nullable (h : decode.Reads meaning) (hnull : ∀ a, ¬ meaning .null a) :
    (nullable decode).Reads (IsOption meaning) := by
  intro d a
  by_cases hd : d = .null
  · subst hd
    cases a with
    | none => simp [nullable, IsOption]
    | some a => simp [nullable, IsOption, hnull]
  · have hother : nullable decode d = some <$> decode d := by
      cases d <;> first | rfl | exact absurd rfl hd
    rw [hother, map_ok_iff]
    cases a with
    | none => simp [IsOption, hd]
    | some a => simp [IsOption, h d]

theorem reads_nullable_text : (nullable text).Reads (IsOption IsText) := reads_nullable reads_text nofun

theorem reads_nullable_u64 : (nullable u64).Reads (IsOption IsU64) := reads_nullable reads_u64 nofun

theorem items_ok_iff (h : decode.Reads meaning) : ∀ (ds : List Document) (as : List α),
    items decode ds = .ok as ↔ List.Forall₂ meaning ds as
  | [], as => by
    simp [items, eq_comm]
  | d :: ds, as => by
    simp only [items, bind_ok_iff, h d _, items_ok_iff h ds, List.forall₂_cons_left_iff]
    simp [pure, Except.pure, eq_comm]

theorem reads_list (h : decode.Reads meaning) : (list decode).Reads (IsList meaning) := by
  intro d as
  cases d with
  | array ds ending =>
    rw [list, bind_ok_iff]
    simp only [items_ok_iff h, check_bind_ok_iff, Ending.read_ok_iff]
    constructor
    · rintro ⟨_, has, rfl, ⟨⟩⟩
      exact ⟨ds, rfl, has⟩
    · rintro ⟨_, ⟨⟩, has⟩
      exact ⟨as, has, rfl, rfl⟩
  | _ => simp [list, IsList, refuse_ne_ok]

theorem members_ok_iff (h : decode.Reads meaning) :
    ∀ (ms : List (Except Fault String × Document)) (entries : List (String × α)), members decode ms = .ok entries ↔
      List.Forall₂ (fun m e => m.1 = .ok e.1 ∧ meaning m.2 e.2) ms entries
  | [], entries => by
    simp [members, eq_comm]
  | (key, d) :: ms, entries => by
    simp only [members, bind_ok_iff, h d _, members_ok_iff h ms, List.forall₂_cons_left_iff]
    simp [pure, Except.pure, eq_comm, and_assoc]

theorem reads_table (h : decode.Reads meaning) : (table decode).Reads (IsTable meaning) := by
  intro d t
  cases d with
  | object ms ending =>
    rw [table, bind_ok_iff]
    simp only [members_ok_iff h, check_bind_ok_iff, Ending.read_ok_iff]
    constructor
    · rintro ⟨entries, hentries, rfl, ⟨⟩⟩
      exact ⟨ms, entries, rfl, hentries, rfl⟩
    · rintro ⟨_, entries, ⟨⟩, hentries, rfl⟩
      exact ⟨entries, hentries, rfl, rfl⟩
  | _ => simp [table, IsTable, refuse_ne_ok]

end Decoder

/-! ## Members that are passed over -/

namespace Document

theorem whole_array_iff (items : List Document) (ending : Ending) :
    (array items ending).Whole ↔ (∀ d ∈ items, d.Whole) ∧ ending = .closed := by
  constructor
  · rintro ⟨⟩
    exact ⟨‹_›, rfl⟩
  · rintro ⟨h, rfl⟩
    exact .array h

theorem whole_object_iff (members : List (Except Fault String × Document)) (ending : Ending) :
    (object members ending).Whole ↔ (∀ m ∈ members, m.2.Whole) ∧ ending = .closed := by
  constructor
  · rintro ⟨⟩
    exact ⟨‹_›, rfl⟩
  · rintro ⟨h, rfl⟩
    exact .object h

mutual

theorem skip_ok_iff : ∀ d : Document, d.skip = .ok () ↔ d.Whole
  | .null => iff_of_true rfl .null
  | .bool value => iff_of_true rfl (.bool value)
  | .number n => iff_of_true rfl (.number n)
  | .text value => iff_of_true rfl (.text value)
  | .garbled fault => iff_of_true rfl (.garbled fault)
  | .broken _ _ => iff_of_false nofun nofun
  | .array items ending => by
    rw [skip, check_bind_ok_iff, whole_array_iff, skipItems_ok_iff items, Ending.skip_ok_iff]
  | .object members ending => by
    rw [skip, check_bind_ok_iff, whole_object_iff, skipMembers_ok_iff members, Ending.skip_ok_iff]

theorem skipItems_ok_iff : ∀ items : List Document, skipItems items = .ok () ↔ ∀ d ∈ items, d.Whole
  | [] => iff_of_true rfl nofun
  | d :: items => by
    rw [skipItems, check_bind_ok_iff, List.forall_mem_cons, skip_ok_iff d, skipItems_ok_iff items]

theorem skipMembers_ok_iff : ∀ members : List (Except Fault String × Document),
    skipMembers members = .ok () ↔ ∀ m ∈ members, m.2.Whole
  | [] => iff_of_true rfl nofun
  | (_, d) :: members => by
    rw [skipMembers, check_bind_ok_iff, List.forall_mem_cons, skip_ok_iff d, skipMembers_ok_iff members]

end

end Document

/-! ## Shapes -/

namespace Shape

open Document

variable {α β : Type} {shape : Shape α} {fields : List (String × (Document → Except Fault Unit))}

theorem findMember_named (name : String) : ∀ members : List (String × Document),
    findMember (members.map fun m => (.ok m.1, m.2)) name = members.lookup name
  | [] => rfl
  | (key, d) :: members => by
    have hrest := findMember_named name members
    unfold findMember at hrest ⊢
    rw [List.map_cons, List.findSome?_cons, List.lookup_cons]
    by_cases hkey : key = name
    · simp [hkey]
    · simp only [hkey, if_false, beq_false_of_ne (Ne.symm hkey), hrest]

theorem lookup_eq_none_iff (name : String) : fields.lookup name = none ↔ name ∉ fields.map Prod.fst := by
  rw [List.lookup_eq_none_iff, List.mem_map, not_exists]
  refine forall_congr' fun field => ?_
  rw [bne_iff_ne, not_and, ne_comm]

theorem mem_of_lookup {name : String} {check : Document → Except Fault Unit} (h : fields.lookup name = some check) :
    (name, check) ∈ fields := by
  obtain ⟨before, after, hfields, _⟩ := List.lookup_eq_some_iff.mp h
  rw [hfields]
  exact List.mem_append_cons_self

/-- What is checked of a member. -/
def Passes (fields : List (String × (Document → Except Fault Unit))) (m : String × Document) : Prop :=
  match fields.lookup m.1 with
  | none => m.2.Whole
  | some check => check m.2 = .ok ()

theorem passes_unknown {m : String × Document} (h : fields.lookup m.1 = none) : Passes fields m ↔ m.2.Whole := by
  simp only [Passes, h]

theorem passes_known {m : String × Document} {check : Document → Except Fault Unit}
    (h : fields.lookup m.1 = some check) : Passes fields m ↔ check m.2 = .ok () := by
  simp only [Passes, h]

theorem checkMembers_ok_iff : ∀ (members : List (String × Document)) (seen : List String),
    checkMembers fields seen (members.map fun m => (.ok m.1, m.2)) = .ok () ↔
      ((members.map Prod.fst).filter (· ∈ fields.map Prod.fst)).Nodup ∧
        (∀ name ∈ (members.map Prod.fst).filter (· ∈ fields.map Prod.fst), name ∉ seen) ∧
        ∀ m ∈ members, Passes fields m
  | [], _ => by simp [checkMembers]
  | (key, d) :: members, seen => by
    rw [List.map_cons, checkMembers, ok_bind, List.forall_mem_cons, List.map_cons]
    cases hlookup : fields.lookup key with
    | none =>
      have hkey : key ∉ fields.map Prod.fst := (lookup_eq_none_iff key).mp hlookup
      rw [List.filter_cons_of_neg (by simpa using hkey), passes_unknown hlookup]
      simp only [check_bind_ok_iff, skip_ok_iff, checkMembers_ok_iff members seen]
      tauto
    | some check =>
      have hkey : key ∈ fields.map Prod.fst := List.mem_map.mpr ⟨_, mem_of_lookup hlookup, rfl⟩
      rw [List.filter_cons_of_pos (by simpa using hkey), passes_known hlookup, List.nodup_cons, List.forall_mem_cons]
      simp only
      split
      · next hseen =>
        refine iff_of_false nofun ?_
        rintro ⟨_, ⟨hnew, _⟩, _⟩
        exact hnew hseen
      · next hseen =>
        simp only [check_bind_ok_iff, checkMembers_ok_iff members (key :: seen), List.mem_cons, not_or, forall_and,
          List.forall_mem_ne']
        tauto

/-- A name that can't be read is a fault. -/
theorem named_of_checkMembers : ∀ {members : List (Except Fault String × Document)} {seen : List String},
    checkMembers fields seen members = .ok () →
    ∃ named : List (String × Document), members = named.map fun m => (.ok m.1, m.2)
  | [], _, _ => ⟨[], rfl⟩
  | (.error _, _) :: _, _, h => nomatch h
  | (.ok key, d) :: members, seen, h => by
    have hrest : ∃ seen, checkMembers fields seen members = .ok () := by
      rw [checkMembers, ok_bind] at h
      split at h
      · exact ⟨_, ((check_bind_ok_iff ..).mp h).2⟩
      · split at h
        · cases h
        · exact ⟨_, ((check_bind_ok_iff ..).mp h).2⟩
    obtain ⟨_, hrest⟩ := hrest
    obtain ⟨named, rfl⟩ := named_of_checkMembers hrest
    exact ⟨(key, d) :: named, rfl⟩

theorem lookup_of_mem {names : List String} {m : String × Document} (hname : m.1 ∈ names) :
    ∀ {members : List (String × Document)}, ((members.map Prod.fst).filter (· ∈ names)).Nodup → m ∈ members →
      members.lookup m.1 = some m.2
  | (key, d) :: members, honce, hm => by
    rw [List.lookup_cons]
    rcases List.mem_cons.mp hm with rfl | hm
    · simp
    · have hrest : ((members.map Prod.fst).filter (· ∈ names)).Nodup :=
        ((List.sublist_cons_self ..).filter _).nodup honce
      have hne : m.1 ≠ key := by
        intro hkey
        rw [List.map_cons, List.filter_cons_of_pos (by simpa [hkey] using hname), List.nodup_cons, ← hkey] at honce
        exact honce.1 (List.mem_filter.mpr ⟨List.mem_map.mpr ⟨m, hm, rfl⟩, by simpa using hname⟩)
      rw [beq_false_of_ne hne]
      exact lookup_of_mem hname hrest hm

theorem checkItems_ok_iff (ending : Ending) : ∀ (fields : List (String × (Document → Except Fault Unit)))
    (items : List Document), checkItems ending fields items = .ok () ↔
      items.length ≤ fields.length ∧ (∀ p ∈ fields.zip items, p.1.2 p.2 = .ok ()) ∧ ending = .closed
  | [], [] => by simp [checkItems, Ending.read_ok_iff]
  | [], _ :: _ => by simp [checkItems]
  | _ :: _, [] => by simp [checkItems, Ending.read_ok_iff]
  | (_, check) :: fields, d :: items => by
    rw [checkItems, check_bind_ok_iff, checkItems_ok_iff ending fields items, List.zip_cons_cons, List.forall_mem_cons]
    simp only [List.length_cons, Nat.add_le_add_iff_right]
    tauto

theorem lookup_zip {p : (String × (Document → Except Fault Unit)) × Document} :
    ∀ {fields : List (String × (Document → Except Fault Unit))} {items : List Document},
      (fields.map Prod.fst).Nodup → p ∈ fields.zip items → ((fields.map Prod.fst).zip items).lookup p.1.1 = some p.2
  | (key, check) :: fields, d :: items, hnames, hp => by
    rw [List.map_cons, List.zip_cons_cons, List.lookup_cons]
    rcases List.mem_cons.mp hp with rfl | hp
    · simp
    · rw [List.map_cons, List.nodup_cons] at hnames
      have hne : p.1.1 ≠ key := fun hkey => hnames.1 (List.mem_map.mpr ⟨p.1, (List.of_mem_zip hp).1, hkey⟩)
      rw [beq_false_of_ne hne]
      exact lookup_zip hnames.2 hp

/-! ## Fields -/

/-- `taken` is what a shape builds, by what is then asked of it. With it, every field passes its check. -/
structure Follows (shape : Shape α) (taken : (String → Option Document) → (α → Prop) → Prop) : Prop where
  builds : ∀ find next, (∃ a, shape.build find = .ok a ∧ next a) ↔ taken find next
  pass : ∀ find a, shape.build find = .ok a → ∀ field ∈ shape.fields, ∀ d, find field.1 = some d → field.2 d = .ok ()

variable {decode : Decoder α} {meaning : Document → α → Prop}

/-- A field that is built by its decoder passes the check, which is the same decoder. -/
theorem pass_single {name : String} {build : (String → Option Document) → Except Fault α}
    (hbuild : ∀ find d, find name = some d → build find = decode d) {find : String → Option Document} {a : α}
    (hb : build find = .ok a) {field : String × (Document → Except Fault Unit)}
    (hfield : field ∈ [(name, fun d => discard (decode d))]) {d : Document} (hd : find field.1 = some d) :
    field.2 d = .ok () := by
  cases List.mem_singleton.mp hfield
  rw [hbuild find d hd] at hb
  show (discard (decode d) : Except Fault Unit) = .ok ()
  rw [hb]
  rfl

theorem follows_required (h : decode.Reads meaning) (name : String) :
    (required name decode).Follows fun find next => ∃ a, Member find name meaning a ∧ next a where
  builds := by
    intro find next
    refine exists_congr fun a => and_congr_left fun _ => ?_
    simp only [required, Member]
    cases find name with
    | none => simp
    | some d => simp [h d a]
  pass := fun _ _ hb _ hfield _ hd => pass_single (fun find d hd => by simp only [required, hd]) hb hfield hd

theorem follows_defaulted (h : decode.Reads meaning) (name : String) (default : α) :
    (defaulted name default decode).Follows fun find next => ∃ a, Field find name meaning default a ∧ next a where
  builds := by
    intro find next
    refine exists_congr fun a => and_congr_left fun _ => ?_
    simp only [defaulted, Field]
    cases find name with
    | none => simp [eq_comm]
    | some d => exact h d a
  pass := fun _ _ hb _ hfield _ hd => pass_single (fun find d hd => by simp only [defaulted, hd]) hb hfield hd

theorem build_seq (f : Shape (α → β)) (shape : Shape α) (find : String → Option Document) (b : β) :
    (f <*> shape).build find = .ok b ↔ ∃ g, f.build find = .ok g ∧ ∃ a, shape.build find = .ok a ∧ g a = b := by
  show (f.build find >>= fun g => shape.build find >>= fun a => .ok (g a)) = .ok b ↔ _
  simp only [bind_ok_iff, Except.ok.injEq]

section
variable {f : Shape (α → β)} {takenF : (String → Option Document) → ((α → β) → Prop) → Prop}
  {takenA : (String → Option Document) → (α → Prop) → Prop}

theorem Follows.seq (hf : f.Follows takenF) (ha : shape.Follows takenA) :
    (f <*> shape).Follows fun find next => takenF find fun g => takenA find fun a => next (g a) where
  builds := by
    intro find next
    simp only [← hf.builds, ← ha.builds, build_seq]
    constructor
    · rintro ⟨_, ⟨g, hg, a, ha, rfl⟩, hnext⟩
      exact ⟨g, hg, a, ha, hnext⟩
    · rintro ⟨g, hg, a, ha, hnext⟩
      exact ⟨_, ⟨g, hg, a, ha, rfl⟩, hnext⟩
  pass := by
    intro find b hb field hfield
    obtain ⟨g, hg, a, hbuild, _⟩ := (build_seq ..).mp hb
    rcases List.mem_append.mp hfield with hfield | hfield
    · exact hf.pass find g hg field hfield
    · exact ha.pass find a hbuild field hfield

theorem Follows.map (ha : shape.Follows takenA) (g : α → β) :
    (g <$> shape).Follows fun find next => takenA find fun a => next (g a) := by
  have hpure : (pure g : Shape (α → β)).Follows fun _ next => next g :=
    ⟨fun find next => ⟨fun ⟨_, hg, h⟩ => Except.ok.inj hg ▸ h, fun h => ⟨g, rfl, h⟩⟩, fun _ _ _ _ h => nomatch h⟩
  exact hpure.seq ha

end

/-! ## Records decoded -/

variable {find : String → Option Document} {taken : (String → Option Document) → (α → Prop) → Prop} {a : α}

theorem passes_of_build (h : shape.Follows taken) (hb : shape.build find = .ok a) {m : String × Document}
    (hother : m.1 ∉ shape.fields.map Prod.fst → m.2.Whole)
    (hfind : m.1 ∈ shape.fields.map Prod.fst → find m.1 = some m.2) : Passes shape.fields m := by
  cases hlookup : shape.fields.lookup m.1 with
  | none => exact (passes_unknown hlookup).mpr (hother ((lookup_eq_none_iff m.1).mp hlookup))
  | some check =>
    have hfield := mem_of_lookup hlookup
    have hname : m.1 ∈ shape.fields.map Prod.fst := List.mem_map.mpr ⟨_, hfield, rfl⟩
    exact (passes_known hlookup).mpr (h.pass find a hb _ hfield _ (hfind hname))

theorem decode_object_ok_iff (h : shape.Follows taken) (members : List (Except Fault String × Document))
    (ending : Ending) : shape.decode (.object members ending) = .ok a ↔
      ∃ find, Gives (shape.fields.map Prod.fst) (.object members ending) find ∧ shape.build find = .ok a := by
  rw [decode, check_bind_ok_iff, check_bind_ok_iff, Ending.read_ok_iff]
  constructor
  · rintro ⟨hcheck, rfl, hb⟩
    obtain ⟨named, rfl⟩ := named_of_checkMembers hcheck
    obtain ⟨honce, _, hpasses⟩ := (checkMembers_ok_iff ..).mp hcheck
    rw [funext fun name => findMember_named name named] at hb
    refine ⟨_, .object honce fun m hm hother => ?_, hb⟩
    exact (passes_unknown ((lookup_eq_none_iff m.1).mpr hother)).mp (hpasses m hm)
  · rintro ⟨_, hgives, hb⟩
    cases hgives with
    | @object named honce hother =>
      have hpasses : ∀ m ∈ named, Passes shape.fields m := fun m hm =>
        passes_of_build h hb (hother m hm) fun hname => lookup_of_mem hname honce hm
      rw [funext fun name => findMember_named name named]
      exact ⟨(checkMembers_ok_iff ..).mpr ⟨honce, fun _ _ => List.not_mem_nil, hpasses⟩, rfl, hb⟩

theorem decode_array_ok_iff (h : shape.Follows taken) (hnames : (shape.fields.map Prod.fst).Nodup)
    (items : List Document) (ending : Ending) : shape.decode (.array items ending) = .ok a ↔
      ∃ find, Gives (shape.fields.map Prod.fst) (.array items ending) find ∧ shape.build find = .ok a := by
  rw [decode, check_bind_ok_iff, checkItems_ok_iff]
  constructor
  · rintro ⟨⟨hlength, _, rfl⟩, hb⟩
    exact ⟨_, .array (by rwa [List.length_map]), hb⟩
  · rintro ⟨_, hgives, hb⟩
    cases hgives with
    | array hlength =>
      rw [List.length_map] at hlength
      refine ⟨⟨hlength, fun p hp => ?_, rfl⟩, hb⟩
      exact h.pass _ a hb p.1 (List.of_mem_zip hp).1 p.2 (lookup_zip hnames hp)

/-- **A record is read field by field.** Each field is what its member means, or the item in its place, or its
default. -/
theorem Follows.reads_decode {names : List String} {given : (String → Option Document) → α → Prop}
    (h : shape.Follows taken) (hfields : shape.fields.map Prod.fst = names) (hnames : names.Nodup)
    (hgiven : ∀ find a, taken find (· = a) ↔ given find a) : shape.decode.Reads (IsRecord names given) := by
  subst hfields
  have hbuild : ∀ find a, given find a ↔ shape.build find = .ok a := by
    intro find a
    rw [← hgiven, ← h.builds]
    simp
  intro d a
  simp only [IsRecord, hbuild]
  cases d with
  | object members ending => exact decode_object_ok_iff h members ending
  | array items ending => exact decode_array_ok_iff h hnames items ending
  | _ =>
    simp only [decode, Decoder.refuse_ne_ok, false_iff]
    exact fun ⟨_, h, _⟩ => nomatch h

end Shape

/-- An object with all fields of a record, and no other members. -/
theorem Document.isRecord_object {α : Type} {members : List (String × Document)} {names : List String}
    {given : (String → Option Document) → α → Prop} {a : α} (hmembers : members.map Prod.fst = names)
    (hnames : names.Nodup) (h : given (fun name => members.lookup name) a) :
    IsRecord names given (.object (members.map fun m => (.ok m.1, m.2)) .closed) a := by
  subst hmembers
  exact ⟨_, .object (hnames.filter _) fun m hm hother => absurd (List.mem_map.mpr ⟨m, hm, rfl⟩) hother, h⟩

/-! ## Texts -/

theorem decodeAll_ok_iff {α : Type} {decode : Decoder α} {meaning : Document → α → Prop} (h : decode.Reads meaning)
    (bytes : List UInt8) (a : α) : decodeAll decode bytes = .ok a ↔ Denotes bytes meaning a := by
  simp only [decodeAll, Denotes, bind_ok_iff]
  generalize Document.read (Text.ofUtf8 bytes) = parts
  obtain ⟨d, rest⟩ := parts
  simp only [Prod.mk.injEq, h d _]
  constructor
  · rintro ⟨a', ha, hend⟩
    split at hend
    · cases hend
    · next hblank =>
      cases hend
      exact ⟨d, rest, ⟨rfl, rfl⟩, not_not.mp hblank, ha⟩
  · rintro ⟨_, _, ⟨rfl, rfl⟩, hblank, ha⟩
    refine ⟨a, ha, ?_⟩
    rw [if_neg (not_not.mpr hblank)]
    rfl

/-- A text by its characters, which a kernel reads faster than their bytes. -/
theorem denotes_of_chars {α : Type} {decode : Decoder α} {meaning : Document → α → Prop} (h : decode.Reads meaning)
    {text : String} {cs : List Char} {a : α} (hchars : text.toList = cs)
    (hread : ((decode (Document.read (cs.map some)).1).toOption, Document.skipBlank (Document.read (cs.map some)).2) =
      (some a, [])) : Denotes (Text.toUtf8 text) meaning a := by
  obtain ⟨hdecode, hrest⟩ := Prod.mk.inj hread
  refine ⟨_, _, ?_, hrest, (h _ a).mp (toOption_eq_some_iff.mp hdecode)⟩
  rw [Text.ofUtf8_toUtf8, hchars]

theorem chars_append {s t : String} {cs ds : List Char} (hs : s.toList = cs) (ht : t.toList = ds) :
    (s ++ t).toList = cs ++ ds := by
  rw [String.toList_append, hs, ht]

end NameServer.Json
