import NameServer.Message.Decode
import NameServer.Message.Encode
import NameServer.Proofs.Failure

/-!
# Fields and names on the wire

Each reader gives back what its writer wrote, whatever bytes follow. A name
comes back without the trailing dot it may have had, because a dot at the end
makes no label.
-/

namespace NameServer

/-! ## Numbers -/

namespace Message

theorem word_bytes (w : UInt16) : word (w.toNat / 0x100).toUInt8 w.toNat.toUInt8 = w := by
  apply UInt16.toNat.inj
  have := w.toNat_lt
  simp [word]
  omega

theorem readWord_write (w : UInt16) (rest : List UInt8) : readWord (writeWord w ++ rest) = .ok (w, rest) := by
  show Except.ok (word _ _, rest) = _
  rw [word_bytes]

theorem readLong_write (w : UInt32) (rest : List UInt8) : readLong (writeLong w ++ rest) = .ok (w, rest) := by
  have hw : ((((w.toNat / 0x1000000).toUInt8.toNat * 256 + (w.toNat / 0x10000).toUInt8.toNat) * 256 +
      (w.toNat / 0x100).toUInt8.toNat) * 256 + w.toNat.toUInt8.toNat).toUInt32 = w := by
    apply UInt32.toNat.inj
    have := w.toNat_lt
    simp
    omega
  show Except.ok (_, rest) = _
  rw [hw]

theorem readBytes_append {bytes : List UInt8} {count : Nat} (h : bytes.length = count) (rest : List UInt8) :
    readBytes count (bytes ++ rest) = .ok (bytes, rest) := by
  subst h
  simp [readBytes]

end Message

/-! ## Pieces between dots -/

namespace Text

theorem split_eq_splitOn (sep : Char) (cs : List Char) : split sep cs = cs.splitOn sep := by
  induction cs with
  | nil => rfl
  | cons c cs ih =>
    rw [split, List.splitOn_cons_eq_if_modifyHead, ← ih]
    by_cases hc : c = sep
    · rw [if_pos hc, if_pos (beq_iff_eq.mpr hc)]
    · rw [if_neg hc, if_neg (mt beq_iff_eq.mp hc)]
      cases hs : split sep cs with
      | nil => exact absurd hs (split_ne_nil sep cs)
      | cons p ps => rfl

theorem split_append (sep : Char) (a b : List Char) : split sep (a ++ sep :: b) = split sep a ++ split sep b := by
  induction a with
  | nil => simp [split]
  | cons c a ih =>
    rw [List.cons_append, split, split]
    by_cases hc : c = sep
    · rw [if_pos hc, if_pos hc, ih, List.cons_append]
    · rw [if_neg hc, if_neg hc, ih]
      cases ha : split sep a with
      | nil => exact absurd ha (split_ne_nil sep a)
      | cons p ps => rfl

theorem mem_split {sep : Char} {p cs : List Char} (h : p ∈ split sep cs) : p.Sublist cs := by
  induction cs generalizing p with
  | nil => simp [split] at h; simp [h]
  | cons c cs ih =>
    rw [split] at h
    by_cases hc : c = sep
    · rw [if_pos hc, List.mem_cons] at h
      rcases h with rfl | h
      · exact List.nil_sublist _
      · exact (ih h).cons _
    · rw [if_neg hc] at h
      cases hs : split sep cs with
      | nil => exact absurd hs (split_ne_nil sep cs)
      | cons q qs =>
        rw [hs] at h ih
        rcases List.mem_cons.mp h with rfl | h
        · exact (ih (List.mem_cons_self ..)).cons_cons c
        · exact (ih (List.mem_cons_of_mem _ h)).cons c

theorem mem_split_join {sep : Char} {p : List Char} : ∀ {ps : List (List Char)}, ps ≠ [] →
    p ∈ split sep (join sep ps) → ∃ q ∈ ps, p.Sublist q
  | [], hne, _ => absurd rfl hne
  | [q], _, h => ⟨q, List.mem_singleton_self q, mem_split h⟩
  | q :: r :: ps, _, h => by
    rw [join_cons_cons sep q (by simp), split_append, List.mem_append] at h
    rcases h with h | h
    · exact ⟨q, List.mem_cons_self .., mem_split h⟩
    · obtain ⟨s, hs, hp⟩ := mem_split_join (List.cons_ne_nil r ps) h
      exact ⟨s, List.mem_cons_of_mem _ hs, hp⟩

end Text

/-! ## Names -/

namespace Name

def wireLabel (label : List UInt8) : List UInt8 := label.length.toUInt8 :: label

/-- A name on the wire that is written in full. -/
def wire (labels : List (List UInt8)) : List UInt8 := labels.flatMap wireLabel ++ [0]

def Fits (label : List UInt8) : Prop := label ≠ [] ∧ label.length ≤ maxLabel

def bare (name : String) : String := String.ofList (undotted name)

theorem wire_cons (label : List UInt8) (labels : List (List UInt8)) :
    wire (label :: labels) = wireLabel label ++ wire labels := by
  simp [wire]

/-- The bytes `rest` spell a name with these labels, following at most so many
pointers into the packet, and `after` is what follows the name. -/
inductive Spells (packet : List UInt8) : Nat → List UInt8 → List (List UInt8) → List UInt8 → Prop
  | stop {pointers rest} : Spells packet pointers (0 :: rest) [] rest
  | label {pointers label rest labels after} : Fits label → Spells packet pointers rest labels after →
      Spells packet pointers (wireLabel label ++ rest) (label :: labels) after
  | pointer {pointers high low rest labels after} : 192 ≤ high →
      Spells packet pointers (packet.drop (offset high low)) labels after →
      Spells packet (pointers + 1) (high :: low :: rest) labels rest

theorem toNat_length {label : List UInt8} (h : Fits label) : label.length.toUInt8.toNat = label.length := by
  have hlen : label.length ≤ 63 := h.2
  simp
  omega

theorem readLabels_of_spells {packet : List UInt8} {pointers : Nat} {rest after : List UInt8}
    {labels : List (List UInt8)} (h : Spells packet pointers rest labels after) :
    readLabels packet pointers rest = .ok (labels, after) := by
  induction h with
  | stop => rw [readLabels.eq_def]; rfl
  | @label pointers label rest labels after hf _ ih =>
    have hn := toNat_length hf
    have hlen : label.length ≤ 63 := hf.2
    have hpos : 0 < label.length := List.length_pos_iff.mpr hf.1
    have h0 : label.length.toUInt8 ≠ 0 := fun e => by
      rw [e] at hn
      simp at hn
      omega
    have h192 : ¬ 192 ≤ label.length.toUInt8 := by
      rw [UInt8.le_iff_toNat_le, hn]
      simp
      omega
    have h64 : ¬ 64 ≤ label.length.toUInt8 := by
      rw [UInt8.le_iff_toNat_le, hn]
      simp
      omega
    rw [readLabels.eq_def, wireLabel]
    simp only [List.cons_append, if_neg h0, if_neg h192, if_neg h64, hn, List.take_left, List.drop_left,
      Nat.lt_irrefl, if_false, ih]
    rfl
  | @pointer pointers high low rest labels after hp _ ih =>
    have h0 : high ≠ 0 := fun e => by
      rw [e] at hp
      exact absurd hp (by decide)
    rw [readLabels.eq_def]
    simp only [if_neg h0, if_pos hp, ih]
    rfl

theorem spells_of_readLabels {packet : List UInt8} {pointers : Nat} {rest after : List UInt8}
    {labels : List (List UInt8)} (h : readLabels packet pointers rest = .ok (labels, after)) :
    Spells packet pointers rest labels after := by
  induction pointers, rest using readLabels.induct packet generalizing labels after with
  | case1 pointers => rw [readLabels.eq_def] at h; cases h
  | case2 pointers rest =>
    rw [readLabels.eq_def] at h
    simp only [if_true, Except.ok.injEq, Prod.mk.injEq] at h
    obtain ⟨rfl, rfl⟩ := h
    exact .stop
  | case3 pointers length h0 hp => rw [readLabels.eq_def] at h; simp [h0, hp] at h
  | case4 length h0 hp low rest => rw [readLabels.eq_def] at h; simp [h0, hp] at h
  | case5 length h0 hp low rest pointers ih =>
    rw [readLabels.eq_def] at h
    simp only [if_neg h0, if_pos hp] at h
    obtain ⟨⟨ls, a⟩, hl, hr⟩ := (bind_ok_iff _ _ _).mp h
    cases hr
    exact .pointer hp (ih hl)
  | case6 pointers length rest h0 hp hr => rw [readLabels.eq_def] at h; simp [h0, hp, hr] at h
  | case7 pointers length rest h0 hp hr hs =>
    rw [readLabels.eq_def] at h
    simp only [if_neg h0, if_neg hp, if_neg hr, if_pos hs] at h
    cases h
  | case8 pointers length rest h0 hp hr hs ih =>
    rw [readLabels.eq_def] at h
    simp only [if_neg h0, if_neg hp, if_neg hr, if_neg hs] at h
    obtain ⟨⟨ls, a⟩, hl, he⟩ := (bind_ok_iff _ _ _).mp h
    cases he
    have hlen : (rest.take length.toNat).length = length.toNat := by
      have := List.length_take_le length.toNat rest
      omega
    have hwire : length :: rest = wireLabel (rest.take length.toNat) ++ rest.drop length.toNat := by
      rw [wireLabel, hlen, List.cons_append, List.take_append_drop]
      simp
    rw [hwire]
    refine .label ⟨?_, ?_⟩ (ih hl)
    · intro e
      rw [e] at hlen
      exact h0 (UInt8.toNat.inj (by simpa using hlen.symm))
    · rw [hlen, maxLabel]
      rw [UInt8.le_iff_toNat_le] at hr
      simp at hr
      omega

/-- **Reading labels.** Reading succeeds on exactly the bytes that spell a name. -/
theorem readLabels_ok_iff (packet : List UInt8) (pointers : Nat) (rest after : List UInt8)
    (labels : List (List UInt8)) :
    readLabels packet pointers rest = .ok (labels, after) ↔ Spells packet pointers rest labels after :=
  ⟨spells_of_readLabels, readLabels_of_spells⟩

theorem Spells.fits {packet : List UInt8} {pointers : Nat} {rest after : List UInt8}
    {labels : List (List UInt8)} (h : Spells packet pointers rest labels after) : ∀ label ∈ labels, Fits label := by
  induction h with
  | stop => intro label hl; cases hl
  | label hf _ ih => exact List.forall_mem_cons.mpr ⟨hf, ih⟩
  | pointer _ _ ih => exact ih

theorem spells_wire (packet : List UInt8) (pointers : Nat) (rest : List UInt8) :
    ∀ {labels : List (List UInt8)}, (∀ label ∈ labels, Fits label) →
      Spells packet pointers (wire labels ++ rest) labels rest
  | [], _ => .stop
  | label :: labels, h => by
    rw [wire_cons, List.append_assoc]
    exact .label (h label (List.mem_cons_self ..))
      (spells_wire packet pointers rest fun l hl => h l (List.mem_cons_of_mem _ hl))

/-! ## Names as texts -/

theorem isLabel_iff (label : List Char) :
    isLabel label = true ↔ label ≠ [] ∧ label.length ≤ maxLabel ∧ label.all Latin1.isLatin1 = true := by
  simp only [isLabel, Bool.and_eq_true, bne_iff_ne, decide_eq_true_eq, and_assoc]

theorem fits_encode {label : List Char} (h : isLabel label = true) : Fits (Latin1.encode label) := by
  obtain ⟨hne, hlen, _⟩ := (isLabel_iff label).mp h
  refine ⟨fun e => hne (List.map_eq_nil_iff.mp e), ?_⟩
  rw [Latin1.encode, List.length_map]
  exact hlen

theorem toList_cases (name : String) : name.toList = undotted name ∨ name.toList = undotted name ++ ['.'] :=
  ((undotted_eq_iff name _).mp rfl).symm.imp_left And.left

theorem bare_eq_iff (name : String) : bare name = name ↔ name.toList.getLast? ≠ some '.' := by
  rw [bare, ← String.toList_inj, String.toList_ofList, undotted_eq_iff]
  simp

theorem join_labels (name : String) : Text.join '.' (labels name) = undotted name := by
  unfold labels
  split
  · next h => rw [h]; rfl
  · exact Text.join_split '.' _

theorem wireLabel_encode (label : List Char) : wireLabel (Latin1.encode label) = writeLabel label := by
  rw [writeLabel, wireLabel, Latin1.encode, List.length_map]

theorem wire_encode (pieces : List (List Char)) :
    wire (pieces.map Latin1.encode) = pieces.flatMap writeLabel ++ [0] := by
  rw [wire, List.flatMap_map]
  simp only [wireLabel_encode]

theorem write_ok_iff (name : String) (bytes : List UInt8) : write name = .ok bytes ↔
    (∀ label ∈ labels name, isLabel label = true) ∧ wire ((labels name).map Latin1.encode) = bytes := by
  rw [write, ← wire_encode, ← List.all_eq_true]
  split
  · next h => simp [h]
  · next h => simp [h]

theorem ofLabels_encode {pieces : List (List Char)} (h : ∀ label ∈ pieces, isLabel label = true) :
    ofLabels (pieces.map Latin1.encode) = String.ofList (Text.join '.' pieces) := by
  have hd : pieces.map (Latin1.decode ∘ Latin1.encode) = pieces.map id :=
    List.map_congr_left fun label hl => Latin1.decode_encode ((isLabel_iff label).mp (h label hl)).2.2
  rw [ofLabels, List.map_map, hd, List.map_id]

theorem readLabels_write {name : String} {bytes : List UInt8} (h : write name = .ok bytes) (packet rest : List UInt8)
    (pointers : Nat) : readLabels packet pointers (bytes ++ rest) = .ok ((labels name).map Latin1.encode, rest) := by
  obtain ⟨hl, rfl⟩ := (write_ok_iff name bytes).mp h
  refine readLabels_of_spells (spells_wire packet pointers rest fun label hm => ?_)
  obtain ⟨piece, hp, rfl⟩ := List.mem_map.mp hm
  exact fits_encode (hl piece hp)

theorem read_write {name : String} {bytes : List UInt8} (h : write name = .ok bytes) (packet rest : List UInt8) :
    read packet (bytes ++ rest) = .ok (bare name, rest) := by
  have hl := ((write_ok_iff name bytes).mp h).1
  rw [read, readLabels_write h, ok_bind]
  show Except.ok (ofLabels _, rest) = _
  rw [ofLabels_encode hl, join_labels, bare]

/-! ## Names that were read -/

theorem mem_labels_ofLabels {read : List (List UInt8)} (hf : ∀ label ∈ read, Fits label) {piece : List Char}
    (h : piece ∈ labels (ofLabels read)) : piece.length ≤ maxLabel ∧ piece.all Latin1.isLatin1 = true := by
  have hne : undotted (ofLabels read) ≠ [] := fun e => by simp [labels, e] at h
  have hsplit : piece ∈ Text.split '.' (ofLabels read).toList := by
    rw [labels, if_neg hne] at h
    rcases toList_cases (ofLabels read) with e | e
    · rw [e]; exact h
    · rw [e, Text.split_append]
      exact List.mem_append_left _ h
  rw [ofLabels, String.toList_ofList] at hsplit
  have hread : read.map Latin1.decode ≠ [] := fun e => hne (by simp [ofLabels, e, undotted, Text.join])
  obtain ⟨text, ht, hsub⟩ := Text.mem_split_join hread hsplit
  obtain ⟨label, hl, rfl⟩ := List.mem_map.mp ht
  refine ⟨Nat.le_trans hsub.length_le ?_, List.all_eq_true.mpr fun c hc => ?_⟩
  · rw [Latin1.decode, List.length_map]
    exact (hf label hl).2
  · obtain ⟨b, _, rfl⟩ := List.mem_map.mp (hsub.subset hc)
    exact Latin1.isLatin1_char b

/-- A name that was read can be written unless dots inside its labels left
nothing between two of them. -/
theorem write_ofLabels_ok_iff {read : List (List UInt8)} (hf : ∀ label ∈ read, Fits label) :
    (∃ bytes, write (ofLabels read) = .ok bytes) ↔ [] ∉ labels (ofLabels read) := by
  constructor
  · rintro ⟨bytes, h⟩ hm
    exact ((isLabel_iff []).mp (((write_ok_iff _ _).mp h).1 [] hm)).1 rfl
  · intro h
    refine ⟨_, (write_ok_iff _ _).mpr ⟨fun label hl => ?_, rfl⟩⟩
    obtain ⟨hlen, hall⟩ := mem_labels_ofLabels hf hl
    exact (isLabel_iff label).mpr ⟨fun e => h (e ▸ hl), hlen, hall⟩

theorem nil_notMem_labels_iff (name : String) :
    [] ∉ labels name ↔ undotted name = [] ∨ [] ∉ Text.split '.' (undotted name) := by
  unfold labels
  by_cases h : undotted name = []
  · simp [h]
  · rw [if_neg h, or_iff_right h]

theorem write_error {name : String} {e : EncodeError} (h : write name = .error e) : e = .name (bare name) := by
  unfold write at h
  split at h
  · cases h
  · cases h
    rfl

theorem dot_mem_decode {label : List UInt8} (h : '.' ∈ Latin1.decode label) : 0x2E ∈ label := by
  obtain ⟨b, hb, he⟩ := List.mem_map.mp h
  have : b = Latin1.byte '.' := by rw [← he, Latin1.byte_char]
  rwa [this] at hb

section
variable {read : List (List UInt8)} (hd : ∀ label ∈ read, 0x2E ∉ label)
include hd

theorem split_ofLabels (hne : read ≠ []) :
    Text.split '.' (ofLabels read).toList = read.map Latin1.decode := by
  rw [ofLabels, String.toList_ofList]
  refine Text.split_join (fun e => hne (List.map_eq_nil_iff.mp e)) fun text ht => ?_
  obtain ⟨label, hl, rfl⟩ := List.mem_map.mp ht
  exact fun hm => hd label hl (dot_mem_decode hm)

variable (hf : ∀ label ∈ read, Fits label)
include hf

theorem nil_notMem_split_ofLabels (hne : read ≠ []) : [] ∉ Text.split '.' (ofLabels read).toList := by
  rw [split_ofLabels hd hne]
  intro hm
  obtain ⟨label, hl, he⟩ := List.mem_map.mp hm
  exact (hf label hl).1 (List.map_eq_nil_iff.mp he)

theorem undotted_ofLabels : undotted (ofLabels read) = (ofLabels read).toList := by
  rcases toList_cases (ofLabels read) with e | e
  · exact e.symm
  · have hne : read ≠ [] := fun h => by simp [h, ofLabels, Text.join] at e
    refine absurd ?_ (nil_notMem_split_ofLabels hd hf hne)
    rw [e, Text.split_append]
    exact List.mem_append_right _ (by simp [Text.split])

theorem bare_ofLabels : bare (ofLabels read) = ofLabels read := by
  rw [bare, undotted_ofLabels hd hf, String.ofList_toList]

theorem labels_ofLabels : labels (ofLabels read) = read.map Latin1.decode := by
  by_cases hne : read = []
  · subst hne; rfl
  · have hs := split_ofLabels hd hne
    have hu : undotted (ofLabels read) ≠ [] := fun e => by
      rw [undotted_ofLabels hd hf] at e
      exact nil_notMem_split_ofLabels hd hf hne (by rw [e]; simp [Text.split])
    rw [labels, if_neg hu, undotted_ofLabels hd hf, hs]

theorem encode_labels_ofLabels : (labels (ofLabels read)).map Latin1.encode = read := by
  have he : read.map (Latin1.encode ∘ Latin1.decode) = read.map id :=
    List.map_congr_left fun label _ => Latin1.encode_decode label
  rw [labels_ofLabels hd hf, List.map_map, he, List.map_id]

/-- **Writing a name that was read.** Without dots inside them the labels are written as they were. -/
theorem write_ofLabels : write (ofLabels read) = .ok (wire read) := by
  refine (write_ok_iff _ _).mpr ⟨fun label hl => ?_, ?_⟩
  · obtain ⟨hlen, hall⟩ := mem_labels_ofLabels hf hl
    refine (isLabel_iff label).mpr ⟨fun e => ?_, hlen, hall⟩
    rw [labels_ofLabels hd hf] at hl
    obtain ⟨l, hm, he⟩ := List.mem_map.mp hl
    rw [e] at he
    exact (hf l hm).1 (List.map_eq_nil_iff.mp he)
  · rw [encode_labels_ofLabels hd hf]

end

end Name

end NameServer
