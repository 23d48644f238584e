import NameServer.Proofs.Wire

/-!
# Writing and reading messages

A message that can be written is read back as it was, but for one dot at the
end of each name, when its answers have the type of their data. A message that
was read can be written again unless a name in it has nothing between two
dots, which takes a label with a dot inside.
-/

namespace NameServer

theorem map_eq_self_iff {α : Type} (l : List α) (f : α → α) : l.map f = l ↔ ∀ a ∈ l, f a = a := by
  have h := List.map_eq_map_iff (l := l) (f := f) (g := id)
  rw [List.map_id] at h
  exact h

def Question.bare (q : Question) : Question := { q with name := Name.bare q.name }

def Record.bare (r : Record) : Record := { r with name := Name.bare r.name }

/-- Data can be under a type; no data can be under any. -/
def RecordData.Under (rtype : UInt16) : RecordData → Prop
  | .address _ => rtype = typeA
  | .text _ => rtype = typeTxt
  | .none => True

def Record.Typed (r : Record) : Prop := r.data.Under r.rtype

namespace Message

/-- The message without one trailing dot of each name. -/
def bare (m : Message) : Message :=
  { m with questions := m.questions.map Question.bare, answers := m.answers.map Record.bare }

def names (m : Message) : List String := m.questions.map Question.name ++ m.answers.map Record.name

/-! ## Items -/

theorem readQuestion_write {q : Question} {bytes : List UInt8} (h : writeQuestion q = .ok bytes)
    (packet rest : List UInt8) : readQuestion packet (bytes ++ rest) = .ok (q.bare, rest) := by
  obtain ⟨name, hn, he⟩ := (bind_ok_iff _ _ _).mp h
  cases he
  rw [readQuestion, List.append_assoc, List.append_assoc, Name.read_write hn, ok_bind]
  simp only [readWord_write, ok_bind]
  rfl

theorem readText_write {text : String} {bytes : List UInt8} (h : writeText text = .ok bytes) :
    readText bytes = .ok (.text text) ∧ bytes.length ≤ 256 := by
  simp only [writeText] at h
  split at h
  · next hl =>
    split at h
    · next hlen =>
      cases h
      have hn : text.toList.length.toUInt8.toNat = text.toList.length := by
        simp only [maxText] at hlen
        simp only [Nat.toUInt8_eq, UInt8.toNat_ofNat']
        omega
      have he : (Latin1.encode text.toList).length = text.toList.length := List.length_map ..
      refine ⟨?_, by simp only [maxText] at hlen; simp only [List.length_cons, he]; omega⟩
      rw [readText]
      simp only [hn]
      rw [← he, List.take_length, if_neg (Nat.lt_irrefl _), Latin1.decode_encode hl, String.ofList_toList]
    · cases h
  · cases h

theorem readData_write {rtype : UInt16} {data : RecordData} {bytes : List UInt8} (ht : data.Under rtype)
    (h : writeData data = .ok bytes) : readData rtype bytes = .ok data ∧ bytes.length ≤ 256 := by
  cases data with
  | address ip =>
    cases h
    subst ht
    exact ⟨rfl, by simp [Ipv4.octets]⟩
  | text text =>
    subst ht
    exact readText_write h
  | none =>
    cases h
    refine ⟨?_, by simp⟩
    unfold readData
    split
    · rfl
    · split <;> rfl

theorem readRecord_write {r : Record} {bytes : List UInt8} (ht : r.Typed) (h : writeRecord r = .ok bytes)
    (packet rest : List UInt8) : readRecord packet (bytes ++ rest) = .ok (r.bare, rest) := by
  obtain ⟨name, hn, h⟩ := (bind_ok_iff _ _ _).mp h
  obtain ⟨data, hd, he⟩ := (bind_ok_iff _ _ _).mp h
  cases he
  obtain ⟨hr, hlen⟩ := readData_write ht hd
  have hn16 : data.length = data.length.toUInt16.toNat := by
    simp
    omega
  simp only [readRecord, List.append_assoc, Name.read_write hn, ok_bind, readWord_write, readLong_write,
    readBytes_append hn16, hr]
  rfl

/-! ## Lists of items -/

section
variable {α β : Type} (write : α → Except EncodeError (List UInt8))
  (read : List UInt8 → Except DecodeError (β × List UInt8))

theorem readMany_write (f : α → β) : ∀ {items : List α} {bytes : List UInt8},
    (∀ item ∈ items, ∀ first rest, write item = .ok first → read (first ++ rest) = .ok (f item, rest)) →
      writeMany write items = .ok bytes → ∀ rest, readMany read items.length (bytes ++ rest) = .ok (items.map f, rest)
  | [], bytes, _, h, rest => by cases h; rfl
  | item :: items, bytes, hi, h, rest => by
    obtain ⟨first, hf, h⟩ := (bind_ok_iff _ _ _).mp h
    obtain ⟨more, hm, he⟩ := (bind_ok_iff _ _ _).mp h
    cases he
    have ih := readMany_write f (fun i hmem => hi i (List.mem_cons_of_mem _ hmem)) hm rest
    rw [List.length_cons, readMany, List.append_assoc, hi item (List.mem_cons_self ..) first _ hf, ok_bind]
    simp only [ih, ok_bind]
    rfl

theorem readMany_ok : ∀ {count : Nat} {rest after : List UInt8} {items : List β},
    readMany read count rest = .ok (items, after) →
      items.length = count ∧ ∀ item ∈ items, ∃ before rest, read before = .ok (item, rest)
  | 0, rest, after, items, h => by cases h; exact ⟨rfl, fun item hi => nomatch hi⟩
  | count + 1, rest, after, items, h => by
    obtain ⟨⟨first, rest₁⟩, hf, h⟩ := (bind_ok_iff _ _ _).mp h
    obtain ⟨⟨more, rest₂⟩, hm, he⟩ := (bind_ok_iff _ _ _).mp h
    cases he
    obtain ⟨hlen, hall⟩ := readMany_ok hm
    exact ⟨by rw [List.length_cons, hlen], List.forall_mem_cons.mpr ⟨⟨rest, rest₁, hf⟩, hall⟩⟩

theorem writeMany_cases : ∀ (items : List α),
    (∃ bytes, writeMany write items = .ok bytes) ∧ (∀ item ∈ items, ∃ first, write item = .ok first) ∨
      ∃ item ∈ items, ∃ e, write item = .error e ∧ writeMany write items = .error e
  | [] => .inl ⟨⟨[], rfl⟩, fun item hi => nomatch hi⟩
  | item :: items => by
    cases hf : write item with
    | error e => exact .inr ⟨item, List.mem_cons_self .., e, hf, by rw [writeMany, hf]; rfl⟩
    | ok first =>
      rcases writeMany_cases items with ⟨⟨more, hm⟩, hall⟩ | ⟨i, hi, e, he, hm⟩
      · refine .inl ⟨⟨first ++ more, by rw [writeMany, hf, hm]; rfl⟩, ?_⟩
        exact List.forall_mem_cons.mpr ⟨⟨first, hf⟩, hall⟩
      · exact .inr ⟨i, List.mem_cons_of_mem _ hi, e, he, by rw [writeMany, hf, hm]; rfl⟩

end

/-! ## What was read -/

theorem readQuestion_ok {packet rest after : List UInt8} {q : Question}
    (h : readQuestion packet rest = .ok (q, after)) :
    ∃ labels end_, Name.readLabels packet Name.maxPointers rest = .ok (labels, end_) ∧ q.name = Name.ofLabels labels := by
  obtain ⟨⟨name, rest₁⟩, hn, h⟩ := (bind_ok_iff _ _ _).mp h
  obtain ⟨_, _, h⟩ := (bind_ok_iff _ _ _).mp h
  obtain ⟨_, _, he⟩ := (bind_ok_iff _ _ _).mp h
  cases he
  obtain ⟨⟨labels, end_⟩, hl, he⟩ := (bind_ok_iff _ _ _).mp hn
  cases he
  exact ⟨labels, rest₁, hl, rfl⟩

theorem writeText_decode {bytes : List UInt8} (h : bytes.length ≤ maxText) :
    ∃ out, writeText (String.ofList (Latin1.decode bytes)) = .ok out := by
  have hall : (Latin1.decode bytes).all Latin1.isLatin1 = true := by
    rw [Latin1.decode, List.all_map, List.all_eq_true]
    exact fun b _ => Latin1.isLatin1_char b
  have hlen : (Latin1.decode bytes).length ≤ maxText := by rw [Latin1.decode, List.length_map]; exact h
  simp only [writeText, String.toList_ofList, if_pos hall, if_pos hlen]
  exact ⟨_, rfl⟩

theorem readData_ok {rtype : UInt16} {bytes : List UInt8} {data : RecordData} (h : readData rtype bytes = .ok data) :
    data.Under rtype ∧ ∃ out, writeData data = .ok out := by
  unfold readData at h
  split at h
  · next ht =>
    cases h
    unfold readAddress
    split
    · exact ⟨ht, _, rfl⟩
    · exact ⟨trivial, _, rfl⟩
  · split at h
    · next ht =>
      unfold readText at h
      split at h
      · cases h; exact ⟨trivial, _, rfl⟩
      · next length rest =>
        split at h
        · cases h
        · cases h
          refine ⟨ht, writeText_decode ?_⟩
          have := List.length_take_le length.toNat rest
          have := length.toNat_lt
          rw [maxText]
          omega
    · cases h; exact ⟨trivial, _, rfl⟩

theorem readRecord_ok {packet rest after : List UInt8} {r : Record} (h : readRecord packet rest = .ok (r, after)) :
    (∃ labels end_, Name.readLabels packet Name.maxPointers rest = .ok (labels, end_) ∧
      r.name = Name.ofLabels labels) ∧ r.Typed ∧ ∃ out, writeData r.data = .ok out := by
  obtain ⟨⟨name, rest₁⟩, hn, h⟩ := (bind_ok_iff _ _ _).mp h
  obtain ⟨_, _, h⟩ := (bind_ok_iff _ _ _).mp h
  obtain ⟨_, _, h⟩ := (bind_ok_iff _ _ _).mp h
  obtain ⟨_, _, h⟩ := (bind_ok_iff _ _ _).mp h
  obtain ⟨_, _, h⟩ := (bind_ok_iff _ _ _).mp h
  obtain ⟨_, _, h⟩ := (bind_ok_iff _ _ _).mp h
  obtain ⟨data, hd, he⟩ := (bind_ok_iff _ _ _).mp h
  cases he
  obtain ⟨⟨labels, end_⟩, hl, he⟩ := (bind_ok_iff _ _ _).mp hn
  cases he
  exact ⟨⟨labels, rest₁, hl, rfl⟩, readData_ok hd⟩

/-! ## Labels that were read -/

/-- Reads an item, for the labels of the name at its front. -/
def readItemLabels {α : Type} (packet : List UInt8) (readItem : List UInt8 → Except DecodeError (α × List UInt8))
    (rest : List UInt8) : Except DecodeError (List (List UInt8) × List UInt8) := do
  let (labels, _) ← Name.readLabels packet Name.maxPointers rest
  let (_, after) ← readItem rest
  return (labels, after)

/-- The labels of each name that `decode` reads. -/
def labelsRead (packet : List UInt8) : Except DecodeError (List (List (List UInt8))) := do
  let (header, rest) ← readHeader packet
  let (questions, rest) ← readMany (readItemLabels packet (readQuestion packet)) header.questions.toNat rest
  let (answers, _) ← readMany (readItemLabels packet (readRecord packet)) header.answers.toNat rest
  return questions ++ answers

theorem readMany_labels {α : Type} {packet : List UInt8} {readItem : List UInt8 → Except DecodeError (α × List UInt8)}
    (name : α → String) (hi : ∀ {rest after item}, readItem rest = .ok (item, after) → ∃ labels end_,
      Name.readLabels packet Name.maxPointers rest = .ok (labels, end_) ∧ name item = Name.ofLabels labels) :
    ∀ {count : Nat} {rest after : List UInt8} {items : List α}, readMany readItem count rest = .ok (items, after) →
      ∃ labels, readMany (readItemLabels packet readItem) count rest = .ok (labels, after) ∧
        items.map name = labels.map Name.ofLabels ∧ ∀ ls ∈ labels, ∀ label ∈ ls, Name.Fits label
  | 0, rest, after, items, h => by
    cases h
    exact ⟨[], rfl, rfl, fun ls hl => nomatch hl⟩
  | count + 1, rest, after, items, h => by
    obtain ⟨⟨first, rest₁⟩, hf, h⟩ := (bind_ok_iff _ _ _).mp h
    obtain ⟨⟨more, rest₂⟩, hm, he⟩ := (bind_ok_iff _ _ _).mp h
    cases he
    obtain ⟨labels, end_, hl, hn⟩ := hi hf
    obtain ⟨tail, ht, hmap, hfits⟩ := readMany_labels name hi hm
    refine ⟨labels :: tail, ?_, by rw [List.map_cons, List.map_cons, hn, hmap], ?_⟩
    · rw [readMany, readItemLabels, hl, ok_bind]
      simp only [hf, ok_bind, pure, Except.pure, ht]
    · exact List.forall_mem_cons.mpr ⟨(Name.spells_of_readLabels hl).fits, hfits⟩

theorem readItemLabels_write {α : Type} {packet : List UInt8}
    {readItem : List UInt8 → Except DecodeError (α × List UInt8)} {name : String} {front behind rest : List UInt8}
    {item : α} (hw : Name.write name = .ok front) (hr : readItem (front ++ behind) = .ok (item, rest)) :
    readItemLabels packet readItem (front ++ behind) = .ok ((Name.labels name).map Latin1.encode, rest) := by
  unfold readItemLabels
  rw [hr, Name.readLabels_write hw, ok_bind]
  rfl

/-! ## Headers and whole messages -/

theorem readHeader_write (id : UInt16) (flags : Flags) (questions answers : Nat) (rest : List UInt8) :
    readHeader (writeHeader id flags questions answers ++ rest) =
      .ok (⟨id, flags, questions.toUInt16, answers.toUInt16⟩, rest) := by
  simp only [writeHeader, writeWord, List.cons_append, List.nil_append, readHeader, word_bytes]

theorem encode_ok_iff (m : Message) (bytes : List UInt8) : m.encode = .ok bytes ↔
    m.questions.length ≤ 65535 ∧ m.answers.length ≤ 65535 ∧ ∃ questions answers,
      writeMany writeQuestion m.questions = .ok questions ∧ writeMany writeRecord m.answers = .ok answers ∧
        writeHeader m.id m.flags m.questions.length m.answers.length ++ questions ++ answers = bytes := by
  unfold encode
  by_cases hq : 65535 < m.questions.length
  · simp only [if_pos hq, Nat.not_le.mpr hq, false_and, iff_false]
    exact fun h => nomatch h
  by_cases ha : 65535 < m.answers.length
  · simp only [if_neg hq, if_pos ha, Nat.not_le.mpr ha, false_and, and_false, iff_false]
    exact fun h => nomatch h
  simp only [if_neg hq, if_neg ha, Nat.not_lt.mp hq, Nat.not_lt.mp ha, true_and]
  constructor
  · intro h
    obtain ⟨questions, hqs, h⟩ := (bind_ok_iff _ _ _).mp h
    obtain ⟨answers, has, he⟩ := (bind_ok_iff _ _ _).mp h
    cases he
    exact ⟨questions, answers, hqs, has, rfl⟩
  · rintro ⟨questions, answers, hqs, has, rfl⟩
    rw [hqs, has]
    rfl

theorem sections_of_encode {m : Message} {bytes : List UInt8} (h : m.encode = .ok bytes) :
    ∃ header questions answers, readHeader bytes = .ok (header, questions ++ answers) ∧
      header.id = m.id ∧ header.flags = m.flags ∧
      header.questions.toNat = m.questions.length ∧ header.answers.toNat = m.answers.length ∧
      writeMany writeQuestion m.questions = .ok questions ∧ writeMany writeRecord m.answers = .ok answers := by
  obtain ⟨hq, ha, questions, answers, hqs, has, rfl⟩ := (encode_ok_iff m bytes).mp h
  refine ⟨_, questions, answers, by rw [List.append_assoc]; exact readHeader_write .., rfl, rfl, ?_, ?_, hqs, has⟩
  · simp
    omega
  · simp
    omega

section
variable {m : Message} {bytes : List UInt8} (h : m.encode = .ok bytes) (ht : ∀ r ∈ m.answers, r.Typed)
include h ht

theorem decode_of_encode : decode bytes = .ok m.bare := by
  obtain ⟨header, questions, answers, hh, hid, hflags, hnq, hna, hqs, has⟩ := sections_of_encode h
  have hq := readMany_write _ (readQuestion bytes) Question.bare
    (fun q _ first rest hw => readQuestion_write hw bytes rest) hqs answers
  have ha := readMany_write _ (readRecord bytes) Record.bare
    (fun r hr first rest hw => readRecord_write (ht r hr) hw bytes rest) has []
  rw [List.append_nil] at ha
  simp only [decode, hh, ok_bind, hnq, hq, hna, ha, hid, hflags]
  rfl

theorem labelsRead_of_encode :
    labelsRead bytes = .ok (m.names.map fun name => (Name.labels name).map Latin1.encode) := by
  obtain ⟨header, questions, answers, hh, _, _, hnq, hna, hqs, has⟩ := sections_of_encode h
  have hq := readMany_write _ (readItemLabels bytes (readQuestion bytes))
    (fun q => (Name.labels q.name).map Latin1.encode) (fun q _ first rest hw => by
      have hr := readQuestion_write hw bytes rest
      obtain ⟨name, hn, he⟩ := (bind_ok_iff _ _ _).mp hw
      cases he
      simp only [List.append_assoc name] at hr ⊢
      exact readItemLabels_write hn hr) hqs answers
  have ha := readMany_write _ (readItemLabels bytes (readRecord bytes))
    (fun r => (Name.labels r.name).map Latin1.encode) (fun r hmem first rest hw => by
      have hr := readRecord_write (ht r hmem) hw bytes rest
      obtain ⟨name, hn, hw⟩ := (bind_ok_iff _ _ _).mp hw
      obtain ⟨data, hd, he⟩ := (bind_ok_iff _ _ _).mp hw
      cases he
      simp only [List.append_assoc name] at hr ⊢
      exact readItemLabels_write hn hr) has []
  rw [List.append_nil] at ha
  simp only [labelsRead, hh, ok_bind, hnq, hq, hna, ha, names, List.map_append, List.map_map]
  rfl

end

theorem typed_of_decode {packet : List UInt8} {m : Message} (h : decode packet = .ok m) :
    ∀ r ∈ m.answers, r.Typed := by
  obtain ⟨⟨header, rest⟩, _, h⟩ := (bind_ok_iff _ _ _).mp h
  obtain ⟨⟨questions, rest₁⟩, _, h⟩ := (bind_ok_iff _ _ _).mp h
  obtain ⟨⟨answers, rest₂⟩, has, he⟩ := (bind_ok_iff _ _ _).mp h
  cases he
  intro r hr
  obtain ⟨before, after, hread⟩ := (readMany_ok _ has).2 r hr
  exact (readRecord_ok hread).2.1

theorem bare_eq_iff (m : Message) : m.bare = m ↔ ∀ name ∈ m.names, Name.bare name = name := by
  have hq : ∀ q : Question, q.bare = q ↔ Name.bare q.name = q.name := fun q => by
    cases q
    simp [Question.bare]
  have hr : ∀ r : Record, r.bare = r ↔ Name.bare r.name = r.name := fun r => by
    cases r
    simp [Record.bare]
  have hm : m.bare = m ↔ m.questions.map Question.bare = m.questions ∧ m.answers.map Record.bare = m.answers := by
    cases m
    simp [bare]
  rw [hm, map_eq_self_iff, map_eq_self_iff]
  simp only [hq, hr, names, List.mem_append, List.mem_map]
  constructor
  · rintro ⟨hqs, has⟩ name (⟨q, hmem, rfl⟩ | ⟨r, hmem, rfl⟩)
    · exact hqs q hmem
    · exact has r hmem
  · intro h
    exact ⟨fun q hmem => h _ (.inl ⟨q, hmem, rfl⟩), fun r hmem => h _ (.inr ⟨r, hmem, rfl⟩)⟩

/-- **Reading back what was written.** A message comes back, without one dot at
the end of each name, when its answers have the type of their data; it comes
back as it was when besides no name ends in a dot, and not otherwise. -/
theorem decode_encoded {m : Message} {bytes : List UInt8} (h : m.encode = .ok bytes) :
    ((∀ r ∈ m.answers, r.Typed) → decode bytes = .ok m.bare) ∧
      (decode bytes = .ok m ↔
        (∀ r ∈ m.answers, r.Typed) ∧ ∀ name ∈ m.names, name.toList.getLast? ≠ some '.') := by
  simp only [← Name.bare_eq_iff]
  refine ⟨decode_of_encode h, fun hd => ?_, fun ⟨ht, hn⟩ => ?_⟩
  · have ht := typed_of_decode hd
    refine ⟨ht, (bare_eq_iff m).mp ?_⟩
    rw [decode_of_encode h ht] at hd
    exact Except.ok.inj hd
  · rw [decode_of_encode h ht, (bare_eq_iff m).mpr hn]

/-- Names with and without a dot at the end, the root, an empty text and no data. -/
def mixedMessage : Message where
  id := 0xBEEF
  flags := ⟨0x8580⟩
  questions := [⟨"Té.b.", typeTxt, classIn⟩]
  answers := [.text "" 60 "", .address "b" 5 ⟨10, 0, 0, 1⟩, ⟨".", typeTxt, 3, 5, .none⟩]

theorem decode_encoded_mixed : ∃ bytes, mixedMessage.encode = .ok bytes ∧ decode bytes = .ok mixedMessage.bare ∧
    decode bytes ≠ .ok mixedMessage := by
  have hok : ∃ bytes, mixedMessage.encode = .ok bytes := ⟨_, rfl⟩
  obtain ⟨bytes, hb⟩ := hok
  have ht : ∀ r ∈ mixedMessage.answers, r.Typed := by
    simp [mixedMessage, Record.Typed, RecordData.Under, Record.text, Record.address]
  obtain ⟨hbare, hsame⟩ := decode_encoded hb
  exact ⟨bytes, hb, hbare ht, fun h => (hsame.mp h).2 "Té.b." (by simp [names, mixedMessage]) (by decide)⟩

/-! ## Writing what was read -/

/-- What a message that was read has, so that only its names can keep it from being written. -/
theorem parts_of_decode {packet : List UInt8} {m : Message} (h : decode packet = .ok m) :
    m.questions.length ≤ 65535 ∧ m.answers.length ≤ 65535 ∧
      (∀ r ∈ m.answers, r.Typed ∧ ∃ out, writeData r.data = .ok out) ∧
      ∃ labels, labelsRead packet = .ok labels ∧ m.names = labels.map Name.ofLabels ∧
        ∀ ls ∈ labels, ∀ label ∈ ls, Name.Fits label := by
  obtain ⟨⟨header, rest⟩, hh, h⟩ := (bind_ok_iff _ _ _).mp h
  obtain ⟨⟨questions, rest₁⟩, hqs, h⟩ := (bind_ok_iff _ _ _).mp h
  obtain ⟨⟨answers, rest₂⟩, has, he⟩ := (bind_ok_iff _ _ _).mp h
  cases he
  obtain ⟨qlabels, hql, hqn, hqf⟩ := readMany_labels Question.name readQuestion_ok hqs
  obtain ⟨alabels, hal, han, haf⟩ := readMany_labels Record.name (fun hr => (readRecord_ok hr).1) has
  have hq := header.questions.toNat_lt
  have ha := header.answers.toNat_lt
  refine ⟨?_, ?_, fun r hr => ?_, qlabels ++ alabels, ?_, ?_, ?_⟩
  · rw [(readMany_ok _ hqs).1]
    omega
  · rw [(readMany_ok _ has).1]
    omega
  · obtain ⟨before, after, hread⟩ := (readMany_ok _ has).2 r hr
    exact (readRecord_ok hread).2
  · simp only [labelsRead, hh, ok_bind, hql, hal]
    rfl
  · rw [names, List.map_append, hqn, han]
  · intro ls hls
    rcases List.mem_append.mp hls with hm | hm
    · exact hqf ls hm
    · exact haf ls hm

theorem writeQuestion_cases (q : Question) :
    (∃ out, writeQuestion q = .ok out) ∧ (∃ name, Name.write q.name = .ok name) ∨
      ∃ e, Name.write q.name = .error e ∧ writeQuestion q = .error e := by
  unfold writeQuestion
  cases hn : Name.write q.name with
  | error e => exact .inr ⟨e, rfl, rfl⟩
  | ok name => exact .inl ⟨⟨_, rfl⟩, name, rfl⟩

theorem writeRecord_cases {r : Record} (hd : ∃ out, writeData r.data = .ok out) :
    (∃ out, writeRecord r = .ok out) ∧ (∃ name, Name.write r.name = .ok name) ∨
      ∃ e, Name.write r.name = .error e ∧ writeRecord r = .error e := by
  obtain ⟨data, hd⟩ := hd
  unfold writeRecord
  cases hn : Name.write r.name with
  | error e => exact .inr ⟨e, rfl, rfl⟩
  | ok name => exact .inl ⟨⟨_, by rw [hd]; rfl⟩, name, rfl⟩

section
variable {m : Message} (hq : m.questions.length ≤ 65535) (ha : m.answers.length ≤ 65535)
  (hd : ∀ r ∈ m.answers, ∃ out, writeData r.data = .ok out)
include hq ha hd

/-- With counts and data that fit, a message can be written when its names can,
and otherwise fails with the failure of a name. -/
theorem encode_cases :
    (∃ bytes, m.encode = .ok bytes) ∧ (∀ name ∈ m.names, ∃ out, Name.write name = .ok out) ∨
      ∃ name ∈ m.names, ∃ e, Name.write name = .error e ∧ m.encode = .error e := by
  have hencode : m.encode = do
      let questions ← writeMany writeQuestion m.questions
      let answers ← writeMany writeRecord m.answers
      return writeHeader m.id m.flags m.questions.length m.answers.length ++ questions ++ answers := by
    unfold encode
    rw [if_neg (Nat.not_lt.mpr hq), if_neg (Nat.not_lt.mpr ha)]
  rw [hencode]
  rcases writeMany_cases writeQuestion m.questions with ⟨⟨questions, hqs⟩, hqall⟩ | ⟨q, hmem, e, he, hqs⟩
  · rcases writeMany_cases writeRecord m.answers with ⟨⟨answers, has⟩, haall⟩ | ⟨r, hmem, e, he, has⟩
    · refine .inl ⟨⟨_, by rw [hqs, has]; rfl⟩, fun name hn => ?_⟩
      rcases List.mem_append.mp hn with hn | hn
      · obtain ⟨q, hmem, rfl⟩ := List.mem_map.mp hn
        obtain ⟨out, hout⟩ := hqall q hmem
        rcases writeQuestion_cases q with ⟨_, hw⟩ | ⟨e, _, he⟩
        · exact hw
        · rw [hout] at he; cases he
      · obtain ⟨r, hmem, rfl⟩ := List.mem_map.mp hn
        obtain ⟨out, hout⟩ := haall r hmem
        rcases writeRecord_cases (hd r hmem) with ⟨_, hw⟩ | ⟨e, _, he⟩
        · exact hw
        · rw [hout] at he; cases he
    · rcases writeRecord_cases (hd r hmem) with ⟨⟨out, hout⟩, _⟩ | ⟨e', hn, hw⟩
      · rw [hout] at he; cases he
      · rw [he] at hw
        cases hw
        refine .inr ⟨r.name, List.mem_append_right _ (List.mem_map_of_mem hmem), e, hn, ?_⟩
        rw [hqs, has]
        rfl
  · rcases writeQuestion_cases q with ⟨⟨out, hout⟩, _⟩ | ⟨e', hn, hw⟩
    · rw [hout] at he; cases he
    · rw [he] at hw
      cases hw
      refine .inr ⟨q.name, List.mem_append_left _ (List.mem_map_of_mem hmem), e, hn, ?_⟩
      rw [hqs]
      rfl

end

section
variable {m : Message} {labels : List (List (List UInt8))} (hnames : m.names = labels.map Name.ofLabels)
  (hfits : ∀ ls ∈ labels, ∀ label ∈ ls, Name.Fits label)
include hnames hfits

theorem write_names_ok_iff : ∀ name ∈ m.names, (∃ out, Name.write name = .ok out) ↔
    Name.undotted name = [] ∨ [] ∉ Text.split '.' (Name.undotted name) := by
  intro name hn
  rw [hnames] at hn
  obtain ⟨ls, hls, rfl⟩ := List.mem_map.mp hn
  rw [Name.write_ofLabels_ok_iff (hfits ls hls), Name.nil_notMem_labels_iff]

variable (hdots : ∀ ls ∈ labels, ∀ label ∈ ls, 0x2E ∉ label)
include hdots

theorem write_names_of_dotless : m.names.map Name.write = labels.map fun ls => .ok (Name.wire ls) := by
  rw [hnames, List.map_map]
  exact List.map_congr_left fun ls hls => Name.write_ofLabels (hdots ls hls) (hfits ls hls)

theorem encode_labels_of_dotless : (m.names.map fun name => (Name.labels name).map Latin1.encode) = labels := by
  rw [hnames, List.map_map, map_eq_self_iff]
  exact fun ls hls => Name.encode_labels_ofLabels (hdots ls hls) (hfits ls hls)

theorem bare_of_dotless : m.bare = m := by
  refine (bare_eq_iff m).mpr fun name hn => ?_
  rw [hnames] at hn
  obtain ⟨ls, hls, rfl⟩ := List.mem_map.mp hn
  exact Name.bare_ofLabels (hdots ls hls) (hfits ls hls)

end

/-- **Writing again what was read.** Only a name with an empty label inside
keeps a message from being written. It reads back without one dot at the end of
each name and, when no label read had a dot in it, as it was, label by label. -/
theorem encode_decoded {packet : List UInt8} {m : Message} (h : decode packet = .ok m) :
    ((∃ bytes, m.encode = .ok bytes) ↔
      ∀ name ∈ m.names, Name.undotted name = [] ∨ [] ∉ Text.split '.' (Name.undotted name)) ∧
    (∀ e, m.encode = .error e → ∃ name, e = .name name) ∧
    (∀ bytes, m.encode = .ok bytes → decode bytes = .ok m.bare) ∧
    ∃ labels, labelsRead packet = .ok labels ∧ m.names = labels.map Name.ofLabels ∧
      ((∀ ls ∈ labels, ∀ label ∈ ls, 0x2E ∉ label) →
        ∃ bytes, m.encode = .ok bytes ∧ decode bytes = .ok m ∧ labelsRead bytes = .ok labels ∧
          m.names.map Name.write = labels.map fun ls => .ok (Name.wire ls)) := by
  obtain ⟨hq, ha, hr, labels, hl, hnames, hfits⟩ := parts_of_decode h
  have ht : ∀ r ∈ m.answers, r.Typed := fun r hmem => (hr r hmem).1
  have hcases := encode_cases hq ha fun r hmem => (hr r hmem).2
  have hwrite := write_names_ok_iff hnames hfits
  refine ⟨⟨fun hok name hn => ?_, fun hall => ?_⟩, fun e he => ?_, fun bytes hb => decode_of_encode hb ht,
    labels, hl, hnames, fun hdots => ?_⟩
  · rcases hcases with ⟨_, hw⟩ | ⟨_, _, e, _, he⟩
    · exact (hwrite name hn).mp (hw name hn)
    · obtain ⟨bytes, hb⟩ := hok
      rw [hb] at he; cases he
  · rcases hcases with ⟨hok, _⟩ | ⟨name, hn, e, he, _⟩
    · exact hok
    · obtain ⟨out, hw⟩ := (hwrite name hn).mpr (hall name hn)
      rw [hw] at he; cases he
  · rcases hcases with ⟨⟨bytes, hb⟩, _⟩ | ⟨name, _, e', hw, he'⟩
    · rw [hb] at he; cases he
    · rw [he'] at he
      cases he
      exact ⟨_, Name.write_error hw⟩
  · have hmap := write_names_of_dotless hnames hfits hdots
    have hok : ∃ bytes, m.encode = .ok bytes := by
      rcases hcases with ⟨hok, _⟩ | ⟨name, hn, e, he, _⟩
      · exact hok
      · have hw := List.mem_map_of_mem (f := Name.write) hn
        rw [hmap, he] at hw
        obtain ⟨ls, _, hw⟩ := List.mem_map.mp hw
        cases hw
    obtain ⟨bytes, hb⟩ := hok
    have hdec := decode_of_encode hb ht
    have hlab := labelsRead_of_encode hb ht
    rw [bare_of_dotless hnames hfits hdots] at hdec
    rw [encode_labels_of_dotless hnames hfits hdots] at hlab
    exact ⟨bytes, hb, hdec, hlab, hmap⟩

/-- Two questions, of which the second name ends in a pointer into the first
one, to a label with a dot at its end. -/
def dottedPacket : List UInt8 :=
  [0xBE, 0xEF, 1, 0, 0, 2, 0, 1, 0, 0, 0, 0, 1, 97, 2, 98, 46, 0, 0, 1, 0, 1, 1, 100, 192, 14, 0, 16, 0, 1,
    192, 12, 0, 16, 0, 1, 0, 0, 0, 5, 0, 4, 1, 104, 105, 106]

def dottedMessage : Message where
  id := 0xBEEF
  flags := ⟨0x0100⟩
  questions := [⟨"a.b.", typeA, classIn⟩, ⟨"d.b.", typeTxt, classIn⟩]
  answers := [.text "a.b." 5 "h"]

theorem decode_dottedPacket : decode dottedPacket = .ok dottedMessage := by
  have hfa : Name.Fits [97] := ⟨by decide, by decide⟩
  have hfb : Name.Fits [98, 46] := ⟨by decide, by decide⟩
  have hfd : Name.Fits [100] := ⟨by decide, by decide⟩
  have hb : Name.Spells dottedPacket 4 (dottedPacket.drop 14) [[98, 46]] (dottedPacket.drop 18) :=
    .label hfb .stop
  have hab : ∀ pointers, Name.Spells dottedPacket pointers (dottedPacket.drop 12) [[97], [98, 46]]
      (dottedPacket.drop 18) := fun _ => .label hfa (.label hfb .stop)
  have hfirst : readQuestion dottedPacket (dottedPacket.drop 12) =
      .ok (⟨"a.b.", typeA, classIn⟩, dottedPacket.drop 22) := by
    rw [readQuestion, Name.read, Name.readLabels_of_spells (hab Name.maxPointers)]
    rfl
  have hsecond : readQuestion dottedPacket (dottedPacket.drop 22) =
      .ok (⟨"d.b.", typeTxt, classIn⟩, dottedPacket.drop 30) := by
    have hdb : Name.Spells dottedPacket Name.maxPointers (dottedPacket.drop 22) [[100], [98, 46]] (dottedPacket.drop 26) :=
      .label hfd (.pointer (by decide) hb)
    rw [readQuestion, Name.read, Name.readLabels_of_spells hdb]
    rfl
  have hanswer : readRecord dottedPacket (dottedPacket.drop 30) = .ok (.text "a.b." 5 "h", []) := by
    have hp : Name.Spells dottedPacket Name.maxPointers (dottedPacket.drop 30) [[97], [98, 46]] (dottedPacket.drop 32) :=
      .pointer (by decide) (hab 4)
    rw [readRecord, Name.read, Name.readLabels_of_spells hp]
    rfl
  have hheader : readHeader dottedPacket = .ok (⟨0xBEEF, ⟨0x0100⟩, 2, 1⟩, dottedPacket.drop 12) := rfl
  rw [decode, hheader, ok_bind]
  show (readMany (readQuestion dottedPacket) 2 (dottedPacket.drop 12) >>= _) = _
  rw [readMany, hfirst, ok_bind]
  show ((readMany (readQuestion dottedPacket) 1 (dottedPacket.drop 22) >>= _) >>= _) = _
  rw [readMany, hsecond, ok_bind]
  show (readMany (readRecord dottedPacket) 1 (dottedPacket.drop 30) >>= _) = _
  rw [readMany, hanswer]
  rfl

theorem encode_decoded_dotted : decode dottedPacket = .ok dottedMessage ∧
    ∃ bytes, dottedMessage.encode = .ok bytes ∧ decode bytes = .ok dottedMessage.bare := by
  obtain ⟨hok, _, hback, _⟩ := encode_decoded decode_dottedPacket
  obtain ⟨bytes, hb⟩ := hok.mpr (by decide)
  exact ⟨decode_dottedPacket, bytes, hb, hback bytes hb⟩

end Message

end NameServer
