import NameServer.Proofs.Writing

/-!
# Why a message can't be written

Writing fails with the first complaint about the message, in the order in which
it is written: the number of its questions, that of its answers, the names of
the questions, and the name and the text of each answer. When there is none, no
number is cut to the size of its field. To say so, a message is laid out once
more, with numbers of any size where the bytes go.
-/

namespace NameServer

/-! ## Layout -/

/-- A number over two bytes. The first part is all that the second leaves, whether it is a byte or not. -/
def inTwo (n : Nat) : List Nat := [n / 0x100, n % 0x100]

def inFour (n : Nat) : List Nat := [n / 0x1000000, n / 0x10000 % 0x100, n / 0x100 % 0x100, n % 0x100]

def Name.units (name : String) : List Nat :=
  (labels name).flatMap (fun label => label.length :: label.map Char.toNat) ++ [0]

def RecordData.units : RecordData → List Nat
  | .address ip => ip.octets.map UInt8.toNat
  | .text value => value.length :: value.toList.map Char.toNat
  | .none => []

def Question.units (q : Question) : List Nat := Name.units q.name ++ inTwo q.qtype.toNat ++ inTwo q.qclass.toNat

def Record.units (r : Record) : List Nat :=
  Name.units r.name ++ inTwo r.rtype.toNat ++ inTwo r.rclass.toNat ++ inFour r.ttl.toNat ++
    inTwo r.data.units.length ++ r.data.units

def Message.units (m : Message) : List Nat :=
  inTwo m.id.toNat ++ inTwo m.flags.bits.toNat ++ inTwo m.questions.length ++ inTwo m.answers.length ++
    [0, 0, 0, 0] ++ m.questions.flatMap Question.units ++ m.answers.flatMap Record.units

/-! ## Complaints -/

/-- Each character has the number of a byte. -/
def Latin1.AllBytes (cs : List Char) : Prop := ∀ c ∈ cs, c.toNat ≤ 255

-- The search for an instance could also find one that goes through all characters there are.
instance (cs : List Char) : Decidable (Latin1.AllBytes cs) :=
  List.decidableBAll (fun c : Char => c.toNat ≤ 255) cs

/-- Less one dot at its end, the name is empty or made of labels between dots. -/
def Name.Spellable (name : String) : Prop :=
  undotted name = [] ∨ ∀ piece ∈ (undotted name).splitOn '.',
    1 ≤ piece.length ∧ piece.length ≤ 63 ∧ Latin1.AllBytes piece

instance (name : String) : Decidable (Name.Spellable name) := inferInstanceAs (Decidable (_ ∨ _))

instance : (data : RecordData) → Decidable data.Fits
  | .text value => inferInstanceAs (Decidable (value.length ≤ 255 ∧ Latin1.AllBytes value.toList))
  | .address _ => .isTrue trivial
  | .none => .isTrue trivial

def Name.complaints (name : String) : List EncodeError := if Spellable name then [] else [.name (bare name)]

/-- The size of a text is its length in characters when each of them could be a byte. -/
def RecordData.complaints : RecordData → List EncodeError
  | .text value =>
    if (RecordData.text value).Fits then []
    else [.textTooLong (if Latin1.AllBytes value.toList then value.length else value.utf8ByteSize)]
  | _ => []

def Question.complaints (q : Question) : List EncodeError := Name.complaints q.name

def Record.complaints (r : Record) : List EncodeError := Name.complaints r.name ++ r.data.complaints

def Message.complaints (m : Message) : List EncodeError :=
  (if m.questions.length ≤ 65535 then [] else [.tooManyQuestions]) ++
    ((if m.answers.length ≤ 65535 then [] else [.tooManyAnswers]) ++
      (m.questions.flatMap Question.complaints ++ m.answers.flatMap Record.complaints))

/-! What fails to be written fails with the first complaint. -/

theorem reports_writeMany {α : Type} {write : α → Except EncodeError (List UInt8)} {complaints : α → List EncodeError}
    (h : ∀ item, Reports (write item) (complaints item)) :
    ∀ items : List α, Reports (Message.writeMany write items) (items.flatMap complaints)
  | [] => reports_ok []
  | item :: items => by
    have hrest := reports_writeMany h items
    have hitems := (h item).bind fun first => hrest.bind fun rest => reports_ok (first ++ rest)
    rwa [List.append_nil] at hitems

/-! ## Names and texts -/

theorem Name.labels_eq (name : String) :
    labels name = if undotted name = [] then [] else (undotted name).splitOn '.' := by
  rw [labels, Text.split_eq_splitOn]

theorem Name.isLabel_iff_bounds (label : List Char) :
    isLabel label = true ↔ 1 ≤ label.length ∧ label.length ≤ 63 ∧ Latin1.AllBytes label := by
  have hne : 1 ≤ label.length ↔ label ≠ [] := List.length_pos_iff
  rw [isLabel_iff, hne, Latin1.all_isLatin1_iff, maxLabel, Latin1.AllBytes]

theorem Name.writable_iff_spellable (name : String) : Writable name ↔ Spellable name := by
  simp only [Writable, Spellable, labels_eq, isLabel_iff_bounds]
  by_cases h : undotted name = []
  · simp [h]
  · simp only [h, if_false, false_or]

theorem reports_writeName (name : String) : Reports (Name.write name) (Name.complaints name) := by
  have hwrite := (Name.exists_write_iff name).trans (Name.writable_iff_spellable name)
  unfold Name.complaints
  split
  · next h =>
    obtain ⟨bytes, hb⟩ := hwrite.mpr h
    rw [hb]
    exact reports_ok bytes
  · next h =>
    cases hw : Name.write name with
    | ok bytes => exact absurd (hwrite.mp ⟨bytes, hw⟩) h
    | error e =>
      rw [Name.write_error hw]
      exact reports_error _

namespace Message

theorem reports_writeText (value : String) : Reports (writeText value) (RecordData.text value).complaints := by
  unfold writeText
  have hall : value.toList.all Latin1.isLatin1 = true ↔ Latin1.AllBytes value.toList := Latin1.all_isLatin1_iff _
  simp only [RecordData.complaints, hall, String.length_toList, maxText]
  by_cases hlatin : Latin1.AllBytes value.toList
  · by_cases hlength : value.length ≤ 255
    · have hfits : (RecordData.text value).Fits := ⟨hlength, hlatin⟩
      rw [if_pos hlatin, if_pos hlength, if_pos hfits]
      exact reports_ok _
    · have hfits : ¬ (RecordData.text value).Fits := fun h => hlength h.1
      rw [if_pos hlatin, if_neg hlength, if_neg hfits, if_pos hlatin]
      exact reports_error _
  · have hfits : ¬ (RecordData.text value).Fits := fun h => hlatin h.2
    rw [if_neg hlatin, if_neg hfits, if_neg hlatin]
    exact reports_error _

theorem reports_writeData (data : RecordData) : Reports (writeData data) data.complaints := by
  cases data with
  | text value => exact reports_writeText value
  | address ip => exact reports_ok ip.octets
  | none => exact reports_ok []

theorem reports_writeQuestion (q : Question) : Reports (writeQuestion q) q.complaints := by
  have h := (reports_writeName q.name).bind fun name => reports_ok (name ++ writeWord q.qtype ++ writeWord q.qclass)
  rwa [List.append_nil] at h

theorem reports_writeRecord (r : Record) : Reports (writeRecord r) r.complaints := by
  have h := (reports_writeName r.name).bind fun name => (reports_writeData r.data).bind fun data =>
    reports_ok (name ++ writeWord r.rtype ++ writeWord r.rclass ++ writeLong r.ttl ++
      writeWord data.length.toUInt16 ++ data)
  rwa [List.append_nil] at h

/-- **Writing fails with the first complaint.** -/
theorem reports_encode (m : Message) : Reports m.encode m.complaints := by
  have hsections := (reports_writeMany reports_writeQuestion m.questions).bind fun questions =>
    (reports_writeMany reports_writeRecord m.answers).bind fun answers =>
      reports_ok (writeHeader m.id m.flags m.questions.length m.answers.length ++ questions ++ answers)
  rw [List.append_nil] at hsections
  exact (hsections.checked Nat.not_le.symm _).checked Nat.not_le.symm _

end Message

/-! ## No number is cut -/

theorem toNat_toUInt8 {n : Nat} (h : n ≤ 255) : n.toUInt8.toNat = n := by
  simp
  omega

theorem map_toNat_encode {cs : List Char} (h : Latin1.AllBytes cs) :
    (Latin1.encode cs).map UInt8.toNat = cs.map Char.toNat := by
  rw [Latin1.encode, List.map_map]
  exact List.map_congr_left fun c hc => toNat_toUInt8 (h c hc)

namespace Message

theorem map_toNat_writeWord (w : UInt16) : (writeWord w).map UInt8.toNat = inTwo w.toNat := by
  have := w.toNat_lt
  simp [writeWord, inTwo]
  omega

theorem map_toNat_writeCount {n : Nat} (h : n ≤ 65535) : (writeWord n.toUInt16).map UInt8.toNat = inTwo n := by
  have hn : n.toUInt16.toNat = n := by
    simp
    omega
  rw [map_toNat_writeWord, hn]

theorem map_toNat_writeLong (w : UInt32) : (writeLong w).map UInt8.toNat = inFour w.toNat := by
  have := w.toNat_lt
  simp [writeLong, inFour]
  omega

end Message

theorem Name.map_toNat_writeLabel {label : List Char} (h : isLabel label = true) :
    (writeLabel label).map UInt8.toNat = label.length :: label.map Char.toNat := by
  obtain ⟨_, hlength, hlatin⟩ := (isLabel_iff_bounds label).mp h
  rw [writeLabel, List.map_cons, toNat_toUInt8 (Nat.le_trans hlength (by decide)), map_toNat_encode hlatin]

theorem Name.units_of_write {name : String} {bytes : List UInt8} (h : write name = .ok bytes) :
    bytes.map UInt8.toNat = units name := by
  obtain ⟨hlabels, rfl⟩ := (write_ok_iff name bytes).mp h
  have hall : (labels name).map (fun label => (writeLabel label).map UInt8.toNat) =
      (labels name).map fun label => label.length :: label.map Char.toNat :=
    List.map_congr_left fun label hlabel => map_toNat_writeLabel (hlabels label hlabel)
  rw [wire_encode, units, List.map_append, List.map_flatMap, List.flatMap_def, hall, ← List.flatMap_def]
  rfl

namespace Message

theorem units_of_writeText {value : String} {bytes : List UInt8} (h : writeText value = .ok bytes) :
    bytes.map UInt8.toNat = (RecordData.text value).units := by
  obtain ⟨hlength, hlatin⟩ := (exists_writeText_iff value).mp ⟨bytes, h⟩
  simp only [writeText, Latin1.all_isLatin1_iff, if_pos hlatin, String.length_toList, maxText, if_pos hlength] at h
  cases h
  rw [List.map_cons, toNat_toUInt8 hlength, map_toNat_encode hlatin]
  rfl

theorem length_le_of_writeData {data : RecordData} {bytes : List UInt8} (h : writeData data = .ok bytes) :
    bytes.length ≤ 65535 := by
  cases data with
  | text value => exact Nat.le_trans (readText_write h).2 (by decide)
  | address ip =>
    cases h
    exact Nat.le_of_ble_eq_true rfl
  | none =>
    cases h
    exact Nat.zero_le _

theorem units_of_writeData {data : RecordData} {bytes : List UInt8} (h : writeData data = .ok bytes) :
    bytes.map UInt8.toNat = data.units := by
  cases data with
  | text value => exact units_of_writeText h
  | address ip =>
    cases h
    rfl
  | none =>
    cases h
    rfl

theorem units_of_writeQuestion {q : Question} {bytes : List UInt8} (h : writeQuestion q = .ok bytes) :
    bytes.map UInt8.toNat = q.units := by
  obtain ⟨name, hn, he⟩ := (bind_ok_iff _ _ _).mp h
  cases he
  simp only [List.map_append, Name.units_of_write hn, map_toNat_writeWord, Question.units]

theorem units_of_writeRecord {r : Record} {bytes : List UInt8} (h : writeRecord r = .ok bytes) :
    bytes.map UInt8.toNat = r.units := by
  obtain ⟨name, hn, h⟩ := (bind_ok_iff _ _ _).mp h
  obtain ⟨data, hd, he⟩ := (bind_ok_iff _ _ _).mp h
  cases he
  have hunits := units_of_writeData hd
  have hlength : data.length = r.data.units.length := by rw [← hunits, List.length_map]
  have hcount := map_toNat_writeCount (length_le_of_writeData hd)
  rw [hlength] at hcount
  simp only [List.map_append, Name.units_of_write hn, map_toNat_writeWord, map_toNat_writeLong, hlength, hcount,
    hunits, Record.units]

theorem units_of_writeMany {α : Type} {write : α → Except EncodeError (List UInt8)} {units : α → List Nat}
    (hwrite : ∀ item bytes, write item = .ok bytes → bytes.map UInt8.toNat = units item) :
    ∀ {items : List α} {bytes : List UInt8}, writeMany write items = .ok bytes →
      bytes.map UInt8.toNat = items.flatMap units
  | [], bytes, h => by
    cases h
    rfl
  | item :: items, bytes, h => by
    obtain ⟨first, hf, h⟩ := (bind_ok_iff _ _ _).mp h
    obtain ⟨rest, hr, he⟩ := (bind_ok_iff _ _ _).mp h
    cases he
    rw [List.map_append, hwrite item first hf, units_of_writeMany hwrite hr, List.flatMap_cons]

theorem units_of_encode {m : Message} {bytes : List UInt8} (h : m.encode = .ok bytes) :
    bytes.map UInt8.toNat = m.units := by
  obtain ⟨hq, ha, questions, answers, hqs, has, rfl⟩ := (encode_ok_iff m bytes).mp h
  have hquestions := units_of_writeMany (fun q bytes => units_of_writeQuestion) hqs
  have hanswers := units_of_writeMany (fun r bytes => units_of_writeRecord) has
  simp only [writeHeader, List.map_append, map_toNat_writeWord, map_toNat_writeCount hq, map_toNat_writeCount ha,
    hquestions, hanswers, units]
  rfl

/-- **Writing gives the message, or its first complaint.** -/
theorem encode_or_first_complaint (m : Message) :
    ((∃ bytes, m.encode = .ok bytes) ↔ m.questions.length ≤ 65535 ∧ m.answers.length ≤ 65535 ∧
      (∀ q ∈ m.questions, Name.Spellable q.name) ∧ ∀ r ∈ m.answers, Name.Spellable r.name ∧ r.data.Fits) ∧
    (∀ e, m.encode = .error e ↔ m.complaints.head? = some e) ∧
    ∀ bytes, m.encode = .ok bytes → bytes.map UInt8.toNat = m.units := by
  refine ⟨?_, reports_encode m, fun bytes => units_of_encode⟩
  simp only [exists_encode_iff, ← Name.writable_iff_spellable]
  constructor
  · exact fun h => ⟨h.questionCount, h.answerCount, h.questions, h.answers⟩
  · exact fun ⟨hq, ha, hqs, has⟩ => ⟨hq, ha, hqs, has⟩

/-- The longest label and the longest text, of characters that are two bytes in UTF-8, and the root. -/
def fullMessage : Message where
  id := 0xBEEF
  flags := ⟨0x8580⟩
  questions := [⟨String.ofList (List.replicate 63 'ÿ' ++ ['.']), typeTxt, classIn⟩, ⟨".", typeA, classIn⟩]
  answers := [.text "" 60 (String.ofList (List.replicate 255 'ÿ'))]

/-- Without its last dot, the name of the second question still ends in an empty label. -/
def faultyMessage : Message where
  id := 0xBEEF
  flags := ⟨0x8580⟩
  questions := [⟨"a", typeTxt, classIn⟩, ⟨"a..", typeTxt, classIn⟩]
  answers := [.text "ā" 60 "€"]

theorem encode_or_first_complaint_full : (∃ bytes, fullMessage.encode = .ok bytes ∧
    bytes.map UInt8.toNat = fullMessage.units) ∧ faultyMessage.encode = .error (.name "a.") ∧
    faultyMessage.complaints = [.name "a.", .name "ā", .textTooLong 3] := by
  obtain ⟨hsucceeds, _, hunits⟩ := encode_or_first_complaint fullMessage
  obtain ⟨_, hfails, _⟩ := encode_or_first_complaint faultyMessage
  have hcomplaints : faultyMessage.complaints = [.name "a.", .name "ā", .textTooLong 3] := by decide +kernel
  have htext : (RecordData.text (String.ofList (List.replicate 255 'ÿ'))).Fits := by
    refine ⟨Nat.le_of_eq (by rw [String.length_ofList, List.length_replicate]), fun c hc => ?_⟩
    rw [String.toList_ofList] at hc
    rw [(List.mem_replicate.mp hc).2]
    decide
  have hquestions : ∀ q ∈ fullMessage.questions, Name.Spellable q.name := by decide +kernel
  have hanswers : ∀ r ∈ fullMessage.answers, Name.Spellable r.name ∧ r.data.Fits :=
    List.forall_mem_singleton.mpr ⟨by decide, htext⟩
  obtain ⟨bytes, hb⟩ := hsucceeds.mpr ⟨by decide, by decide, hquestions, hanswers⟩
  refine ⟨⟨bytes, hb, hunits bytes hb⟩, (hfails _).mpr ?_, hcomplaints⟩
  rw [hcomplaints]
  rfl

end Message

end NameServer
