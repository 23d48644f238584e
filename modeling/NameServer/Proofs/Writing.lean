import NameServer.Proofs.Replies

/-!
# Which messages can be written

A message can be written when its counts, the labels of its names and its texts
fit into their fields. That tells which of its three forms a reply takes: as it
was meant, as a failure with the questions of the request, or as a header.
-/

namespace NameServer

/-! ## Parts -/

namespace Name

def Writable (name : String) : Prop := ∀ label ∈ labels name, isLabel label = true

theorem exists_write_iff (name : String) : (∃ bytes, write name = .ok bytes) ↔ Writable name := by
  simp only [write_ok_iff]
  exact ⟨fun ⟨_, h, _⟩ => h, fun h => ⟨_, h, rfl⟩⟩

/-- Nothing stands between two dots, or before the first one. A dot at the end is left out first. -/
def HasGap (name : String) : Prop := undotted name ≠ [] ∧ [] ∈ Text.split '.' (undotted name)

end Name

/-- Text has to fit into one string behind its length. -/
def RecordData.Fits : RecordData → Prop
  | .text value => value.length ≤ 255 ∧ ∀ c ∈ value.toList, c.toNat ≤ 255
  | _ => True

theorem Latin1.all_isLatin1_iff (cs : List Char) : cs.all isLatin1 = true ↔ ∀ c ∈ cs, c.toNat ≤ 255 := by
  rw [List.all_eq_true]
  exact forall₂_congr fun c _ => by rw [isLatin1, decide_eq_true_eq, Nat.lt_succ_iff]

namespace Message

theorem exists_writeText_iff (text : String) :
    (∃ bytes, writeText text = .ok bytes) ↔ (RecordData.text text).Fits := by
  rw [RecordData.Fits, ← Latin1.all_isLatin1_iff, ← String.length_toList]
  unfold writeText
  by_cases hl : text.toList.all Latin1.isLatin1 = true
  · by_cases hn : text.toList.length ≤ maxText
    · simp only [hl, if_true, if_pos hn]
      exact iff_of_true ⟨_, rfl⟩ ⟨hn, trivial⟩
    · simp only [hl, if_true, if_neg hn]
      refine iff_of_false ?_ fun h => hn h.1
      rintro ⟨_, h⟩
      cases h
  · simp only [if_neg hl]
    refine iff_of_false ?_ fun h => hl h.2
    rintro ⟨_, h⟩
    cases h

theorem exists_writeData_iff (data : RecordData) : (∃ bytes, writeData data = .ok bytes) ↔ data.Fits := by
  cases data with
  | text text => exact exists_writeText_iff text
  | address ip => exact ⟨fun _ => trivial, fun _ => ⟨_, rfl⟩⟩
  | none => exact ⟨fun _ => trivial, fun _ => ⟨_, rfl⟩⟩

theorem exists_writeQuestion_iff (q : Question) : (∃ bytes, writeQuestion q = .ok bytes) ↔ Name.Writable q.name := by
  rw [← Name.exists_write_iff]
  unfold writeQuestion
  simp only [bind_ok_iff]
  exact ⟨fun ⟨_, name, hn, _⟩ => ⟨name, hn⟩, fun ⟨name, hn⟩ => ⟨_, name, hn, rfl⟩⟩

theorem exists_writeRecord_iff (r : Record) :
    (∃ bytes, writeRecord r = .ok bytes) ↔ Name.Writable r.name ∧ r.data.Fits := by
  rw [← Name.exists_write_iff, ← exists_writeData_iff]
  unfold writeRecord
  simp only [bind_ok_iff]
  exact ⟨fun ⟨_, name, hn, data, hd, _⟩ => ⟨⟨name, hn⟩, data, hd⟩,
    fun ⟨⟨name, hn⟩, data, hd⟩ => ⟨_, name, hn, data, hd, rfl⟩⟩

theorem exists_writeMany_iff {α : Type} (write : α → Except EncodeError (List UInt8)) (items : List α) :
    (∃ bytes, writeMany write items = .ok bytes) ↔ ∀ item ∈ items, ∃ first, write item = .ok first := by
  rcases writeMany_cases write items with ⟨hok, hall⟩ | ⟨item, hmem, e, he, hmany⟩
  · exact ⟨fun _ => hall, fun _ => hok⟩
  · constructor
    · rintro ⟨bytes, h⟩
      rw [hmany] at h
      cases h
    · intro hall
      obtain ⟨first, h⟩ := hall item hmem
      rw [he] at h
      cases h

/-! ## Messages -/

/-- Counts that two bytes can hold, and names and texts that can be written. -/
structure Writable (m : Message) : Prop where
  questionCount : m.questions.length ≤ 65535
  answerCount : m.answers.length ≤ 65535
  questions : ∀ q ∈ m.questions, Name.Writable q.name
  answers : ∀ r ∈ m.answers, Name.Writable r.name ∧ r.data.Fits

def AnswersFit (m : Message) : Prop := m.answers.length ≤ 65535 ∧ ∀ r ∈ m.answers, r.data.Fits

/-- **Writing succeeds on exactly the messages that fit.** -/
theorem exists_encode_iff (m : Message) : (∃ bytes, m.encode = .ok bytes) ↔ m.Writable := by
  have hquestions : (∃ bytes, writeMany writeQuestion m.questions = .ok bytes) ↔
      ∀ q ∈ m.questions, Name.Writable q.name := by
    simp only [exists_writeMany_iff, exists_writeQuestion_iff]
  have hanswers : (∃ bytes, writeMany writeRecord m.answers = .ok bytes) ↔
      ∀ r ∈ m.answers, Name.Writable r.name ∧ r.data.Fits := by
    simp only [exists_writeMany_iff, exists_writeRecord_iff]
  simp only [encode_ok_iff]
  constructor
  · rintro ⟨_, hq, ha, questions, answers, hqs, has, _⟩
    exact ⟨hq, ha, hquestions.mp ⟨_, hqs⟩, hanswers.mp ⟨_, has⟩⟩
  · intro h
    obtain ⟨questions, hqs⟩ := hquestions.mpr h.questions
    obtain ⟨answers, has⟩ := hanswers.mpr h.answers
    exact ⟨_, h.questionCount, h.answerCount, questions, answers, hqs, has, rfl⟩

/-- A message that was read has counts that fit, and its names can be written where they have no gap. -/
theorem writable_names_of_decode {packet : List UInt8} {m : Message} (h : decode packet = .ok m) :
    m.questions.length ≤ 65535 ∧ ∀ name ∈ m.names, Name.Writable name ↔ ¬ Name.HasGap name := by
  obtain ⟨hq, _, _, labels, _, hnames, hfits⟩ := parts_of_decode h
  refine ⟨hq, fun name hn => ?_⟩
  rw [← Name.exists_write_iff, write_names_ok_iff hnames hfits name hn, Name.HasGap, not_and,
    Classical.or_iff_not_imp_left]

theorem exists_gap_iff {packet : List UInt8} {m : Message} (h : decode packet = .ok m) :
    (∃ q ∈ m.questions, Name.HasGap q.name) ↔ ¬ ∀ q ∈ m.questions, Name.Writable q.name := by
  obtain ⟨_, hnames⟩ := writable_names_of_decode h
  have hgap : ∀ q ∈ m.questions, Name.HasGap q.name ↔ ¬ Name.Writable q.name := fun q hq => by
    rw [hnames q.name (List.mem_append_left _ (List.mem_map_of_mem hq)), not_not]
  simp only [not_forall, exists_prop]
  exact exists_congr fun q => and_congr_right (hgap q)

/-! ## Replies -/

/-- The failure that stands in for a reply that can't be written. -/
def failure (request : Message) : Message := request.reply .serverFailure false []

/-- The message that a reply is sent as. -/
def sent (request reply : Message) : Message :=
  match reply.encode, request.failure.encode with
  | .ok _, _ => reply
  | .error _, .ok _ => request.failure
  | .error _, .error _ => { request.failure with questions := [] }

theorem encode_sent (request reply : Message) : (request.sent reply).encode = .ok (request.writeReply reply) := by
  unfold sent writeReply
  cases hr : reply.encode with
  | ok bytes => exact hr
  | error _ =>
    simp only
    rw [← failure]
    cases hf : request.failure.encode with
    | ok bytes => exact hf
    | error _ => rfl

theorem sent_of_writable {reply : Message} (h : reply.Writable) (request : Message) : request.sent reply = reply := by
  obtain ⟨bytes, hb⟩ := (exists_encode_iff reply).mpr h
  rw [sent, hb]

theorem sent_of_failure_writable {request reply : Message} (hr : ¬ reply.Writable) (hf : request.failure.Writable) :
    request.sent reply = request.failure := by
  obtain ⟨bytes, hb⟩ := (exists_encode_iff _).mpr hf
  unfold sent
  cases he : reply.encode with
  | ok bytes => exact absurd ((exists_encode_iff _).mp ⟨_, he⟩) hr
  | error _ => rw [hb]

theorem sent_of_not_writable {request reply : Message} (hr : ¬ reply.Writable) (hf : ¬ request.failure.Writable) :
    request.sent reply = { request.failure with questions := [] } := by
  unfold sent
  cases he : reply.encode with
  | ok bytes => exact absurd ((exists_encode_iff _).mp ⟨_, he⟩) hr
  | error _ =>
    cases hfe : request.failure.encode with
    | ok bytes => exact absurd ((exists_encode_iff _).mp ⟨_, hfe⟩) hf
    | error _ => rfl

end Message

namespace Server

open Message (decode)

/-- The message that the reply to a packet is. -/
def sent (s : Server) (packet : List UInt8) : Message :=
  match decode packet with
  | .error _ =>
    ⟨(Message.peekId packet).getD 0, replyFlags ((Message.peekFlags packet).getD ⟨0⟩) .serverFailure false, [], []⟩
  | .ok request => request.sent (s.respond request).reply

variable {s : Server} {packet : List UInt8} {request : Message}

theorem sent_of_decode (h : decode packet = .ok request) (s : Server) :
    s.sent packet = request.sent (s.respond request).reply := by
  rw [sent, h]

theorem encode_sent (s : Server) (packet : List UInt8) : (s.sent packet).encode = .ok (s.handle packet).reply := by
  unfold sent handle
  cases decode packet with
  | error _ => rfl
  | ok request => exact Message.encode_sent ..

theorem typed_respond (s : Server) (request : Message) : ∀ r ∈ (s.respond request).reply.answers, r.Typed := by
  obtain ⟨code, answers, hr, _, _, ha⟩ := s.respond_cases request
  rw [hr]
  exact fun r hr => (ha r hr).1

theorem typed_sent (s : Server) (packet : List UInt8) : ∀ r ∈ (s.sent packet).answers, r.Typed := by
  unfold sent
  cases decode packet with
  | error _ => exact fun r hr => nomatch hr
  | ok request =>
    simp only [Message.sent]
    split
    · exact s.typed_respond request
    · exact fun r hr => nomatch hr
    · exact fun r hr => nomatch hr

theorem decode_reply (s : Server) (packet : List UInt8) :
    decode (s.handle packet).reply = .ok (s.sent packet).bare :=
  Message.decode_of_encode (s.encode_sent packet) (s.typed_sent packet)

/-! The names in a reply are those of the questions, so only they and the texts can keep it from being written. -/

theorem writable_respond_iff (h : decode packet = .ok request) (s : Server) :
    (s.respond request).reply.Writable ↔
      (∀ q ∈ request.questions, Name.Writable q.name) ∧ (s.respond request).reply.AnswersFit := by
  obtain ⟨hcount, _⟩ := Message.writable_names_of_decode h
  obtain ⟨code, answers, hr, _, _, ha⟩ := s.respond_cases request
  rw [hr]
  constructor
  · exact fun hw => ⟨hw.questions, hw.answerCount, fun r hr => (hw.answers r hr).2⟩
  · rintro ⟨hq, hn, hd⟩
    refine ⟨hcount, hn, hq, fun r hr => ⟨?_, hd r hr⟩⟩
    obtain ⟨q, hhead, hname⟩ := Option.map_eq_some_iff.mp (ha r hr).2.2
    rw [← hname]
    exact hq q (List.mem_of_mem_head? hhead)

theorem writable_failure_iff (h : decode packet = .ok request) :
    request.failure.Writable ↔ ∀ q ∈ request.questions, Name.Writable q.name := by
  obtain ⟨hcount, _⟩ := Message.writable_names_of_decode h
  exact ⟨fun hw => hw.questions, fun hq => ⟨hcount, Nat.zero_le _, hq, fun r hr => nomatch hr⟩⟩

/-- **The three forms of a reply.** -/
theorem sent_cases (h : decode packet = .ok request) (s : Server) :
    (∀ q ∈ request.questions, Name.Writable q.name) ∧
      ((s.respond request).reply.AnswersFit ∧ s.sent packet = (s.respond request).reply ∨
        ¬ (s.respond request).reply.AnswersFit ∧ s.sent packet = request.failure) ∨
    ¬ (∀ q ∈ request.questions, Name.Writable q.name) ∧
      s.sent packet = { request.failure with questions := [] } := by
  have hreply := writable_respond_iff h s
  have hfailure := writable_failure_iff h
  rw [sent_of_decode h]
  by_cases hq : ∀ q ∈ request.questions, Name.Writable q.name
  · refine .inl ⟨hq, ?_⟩
    by_cases hfit : (s.respond request).reply.AnswersFit
    · exact .inl ⟨hfit, Message.sent_of_writable (hreply.mpr ⟨hq, hfit⟩) request⟩
    · exact .inr ⟨hfit, Message.sent_of_failure_writable (fun hw => hfit (hreply.mp hw).2) (hfailure.mpr hq)⟩
  · exact .inr ⟨hq, Message.sent_of_not_writable (fun hw => hq (hreply.mp hw).1) (fun hw => hq (hfailure.mp hw))⟩

end Server

end NameServer
