import Mathlib.Data.Nat.Bitwise
import NameServer.Proofs.RoundTrip
import NameServer.Server.Answer

/-!
# Replies on the wire

A reply is built in one of four ways: from an answer, from a request that is
given back with a failure, from a request of which only the header can be given
back, or from what can be made out of a packet that is no message. Each of them
is the encoding of a message, and so each can be read.
-/

namespace NameServer

/-! ## Headers -/

namespace Message

/-- The number in the two bytes at an offset, if the packet goes that far. -/
def numberAt? (packet : List UInt8) (offset : Nat) : Option Nat :=
  match packet.drop offset with
  | high :: low :: _ => some (256 * high.toNat + low.toNat)
  | _ => none

theorem toNat_word (high low : UInt8) : (word high low).toNat = 256 * high.toNat + low.toNat := by
  have := high.toNat_lt
  have := low.toNat_lt
  simp [word]
  omega

theorem numberAt?_zero (packet : List UInt8) : numberAt? packet 0 = (peekId packet).map UInt16.toNat := by
  unfold numberAt? peekId
  match packet with
  | [] => rfl
  | [_] => rfl
  | high :: low :: _ => simp [toNat_word]

theorem numberAt?_two (packet : List UInt8) : numberAt? packet 2 = (peekFlags packet).map (·.bits.toNat) := by
  unfold numberAt? peekFlags
  match packet with
  | [] => rfl
  | [_] => rfl
  | [_, _] => rfl
  | [_, _, _] => rfl
  | _ :: _ :: high :: low :: _ => simp [toNat_word]

theorem peek_of_decode {packet : List UInt8} {m : Message} (h : decode packet = .ok m) :
    peekId packet = some m.id ∧ peekFlags packet = some m.flags := by
  obtain ⟨⟨header, rest⟩, hh, h⟩ := (bind_ok_iff _ _ _).mp h
  obtain ⟨⟨questions, rest₁⟩, _, h⟩ := (bind_ok_iff _ _ _).mp h
  obtain ⟨⟨answers, rest₂⟩, _, he⟩ := (bind_ok_iff _ _ _).mp h
  cases he
  unfold readHeader at hh
  split at hh
  · cases hh
    exact ⟨rfl, rfl⟩
  · cases hh

theorem header_of_encode {m : Message} {bytes : List UInt8} (h : m.encode = .ok bytes) :
    12 ≤ bytes.length ∧ numberAt? bytes 8 = some 0 ∧ numberAt? bytes 10 = some 0 := by
  obtain ⟨_, _, questions, answers, _, _, rfl⟩ := (encode_ok_iff m bytes).mp h
  refine ⟨?_, rfl, rfl⟩
  simp [writeHeader, writeWord]

end Message

theorem Flags.has_rd (flags : Flags) : flags.has Flags.rd = flags.bits.toNat.testBit 8 := by
  have h : (flags.bits &&& Flags.rd).toNat = (flags.bits.toNat.testBit 8).toNat * 2 ^ 8 := by
    rw [UInt16.toNat_and]
    exact Nat.and_two_pow flags.bits.toNat 8
  unfold has
  cases hb : flags.bits.toNat.testBit 8 with
  | false =>
    rw [hb] at h
    have hz : flags.bits &&& Flags.rd = 0 := UInt16.toNat.inj h
    simp [hz]
  | true =>
    rw [hb] at h
    simp only [bne_iff_ne, ne_eq]
    intro hz
    rw [hz] at h
    cases h

/-! ## Messages that are replies -/

def ResponseCode.isAuthoritative (code : ResponseCode) : Bool := code == .noError || code == .nameError

theorem replyFlags_fields (request : Flags) (code : ResponseCode) (authoritative : Bool) :
    let flags := replyFlags request code authoritative
    flags.has Flags.qr = true ∧ flags.opcode = 0 ∧ flags.has Flags.tc = false ∧ flags.has Flags.ra = false ∧
      flags.bits &&& 0x0070 = 0 ∧ flags.has Flags.rd = request.has Flags.rd ∧
      flags.has Flags.aa = authoritative ∧ flags.responseCode = code.toWord := by
  unfold replyFlags
  generalize request.has Flags.rd = desired
  cases desired <;> cases authoritative <;> cases code <;> decide

theorem responseCode_reply (request : Message) (code : ResponseCode) (authoritative : Bool) (answers : List Record) :
    (request.reply code authoritative answers).flags.responseCode = code.toWord := by
  obtain ⟨_, _, _, _, _, _, _, hcode⟩ := replyFlags_fields request.flags code authoritative
  exact hcode

/-- The records answer the first of the questions: each could be a record of its name. -/
def Answering (questions : List Question) (answers : List Record) : Prop :=
  ∀ r ∈ answers, r.Typed ∧ r.rclass = classIn ∧ questions.head?.map Question.name = some r.name

namespace Message

structure RepliesTo (packet : List UInt8) (code : ResponseCode) (m : Message) : Prop where
  id : m.id = (peekId packet).getD 0
  flags : m.flags = replyFlags ((peekFlags packet).getD ⟨0⟩) code code.isAuthoritative
  typed : ∀ r ∈ m.answers, r.Typed
  answered : m.answers ≠ [] ↔ code = .noError
  echoed : code ≠ .serverFailure → ∃ request, decode packet = .ok request ∧ m.questions = request.questions ∧
    Answering request.questions m.answers

end Message

namespace Server

open Message (RepliesTo)

variable {s : Server} {packet : List UInt8} {request : Message}

/-! ## Answers -/

theorem answering_answerAddress (s : Server) (q : Question) (qs : List Question) (name : String) :
    Answering (q :: qs) (s.answerAddress q.name name).records := by
  intro r hr
  unfold answerAddress at hr
  simp only at hr
  split at hr
  · cases List.mem_singleton.mp hr
    exact ⟨rfl, rfl, rfl⟩
  · split at hr
    · cases hr
    · simp only [Option.mem_toList, Option.map_eq_some_iff] at hr
      obtain ⟨ip, _, rfl⟩ := hr
      exact ⟨rfl, rfl, rfl⟩

theorem answering_answerChallenge (s : Server) (q : Question) (qs : List Question) (name : String) :
    Answering (q :: qs) (s.answerChallenge q.name name) := by
  intro r hr
  unfold answerChallenge at hr
  split at hr
  · split at hr
    · obtain ⟨token, _, rfl⟩ := List.mem_map.mp hr
      exact ⟨rfl, rfl, rfl⟩
    · cases hr
  · cases hr

theorem answering_answer (s : Server) (q : Question) (qs : List Question) :
    Answering (q :: qs) (s.answer q).records := by
  by_cases hA : q.qtype = typeA
  · rw [answer, if_pos hA]
    exact s.answering_answerAddress q qs (hostnameOf q)
  · by_cases hT : q.qtype = typeTxt
    · rw [answer, if_neg hA, if_pos hT]
      dsimp only
      exact s.answering_answerChallenge q qs (hostnameOf q)
    · rw [answer, if_neg hA, if_neg hT]
      exact fun r hr => nomatch hr

theorem respond_cases (s : Server) (request : Message) : ∃ code answers,
    (s.respond request).reply = request.reply code code.isAuthoritative answers ∧ code ≠ .serverFailure ∧
      (answers ≠ [] ↔ code = .noError) ∧ Answering request.questions answers := by
  unfold respond
  cases request.questions with
  | nil => exact ⟨.refused, [], rfl, by decide, by decide, fun r hr => nomatch hr⟩
  | cons q qs =>
    simp only
    split
    · exact ⟨.refused, [], rfl, by decide, by decide, fun r hr => nomatch hr⟩
    · have ha := s.answering_answer q qs
      cases hr : (s.answer q).records with
      | nil => exact ⟨.nameError, [], rfl, by decide, by decide, fun r hr => nomatch hr⟩
      | cons r rs => exact ⟨.noError, r :: rs, rfl, by decide, by simp, hr ▸ ha⟩

/-! ## Every reply is a message -/

theorem writeReply_cases (request reply : Message) :
    reply.encode = .ok (request.writeReply reply) ∨ ∃ m : Message, m.encode = .ok (request.writeReply reply) ∧
      m.id = request.id ∧ m.flags = replyFlags request.flags .serverFailure false ∧ m.answers = [] := by
  unfold Message.writeReply
  cases hr : reply.encode with
  | ok bytes => exact .inl rfl
  | error _ =>
    refine .inr ?_
    simp only
    cases hf : (request.reply .serverFailure false []).encode with
    | ok bytes => exact ⟨_, hf, rfl, rfl, rfl⟩
    | error _ => exact ⟨⟨request.id, replyFlags request.flags .serverFailure false, [], []⟩, rfl, rfl, rfl, rfl⟩

theorem handle_encodes (s : Server) (packet : List UInt8) : ∃ (m : Message) (code : ResponseCode),
    m.encode = .ok (s.handle packet).reply ∧ m.RepliesTo packet code := by
  have hfailure : ∀ m : Message, m.id = (Message.peekId packet).getD 0 →
      m.flags = replyFlags ((Message.peekFlags packet).getD ⟨0⟩) .serverFailure false → m.answers = [] →
      m.RepliesTo packet .serverFailure := by
    intro m hid hflags hanswers
    refine ⟨hid, hflags, ?_, ?_, fun h => absurd rfl h⟩
    · rw [hanswers]
      exact fun r hr => nomatch hr
    · simp [hanswers]
  unfold handle
  cases hd : Message.decode packet with
  | error _ =>
    exact ⟨⟨(Message.peekId packet).getD 0, _, [], []⟩, .serverFailure, rfl, hfailure _ rfl rfl rfl⟩
  | ok request =>
    -- the header that was read is the one that is peeked at, so failures of either kind carry the same id and flags
    obtain ⟨hid, hflags⟩ := Message.peek_of_decode hd
    simp only
    rcases writeReply_cases request (s.respond request).reply with he | ⟨m, he, hmid, hmflags, hm⟩
    · obtain ⟨code, answers, hr, hcode, hanswered, ha⟩ := s.respond_cases request
      refine ⟨_, code, he, ?_⟩
      rw [hr]
      refine ⟨?_, ?_, fun r hmem => (ha r hmem).1, hanswered, fun _ => ⟨request, hd, rfl, ha⟩⟩
      · rw [hid]; rfl
      · rw [hflags]; rfl
    · refine ⟨m, .serverFailure, he, hfailure m ?_ ?_ hm⟩
      · rw [hmid, hid]; rfl
      · rw [hmflags, hflags]; rfl

end Server

/-! ## What can be read from a reply -/

/-- The reply to a packet reads as `r`, and `r` replies to it in good form. -/
structure WellFormedReply (packet reply : List UInt8) (r : Message) : Prop where
  long : 12 ≤ reply.length
  reads : Message.decode reply = .ok r
  id : r.id.toNat = (Message.numberAt? packet 0).getD 0
  qr : r.flags.has Flags.qr = true
  opcode : r.flags.opcode = 0
  tc : r.flags.has Flags.tc = false
  ra : r.flags.has Flags.ra = false
  reserved : r.flags.bits &&& 0x0070 = 0
  rd : r.flags.has Flags.rd = ((Message.numberAt? packet 2).getD 0).testBit 8
  code : r.flags.responseCode ∈ [0, 2, 3, 5]
  aa : r.flags.has Flags.aa = true ↔ r.flags.responseCode ∈ [0, 3]
  answered : r.answers ≠ [] ↔ r.flags.responseCode = 0
  authority : Message.numberAt? reply 8 = some 0
  additional : Message.numberAt? reply 10 = some 0
  echoed : r.flags.responseCode ≠ 2 → ∃ request, Message.decode packet = .ok request ∧
    r.questions = request.questions.map Question.bare ∧
    ∀ a ∈ r.answers, a.rclass = classIn ∧ request.questions.head?.map (Name.bare ·.name) = some a.name

namespace Message.RepliesTo

variable {packet bytes : List UInt8} {code : ResponseCode} {m : Message}

theorem rd (h : m.RepliesTo packet code) :
    m.flags.has Flags.rd = ((numberAt? packet 2).getD 0).testBit 8 := by
  obtain ⟨_, _, _, _, _, hrd, _, _⟩ := replyFlags_fields ((peekFlags packet).getD ⟨0⟩) code _
  rw [h.flags, hrd, Flags.has_rd, numberAt?_two]
  cases peekFlags packet <;> rfl

theorem wellFormed (h : m.RepliesTo packet code) (he : m.encode = .ok bytes) :
    WellFormedReply packet bytes m.bare := by
  obtain ⟨hlong, hauthority, hadditional⟩ := header_of_encode he
  obtain ⟨hqr, hopcode, htc, hra, hreserved, _, haa, hcode⟩ := replyFlags_fields ((peekFlags packet).getD ⟨0⟩) code _
  rw [← h.flags] at hqr hopcode htc hra hreserved haa hcode
  have hb : m.bare.flags = m.flags := rfl
  refine ⟨hlong, decode_of_encode he h.typed, ?_, hqr, hopcode, htc, hra, hreserved, h.rd, ?_, ?_, ?_,
    hauthority, hadditional, ?_⟩
  · show m.id.toNat = _
    rw [h.id, numberAt?_zero]
    cases peekId packet <;> rfl
  · rw [hb, hcode]
    cases code <;> decide
  · rw [hb, hcode, haa]
    cases code <;> decide
  · have hanswers : m.bare.answers ≠ [] ↔ m.answers ≠ [] := not_congr List.map_eq_nil_iff
    rw [hanswers, h.answered, hb, hcode]
    cases code <;> decide
  · rw [hb, hcode]
    intro hne
    obtain ⟨request, hd, hq, ha⟩ := h.echoed fun e => hne (by rw [e]; rfl)
    refine ⟨request, hd, ?_, ?_⟩
    · show m.questions.map Question.bare = _
      rw [hq]
    · intro a hmem
      obtain ⟨r, hr, rfl⟩ := List.mem_map.mp hmem
      obtain ⟨_, hclass, howner⟩ := ha r hr
      refine ⟨hclass, ?_⟩
      have hbare := congrArg (Option.map Name.bare) howner
      rw [Option.map_map] at hbare
      exact hbare

end Message.RepliesTo

/-- **Every packet gets a reply in good form.** -/
theorem Server.handle_wellFormed (s : Server) (packet : List UInt8) :
    ∃ r, WellFormedReply packet (s.handle packet).reply r := by
  obtain ⟨m, code, he, hm⟩ := s.handle_encodes packet
  exact ⟨m.bare, hm.wellFormed he⟩

end NameServer
