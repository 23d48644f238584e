import NameServer.Proofs.RoundTrip
import NameServer.Server.Answer

/-!
# Bytes behind a message

A read takes bytes from the front of what is left of a packet. If it succeeds,
the bytes that it took are still there when the packet goes on, and it takes
no others. If it fails, either bytes were missing, or it fails in the same way
when there are more. So what stands behind a complete message never matters,
and the beginning of a message either can be read too or lacks bytes.
-/

namespace NameServer

namespace Message

variable {α β : Type} {more : List UInt8}

/-- With more bytes behind the input, `longer` is read where `short` was read before, unless that
lacked bytes. -/
def Persists (more : List UInt8) (short longer : Except DecodeError (α × List UInt8)) : Prop :=
  match short with
  | .ok (a, rest) => longer = .ok (a, rest ++ more)
  | .error e => e = .pastEnd ∨ longer = .error e

/-- Reads go on persisting when one follows the other. -/
theorem Persists.bind {short longer : Except DecodeError (α × List UInt8)}
    {next next' : α × List UInt8 → Except DecodeError (β × List UInt8)} (h : Persists more short longer)
    (hnext : ∀ a rest, Persists more (next (a, rest)) (next' (a, rest ++ more))) :
    Persists more (short >>= next) (longer >>= next') := by
  cases short with
  | error e =>
    rcases h with rfl | rfl
    · exact .inl rfl
    · exact .inr rfl
  | ok result =>
    obtain ⟨a, rest⟩ := result
    have hlonger : longer = .ok (a, rest ++ more) := h
    subst hlonger
    exact hnext a rest

/-- A step that looks at no more bytes is the same in both. -/
theorem persists_map (step : Except DecodeError α) (f : α → β) (rest : List UInt8) :
    Persists more (step >>= fun a => .ok (f a, rest)) (step >>= fun a => .ok (f a, rest ++ more)) := by
  cases step with
  | error e => exact .inr rfl
  | ok a => exact rfl

/-! ## Fields -/

theorem persists_readWord : ∀ rest : List UInt8, Persists more (readWord rest) (readWord (rest ++ more))
  | [] | [_] => .inl rfl
  | _ :: _ :: _ => rfl

theorem persists_readLong : ∀ rest : List UInt8, Persists more (readLong rest) (readLong (rest ++ more))
  | [] | [_] | [_, _] | [_, _, _] => .inl rfl
  | _ :: _ :: _ :: _ :: _ => rfl

theorem persists_readBytes (count : Nat) (rest : List UInt8) :
    Persists more (readBytes count rest) (readBytes count (rest ++ more)) := by
  by_cases h : (rest.take count).length < count
  · rw [readBytes, if_pos h]
    exact .inl rfl
  · have hle : count ≤ rest.length := by
      rw [List.length_take] at h
      omega
    rw [readBytes, readBytes, List.take_append_of_le_length hle, List.drop_append_of_le_length hle, if_neg h, if_neg h]
    exact rfl

end Message

/-! ## Names -/

namespace Name

open Message (Persists)

variable {more : List UInt8}

/-- A pointer leads to the same bytes in the longer packet, or to none in the shorter one. -/
theorem persists_at (packet more : List UInt8) (pointers position : Nat)
    (ih : Persists more (readLabels packet pointers (packet.drop position))
      (readLabels (packet ++ more) pointers (packet.drop position ++ more))) :
    Persists more (readLabels packet pointers (packet.drop position))
      (readLabels (packet ++ more) pointers ((packet ++ more).drop position)) := by
  by_cases h : position ≤ packet.length
  · rw [List.drop_append_of_le_length h]
    exact ih
  · rw [List.drop_of_length_le (Nat.le_of_not_le h), readLabels.eq_def]
    exact .inl rfl

theorem persists_readLabels (packet more : List UInt8) (pointers : Nat) (rest : List UInt8) :
    Persists more (readLabels packet pointers rest) (readLabels (packet ++ more) pointers (rest ++ more)) := by
  induction pointers, rest using readLabels.induct packet with
  | case1 pointers =>
    rw [readLabels.eq_def]
    exact .inl rfl
  | case2 pointers rest =>
    rw [readLabels.eq_def, readLabels.eq_def (packet ++ more)]
    exact rfl
  | case3 pointers length h0 hp =>
    rw [readLabels.eq_def]
    simp only [if_neg h0, if_pos hp]
    exact .inl rfl
  | case4 length h0 hp low rest =>
    rw [readLabels.eq_def, readLabels.eq_def (packet ++ more)]
    simp only [List.cons_append, if_neg h0, if_pos hp]
    exact .inr rfl
  | case5 length h0 hp low rest pointers ih =>
    rw [readLabels.eq_def, readLabels.eq_def (packet ++ more)]
    simp only [List.cons_append, if_neg h0, if_pos hp]
    -- what follows the pointer goes on, and what follows the name that it leads to is dropped
    exact (persists_at packet more pointers (offset length low) ih).bind fun labels _ => rfl
  | case6 pointers length rest h0 hp hr =>
    rw [readLabels.eq_def, readLabels.eq_def (packet ++ more)]
    simp only [List.cons_append, if_neg h0, if_neg hp, if_pos hr]
    exact .inr rfl
  | case7 pointers length rest h0 hp hr hs =>
    rw [readLabels.eq_def]
    simp only [if_neg h0, if_neg hp, if_neg hr, if_pos hs]
    exact .inl rfl
  | case8 pointers length rest h0 hp hr hs ih =>
    have hle : length.toNat ≤ rest.length := by
      rw [List.length_take] at hs
      omega
    rw [readLabels.eq_def, readLabels.eq_def (packet ++ more)]
    simp only [List.cons_append, if_neg h0, if_neg hp, if_neg hr, List.take_append_of_le_length hle,
      List.drop_append_of_le_length hle, if_neg hs]
    exact ih.bind fun labels after => rfl

theorem persists_read (packet more rest : List UInt8) :
    Persists more (read packet rest) (read (packet ++ more) (rest ++ more)) :=
  (persists_readLabels packet more maxPointers rest).bind fun _ _ => rfl

end Name

namespace Message

/-! ## Sections -/

theorem persists_readQuestion (packet more rest : List UInt8) :
    Persists more (readQuestion packet rest) (readQuestion (packet ++ more) (rest ++ more)) := by
  refine (Name.persists_read packet more rest).bind fun name rest => ?_
  refine (persists_readWord rest).bind fun qtype rest => ?_
  exact (persists_readWord rest).bind fun qclass rest => rfl

theorem persists_readRecord (packet more rest : List UInt8) :
    Persists more (readRecord packet rest) (readRecord (packet ++ more) (rest ++ more)) := by
  refine (Name.persists_read packet more rest).bind fun name rest => ?_
  refine (persists_readWord rest).bind fun rtype rest => ?_
  refine (persists_readWord rest).bind fun rclass rest => ?_
  refine (persists_readLong rest).bind fun ttl rest => ?_
  refine (persists_readWord rest).bind fun length rest => ?_
  refine (persists_readBytes length.toNat rest).bind fun bytes rest => ?_
  exact persists_map (readData rtype bytes) _ rest

theorem persists_readMany {read read' : List UInt8 → Except DecodeError (α × List UInt8)}
    (hread : ∀ rest, Persists more (read rest) (read' (rest ++ more))) :
    ∀ (count : Nat) (rest : List UInt8), Persists more (readMany read count rest) (readMany read' count (rest ++ more))
  | 0, _ => rfl
  | count + 1, rest => by
    refine (hread rest).bind fun item rest => ?_
    exact (persists_readMany hread count rest).bind fun items rest => rfl

theorem readHeader_append : ∀ (packet more : List UInt8), readHeader packet = .error .headerTooShort ∨
    ∃ header rest, readHeader packet = .ok (header, rest) ∧ readHeader (packet ++ more) = .ok (header, rest ++ more)
  | _ :: _ :: _ :: _ :: _ :: _ :: _ :: _ :: _ :: _ :: _ :: _ :: rest, _ => .inr ⟨_, rest, rfl, rfl⟩
  | [], _ | [_], _ | [_, _], _ | [_, _, _], _ | [_, _, _, _], _ | [_, _, _, _, _], _ | [_, _, _, _, _, _], _
  | [_, _, _, _, _, _, _], _ | [_, _, _, _, _, _, _, _], _ | [_, _, _, _, _, _, _, _, _], _
  | [_, _, _, _, _, _, _, _, _, _], _ | [_, _, _, _, _, _, _, _, _, _, _], _ => .inl rfl

/-! ## Whole messages -/

/-- The last read doesn't give back what is left, so its result is the same. -/
theorem Persists.result {short longer : Except DecodeError (α × List UInt8)} (h : Persists more short longer)
    {last last' : α × List UInt8 → Except DecodeError β}
    (hlast : ∀ a rest, last' (a, rest ++ more) = last (a, rest) ∨ last (a, rest) = .error .pastEnd) :
    (longer >>= last') = (short >>= last) ∨ (short >>= last) = .error .pastEnd := by
  cases short with
  | error e =>
    rcases h with rfl | rfl
    · exact .inr rfl
    · exact .inl rfl
  | ok result =>
    obtain ⟨a, rest⟩ := result
    have hlonger : longer = .ok (a, rest ++ more) := h
    rw [hlonger]
    exact hlast a rest

theorem decode_append (packet more : List UInt8) : decode (packet ++ more) = decode packet ∨
    decode packet = .error .headerTooShort ∨ decode packet = .error .pastEnd := by
  rcases readHeader_append packet more with hshort | ⟨header, rest, hheader, hheader'⟩
  · exact .inr (.inl (by rw [decode, hshort]; rfl))
  · simp only [decode, hheader, hheader', ok_bind]
    have hquestions := persists_readMany (persists_readQuestion packet more) header.questions.toNat rest
    refine (hquestions.result fun questions rest => ?_).imp_right .inr
    have hanswers := persists_readMany (persists_readRecord packet more) header.answers.toNat rest
    exact hanswers.result fun answers rest => .inl rfl

end Message

namespace Server

open Message (decode)

/-- **What stands behind a message.** A packet that is read is read the same and answered the same, with the same
state after it, whatever follows. One that fails to be read fails the same, unless it lacked bytes. So the beginning of
a packet that is read is read too, or lacks bytes. -/
theorem trailing_bytes_ignored (packet more : List UInt8) :
    (∀ m, decode packet = .ok m →
      decode (packet ++ more) = .ok m ∧ ∀ s : Server, s.handle (packet ++ more) = s.handle packet) ∧
    (∀ e, decode packet = .error e → e ≠ .headerTooShort → e ≠ .pastEnd → decode (packet ++ more) = .error e) ∧
    ∀ m, decode (packet ++ more) = .ok m →
      decode packet = .ok m ∨ decode packet = .error .headerTooShort ∨ decode packet = .error .pastEnd := by
  rcases Message.decode_append packet more with hsame | hlacks
  · refine ⟨fun m hm => ⟨hsame.trans hm, fun s => ?_⟩, fun e he _ _ => hsame.trans he, fun m hm => ?_⟩
    · rw [handle, handle, hsame, hm]
    · exact .inl (hsame.symm.trans hm)
  · refine ⟨fun m hm => ?_, fun e he hshort hend => ?_, fun m _ => .inr hlacks⟩
    · rcases hlacks with h | h <;> cases h.symm.trans hm
    · rcases hlacks with h | h
      · cases h.symm.trans he
        exact absurd rfl hshort
      · cases h.symm.trans he
        exact absurd rfl hend

/-! A message with pointers, and a packet whose name has a reserved length, before an additional record. -/

def additionalRecord : List UInt8 := [0, 0, 41, 16, 0, 0, 0, 0, 0, 0, 0]

def reservedPacket : List UInt8 := [0xBE, 0xEF, 1, 0, 0, 1, 0, 0, 0, 0, 0, 1, 1, 97, 64]

theorem decode_reservedPacket : decode reservedPacket = .error .reservedLabel := by
  have hread : Message.readQuestion reservedPacket [1, 97, 64] = .error .reservedLabel := by
    rw [Message.readQuestion, Name.read, Name.readLabels.eq_def]
    show ((Name.readLabels reservedPacket 5 [64] >>= _) >>= _) >>= _ = _
    rw [Name.readLabels.eq_def]
    rfl
  have hheader : Message.readHeader reservedPacket = .ok (⟨0xBEEF, ⟨0x0100⟩, 1, 0⟩, [1, 97, 64]) := rfl
  rw [decode, hheader, ok_bind]
  show (Message.readMany (Message.readQuestion reservedPacket) 1 [1, 97, 64] >>= _) = _
  rw [Message.readMany, hread]
  rfl

theorem trailing_bytes_ignored_additional :
    decode (Message.dottedPacket ++ additionalRecord) = .ok Message.dottedMessage ∧
    (∀ s : Server, s.handle (Message.dottedPacket ++ additionalRecord) = s.handle Message.dottedPacket) ∧
    decode (reservedPacket ++ additionalRecord) = .error .reservedLabel := by
  have hread := (trailing_bytes_ignored Message.dottedPacket additionalRecord).1 _ Message.decode_dottedPacket
  have hreserved := (trailing_bytes_ignored reservedPacket additionalRecord).2.1 _ decode_reservedPacket
  exact ⟨hread.1, hread.2, hreserved (by decide) (by decide)⟩

end Server

end NameServer
