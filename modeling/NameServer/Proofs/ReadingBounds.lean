import NameServer.Proofs.NameWalk
import NameServer.Proofs.RoundTrip

/-!
# How far reading goes

A pointer may lead anywhere in a packet, so a name has no position that only
grows. What shrinks is the number of bytes that reading may still take: those
ahead, and the whole packet again for each pointer that it may still follow.
Each turn of the walk takes some of them, and a label gives the name no more
characters than it took bytes. Behind a name, however short, each field takes
bytes that no other field takes, which bounds the questions and the answers.
-/

namespace NameServer

namespace Name

/-! ## What a turn takes -/

namespace Walk

/-- The bytes that reading may still take, in what is left of six passes over the packet. -/
def budget (packet : List UInt8) (w : Walk) : Nat := (6 - w.pointers) * packet.length - w.position

/-- The bytes that the labels take where they are written in full. -/
def written (w : Walk) : Nat := (w.labels.flatMap wireLabel).length

variable {packet : List UInt8} {w w' : Walk}

theorem budget_start_le (packet : List UInt8) (start : Nat) :
    budget packet { position := start } ≤ 6 * packet.length := Nat.sub_le _ _

theorem budget_of_step (h : Step packet w w') (hw : w.pointers ≤ 5) :
    w'.budget packet + 2 ≤ w.budget packet ∧ w'.written + w'.budget packet ≤ w.written + w.budget packet := by
  have hpasses : (6 - w.pointers) * packet.length = (5 - w.pointers) * packet.length + packet.length := by
    rw [← Nat.succ_mul]
    congr 1
    omega
  rcases step_label_or_pointer h with ⟨length, hpos, hinside, rfl⟩ | ⟨target, hinside, rfl⟩
  · have hlabel : ((packet.drop (w.position + 1)).take length).length = length := by
      rw [List.length_take, List.length_drop]
      omega
    simp only [budget, written, List.flatMap_append, List.flatMap_singleton, List.length_append, wireLabel,
      List.length_cons, hlabel, hpasses]
    omega
  · -- the pointer gives up what was left of this pass, its own two bytes at least
    have hnext : 6 - (w.pointers + 1) = 5 - w.pointers := by omega
    simp only [budget, written, hnext, hpasses]
    omega

theorem Leads.written_le (h : Leads packet w w') (hw' : w'.pointers ≤ 5) :
    w'.written + w'.budget packet ≤ w.written + w.budget packet := by
  induction h with
  | refl => exact Nat.le_refl _
  | @tail b c _ hstep ih =>
    have hb : b.pointers ≤ 5 := Nat.le_trans (pointers_le_of_step hstep) hw'
    exact Nat.le_trans (budget_of_step hstep hb).2 (ih hb)

/-! ## The walk as a loop -/

/-- Goes on along the walk until there is a result, for so many turns at most. -/
def follow (packet : List UInt8) : (turns : Nat) → Walk → Option (Except DecodeError (String × List UInt8))
  | 0, w => w.result? packet
  | turns + 1, w =>
    match w.turn packet with
    | .goes next => (w.result? packet).or (follow packet turns next)
    | _ => w.result? packet

theorem step_of_result?_eq_none (h : w.result? packet = none) : w.pointers ≤ 5 ∧ ∃ next, Step packet w next := by
  unfold result? at h
  split at h
  · cases h
  · next hmany =>
    refine ⟨Nat.le_of_not_lt hmany, ?_⟩
    split at h
    · cases h
    · next next hturn => exact ⟨next, hturn⟩
    · cases h
    · cases h

theorem follow_of_result? {r : Except DecodeError (String × List UInt8)} (h : w.result? packet = some r) :
    ∀ turns, follow packet turns w = some r
  | 0 => h
  | turns + 1 => by
    rw [follow, h]
    cases w.turn packet <;> rfl

theorem follow_of_step (h : Step packet w w') (hw : w.result? packet = none) (turns : Nat) :
    follow packet (turns + 1) w = follow packet turns w' := by
  have hturn : w.turn packet = .goes w' := h
  rw [follow, hturn, hw]
  rfl

/-- Two bytes a turn are enough, since a turn takes no fewer. -/
theorem exists_follow (packet : List UInt8) (turns : Nat) (w : Walk) (hbudget : w.budget packet ≤ 2 * turns) :
    ∃ w' r, Leads packet w w' ∧ w'.result? packet = some r ∧ follow packet turns w = some r := by
  cases hw : w.result? packet with
  | some r => exact ⟨w, r, .refl, hw, follow_of_result? hw turns⟩
  | none =>
    obtain ⟨hle, next, hstep⟩ := step_of_result?_eq_none hw
    have hspent := (budget_of_step hstep hle).1
    match turns with
    | 0 => omega
    | turns + 1 =>
      obtain ⟨w', r, hleads, hr, hfollow⟩ := exists_follow packet turns next (by omega)
      exact ⟨w', r, .head hstep hleads, hr, (follow_of_step hstep hw turns).trans hfollow⟩

end Walk

/-! ## Reading a name -/

open Walk (follow)

theorem follow_eq_read (packet : List UInt8) (start : Nat) :
    follow packet (3 * packet.length) { position := start } = some (read packet (packet.drop start)) := by
  have hbudget : Walk.budget packet { position := start } ≤ 2 * (3 * packet.length) := by
    have := Walk.budget_start_le packet start
    omega
  obtain ⟨w, r, hleads, hr, hfollow⟩ := Walk.exists_follow packet _ _ hbudget
  rw [hfollow, (read_eq_iff packet start r).mpr ⟨w, hleads, hr⟩]

/-- A pointer to itself is followed until it is one too many. -/
example : follow [192, 0] 6 { position := 0 } = some (.error .tooManyPointers) := by cbv

/-- The dots of a name stand for the length bytes of its labels. -/
theorem length_join_le : ∀ labels : List (List UInt8),
    (Text.join '.' (labels.map Latin1.decode)).length ≤ (labels.flatMap wireLabel).length
  | [] => Nat.le_refl 0
  | [label] => by simp [Text.join, Latin1.decode, wireLabel]
  | label :: next :: labels => by
    have ih := length_join_le (next :: labels)
    rw [List.map_cons, Text.join_cons_cons _ _ (by simp), List.flatMap_cons, List.length_append, List.length_append,
      List.length_cons, Latin1.decode, List.length_map, wireLabel, List.length_cons]
    omega

theorem length_ofLabels_le (labels : List (List UInt8)) :
    (ofLabels labels).length ≤ (labels.flatMap wireLabel).length := by
  rw [ofLabels, String.length_ofList]
  exact length_join_le labels

theorem length_le_of_read {packet rest : List UInt8} {start : Nat} {name : String}
    (h : read packet (packet.drop start) = .ok (name, rest)) : name.length ≤ 6 * packet.length := by
  obtain ⟨w, hleads, hw⟩ := (read_eq_iff packet start _).mp h
  rcases (Walk.result?_eq_some_iff packet w _).mp hw with ⟨_, h⟩ | ⟨hle, ⟨_, h⟩ | ⟨_, h⟩ | ⟨_, h⟩⟩
  · cases h
  · cases h
    calc (ofLabels w.labels).length
      _ ≤ w.written := length_ofLabels_le w.labels
      _ ≤ w.written + w.budget packet := Nat.le_add_right _ _
      _ ≤ 0 + Walk.budget packet { position := start } := hleads.written_le hle
      _ ≤ 6 * packet.length := by
        rw [Nat.zero_add]
        exact Walk.budget_start_le packet start
  · cases h
  · cases h

/-- Behind a name, its zero byte or the two bytes of its first pointer are taken. -/
theorem Spells.shortens {packet rest after : List UInt8} {pointers : Nat} {labels : List (List UInt8)}
    (h : Spells packet pointers rest labels after) : after <:+ rest ∧ after.length + 1 ≤ rest.length := by
  induction h with
  | @stop _ rest => exact ⟨List.suffix_append [0] rest, Nat.le_refl _⟩
  | @label _ label rest _ _ _ _ ih =>
    refine ⟨ih.1.trans (List.suffix_append _ rest), ?_⟩
    rw [List.length_append]
    omega
  | @pointer _ high low rest _ _ _ _ _ =>
    refine ⟨List.suffix_append [high, low] rest, ?_⟩
    rw [List.length_cons, List.length_cons]
    omega

end Name

namespace Message

/-! ## Bytes that a read takes -/

section
variable {α β γ : Type} {rest : List UInt8} {least more : Nat}

/-- What is read from `rest` takes at least so many bytes from its front. -/
def Takes (least : Nat) (rest : List UInt8) (result : Except DecodeError (α × List UInt8)) : Prop :=
  ∀ a after, result = .ok (a, after) → after <:+ rest ∧ after.length + least ≤ rest.length

/-- One read after another takes the bytes of both. -/
theorem Takes.bind {result : Except DecodeError (α × List UInt8)}
    {next : α × List UInt8 → Except DecodeError (β × List UInt8)} (h : Takes least rest result)
    (hnext : ∀ a after, Takes more after (next (a, after))) : Takes (least + more) rest (result >>= next) := by
  intro b after hb
  obtain ⟨⟨a, between⟩, ha, hb⟩ := (bind_ok_iff _ _ _).mp hb
  obtain ⟨hs, hl⟩ := h a between ha
  obtain ⟨hs', hl'⟩ := hnext a between b after hb
  exact ⟨hs'.trans hs, by omega⟩

/-- A step that looks at no more bytes takes none. -/
theorem Takes.pass {result : Except DecodeError (α × List UInt8)} (h : Takes least rest result)
    (step : α → Except DecodeError β) (f : β → γ) :
    Takes least rest (result >>= fun (a, after) => step a >>= fun b => .ok (f b, after)) := by
  intro c after hc
  obtain ⟨⟨a, after'⟩, ha, hc⟩ := (bind_ok_iff _ _ _).mp hc
  obtain ⟨b, _, hc⟩ := (bind_ok_iff _ _ _).mp hc
  cases hc
  exact h a after ha

/-! ## Fields -/

theorem takes_readWord : ∀ rest : List UInt8, Takes 2 rest (readWord rest)
  | [] | [_] => by rintro _ _ ⟨⟩
  | high :: low :: rest => by
    rintro _ _ ⟨⟩
    exact ⟨List.suffix_append [high, low] rest, Nat.le_refl _⟩

theorem takes_readLong : ∀ rest : List UInt8, Takes 4 rest (readLong rest)
  | [] | [_] | [_, _] | [_, _, _] => by rintro _ _ ⟨⟩
  | a :: b :: c :: d :: rest => by
    rintro _ _ ⟨⟩
    exact ⟨List.suffix_append [a, b, c, d] rest, Nat.le_refl _⟩

theorem takes_readBytes (count : Nat) (rest : List UInt8) : Takes 0 rest (readBytes count rest) := by
  intro bytes after h
  unfold readBytes at h
  split at h
  · cases h
  · cases h
    exact ⟨List.drop_suffix count rest, (List.drop_suffix count rest).length_le⟩

theorem length_of_readHeader {packet rest : List UInt8} {header : Header} (h : readHeader packet = .ok (header, rest)) :
    packet.length = rest.length + 12 := by
  unfold readHeader at h
  split at h
  · cases h
    simp only [List.length_cons]
  · cases h

theorem takes_readName (packet rest : List UInt8) : Takes 1 rest (Name.read packet rest) :=
  Takes.pass (fun _ _ h => (Name.spells_of_readLabels h).shortens) .ok Name.ofLabels

theorem position_of_readName {packet rest : List UInt8} {start : Nat} {name : String}
    (h : Name.read packet (packet.drop start) = .ok (name, rest)) :
    ∃ after, start + 1 ≤ after ∧ after ≤ packet.length ∧ rest = packet.drop after := by
  obtain ⟨hsuffix, htaken⟩ := takes_readName packet _ name rest h
  rw [List.length_drop] at htaken
  refine ⟨packet.length - rest.length, by omega, Nat.sub_le _ _, ?_⟩
  exact List.suffix_iff_eq_drop.mp (hsuffix.trans (List.drop_suffix start packet))

/-! ## Sections -/

theorem takes_readQuestion (packet rest : List UInt8) : Takes 5 rest (readQuestion packet rest) := by
  show Takes (1 + (2 + 2)) rest _
  refine (takes_readName packet rest).bind fun name rest => ?_
  refine (takes_readWord rest).bind fun qtype rest => ?_
  exact (takes_readWord rest).pass .ok (Question.mk name qtype)

theorem takes_readRecord (packet rest : List UInt8) : Takes 11 rest (readRecord packet rest) := by
  show Takes (1 + (2 + (2 + (4 + (2 + 0))))) rest _
  refine (takes_readName packet rest).bind fun name rest => ?_
  refine (takes_readWord rest).bind fun rtype rest => ?_
  refine (takes_readWord rest).bind fun rclass rest => ?_
  refine (takes_readLong rest).bind fun ttl rest => ?_
  refine (takes_readWord rest).bind fun length rest => ?_
  exact (takes_readBytes length.toNat rest).pass (readData rtype) (Record.mk name rtype rclass ttl)

theorem takes_readMany {read : List UInt8 → Except DecodeError (α × List UInt8)}
    (hread : ∀ rest, Takes least rest (read rest)) :
    ∀ (count : Nat) (rest : List UInt8), Takes (count * least) rest (readMany read count rest)
  | 0, rest => by
    rintro _ _ ⟨⟩
    exact ⟨List.suffix_rfl, by omega⟩
  | count + 1, rest => by
    rw [Nat.succ_mul, Nat.add_comm]
    refine (hread rest).bind fun item rest => ?_
    exact (takes_readMany hread count rest).pass .ok (item :: ·)

end

/-- A message that is read has as many questions and answers as its header says, and each of them has bytes of its
own. -/
theorem length_of_decode {packet : List UInt8} {m : Message} (h : decode packet = .ok m) :
    12 + 5 * m.questions.length + 11 * m.answers.length ≤ packet.length ∧
      ∃ header rest, readHeader packet = .ok (header, rest) ∧
        header.questions.toNat = m.questions.length ∧ header.answers.toNat = m.answers.length := by
  obtain ⟨⟨header, rest⟩, hheader, h⟩ := (bind_ok_iff _ _ _).mp h
  obtain ⟨⟨questions, rest'⟩, hquestions, h⟩ := (bind_ok_iff _ _ _).mp h
  obtain ⟨⟨answers, after⟩, hanswers, h⟩ := (bind_ok_iff _ _ _).mp h
  cases h
  have hq := (readMany_ok _ hquestions).1
  have ha := (readMany_ok _ hanswers).1
  have htotal := length_of_readHeader hheader
  have htaken := (takes_readMany (takes_readQuestion packet) _ rest questions rest' hquestions).2
  have htaken' := (takes_readMany (takes_readRecord packet) _ rest' answers after hanswers).2
  refine ⟨?_, header, rest, hheader, hq.symm, ha.symm⟩
  simp only [hq, ha]
  omega

/-- **Reading ends and stays within bounds.** Wherever the pointers of a name lead, there is a result after at most
three turns for each byte of the packet. If it is a name, it has at most six characters for each byte of the packet,
and what is left starts at least one byte further on and not behind the packet's end. A message that is read has the
questions and answers that its header announces, behind the header's twelve bytes at least five bytes for each
question and eleven for each answer. -/
theorem reading_within_bounds (packet : List UInt8) :
    (∀ start, Name.Walk.follow packet (3 * packet.length) { position := start } =
      some (Name.read packet (packet.drop start))) ∧
    (∀ start name rest, Name.read packet (packet.drop start) = .ok (name, rest) →
      name.length ≤ 6 * packet.length ∧
      ∃ after, start + 1 ≤ after ∧ after ≤ packet.length ∧ rest = packet.drop after) ∧
    ∀ m, decode packet = .ok m →
      12 + 5 * m.questions.length + 11 * m.answers.length ≤ packet.length ∧
      ∃ header rest, readHeader packet = .ok (header, rest) ∧
        header.questions.toNat = m.questions.length ∧ header.answers.toNat = m.answers.length := by
  refine ⟨Name.follow_eq_read packet, fun start name rest h => ?_, fun m h => length_of_decode h⟩
  exact ⟨Name.length_le_of_read h, position_of_readName h⟩

/-- A question whose name is two labels that share bytes: its pointer leads into the first label, and the second one
holds the pointer. -/
def overlapPacket : List UInt8 :=
  [0xBE, 0xEF, 1, 0, 0, 1, 0, 0, 0, 0, 0, 0, 4, 5, 97, 98, 99, 192, 13, 0, 1, 0, 1]

def overlapName : String := Name.ofLabels [[5, 97, 98, 99], [97, 98, 99, 192, 13]]

def overlapMessage : Message where
  id := 0xBEEF
  flags := ⟨0x0100⟩
  questions := [⟨overlapName, typeA, classIn⟩]
  answers := []

theorem read_overlapName : Name.read overlapPacket (overlapPacket.drop 12) = .ok (overlapName, overlapPacket.drop 19) := by
  have hfirst : Name.Fits [5, 97, 98, 99] := ⟨by decide, by decide⟩
  have hlast : Name.Fits [97, 98, 99, 192, 13] := ⟨by decide, by decide⟩
  have hinner : Name.Spells overlapPacket 4 (overlapPacket.drop 13) [[97, 98, 99, 192, 13]] (overlapPacket.drop 20) :=
    .label hlast .stop
  have houter : Name.Spells overlapPacket Name.maxPointers (overlapPacket.drop 12)
      [[5, 97, 98, 99], [97, 98, 99, 192, 13]] (overlapPacket.drop 19) :=
    .label hfirst (.pointer (by decide) hinner)
  rw [Name.read, Name.readLabels_of_spells houter]
  rfl

theorem decode_overlapPacket : decode overlapPacket = .ok overlapMessage := by
  have hquestion : readQuestion overlapPacket (overlapPacket.drop 12) = .ok (⟨overlapName, typeA, classIn⟩, []) := by
    rw [readQuestion, read_overlapName]
    rfl
  have hheader : readHeader overlapPacket = .ok (⟨0xBEEF, ⟨0x0100⟩, 1, 0⟩, overlapPacket.drop 12) := rfl
  rw [decode, hheader, ok_bind]
  show (readMany (readQuestion overlapPacket) 1 (overlapPacket.drop 12) >>= _) = _
  rw [readMany, hquestion]
  rfl

theorem reading_within_bounds_overlap :
    Name.read overlapPacket (overlapPacket.drop 12) = .ok (overlapName, overlapPacket.drop 19) ∧
    overlapName.length ≤ 6 * overlapPacket.length ∧
    (∃ after, 13 ≤ after ∧ after ≤ 23 ∧ overlapPacket.drop 19 = overlapPacket.drop after) ∧
    decode overlapPacket = .ok overlapMessage ∧ 12 + 5 * 1 + 11 * 0 ≤ overlapPacket.length := by
  obtain ⟨_, hname, hmessage⟩ := reading_within_bounds overlapPacket
  obtain ⟨hlength, hafter⟩ := hname 12 _ _ read_overlapName
  exact ⟨read_overlapName, hlength, hafter, decode_overlapPacket, (hmessage _ decode_overlapPacket).1⟩

end Message

end NameServer
