import Mathlib.Logic.Relation
import NameServer.Proofs.Wire

/-!
# Walking along a name

A name stands in a packet as a walk through its bytes: a label leads to the
byte behind it, a pointer to the byte that it names, wherever that is, and a
zero byte is the end. The walk may go on for ever. Reading a name follows it
to its end, to a byte that is reserved or missing, or to the sixth pointer,
whichever comes first, and so its result is told from the walk alone.
-/

namespace NameServer

namespace Name

/-- How far a walk has come: the byte to look at next, the labels read, the pointers followed, and the byte
behind the first pointer. -/
structure Walk where
  position : Nat
  labels : List (List UInt8) := []
  pointers : Nat := 0
  resume : Option Nat := none

namespace Walk

/-- What a walk does at the byte it looks at. -/
inductive Turn where
  | ends
  | goes (next : Walk)
  | lacksByte
  | meetsReserved

def turn (packet : List UInt8) (w : Walk) : Turn :=
  match packet[w.position]? with
  | none => .lacksByte
  | some byte =>
    if byte.toNat = 0 then .ends
    else if byte.toNat ≤ 63 then
      if w.position + 1 + byte.toNat ≤ packet.length then
        .goes { w with
          position := w.position + 1 + byte.toNat
          labels := w.labels ++ [(packet.drop (w.position + 1)).take byte.toNat] }
      else .lacksByte
    else if byte.toNat ≤ 191 then .meetsReserved
    else match packet[w.position + 1]? with
      | none => .lacksByte
      | some low =>
        -- the low fourteen bits of the two bytes are the position to go on at
        .goes { w with
          position := (byte.toNat * 256 + low.toNat) % 16384
          pointers := w.pointers + 1
          resume := some (w.resume.getD (w.position + 2)) }

def Step (packet : List UInt8) (w w' : Walk) : Prop := w.turn packet = .goes w'

def Leads (packet : List UInt8) : Walk → Walk → Prop := Relation.ReflTransGen (Step packet)

/-- The position behind the name, if the walk ends here. -/
def behind (w : Walk) : Nat := w.resume.getD (w.position + 1)

/-- What reading a name gives if its walk stops here, or has followed too many pointers. -/
def result? (packet : List UInt8) (w : Walk) : Option (Except DecodeError (String × List UInt8)) :=
  if 5 < w.pointers then some (.error .tooManyPointers)
  else match w.turn packet with
    | .ends => some (.ok (ofLabels w.labels, packet.drop w.behind))
    | .goes _ => none
    | .lacksByte => some (.error .pastEnd)
    | .meetsReserved => some (.error .reservedLabel)

variable {packet : List UInt8} {w w' : Walk}

/-! ## Steps -/

/-- A step goes past a label, which has a byte at least, or to where a pointer leads. -/
theorem step_label_or_pointer (h : Step packet w w') :
    (∃ length, 1 ≤ length ∧ w.position + 1 + length ≤ packet.length ∧ w' = { w with
      position := w.position + 1 + length
      labels := w.labels ++ [(packet.drop (w.position + 1)).take length] }) ∨
    ∃ target, w.position + 2 ≤ packet.length ∧ w' = { w with
      position := target
      pointers := w.pointers + 1
      resume := some (w.resume.getD (w.position + 2)) } := by
  unfold Step turn at h
  split at h
  · cases h
  · next byte _ =>
    split at h
    · cases h
    · next h0 =>
      split at h
      · split at h
        · next hinside =>
          cases h
          exact .inl ⟨byte.toNat, Nat.pos_of_ne_zero h0, hinside, rfl⟩
        · cases h
      · split at h
        · cases h
        · split at h
          · cases h
          · next hlow =>
            cases h
            exact .inr ⟨_, (List.getElem?_eq_some_iff.mp hlow).1, rfl⟩

theorem step_cases (h : Step packet w w') : w'.pointers = w.pointers ∧ w'.resume = w.resume ∨
    w'.pointers = w.pointers + 1 ∧ w.position + 2 ≤ packet.length ∧
      w'.resume = some (w.resume.getD (w.position + 2)) := by
  rcases step_label_or_pointer h with ⟨_, _, _, rfl⟩ | ⟨_, hinside, rfl⟩
  · exact .inl ⟨rfl, rfl⟩
  · exact .inr ⟨rfl, hinside, rfl⟩

theorem pointers_le_of_step (h : Step packet w w') : w.pointers ≤ w'.pointers := by
  rcases step_cases h with ⟨hp, _⟩ | ⟨hp, _⟩ <;> omega

theorem turn_label {length : UInt8} (hbyte : packet[w.position]? = some length) (h0 : length.toNat ≠ 0)
    (h63 : length.toNat ≤ 63) : w.turn packet =
      if w.position + 1 + length.toNat ≤ packet.length then
        .goes { w with
          position := w.position + 1 + length.toNat
          labels := w.labels ++ [(packet.drop (w.position + 1)).take length.toNat] }
      else .lacksByte := by
  simp only [turn, hbyte]
  rw [if_neg h0, if_pos h63]

theorem turn_pointer {high : UInt8} (hbyte : packet[w.position]? = some high) (h192 : 192 ≤ high.toNat) :
    w.turn packet = match packet[w.position + 1]? with
      | none => .lacksByte
      | some low => .goes { w with
          position := offset high low
          pointers := w.pointers + 1
          resume := some (w.resume.getD (w.position + 2)) } := by
  have hoffset : ∀ low : UInt8, (high.toNat * 256 + low.toNat) % 16384 = offset high low := by
    intro low
    have hhigh := high.toNat_lt
    have hlow := low.toNat_lt
    unfold offset
    omega
  simp only [turn, hbyte]
  rw [if_neg (by omega), if_neg (by omega), if_neg (by omega)]
  simp only [hoffset]

theorem step_rightUnique (packet : List UInt8) : Relator.RightUnique (Step packet) :=
  fun _ _ _ h₁ h₂ => Turn.goes.inj (h₁.symm.trans h₂)

/-- A walk that follows too many pointers has followed the sixth one. -/
theorem Leads.sixth (h : Leads packet w w') (hw : w.pointers ≤ 6) (hw' : 6 ≤ w'.pointers) :
    ∃ v, Leads packet w v ∧ v.pointers = 6 := by
  induction h with
  | refl => exact ⟨w, .refl, Nat.le_antisymm hw hw'⟩
  | @tail b c hb hstep ih =>
    by_cases h6 : 6 ≤ b.pointers
    · exact ih h6
    · refine ⟨c, .tail hb hstep, ?_⟩
      rcases step_cases hstep with ⟨hp, _⟩ | ⟨hp, _⟩ <;> omega

theorem Leads.resume_le (h : Leads packet w w') (hw : ∀ position ∈ w.resume, position ≤ packet.length) :
    ∀ position ∈ w'.resume, position ≤ packet.length := by
  induction h with
  | refl => exact hw
  | @tail b c _ hstep ih =>
    rcases step_cases hstep with ⟨_, hr⟩ | ⟨_, hinside, hr⟩
    · rw [hr]
      exact ih
    · rw [hr]
      rintro _ ⟨⟩
      cases hb : b.resume with
      | none => exact hinside
      | some position => exact ih position hb

theorem behind_le (hw : ∀ position ∈ w.resume, position ≤ packet.length) (hend : w.turn packet = .ends) :
    w.behind ≤ packet.length := by
  unfold behind
  cases hr : w.resume with
  | some position => exact hw position hr
  | none =>
    refine Classical.byContradiction fun hout => ?_
    have hnone : packet[w.position]? = none := List.getElem?_eq_none (Nat.le_of_lt_succ (Nat.lt_of_not_le hout))
    simp only [turn, hnone] at hend
    cases hend

/-! ## One result -/

theorem result?_eq_some_iff (packet : List UInt8) (w : Walk) (r : Except DecodeError (String × List UInt8)) :
    w.result? packet = some r ↔ 5 < w.pointers ∧ r = .error .tooManyPointers ∨
      w.pointers ≤ 5 ∧ (w.turn packet = .ends ∧ r = .ok (ofLabels w.labels, packet.drop w.behind) ∨
        w.turn packet = .lacksByte ∧ r = .error .pastEnd ∨ w.turn packet = .meetsReserved ∧ r = .error .reservedLabel) := by
  unfold result?
  by_cases hmany : 5 < w.pointers
  · simp [hmany, Nat.not_le.mpr hmany, eq_comm]
  · rw [if_neg hmany]
    cases w.turn packet <;> simp [hmany, Nat.not_lt.mp hmany, eq_comm]

theorem result?_of_step {r : Except DecodeError (String × List UInt8)} (h : Step packet w w')
    (hr : w.result? packet = some r) : w'.result? packet = some r := by
  have hturn : w.turn packet = .goes w' := h
  unfold result? at hr ⊢
  rw [hturn] at hr
  split at hr
  · next hmany =>
    rw [if_pos (Nat.lt_of_lt_of_le hmany (pointers_le_of_step h))]
    exact hr
  · cases hr

theorem result?_of_leads {r : Except DecodeError (String × List UInt8)} (h : Leads packet w w')
    (hr : w.result? packet = some r) : w'.result? packet = some r := by
  induction h with
  | refl => exact hr
  | tail _ hstep ih => exact result?_of_step hstep ih

/-- Wherever the walk has come to when there is a result, it is the same one. -/
theorem result?_unique {start v v' : Walk} (h : Leads packet start v) (h' : Leads packet start v')
    {r r' : Except DecodeError (String × List UInt8)} (hr : v.result? packet = some r)
    (hr' : v'.result? packet = some r') : r = r' := by
  rcases Relation.ReflTransGen.total_of_right_unique (step_rightUnique packet) h h' with hlead | hlead
  · exact Option.some.inj ((result?_of_leads hlead hr).symm.trans hr')
  · exact Option.some.inj (hr.symm.trans (result?_of_leads hlead hr'))

end Walk

/-! ## Reading -/

open Walk (Leads)

variable {packet : List UInt8}

theorem getElem?_of_drop {position : Nat} {byte : UInt8} {rest : List UInt8}
    (h : packet.drop position = byte :: rest) : packet[position]? = some byte ∧ packet.drop (position + 1) = rest := by
  constructor
  · rw [← List.head?_drop, h, List.head?_cons]
  · rw [← List.drop_drop, h, List.drop_one, List.tail_cons]

theorem toNat_ne_zero {byte : UInt8} (h : byte ≠ 0) : byte.toNat ≠ 0 := fun e => h (UInt8.toNat.inj e)

theorem toNat_le_of_not_reserved {byte : UInt8} (h : ¬ 64 ≤ byte) : byte.toNat ≤ 63 :=
  Nat.le_of_lt_succ (Nat.lt_of_not_le fun hle => h (UInt8.le_iff_toNat_le.mpr hle))

/-- Reading goes where the walk leads to a result. -/
theorem leads_of_readLabels (packet : List UInt8) (pointers : Nat) (rest : List UInt8) : ∀ w : Walk,
    packet.drop w.position = rest → w.pointers + pointers = 5 →
    ∃ w', Leads packet w w' ∧ w'.result? packet = some ((readLabels packet pointers rest).map fun read =>
      (ofLabels (w.labels ++ read.1), (w.resume.map packet.drop).getD read.2)) := by
  induction pointers, rest using readLabels.induct packet with
  | case1 pointers =>
    intro w hrest hw
    have hnone : packet[w.position]? = none := by rw [← List.head?_drop, hrest, List.head?_nil]
    have hturn : w.turn packet = .lacksByte := by simp only [Walk.turn, hnone]
    refine ⟨w, .refl, ?_⟩
    rw [readLabels.eq_def, Walk.result?, if_neg (by omega), hturn]
    rfl
  | case2 pointers rest =>
    intro w hrest hw
    obtain ⟨hbyte, hdrop⟩ := getElem?_of_drop hrest
    have hturn : w.turn packet = .ends := by
      simp only [Walk.turn, hbyte]
      rfl
    have hbehind : packet.drop w.behind = (w.resume.map packet.drop).getD rest := by
      rw [Walk.behind, ← hdrop]
      cases w.resume <;> rfl
    refine ⟨w, .refl, ?_⟩
    rw [readLabels.eq_def, Walk.result?, if_neg (by omega), hturn]
    simp only [if_true, Except.map, List.append_nil, hbehind]
  | case3 pointers length h0 hp =>
    intro w hrest hw
    obtain ⟨hbyte, hdrop⟩ := getElem?_of_drop hrest
    have hnone : packet[w.position + 1]? = none := by rw [← List.head?_drop, hdrop, List.head?_nil]
    have hturn : w.turn packet = .lacksByte := by rw [Walk.turn_pointer hbyte (UInt8.le_iff_toNat_le.mp hp), hnone]
    refine ⟨w, .refl, ?_⟩
    rw [readLabels.eq_def, Walk.result?, if_neg (by omega), hturn]
    simp only [if_neg h0, if_pos hp]
    rfl
  | case4 length h0 hp low rest =>
    intro w hrest hw
    obtain ⟨hbyte, hdrop⟩ := getElem?_of_drop hrest
    obtain ⟨hlow, _⟩ := getElem?_of_drop hdrop
    -- the sixth pointer is followed and is one too many
    have hturn := Walk.turn_pointer hbyte (UInt8.le_iff_toNat_le.mp hp)
    rw [hlow] at hturn
    refine ⟨_, .single hturn, ?_⟩
    rw [readLabels.eq_def, Walk.result?, if_pos (by simp only; omega)]
    simp only [if_neg h0, if_pos hp]
    rfl
  | case5 length h0 hp low rest pointers ih =>
    intro w hrest hw
    obtain ⟨hbyte, hdrop⟩ := getElem?_of_drop hrest
    obtain ⟨hlow, hdrop'⟩ := getElem?_of_drop hdrop
    let next : Walk := { w with
      position := offset length low
      pointers := w.pointers + 1
      resume := some (w.resume.getD (w.position + 2)) }
    have hturn : w.turn packet = .goes next := by rw [Walk.turn_pointer hbyte (UInt8.le_iff_toNat_le.mp hp), hlow]
    obtain ⟨w', hleads, hresult⟩ := ih next rfl (by simp only [next]; omega)
    refine ⟨w', .head hturn hleads, hresult.trans ?_⟩
    rw [readLabels.eq_def packet (pointers + 1)]
    simp only [if_neg h0, if_pos hp]
    -- what follows the name is what follows its first pointer
    have hbehind : ∀ rest', (next.resume.map packet.drop).getD rest' = (w.resume.map packet.drop).getD rest := by
      intro rest'
      show packet.drop (w.resume.getD (w.position + 2)) = _
      rw [← hdrop']
      cases w.resume <;> rfl
    simp only [hbehind]
    cases readLabels packet pointers (packet.drop (offset length low)) <;> rfl
  | case6 pointers length rest h0 hp hr =>
    intro w hrest hw
    obtain ⟨hbyte, _⟩ := getElem?_of_drop hrest
    have h64 : 64 ≤ length.toNat := UInt8.le_iff_toNat_le.mp hr
    have h192 : length.toNat < 192 := Nat.lt_of_not_le fun h => hp (UInt8.le_iff_toNat_le.mpr h)
    have hturn : w.turn packet = .meetsReserved := by
      simp only [Walk.turn, hbyte]
      rw [if_neg (by omega), if_neg (by omega), if_pos (by omega)]
    refine ⟨w, .refl, ?_⟩
    rw [readLabels.eq_def, Walk.result?, if_neg (by omega), hturn]
    simp only [if_neg h0, if_neg hp, if_pos hr]
    rfl
  | case7 pointers length rest h0 hp hr hs =>
    intro w hrest hw
    obtain ⟨hbyte, hdrop⟩ := getElem?_of_drop hrest
    have hturn : w.turn packet = .lacksByte := by
      rw [Walk.turn_label hbyte (toNat_ne_zero h0) (toNat_le_of_not_reserved hr), if_neg]
      rw [List.length_take, ← hdrop, List.length_drop] at hs
      omega
    refine ⟨w, .refl, ?_⟩
    rw [readLabels.eq_def, Walk.result?, if_neg (by omega), hturn]
    simp only [if_neg h0, if_neg hp, if_neg hr, if_pos hs]
    rfl
  | case8 pointers length rest h0 hp hr hs ih =>
    intro w hrest hw
    obtain ⟨hbyte, hdrop⟩ := getElem?_of_drop hrest
    let next : Walk := { w with
      position := w.position + 1 + length.toNat
      labels := w.labels ++ [(packet.drop (w.position + 1)).take length.toNat] }
    have hturn : w.turn packet = .goes next := by
      have h0' := toNat_ne_zero h0
      rw [Walk.turn_label hbyte h0' (toNat_le_of_not_reserved hr), if_pos]
      rw [List.length_take, ← hdrop, List.length_drop] at hs
      omega
    obtain ⟨w', hleads, hresult⟩ := ih next (by simp only [next]; rw [← List.drop_drop, hdrop]) hw
    refine ⟨w', .head hturn hleads, hresult.trans ?_⟩
    rw [readLabels.eq_def packet pointers (length :: rest)]
    simp only [if_neg h0, if_neg hp, if_neg hr, if_neg hs]
    cases readLabels packet pointers (rest.drop length.toNat) with
    | error e => rfl
    | ok read =>
      simp only [Except.map, next, hdrop, List.append_assoc, List.singleton_append]
      rfl

/-- **Reading a name is walking along it** until there is a result. -/
theorem read_eq_iff (packet : List UInt8) (start : Nat) (r : Except DecodeError (String × List UInt8)) :
    read packet (packet.drop start) = r ↔ ∃ w, Leads packet { position := start } w ∧ w.result? packet = some r := by
  have hread : read packet (packet.drop start) = (readLabels packet maxPointers (packet.drop start)).map fun read =>
      (ofLabels read.1, read.2) := by
    rw [read]
    cases readLabels packet maxPointers (packet.drop start) <;> rfl
  obtain ⟨w, hw, hresult⟩ := leads_of_readLabels packet maxPointers (packet.drop start) { position := start } rfl rfl
  have hr : w.result? packet = some (read packet (packet.drop start)) := by rw [hread]; exact hresult
  constructor
  · rintro rfl
    exact ⟨w, hw, hr⟩
  · rintro ⟨w', hw', hr'⟩
    exact Walk.result?_unique hw hw' hr hr'

/-- **What a name is.** The name at a position is read exactly if the walk from there comes to a zero byte behind at
most five pointers: it is the labels on the way, and what is left starts behind the first pointer or, if there is
none, behind the zero byte. Otherwise reading fails, because the walk follows a sixth pointer, or because before
that it lacks a byte or meets a reserved one. -/
theorem read_follows_walk (packet : List UInt8) (start : Nat) :
    (∀ name rest, read packet (packet.drop start) = .ok (name, rest) ↔
      ∃ w, Leads packet { position := start } w ∧ w.pointers ≤ 5 ∧ w.turn packet = .ends ∧
        name = ofLabels w.labels ∧ w.behind ≤ packet.length ∧ rest = packet.drop w.behind) ∧
    (read packet (packet.drop start) = .error .tooManyPointers ↔
      ∃ w, Leads packet { position := start } w ∧ w.pointers = 6) ∧
    (read packet (packet.drop start) = .error .pastEnd ↔
      ∃ w, Leads packet { position := start } w ∧ w.pointers ≤ 5 ∧ w.turn packet = .lacksByte) ∧
    (read packet (packet.drop start) = .error .reservedLabel ↔
      ∃ w, Leads packet { position := start } w ∧ w.pointers ≤ 5 ∧ w.turn packet = .meetsReserved) ∧
    ∀ e, read packet (packet.drop start) = .error e → e ∈ [.tooManyPointers, .pastEnd, .reservedLabel] := by
  have hstart : ∀ position ∈ ({ position := start } : Walk).resume, position ≤ packet.length := fun _ h => nomatch h
  simp only [read_eq_iff, Walk.result?_eq_some_iff]
  refine ⟨fun name rest => ⟨?_, ?_⟩, ⟨?_, ?_⟩, ?_, ?_, ?_⟩
  · rintro ⟨w, hw, ⟨_, h⟩ | ⟨hle, ⟨hturn, h⟩ | ⟨_, h⟩ | ⟨_, h⟩⟩⟩
    · cases h
    · cases h
      exact ⟨w, hw, hle, hturn, rfl, Walk.behind_le (hw.resume_le hstart) hturn, rfl⟩
    · cases h
    · cases h
  · rintro ⟨w, hw, hle, hturn, rfl, _, rfl⟩
    exact ⟨w, hw, .inr ⟨hle, .inl ⟨hturn, rfl⟩⟩⟩
  · rintro ⟨w, hw, ⟨hmany, _⟩ | ⟨hle, ⟨_, h⟩ | ⟨_, h⟩ | ⟨_, h⟩⟩⟩
    · exact hw.sixth (Nat.zero_le 6) hmany
    · cases h
    · cases h
    · cases h
  · rintro ⟨w, hw, h6⟩
    exact ⟨w, hw, .inl ⟨by omega, trivial⟩⟩
  · simp
  · simp
  · rintro e ⟨w, hw, ⟨_, h⟩ | ⟨_, ⟨_, h⟩ | ⟨_, h⟩ | ⟨_, h⟩⟩⟩ <;> cases h <;> decide

end Name

end NameServer
