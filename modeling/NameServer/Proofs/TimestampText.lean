import Mathlib.Algebra.Group.Nat.Defs
import Mathlib.Data.List.TakeWhile
import NameServer.Proofs.Calendar
import NameServer.Time.Timestamp

/-!
# Timestamps read back

A timestamp is read from its text as it was, to the nanosecond and with its
offset: each field has its own width, and zeros that are left out at the end of
the nanoseconds are put back.
-/

namespace NameServer

namespace Text

theorem length_padded {width n : Nat} (hw : 0 < width) (h : n < 10 ^ width) : (padded width n).length = width := by
  have hle : (decimal n).length ≤ width := (Nat.length_toDigits_le_iff (by decide) hw).mpr h
  rw [padded, List.length_append, List.length_replicate]
  omega

theorem isDigit_of_mem_padded (width n : Nat) {c : Char} (h : c ∈ padded width n) : c.isDigit = true := by
  rcases List.mem_append.mp h with h | h
  · rw [(List.mem_replicate.mp h).2]
    rfl
  · exact isDigit_of_mem_decimal h

end Text

namespace Timestamp

open Text (padded)

/-! ## Numbers -/

theorem readNumber_padded (width : Nat) {n : Nat} (hw : 0 < width) (h : n < 10 ^ width) (rest : List Char) :
    readNumber width (padded width n ++ rest) = some (n, rest) := by
  have hlen := Text.length_padded hw h
  have htake : (padded width n ++ rest).take width = padded width n := List.take_left' hlen
  have hdrop : (padded width n ++ rest).drop width = rest := List.drop_left' hlen
  have hdigits : (padded width n).all Char.isDigit = true :=
    List.all_eq_true.mpr fun c hc => Text.isDigit_of_mem_padded _ _ hc
  unfold readNumber
  simp only [htake, hdrop, hlen, hdigits, Text.ofDecimal_padded, and_self, if_true]

theorem readMark_cons (mark : Char) (cs : List Char) : readMark mark (mark :: cs) = some cs := if_pos rfl

theorem readSeparator_T (cs : List Char) : readSeparator ('T' :: cs) = some cs := rfl

/-! ## Nanoseconds -/

theorem eq_append_zeros (digits : List Char) : ∃ k,
    digits = (digits.reverse.dropWhile (· == '0')).reverse ++ List.replicate k '0' := by
  refine ⟨(digits.reverse.takeWhile (· == '0')).length, ?_⟩
  have hzeros : digits.reverse.takeWhile (· == '0') =
      List.replicate (digits.reverse.takeWhile (· == '0')).length '0' := by
    apply List.eq_replicate_of_mem
    intro c hc
    simpa using List.mem_takeWhile_imp hc
  have hsplit := congrArg List.reverse (List.takeWhile_append_dropWhile (p := (· == '0')) (l := digits.reverse))
  rw [List.reverse_append, List.reverse_reverse, hzeros, List.reverse_replicate] at hsplit
  exact hsplit.symm

/-- Zeros that were dropped at the end come back up to the width. -/
theorem rightpad_dropped (digits : List Char) :
    ((digits.reverse.dropWhile (· == '0')).reverse).rightpad digits.length '0' = digits := by
  obtain ⟨k, hk⟩ := eq_append_zeros digits
  have hlen := congrArg List.length hk
  rw [List.length_append, List.length_replicate] at hlen
  rw [List.rightpad]
  have hcount : digits.length - (digits.reverse.dropWhile (· == '0')).reverse.length = k := by omega
  rw [hcount]
  exact hk.symm

theorem readNanoseconds_text {n : Nat} (h : n < perSecond) {c : Char} (hc : c.isDigit = false) (hdot : c ≠ '.')
    (rest : List Char) : readNanoseconds (nanosecondsText n ++ c :: rest) = some (n, c :: rest) := by
  unfold nanosecondsText
  by_cases hn : n = 0
  · rw [if_pos hn, List.nil_append, hn]
    unfold readNanoseconds
    split
    · next heq => exact absurd (List.cons.inj heq).1 hdot
    · rfl
  · rw [if_neg hn]
    have hlen : (padded 9 n).length = 9 := Text.length_padded (by decide) h
    generalize hd : ((padded 9 n).reverse.dropWhile (· == '0')).reverse = digits
    have hpad : digits.rightpad 9 '0' = padded 9 n := by
      have hback := rightpad_dropped (padded 9 n)
      rw [hlen, hd] at hback
      exact hback
    have hdigits : ∀ d ∈ digits, d.isDigit = true := by
      intro d hm
      apply Text.isDigit_of_mem_padded 9 n
      rw [← hpad]
      exact List.mem_append_left _ hm
    have hne : digits ≠ [] := by
      rintro rfl
      have hzero := congrArg Text.ofDecimal hpad
      rw [Text.ofDecimal_padded] at hzero
      exact hn hzero.symm
    have hshort : digits.length ≤ 9 := by
      have hle := congrArg List.length hpad
      rw [hlen, List.rightpad, List.length_append] at hle
      omega
    show readNanoseconds ('.' :: (digits ++ c :: rest)) = _
    rw [readNanoseconds]
    have htake : (digits ++ c :: rest).takeWhile Char.isDigit = digits := by
      rw [List.takeWhile_append_of_pos hdigits]
      simp [hc]
    have hdrop : (digits ++ c :: rest).dropWhile Char.isDigit = c :: rest := by
      rw [List.dropWhile_append_of_pos hdigits]
      simp [hc]
    simp only [htake, hdrop, hne, if_false, List.take_of_length_le hshort, hpad, Text.ofDecimal_padded]

/-! ## Offsets -/

theorem readOffset_signed {sign : Char} (hsign : sign = '+' ∨ sign = '-') {hours minutes : Nat} (hh : hours < 24)
    (hm : minutes < 60) : readOffset (sign :: (padded 2 hours ++ ':' :: padded 2 minutes)) =
      some (if sign = '+' then ((60 * hours + minutes : Nat) : Int) else -((60 * hours + minutes : Nat) : Int)) := by
  have hhours := readNumber_padded 2 (by decide) (show hours < 10 ^ 2 by omega) (':' :: padded 2 minutes)
  have hminutes := readNumber_padded 2 (by decide) (show minutes < 10 ^ 2 by omega) []
  rw [List.append_nil] at hminutes
  have hh' : ¬ 23 < hours := by omega
  have hm' : ¬ 59 < minutes := by omega
  rcases hsign with rfl | rfl
  · simp [readOffset, hhours, readMark_cons, hminutes, hh', hm']
  · simp [readOffset, hhours, readMark_cons, hminutes, hh', hm']

theorem readOffset_text {offset : Int} (hgt : -1440 < offset) (hlt : offset < 1440) :
    readOffset (offsetText offset) = some offset := by
  unfold offsetText
  by_cases h : offset = 0
  · rw [if_pos h, h]
    rfl
  · rw [if_neg h]
    have hhours : offset.natAbs / 60 < 24 := by omega
    have hminutes : offset.natAbs % 60 < 60 := by omega
    by_cases hneg : offset < 0
    · rw [if_pos hneg, readOffset_signed (.inr rfl) hhours hminutes, if_neg (by decide)]
      congr 1
      omega
    · rw [if_neg hneg, readOffset_signed (.inl rfl) hhours hminutes, if_pos rfl]
      congr 1
      omega

theorem offsetText_head (offset : Int) : ∃ c rest, offsetText offset = c :: rest ∧ c.isDigit = false ∧ c ≠ '.' := by
  unfold offsetText
  split
  · exact ⟨'Z', [], rfl, rfl, by decide⟩
  · split
    · exact ⟨'-', _, rfl, rfl, by decide⟩
    · exact ⟨'+', _, rfl, rfl, by decide⟩

/-! ## Dates and times -/

theorem readDate_text {date : Date} (hexists : date.exists? = true) (hyear : date.year < 10000) (rest : List Char) :
    readDate (dateText date ++ rest) = some (date, rest) := by
  obtain ⟨hmonth, hday⟩ := Date.month_day_lt hexists
  have hy := fun rest => readNumber_padded 4 (n := date.year) (by decide) (by omega) rest
  have hm := fun rest => readNumber_padded 2 (n := date.month) (by decide) (by omega) rest
  have hd := fun rest => readNumber_padded 2 (n := date.day) (by decide) (by omega) rest
  simp [readDate, dateText, hy, readMark_cons, hm, hd, hexists]

theorem clock_parts (clock : Nat) :
    ((clock / perSecond / 86400 * 1440 + clock / perSecond % 86400 / 3600 * 60 +
        clock / perSecond % 86400 / 60 % 60) * 60 + clock / perSecond % 86400 % 60) * perSecond +
      clock % perSecond = clock := by
  have hsecond := Nat.div_add_mod clock perSecond
  generalize clock / perSecond = seconds at *
  have hparts : (seconds / 86400 * 1440 + seconds % 86400 / 3600 * 60 + seconds % 86400 / 60 % 60) * 60 +
      seconds % 86400 % 60 = seconds := by omega
  rw [hparts, Nat.mul_comm]
  exact hsecond

/-- **A timestamp is read back.** -/
theorem ofText?_toText (t : Timestamp) : ofText? t.toText = some t := by
  obtain ⟨clock, offset, hclock, hgt, hlt⟩ := t
  have hparts := clock_parts clock
  have hnano : clock % perSecond < perSecond := Nat.mod_lt _ (by decide)
  have hdays : clock / perSecond / 86400 < Date.yearStart 10000 := by
    have hlimit : Date.yearStart 10000 = 3652425 := by decide
    unfold clockLimit perSecond at hclock
    unfold perSecond
    rw [hlimit]
    omega
  have hyear : (Date.ofDays (clock / perSecond / 86400)).year < 10000 := Date.yearOfDay_lt hdays
  obtain ⟨c, rest, hoff, hc, hdot⟩ := offsetText_head offset
  have hoffset := readOffset_text hgt hlt
  unfold toText
  simp only
  generalize hseconds : clock / perSecond = seconds at *
  have hdate := fun rest => readDate_text (Date.exists?_ofDays (seconds / 86400)) hyear rest
  have hhour := fun rest => readNumber_padded 2 (n := seconds % 86400 / 3600) (by decide) (by omega) rest
  have hminute := fun rest =>
    readNumber_padded 2 (n := seconds % 86400 / 60 % 60) (by decide) (by omega) rest
  have hsecond := fun rest => readNumber_padded 2 (n := seconds % 86400 % 60) (by decide) (by omega) rest
  have hnanos := readNanoseconds_text hnano hc hdot rest
  rw [← hoff] at hnanos
  have hfields : ofFields? (Date.ofDays (seconds / 86400)) (seconds % 86400 / 3600) (seconds % 86400 / 60 % 60)
      (seconds % 86400 % 60) (clock % perSecond) offset = some ⟨clock, offset, hclock, hgt, hlt⟩ := by
    unfold ofFields?
    rw [Date.toDays_ofDays]
    simp only
    rw [if_neg (by omega), if_neg (by omega), if_neg (by omega), hparts, ofClock?, dif_pos ⟨hclock, hgt, hlt⟩]
  simp only [ofText?, timeText, List.append_assoc, List.cons_append, hdate, readSeparator_T, hhour, readMark_cons,
    hminute, hsecond, hnanos, hoffset, hfields, Option.bind_eq_bind, Option.bind_some]

theorem ofString?_toString (t : Timestamp) : ofString? (ToString.toString t) = some t := by
  show ofText? (String.ofList t.toText).toList = some t
  rw [String.toList_ofList, ofText?_toText]

/-! A leap day in a fraction of a second, at an offset of less than an hour behind UTC. -/

example : ofString? "2024-02-29T23:59:59.120-00:30" = ofString? "2024-02-29T23:59:59.12-00:30" := by decide +kernel

end Timestamp

end NameServer
