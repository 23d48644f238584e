import NameServer.Time.Date

/-!
# Dates and days

The date of a day exists, and it is the date of that day. The year of a day is
found by a guess, which is right but for one year because the leap years are
spread almost evenly.
-/

namespace NameServer.Date

/-! ## Years -/

def yearLength (year : Nat) : Nat := if isLeapYear year then 366 else 365

theorem isLeapYear_iff (year : Nat) :
    isLeapYear year = true ↔ year % 4 = 0 ∧ (year % 100 ≠ 0 ∨ year % 400 = 0) := by
  simp [isLeapYear]

theorem yearLength_cases (year : Nat) :
    yearLength year + (if year % 100 = 0 then 1 else 0) =
      365 + (if year % 4 = 0 then 1 else 0) + (if year % 400 = 0 then 1 else 0) := by
  have h100 : year % 400 = 0 → year % 100 = 0 := by omega
  have h4 : year % 100 = 0 → year % 4 = 0 := by omega
  unfold yearLength
  by_cases h : isLeapYear year = true
  · rw [if_pos h]
    rw [isLeapYear_iff] at h
    grind
  · rw [if_neg h]
    rw [isLeapYear_iff] at h
    grind

theorem yearStart_succ (year : Nat) : yearStart (year + 1) = yearStart year + yearLength year := by
  have h4 : (year + 1 + 3) / 4 = (year + 3) / 4 + if year % 4 = 0 then 1 else 0 := by split <;> omega
  have h100 : (year + 1 + 99) / 100 = (year + 99) / 100 + if year % 100 = 0 then 1 else 0 := by split <;> omega
  have h400 : (year + 1 + 399) / 400 = (year + 399) / 400 + if year % 400 = 0 then 1 else 0 := by split <;> omega
  have hle : (year + 99) / 100 ≤ 365 * year := by omega
  have hlength := yearLength_cases year
  unfold yearStart
  rw [h4, h100, h400]
  generalize (year + 3) / 4 = quarters
  generalize (year + 99) / 100 = centuries at *
  generalize (year + 399) / 400 = cycles
  have hcentury : (if year % 100 = 0 then 1 else 0) ≤ 1 := by split <;> omega
  generalize (if year % 4 = 0 then 1 else 0) = q at *
  generalize (if year % 100 = 0 then 1 else 0) = c at *
  generalize (if year % 400 = 0 then 1 else 0) = d at *
  omega

/-- In the mean a year has 365.2425 days. -/
theorem yearStart_bounds (year : Nat) :
    146097 * year ≤ 400 * yearStart year + 400 ∧ 400 * yearStart year ≤ 146097 * year + 800 := by
  unfold yearStart
  omega

theorem yearStart_yearOfDay (days : Nat) :
    yearStart (yearOfDay days) ≤ days ∧ days < yearStart (yearOfDay days + 1) := by
  have hguess := Nat.div_add_mod (400 * days) 146097
  have hrest := Nat.mod_lt (400 * days) (show 0 < 146097 by decide)
  simp only [yearOfDay]
  generalize 400 * days / 146097 = guess at *
  have hnext := yearStart_bounds (guess + 2)
  split
  · next hlt =>
    have hprev := yearStart_bounds (guess - 1)
    cases guess with
    | zero => exact absurd hlt (Nat.not_lt_zero _)
    | succ guess =>
      simp only [Nat.add_sub_cancel] at hprev ⊢
      exact ⟨by omega, hlt⟩
  · next hge =>
    split
    · next hlt => exact ⟨Nat.not_lt.mp hge, hlt⟩
    · next hge' => exact ⟨Nat.not_lt.mp hge', by show days < yearStart (guess + 2); omega⟩

theorem yearStart_mono {year later : Nat} (h : year ≤ later) : yearStart year ≤ yearStart later := by
  induction h with
  | refl => exact Nat.le_refl _
  | step _ ih =>
    rw [yearStart_succ]
    omega

theorem yearOfDay_lt {days year : Nat} (h : days < yearStart year) : yearOfDay days < year := by
  apply Nat.lt_of_not_le
  intro hle
  have hmono := yearStart_mono hle
  have hstart := (yearStart_yearOfDay days).1
  omega

/-! ## Months -/

def total (lengths : List Nat) : Nat := lengths.foldr (· + ·) 0

theorem total_monthLengths (year : Nat) : total (monthLengths year) = yearLength year := by
  unfold monthLengths yearLength
  cases isLeapYear year <;> rfl

/-- A day is located in the month that it falls into. -/
theorem locate_spec : ∀ {lengths : List Nat} (month : Nat) {days : Nat}, days < total lengths →
    ∃ passed length, locate month lengths days = (month + passed, days - total (lengths.take passed) + 1) ∧
      lengths[passed]? = some length ∧ total (lengths.take passed) ≤ days ∧
      days < total (lengths.take passed) + length
  | [], _, _, h => absurd h (Nat.not_lt_zero _)
  | length :: lengths, month, days, h => by
    rw [locate]
    split
    · next hlt => exact ⟨0, length, rfl, rfl, Nat.zero_le _, by simpa [total] using hlt⟩
    · next hge =>
      have hrest : days - length < total lengths := by
        have htotal : total (length :: lengths) = length + total lengths := rfl
        omega
      obtain ⟨passed, last, hl, hm, hle, hlt⟩ := locate_spec (month + 1) hrest
      have htake : total ((length :: lengths).take (passed + 1)) = length + total (lengths.take passed) := rfl
      refine ⟨passed + 1, last, ?_, hm, ?_, ?_⟩
      · rw [hl, htake]
        congr 1
        · omega
        · omega
      · omega
      · omega

/-! ## Days -/

theorem ofDays_spec (days : Nat) : (ofDays days).exists? = true ∧ (ofDays days).toDays = days := by
  obtain ⟨hstart, hend⟩ := yearStart_yearOfDay days
  have hday : days - yearStart (yearOfDay days) < total (monthLengths (yearOfDay days)) := by
    rw [total_monthLengths]
    rw [yearStart_succ] at hend
    omega
  obtain ⟨passed, length, hl, hm, hle, hlt⟩ := locate_spec 1 hday
  have hdate : ofDays days = ⟨yearOfDay days, passed + 1,
      days - yearStart (yearOfDay days) - total ((monthLengths (yearOfDay days)).take passed) + 1⟩ := by
    rw [ofDays]
    simp only [hl, Nat.add_comm]
  rw [hdate]
  constructor
  · simp only [exists?, hm, Option.any_some, Bool.and_eq_true, decide_eq_true_eq]
    omega
  · show yearStart (yearOfDay days) + total ((monthLengths (yearOfDay days)).take (passed + 1 - 1)) + _ = days
    simp only [Nat.add_sub_cancel]
    omega

theorem exists?_ofDays (days : Nat) : (ofDays days).exists? = true := (ofDays_spec days).1

theorem toDays_ofDays (days : Nat) : (ofDays days).toDays = days := (ofDays_spec days).2

/-- A month has two digits, and so has a day. -/
theorem month_day_lt {date : Date} (h : date.exists? = true) : date.month < 100 ∧ date.day < 100 := by
  obtain ⟨year, month, day⟩ := date
  cases month with
  | zero => cases h
  | succ month =>
    simp only [exists?, Option.any_eq_true, Bool.and_eq_true, decide_eq_true_eq] at h
    obtain ⟨length, hm, _, hday⟩ := h
    have hlengths : ∀ length ∈ monthLengths year, length ≤ 31 := by
      unfold monthLengths
      cases isLeapYear year <;> decide
    have hlength := hlengths length (List.mem_of_getElem? hm)
    have hmonth : month < 12 := (List.getElem?_eq_some_iff.mp hm).1
    show month + 1 < 100 ∧ day < 100
    omega

end NameServer.Date
