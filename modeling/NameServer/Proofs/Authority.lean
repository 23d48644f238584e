import Mathlib.Data.List.DropRight
import NameServer.Config.Load
import NameServer.Proofs.Challenges
import NameServer.Proofs.LetterCase
import NameServer.Proofs.SessionKeys

/-!
# Authority by labels

A server is authoritative for a name when the labels of the name end in the
labels of a zone. It is not enough that the characters do, and no zone is the
root, so there is always a name that the server has no authority for.
-/

namespace NameServer

/-! ## Zones of a configuration -/

namespace Config

theorem checkZone_ok {zone name : String} (h : checkZone zone = .ok name) :
    name = Zone.normalize zone ∧ name ≠ "" ∧ Zone.isName name.toList = true := by
  unfold checkZone at h
  simp only at h
  split at h
  · cases h
  · next hne =>
    split at h
    · cases h
    · next hname =>
      cases h
      exact ⟨rfl, hne, by simpa using hname⟩

theorem checkZones_ok : ∀ {zones names : List String}, checkZones zones = .ok names →
    names = zones.map Zone.normalize ∧ ∀ name ∈ names, name ≠ "" ∧ Zone.isName name.toList = true
  | [], names, h => by
    cases h
    exact ⟨rfl, fun name hmem => nomatch hmem⟩
  | zone :: zones, names, h => by
    obtain ⟨name, hzone, h⟩ := (bind_ok_iff _ _ _).mp h
    obtain ⟨rest, hzones, he⟩ := (bind_ok_iff _ _ _).mp h
    cases he
    obtain ⟨rfl, hname⟩ := checkZone_ok hzone
    obtain ⟨rfl, hall⟩ := checkZones_ok hzones
    exact ⟨rfl, List.forall_mem_cons.mpr ⟨hname, hall⟩⟩

theorem check_ok {config checked : Config} (h : config.check = .ok checked) :
    checked = { config with zones := config.zones.map Zone.normalize } ∧
      ∀ zone ∈ checked.zones, zone ≠ "" ∧ Zone.isName zone.toList = true := by
  unfold check at h
  by_cases hzones : config.zones = []
  · rw [if_pos hzones] at h
    cases h
  rw [if_neg hzones] at h
  obtain ⟨names, hnames, h⟩ := (bind_ok_iff _ _ _).mp h
  obtain ⟨rfl, hall⟩ := checkZones_ok hnames
  simp only at h
  split at h
  · cases h
  · split at h
    · cases h
    · cases h
      exact ⟨rfl, hall⟩

end Config

namespace Zone

open Text (lowered)

variable {zones : List String}

/-- A name in normal form ends in the characters of a zone, but in the middle of a label. -/
def EndsInside (zone name : List Char) : Prop :=
  ∃ front, name = front ++ zone ∧ front ≠ [] ∧ front.getLast? ≠ some '.'

/-- For which names a server with these zones is authoritative. -/
structure Authority (zones : List String) : Prop where
  labels : ∀ name : String, serves zones name = true ↔ ∃ zone ∈ zones,
    zone.toList.splitOn '.' <:+ ((name.toList.rdropWhile (· == '.')).map Char.toLower).splitOn '.'
  caseless : ∀ name name' : String, lowered name = lowered name' → serves zones name = serves zones name'
  dots : ∀ (name : String) (count : Nat),
    serves zones (name ++ String.ofList (List.replicate count '.')) = serves zones name
  inside : ∀ name : String,
    (∀ zone ∈ zones, zone.toList <:+ normalText name → EndsInside zone.toList (normalText name)) →
      serves zones name = false
  root : serves zones "" = false
  foreign : ∃ label : String, label ≠ "" ∧ (∀ c ∈ label.toList, c.isAlpha = true) ∧ serves zones label = false
  challenges : ∀ name : String, isChallenge zones name = true → serves zones name = true

theorem serves_iff_labels (zones : List String) (name : String) : serves zones name = true ↔ ∃ zone ∈ zones,
    zone.toList.splitOn '.' <:+ ((name.toList.rdropWhile (· == '.')).map Char.toLower).splitOn '.' := by
  rw [serves_iff, Within]
  simp only [Text.split_eq_splitOn]
  rfl

theorem covers_iff_append (zone name : List Char) : covers zone name = true ↔
    ∃ front, name = front ++ zone ∧ (front = [] ∨ front.getLast? = some '.') := by
  simp only [covers, Bool.or_eq_true, beq_iff_eq, Option.any_eq_true, Text.dropBack?_eq_some_iff]
  constructor
  · rintro (rfl | ⟨front, rfl, hdot⟩)
    · exact ⟨[], rfl, .inl rfl⟩
    · exact ⟨front, rfl, .inr hdot⟩
  · rintro ⟨front, rfl, rfl | hdot⟩
    · exact .inl rfl
    · exact .inr ⟨front, rfl, hdot⟩

theorem not_endsInside_of_covers {zone name : List Char} (h : covers zone name = true) : ¬ EndsInside zone name := by
  rintro ⟨front, rfl, hne, hdot⟩
  obtain ⟨front', heq, hfront⟩ := (covers_iff_append ..).mp h
  rw [← List.append_cancel_right heq] at hfront
  exact hfront.elim hne hdot

theorem serves_eq_false_of_inside {name : String}
    (h : ∀ zone ∈ zones, zone.toList <:+ normalText name → EndsInside zone.toList (normalText name)) :
    serves zones name = false := by
  rw [serves, List.any_eq_false]
  intro zone hzone hcovers
  obtain ⟨front, hname, _⟩ := (covers_iff_append ..).mp hcovers
  exact not_endsInside_of_covers hcovers (h zone hzone ⟨front, hname.symm⟩)

theorem serves_lowered (zones : List String) (name : String) : serves zones (lowered name) = serves zones name := by
  rw [serves, serves, normalText_lowered]

theorem serves_append_dots (zones : List String) (name : String) (count : Nat) :
    serves zones (name ++ String.ofList (List.replicate count '.')) = serves zones name := by
  have hdots : ∀ c ∈ List.replicate count '.', (c == '.') = true := fun c hc =>
    beq_iff_eq.mpr (List.mem_replicate.mp hc).2
  have hname : normalText (name ++ String.ofList (List.replicate count '.')) = normalText name := by
    rw [normalText, String.toList_append, String.toList_ofList, Text.trimEnd_append_of_all hdots, normalText]
  rw [serves, serves, hname]

theorem serves_root (h : ∀ zone ∈ zones, zone ≠ "") : serves zones "" = false := by
  rw [serves, List.any_eq_false]
  intro zone hzone hcovers
  obtain ⟨front, hname, _⟩ := (covers_iff_append ..).mp hcovers
  have hnil := (List.append_eq_nil_iff.mp hname.symm).2
  exact h zone hzone (String.toList_eq_nil_iff.mp hnil)

theorem exists_longest (zones : List String) : ∃ longest, ∀ zone ∈ zones, zone.toList.length ≤ longest := by
  induction zones with
  | nil => exact ⟨0, fun zone hzone => nomatch hzone⟩
  | cons zone zones ih =>
    obtain ⟨longest, hlongest⟩ := ih
    refine ⟨max zone.toList.length longest, List.forall_mem_cons.mpr ⟨Nat.le_max_left .., fun other hother => ?_⟩⟩
    exact Nat.le_trans (hlongest other hother) (Nat.le_max_right ..)

theorem normalText_replicate (count : Nat) :
    normalText (String.ofList (List.replicate count 'a')) = List.replicate count 'a' := by
  have hlast : ∀ last ∈ (List.replicate count 'a').getLast?, (last == '.') = false := fun last hlast => by
    rw [(List.mem_replicate.mp (List.mem_of_getLast? hlast)).2]
    rfl
  have hnormal := normalText_append_dots hlast 0
  rw [List.replicate_zero, List.append_nil] at hnormal
  rw [hnormal, Text.lower, List.map_replicate]
  rfl

/-- A label that is longer than all zones is in none of them. -/
theorem exists_foreign (zones : List String) :
    ∃ label : String, label ≠ "" ∧ (∀ c ∈ label.toList, c.isAlpha = true) ∧ serves zones label = false := by
  obtain ⟨longest, hlongest⟩ := exists_longest zones
  have hletters : ∀ c ∈ List.replicate (longest + 1) 'a', c = 'a' := fun c hc => (List.mem_replicate.mp hc).2
  refine ⟨String.ofList (List.replicate (longest + 1) 'a'), by simp [List.replicate_succ], ?_, ?_⟩
  · intro c hc
    rw [String.toList_ofList] at hc
    rw [hletters c hc]
    rfl
  · rw [serves, List.any_eq_false, normalText_replicate]
    intro zone hzone hcovers
    obtain ⟨front, hlabel, rfl | hdot⟩ := (covers_iff_append ..).mp hcovers
    · have hlength := congrArg List.length hlabel
      rw [List.length_replicate, List.nil_append] at hlength
      have := hlongest zone hzone
      omega
    · have hmem : '.' ∈ List.replicate (longest + 1) 'a' := by
        rw [hlabel]
        exact List.mem_append_left _ (List.mem_of_getLast? hdot)
      exact absurd (hletters '.' hmem) (by decide)

/-- **Authority goes by labels.** -/
theorem authority_of_ofText {bytes : List UInt8} {config : Config} (h : Config.ofText bytes = .ok config) :
    Authority config.zones := by
  have hzones : ∀ zone ∈ config.zones, zone ≠ "" := by
    unfold Config.ofText at h
    split at h
    · cases h
    · exact fun zone hzone => ((Config.check_ok h).2 zone hzone).1
  constructor
  case labels => exact serves_iff_labels config.zones
  case caseless =>
    intro name name' hname
    rw [← serves_lowered, hname, serves_lowered]
  case dots => exact serves_append_dots config.zones
  case inside => exact fun name hinside => serves_eq_false_of_inside hinside
  case root => exact serves_root hzones
  case foreign => exact exists_foreign config.zones
  case challenges =>
    intro name hchallenge
    obtain ⟨zone, hzone, hname⟩ := (isChallenge_iff ..).mp hchallenge
    exact (serves_iff ..).mpr (within_of_challenge hzone hname)

/-! A zone below another one, in a file that writes the upper one with a dot and in capitals. -/

def nestedText : String := "\x7b\"authoritative_zones\":[\"Tunnel4.Com.\",\"b.a.tunnel4.com\"]\x7d"

def nestedConfig : Config := { zones := ["tunnel4.com", "b.a.tunnel4.com"] }

theorem ofText_nestedText : Config.ofText (Text.toUtf8 nestedText) = .ok nestedConfig := by
  have hread : (Json.decodeAll Config.shape.decode (Text.toUtf8 nestedText)).toOption =
      some { zones := ["Tunnel4.Com.", "b.a.tunnel4.com"] } := by
    unfold Json.decodeAll
    rw [Text.ofUtf8_toUtf8]
    decide +kernel
  have hupper : Config.checkZone "Tunnel4.Com." = .ok "tunnel4.com" := by
    have hnormal : normalize "Tunnel4.Com." = "tunnel4.com" := by decide +kernel
    have hname : isName "tunnel4.com".toList = true := by simp [isName, readLabels]; decide +kernel
    simp only [Config.checkZone, hnormal, hname]
    rfl
  have hlower : Config.checkZone "b.a.tunnel4.com" = .ok "b.a.tunnel4.com" := by
    have hnormal : normalize "b.a.tunnel4.com" = "b.a.tunnel4.com" := by decide +kernel
    have hname : isName "b.a.tunnel4.com".toList = true := by simp [isName, readLabels]; decide +kernel
    simp only [Config.checkZone, hnormal, hname]
    rfl
  have hzones : Config.checkZones ["Tunnel4.Com.", "b.a.tunnel4.com"] = .ok nestedConfig.zones := by
    simp only [Config.checkZones, hupper, hlower]
    rfl
  rw [Config.ofText, toOption_eq_some_iff.mp hread]
  simp only [Config.check, hzones]
  rfl

theorem authority_of_ofText_nested : Config.ofText (Text.toUtf8 nestedText) = .ok nestedConfig ∧
    Authority nestedConfig.zones ∧ serves nestedConfig.zones "X.Tunnel4.COM.." = true ∧
    serves nestedConfig.zones "eviltunnel4.com" = false ∧ serves nestedConfig.zones "com" = false := by
  have hauthority := authority_of_ofText ofText_nestedText
  refine ⟨ofText_nestedText, hauthority, (hauthority.labels _).mpr ?_, ?_, ?_⟩
  · exact ⟨"tunnel4.com", by decide +kernel, by decide +kernel⟩
  · decide +kernel
  · decide +kernel

end Zone

end NameServer
