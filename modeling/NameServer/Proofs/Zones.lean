import NameServer.Proofs.Hostnames
import NameServer.Proofs.Wire
import NameServer.Zone

/-!
# Names in zones

Names in normal form are in lower case, and so are the parts that are left of
them when a zone is taken away. A name is in a zone when its labels end in the
labels of the zone.
-/

namespace NameServer

theorem Text.join_append (sep : Char) : ∀ {ps qs : List (List Char)}, ps ≠ [] → qs ≠ [] →
    join sep (ps ++ qs) = join sep ps ++ sep :: join sep qs
  | [], _, hp, _ => absurd rfl hp
  | [p], qs, _, hq => join_cons_cons sep p hq
  | p :: q :: ps, qs, _, hq => by
    rw [List.cons_append, join_cons_cons sep p (by simp), join_cons_cons sep p (by simp),
      join_append sep (List.cons_ne_nil q ps) hq, List.append_assoc, List.cons_append]

theorem Text.lower_of_append {xs ys : List Char} (h : lower (xs ++ ys) = xs ++ ys) : lower xs = xs := by
  have hmap : lower xs ++ lower ys = xs ++ ys := by
    rw [← h]
    exact List.map_append.symm
  exact (List.append_inj hmap (length_lower xs)).1

namespace Zone

open Text (lower)

variable {zone name rest : List Char}

theorem lower_normalText (hostname : String) : lower (normalText hostname) = normalText hostname :=
  Text.lower_lower _

theorem eq_of_above? (h : above? zone name = some rest) : name = rest ++ '.' :: zone := by
  obtain ⟨hb, _⟩ := Option.filter_eq_some_iff.mp h
  obtain ⟨above, ha, hr⟩ := Option.bind_eq_some_iff.mp hb
  rw [Text.dropBack?_eq_some_iff.mp ha, Text.dropBack?_eq_some_iff.mp hr, List.append_assoc]
  rfl

theorem lowered_sessionName (zones : List String) (hostname : String) :
    Text.lowered (sessionName zones hostname) = sessionName zones hostname := by
  have hn := lower_normalText hostname
  unfold sessionName
  rw [Text.lowered, String.toList_ofList]
  congr 1
  cases hf : zones.findSome? fun zone => above? zone.toList (normalText hostname) with
  | none => exact hn
  | some rest =>
    obtain ⟨zone, _, hz⟩ := List.exists_of_findSome?_eq_some hf
    rw [eq_of_above? hz] at hn
    exact Text.lower_of_append hn

/-! ## Labels -/

theorem covers_iff (zone name : List Char) :
    covers zone name = true ↔ Text.split '.' zone <:+ Text.split '.' name := by
  simp only [covers, Bool.or_eq_true, beq_iff_eq, Option.any_eq_true]
  constructor
  · rintro (rfl | ⟨above, ha, hdot⟩)
    · exact List.suffix_refl _
    · obtain ⟨front, rfl⟩ := List.getLast?_eq_some_iff.mp hdot
      rw [Text.dropBack?_eq_some_iff.mp ha, List.append_assoc, List.singleton_append, Text.split_append]
      exact List.suffix_append _ _
  · rintro ⟨above, h⟩
    have hname : name = Text.join '.' (above ++ Text.split '.' zone) := by rw [h, Text.join_split]
    by_cases ha : above = []
    · left
      rw [hname, ha, List.nil_append, Text.join_split]
    · right
      refine ⟨Text.join '.' above ++ ['.'], Text.dropBack?_eq_some_iff.mpr ?_, by simp⟩
      rw [hname, Text.join_append '.' ha (Text.split_ne_nil '.' zone), Text.join_split, List.append_assoc]
      rfl

/-- The labels of a name, in lower case and without dots at the end, end in those of a zone. -/
def Within (zones : List String) (name : String) : Prop :=
  ∃ zone ∈ zones, Text.split '.' zone.toList <:+ Text.split '.' (normalText name)

theorem serves_iff (zones : List String) (name : String) : serves zones name = true ↔ Within zones name := by
  simp only [serves, List.any_eq_true, covers_iff]
  rfl

end Zone

end NameServer
