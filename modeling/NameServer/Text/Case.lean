/-!
# Letter case

Lower case of the ASCII letters; every other character stays as it is.
-/

namespace NameServer.Text

def lower (cs : List Char) : List Char := cs.map Char.toLower

def lowered (text : String) : String := String.ofList (lower text.toList)

theorem toLower_toLower (c : Char) : c.toLower.toLower = c.toLower := by
  by_cases h : c.val ≥ 'A'.val ∧ c.val ≤ 'Z'.val
  · have hc : c.toLower.val = c.val + 32 := congrArg Char.val (dif_pos h)
    refine dif_neg fun h' => ?_
    have h₁ := h.1
    have h₂ := h.2
    have h₃ := h'.2
    rw [hc] at h₃
    simp only [ge_iff_le, UInt32.le_iff_toNat_le, UInt32.toNat_add, Char.reduceVal,
      UInt32.reduceToNat] at h₁ h₂ h₃
    omega
  · have hc : c.toLower = c := dif_neg h
    rw [hc, hc]

theorem lower_lower (cs : List Char) : lower (lower cs) = lower cs := by
  rw [lower, lower, List.map_map]
  exact List.map_congr_left fun c _ => toLower_toLower c

theorem lowered_lowered (text : String) : lowered (lowered text) = lowered text := by
  simp [lowered, lower_lower]

end NameServer.Text
