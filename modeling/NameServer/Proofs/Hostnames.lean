import NameServer.Hostname

/-!
# Keys of tunnel hostnames

A first label is split at the same hyphen in either case, because letter case
doesn't matter for which characters a hostname may have. So a key, which has
lost the case, still tells the entry id that its hostname was split into.
-/

namespace NameServer

namespace Text

theorem length_lower (cs : List Char) : (lower cs).length = cs.length := List.length_map ..

theorem toList_lowered (text : String) : (lowered text).toList = lower text.toList := String.toList_ofList

theorem toNat_toLower (c : Char) : c.toLower.toNat = if 65 ≤ c.toNat ∧ c.toNat ≤ 90 then c.toNat + 32 else c.toNat := by
  by_cases h : 65 ≤ c.toNat ∧ c.toNat ≤ 90
  · have hv : c.toLower.val = c.val + 32 := congrArg Char.val (dif_pos h)
    have hlt : c.toNat + 32 < 4294967296 := by omega
    rw [if_pos h]
    exact (congrArg UInt32.toNat hv).trans ((UInt32.toNat_add ..).trans (Nat.mod_eq_of_lt hlt))
  · rw [if_neg h]
    exact congrArg Char.toNat (dif_neg h)

theorem toNat_toLower_cases (c : Char) :
    c.toLower = c ∨ 65 ≤ c.toNat ∧ c.toNat ≤ 90 ∧ c.toLower.toNat = c.toNat + 32 := by
  by_cases h : 65 ≤ c.toNat ∧ c.toNat ≤ 90
  · exact .inr ⟨h.1, h.2, (toNat_toLower c).trans (if_pos h)⟩
  · exact .inl (Char.toNat_inj.mp ((toNat_toLower c).trans (if_neg h)))

theorem toLower_cases (c : Char) : c.toLower = c ∨ c.isUpper = true ∧ c.toLower.isLower = true := by
  refine (toNat_toLower_cases c).imp_right fun ⟨hlo, hhi, hlower⟩ => ?_
  have hlo' : 97 ≤ c.toLower.toNat := by omega
  have hhi' : c.toLower.toNat ≤ 122 := by omega
  exact ⟨decide_eq_true ⟨hlo, hhi⟩, Bool.and_eq_true_iff.mpr ⟨decide_eq_true hlo', decide_eq_true hhi'⟩⟩

/-- A character that is no letter is the lower case of itself only. -/
theorem toLower_eq_iff {c d : Char} (hd : d.isAlpha = false) : c.toLower = d ↔ c = d := by
  obtain ⟨hupper, hlower⟩ := Bool.or_eq_false_iff.mp hd
  rcases toLower_cases c with h | ⟨hu, hl⟩
  · rw [h]
  · constructor
    · rintro rfl
      cases hlower.symm.trans hl
    · rintro rfl
      cases hupper.symm.trans hu

theorem toLower_eq_hyphen_iff {c : Char} : c.toLower = '-' ↔ c = '-' := toLower_eq_iff rfl

theorem toLower_eq_dot_iff {c : Char} : c.toLower = '.' ↔ c = '.' := toLower_eq_iff rfl

theorem all_lower {p : Char → Bool} (hp : ∀ c : Char, p c.toLower = p c) (cs : List Char) :
    (lower cs).all p = cs.all p := by
  rw [lower, List.all_map]
  exact congrArg cs.all (funext hp)

end Text

namespace Hostname

theorem isHostChar_toLower (c : Char) : isHostChar c.toLower = isHostChar c := by
  rcases Text.toLower_cases c with h | ⟨hu, hl⟩
  · rw [h]
  · have hc : isHostChar c = true := by
      change (((c.isUpper || c.isLower) || c.isDigit) || c == '-' || c == '\u212A' || c == '\u017F') = true
      rw [hu]
      rfl
    have hc' : isHostChar c.toLower = true := by
      change (((c.toLower.isUpper || c.toLower.isLower) || c.toLower.isDigit) || c.toLower == '-' ||
        c.toLower == '\u212A' || c.toLower == '\u017F') = true
      rw [hl, Bool.or_true]
      rfl
    rw [hc, hc']

theorem all_isHostChar_lower (cs : List Char) : (Text.lower cs).all isHostChar = cs.all isHostChar :=
  Text.all_lower isHostChar_toLower cs

end Hostname

namespace TunnelHost

open Text (lower lowered)

variable {label address entryId : List Char} {n : Nat}

/-! ## Splitting in lower case -/

theorem isAddress_lower (cs : List Char) : isAddress (lower cs) = isAddress cs := by
  rw [isAddress, isAddress, Text.length_lower, Hostname.all_isHostChar_lower]

theorem isEntryId_lower : ∀ cs : List Char, isEntryId (lower cs) = isEntryId cs
  | [] => rfl
  | c :: cs => by
    have hc : ((lower (c :: cs)).head? != some '-') = ((c :: cs).head? != some '-') := by
      rw [Bool.eq_iff_iff]
      simp [lower, Text.toLower_eq_hyphen_iff]
    rw [isEntryId, isEntryId, Text.length_lower, Hostname.all_isHostChar_lower, hc]

theorem splitAt?_lower (label : List Char) (n : Nat) :
    splitAt? (lower label) n = (splitAt? label n).map fun (address, entryId) => (lower address, lower entryId) := by
  have hd : (lower label).drop n = lower (label.drop n) := List.map_drop.symm
  have ht : (lower label).take n = lower (label.take n) := List.map_take.symm
  unfold splitAt?
  rw [hd, ht]
  cases label.drop n with
  | nil => rfl
  | cons c cs =>
    by_cases hc : c = '-'
    · subst hc
      show (if isAddress (lower (label.take n)) && isEntryId (lower cs) then some (lower (label.take n), lower cs)
        else none) = (if isAddress (label.take n) && isEntryId cs then some (label.take n, cs) else none).map _
      rw [isAddress_lower, isEntryId_lower]
      split <;> rfl
    · have hc' : c.toLower ≠ '-' := fun e => hc (Text.toLower_eq_hyphen_iff.mp e)
      simp [lower, hc, hc']

theorem splitLabel?_lower (label : List Char) :
    splitLabel? (lower label) = (splitLabel? label).map fun (address, entryId) => (lower address, lower entryId) := by
  rw [splitLabel?, splitLabel?, List.map_findSome?]
  exact congrArg (List.findSome? · _) (funext (splitAt?_lower label))

/-! ## What a label is split into -/

theorem eq_of_splitAt? (h : splitAt? label n = some (address, entryId)) : label = address ++ '-' :: entryId := by
  unfold splitAt? at h
  split at h
  · next rest hd =>
    split at h
    · cases h
      rw [← hd, List.take_append_drop]
    · cases h
  · cases h

theorem eq_of_splitLabel? (h : splitLabel? label = some (address, entryId)) : label = address ++ '-' :: entryId := by
  obtain ⟨n, _, hn⟩ := List.exists_of_findSome?_eq_some h
  exact eq_of_splitAt? hn

theorem splitLabel?_of_ofString? {hostname : String} {host : TunnelHost} (h : ofString? hostname = some host) :
    splitLabel? (host.address ++ "-" ++ host.entryId).toList = some (host.address.toList, host.entryId.toList) := by
  unfold ofString? at h
  split at h
  · cases h
  · split at h
    · cases h
    · next hs =>
      split at h
      · cases h
        simp only [String.toList_append, String.toList_ofList]
        rw [eq_of_splitLabel? hs] at hs
        simpa using hs
      · cases h

theorem splitLabel?_key {hostname : String} {host : TunnelHost} (h : ofString? hostname = some host) :
    splitLabel? host.key.toList = some (lower host.address.toList, lower host.entryId.toList) := by
  rw [key, Text.toList_lowered, splitLabel?_lower, splitLabel?_of_ofString? h]
  rfl

/-- **A key determines the proxy entry.** Hostnames of one key run on the same one. -/
theorem lowered_entryId_of_key {hostname hostname' : String} {host host' : TunnelHost}
    (h : ofString? hostname = some host) (h' : ofString? hostname' = some host') (hkey : host.key = host'.key) :
    lowered host.entryId = lowered host'.entryId := by
  have hs := splitLabel?_key h
  rw [hkey, splitLabel?_key h'] at hs
  have he : lower host'.entryId.toList = lower host.entryId.toList := congrArg Prod.snd (Option.some.inj hs)
  exact congrArg String.ofList he.symm

end TunnelHost

end NameServer
