import NameServer.Config.Load
import NameServer.Proofs.Zones

/-!
# Names and keys of sessions

A session is filed under its hostname without the first zone that covers it,
and looked up by the first label of the name that is asked for. The two are
the same only if the zone that the label is directly in comes before all zones
around it.
-/

namespace NameServer

theorem findSome?_eq_find?_bind {α β : Type} {f : α → Option β} {p : α → Bool} (h : ∀ a, (f a).isSome = p a)
    (l : List α) : l.findSome? f = (l.find? p).bind f := by
  induction l with
  | nil => rfl
  | cons a l ih =>
    rw [List.findSome?_cons, List.find?_cons, ← h a, ih]
    cases hf : f a with
    | none => rfl
    | some b => simp [hf]

namespace Text

theorem cut_append_cons {sep : Char} {p : List Char} (h : sep ∉ p) (cs : List Char) :
    cut sep (p ++ sep :: cs) = some (p, cs) := by
  induction p with
  | nil => simp [cut]
  | cons c p ih =>
    rw [List.mem_cons, not_or] at h
    rw [List.cons_append, cut, if_neg (Ne.symm h.1), ih h.2]
    rfl

theorem trimEnd_append_of_all {drop : Char → Bool} {tail : List Char} (h : ∀ c ∈ tail, drop c = true) (cs : List Char) :
    trimEnd drop (cs ++ tail) = trimEnd drop cs := by
  rw [trimEnd, List.reverse_append, List.dropWhile_append_of_pos fun c hc => h c (List.mem_reverse.mp hc)]
  rfl

theorem trimEnd_append_replicate {drop : Char → Bool} {cs : List Char} {c : Char} (hc : drop c = true)
    (hlast : ∀ last ∈ cs.getLast?, drop last = false) (n : Nat) : trimEnd drop (cs ++ List.replicate n c) = cs := by
  rw [trimEnd_append_of_all fun d hd => (List.mem_replicate.mp hd).2 ▸ hc, trimEnd]
  cases hcs : cs.reverse with
  | nil => rw [List.reverse_eq_nil_iff.mp hcs]; rfl
  | cons d ds =>
    have hlast' := hlast d (by rw [List.getLast?_eq_head?_reverse, hcs]; rfl)
    rw [List.dropWhile_cons_of_neg (by simp [hlast']), ← hcs, List.reverse_reverse]

theorem dot_mem_of_lower {cs : List Char} (h : '.' ∈ lower cs) : '.' ∈ cs := by
  obtain ⟨c, hc, hdot⟩ := List.mem_map.mp h
  exact toLower_eq_dot_iff.mp hdot ▸ hc

end Text

namespace TunnelHost

variable {label domain : List Char} {host : TunnelHost}

theorem parts_of_label (hlabel : '.' ∉ label) (h : ofString? (String.ofList (label ++ '.' :: domain)) = some host) :
    label ≠ [] ∧ Hostname.isDomain domain = true ∧ host.key = String.ofList (Text.lower label) := by
  rw [ofString?, String.toList_ofList, Text.cut_append_cons hlabel] at h
  simp only at h
  split at h
  · cases h
  · next address entryId hs =>
    split at h
    · next hd =>
      cases h
      have heq := eq_of_splitLabel? hs
      refine ⟨by simp [heq], hd, ?_⟩
      rw [heq, key, Text.lowered]
      simp
    · cases h

end TunnelHost

theorem Hostname.isDomain_last {domain : List Char} (h : isDomain domain = true) :
    domain ≠ [] ∧ ∀ last ∈ domain.getLast?, (last == '.') = false := by
  constructor
  · rintro rfl
    exact Bool.false_ne_true h
  · intro last hlast
    obtain ⟨front, rfl⟩ := List.getLast?_eq_some_iff.mp (Option.mem_def.mp hlast)
    rw [beq_eq_false_iff_ne]
    rintro rfl
    -- a dot at the end would leave an empty label after it
    rw [isDomain, Text.split_append, List.all_append] at h
    simp [Text.split, isLabel] at h

namespace Zone

variable {zone name rest : List Char}

theorem above?_eq_some_iff : above? zone name = some rest ↔ name = rest ++ '.' :: zone ∧ rest ≠ [] := by
  constructor
  · intro h
    exact ⟨eq_of_above? h, by simpa using (Option.filter_eq_some_iff.mp h).2⟩
  · rintro ⟨rfl, hne⟩
    refine Option.filter_eq_some_iff.mpr ⟨Option.bind_eq_some_iff.mpr ⟨rest ++ ['.'], ?_, ?_⟩, by simpa using hne⟩
    · exact Text.dropBack?_eq_some_iff.mpr (by simp)
    · exact Text.dropBack?_eq_some_iff.mpr rfl

/-- Below a label without dots, taking a zone away leaves something when the zone covers the rest. -/
theorem above?_isSome_iff {label : List Char} (hlabel : '.' ∉ label) (hne : label ≠ []) (outer : List Char) :
    (above? outer (label ++ '.' :: zone)).isSome = covers outer zone := by
  rw [Bool.eq_iff_iff, covers_iff, Option.isSome_iff_exists]
  simp only [above?_eq_some_iff]
  constructor
  · rintro ⟨rest, h, _⟩
    have hsplit := congrArg (Text.split '.') h
    rw [Text.split_append_cons hlabel, Text.split_append] at hsplit
    rcases List.cons_eq_append_iff.mp hsplit with ⟨hr, _⟩ | ⟨labels, _, hz⟩
    · exact absurd hr (Text.split_ne_nil '.' rest)
    · exact ⟨labels, hz.symm⟩
  · rintro ⟨labels, h⟩
    refine ⟨Text.join '.' (label :: labels), ?_, ?_⟩
    · rw [← Text.join_split '.' zone, ← h, ← Text.join_cons_cons '.' label (by simp [Text.split_ne_nil]),
        ← List.cons_append, Text.join_append '.' (List.cons_ne_nil _ _) (Text.split_ne_nil '.' outer), Text.join_split]
    · cases labels with
      | nil => exact hne
      | cons _ _ => simp [Text.join, hne]

theorem above?_eq_label_iff {label : List Char} (hne : label ≠ []) (outer : List Char) :
    above? outer (label ++ '.' :: zone) = some label ↔ outer = zone := by
  rw [above?_eq_some_iff]
  constructor
  · rintro ⟨h, _⟩
    exact (List.cons_inj_right '.').mp (List.append_cancel_left h).symm
  · rintro rfl
    exact ⟨rfl, hne⟩

theorem normalText_append_dots {cs : List Char} (hlast : ∀ last ∈ cs.getLast?, (last == '.') = false) (dots : Nat) :
    normalText (String.ofList (cs ++ List.replicate dots '.')) = Text.lower cs := by
  rw [normalText, String.toList_ofList, Text.trimEnd_append_replicate rfl hlast]

/-- **When a session is found.** The name that it is filed under is the key that it is looked up by exactly if the
zone it is in is the first one that covers that zone. -/
theorem sessionName_eq_key_iff {zones : List String} {zone : String} (hzone : zone ∈ zones) (label domain : List Char)
    (hlabel : '.' ∉ label) (hdomain : Text.lower domain = zone.toList) {host : TunnelHost}
    (hhost : TunnelHost.ofString? (String.ofList (label ++ '.' :: domain)) = some host) (dots : Nat) :
    sessionName zones (String.ofList (label ++ '.' :: domain ++ List.replicate dots '.')) = host.key ↔
      zones.find? (fun outer => covers outer.toList zone.toList) = some zone := by
  obtain ⟨hne, hd, hkey⟩ := TunnelHost.parts_of_label hlabel hhost
  obtain ⟨hdne, hdlast⟩ := Hostname.isDomain_last hd
  have hlast : ∀ last ∈ (label ++ '.' :: domain).getLast?, (last == '.') = false := by
    rw [List.getLast?_append, List.getLast?_cons, Option.some_or]
    intro last hlast
    apply hdlast last
    obtain ⟨c, hc⟩ := Option.ne_none_iff_exists'.mp (mt List.getLast?_eq_none_iff.mp hdne)
    rw [hc] at hlast ⊢
    exact hlast
  have hname : normalText (String.ofList (label ++ '.' :: domain ++ List.replicate dots '.')) =
      Text.lower label ++ '.' :: zone.toList := by
    rw [normalText_append_dots hlast, ← hdomain]
    exact List.map_append
  have hlow : '.' ∉ Text.lower label := fun h => hlabel (Text.dot_mem_of_lower h)
  have hlowne : Text.lower label ≠ [] := by simpa [Text.lower] using hne
  rw [sessionName, hname, hkey,
    findSome?_eq_find?_bind fun outer : String => above?_isSome_iff hlow hlowne outer.toList]
  cases hfirst : zones.find? fun outer => covers outer.toList zone.toList with
  | none =>
    have hnot := List.find?_eq_none.mp hfirst zone hzone
    exact absurd ((covers_iff ..).mpr (List.suffix_refl _)) hnot
  | some first =>
    have hcover := List.find?_some hfirst
    rw [← above?_isSome_iff hlow hlowne, Option.isSome_iff_exists] at hcover
    obtain ⟨rest, hrest⟩ := hcover
    have hsame : first.toList = zone.toList ↔ rest = Text.lower label := by
      rw [← above?_eq_label_iff hlowne, hrest, Option.some.injEq]
    rw [Option.bind_some, hrest, Option.getD_some, String.ofList_inj, Option.some.injEq, ← String.toList_inj, hsame]

/-! A zone inside another one, in either order. -/

theorem sessionName_eq_key_iff_nested : ∃ host, TunnelHost.ofString? "My-App-e1.Tunnel4.com" = some host ∧
    (sessionName ["com", "tunnel4.com"] "My-App-e1.Tunnel4.com." = host.key ↔
      ["com", "tunnel4.com"].find? (fun outer => covers outer.toList "tunnel4.com".toList) = some "tunnel4.com") ∧
    (sessionName ["tunnel4.com", "com"] "My-App-e1.Tunnel4.com." = host.key ↔
      ["tunnel4.com", "com"].find? (fun outer => covers outer.toList "tunnel4.com".toList) = some "tunnel4.com") := by
  have hhost : TunnelHost.ofString? "My-App-e1.Tunnel4.com" = some ⟨"My-App", "e1", "Tunnel4.com"⟩ := by
    decide +kernel
  have hlabel : '.' ∉ "My-App-e1".toList := by decide
  have hdomain : Text.lower "Tunnel4.com".toList = "tunnel4.com".toList := by decide +kernel
  refine ⟨_, hhost, ?_, ?_⟩
  · exact sessionName_eq_key_iff (by decide) "My-App-e1".toList "Tunnel4.com".toList hlabel hdomain hhost 1
  · exact sessionName_eq_key_iff (by decide) "My-App-e1".toList "Tunnel4.com".toList hlabel hdomain hhost 1

theorem sessionName_ne_key : ∃ config host, Config.check { zones := ["com", "tunnel4.com"] } = .ok config ∧
    "tunnel4.com" ∈ config.zones ∧ TunnelHost.ofString? "my-app-e1.tunnel4.com" = some host ∧
    sessionName config.zones "my-app-e1.tunnel4.com" = "my-app-e1.tunnel4" ∧ host.key = "my-app-e1" := by
  have houter : isName "com".toList = true := by
    simp [isName, readLabels]
    decide +kernel
  have hinner : isName "tunnel4.com".toList = true := by
    simp [isName, readLabels]
    decide +kernel
  have hcheck : Config.check { zones := ["com", "tunnel4.com"] } = .ok { zones := ["com", "tunnel4.com"] } := by
    have hcom : normalize "com" = "com" := by decide +kernel
    have htunnel : normalize "tunnel4.com" = "tunnel4.com" := by decide +kernel
    simp only [Config.check, Config.checkZones, Config.checkZone, hcom, htunnel, houter, hinner]
    rfl
  refine ⟨_, ⟨"my-app", "e1", "tunnel4.com"⟩, hcheck, ?_, ?_, ?_, ?_⟩
  · decide
  · decide +kernel
  · decide +kernel
  · decide +kernel

end Zone

end NameServer
