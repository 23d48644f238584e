import NameServer.Proofs.CacheEffects
import NameServer.Proofs.Challenges
import NameServer.Proofs.LetterCase
import NameServer.Proofs.Patterns
import NameServer.Proofs.SessionKeys

/-!
# The form of tunnel hostnames

A tunnel hostname is an address, a hyphen, the id of a proxy entry, a dot and
a domain. Where hyphens allow more than one way to cut it, the one with the
longest address is taken. That is also what a matcher that goes back finds for
the pattern of the form, since it tries long addresses first.
-/

namespace NameServer

namespace Text

theorem join_eq_intercalate (sep : Char) : ∀ ps : List (List Char), join sep ps = [sep].intercalate ps
  | [] => rfl
  | [p] => List.intercalate_singleton.symm
  | p :: q :: ps => by
    rw [join, join_eq_intercalate sep (q :: ps), List.intercalate_cons_cons, List.append_assoc]
    rfl

theorem toList_intercalate {text : String} {sep : Char} (h : text.toList = [sep]) (ps : List String) :
    (text.intercalate ps).toList = join sep (ps.map String.toList) := by
  rw [join_eq_intercalate, String.toList_intercalate, h]

theorem intercalate_split {text : String} {sep : Char} (h : text.toList = [sep]) (whole : String) :
    text.intercalate ((split sep whole.toList).map String.ofList) = whole := by
  rw [← String.toList_inj, toList_intercalate h, List.map_map]
  simp only [Function.comp_def, String.toList_ofList, List.map_id', join_split]

theorem split_intercalate {text : String} {sep : Char} (h : text.toList = [sep]) {ps : List String} (hne : ps ≠ [])
    (hall : ∀ p ∈ ps, sep ∉ p.toList) : split sep (text.intercalate ps).toList = ps.map String.toList := by
  rw [toList_intercalate h]
  refine split_join (by simpa using hne) fun p hp => ?_
  obtain ⟨q, hq, rfl⟩ := List.mem_map.mp hp
  exact hall q hq

theorem join_cons (sep : Char) : ∀ (p : List Char) (ps : List (List Char)),
    join sep (p :: ps) = p ++ ps.flatMap (sep :: ·)
  | p, [] => (List.append_nil p).symm
  | p, q :: ps => by rw [join, join_cons sep q ps, List.flatMap_cons, List.cons_append]

theorem mem_join {sep c : Char} : ∀ {ps : List (List Char)}, c ∈ join sep ps → c = sep ∨ ∃ p ∈ ps, c ∈ p
  | [], h => nomatch h
  | p :: ps, h => by
    rw [join_cons, List.mem_append, List.mem_flatMap] at h
    rcases h with h | ⟨q, hq, h⟩
    · exact .inr ⟨p, List.mem_cons_self, h⟩
    · exact (List.mem_cons.mp h).imp_right fun h => ⟨q, List.mem_cons_of_mem p hq, h⟩

theorem cut_eq_some_iff {sep : Char} {cs front rest : List Char} :
    cut sep cs = some (front, rest) ↔ cs = front ++ sep :: rest ∧ sep ∉ front := by
  constructor
  · intro h
    induction cs generalizing front with
    | nil => cases h
    | cons c cs ih =>
      rw [cut] at h
      by_cases hc : c = sep
      · rw [if_pos hc] at h
        cases h
        exact ⟨by rw [hc, List.nil_append], by simp⟩
      · rw [if_neg hc] at h
        obtain ⟨⟨front', rest'⟩, hcut, he⟩ := Option.map_eq_some_iff.mp h
        cases he
        obtain ⟨hcs, hfront⟩ := ih hcut
        refine ⟨congrArg (c :: ·) hcs, ?_⟩
        rw [List.mem_cons, not_or]
        exact ⟨Ne.symm hc, hfront⟩
  · rintro ⟨rfl, h⟩
    exact cut_append_cons h rest

end Text

namespace Hostname

/-! ## Characters and domains -/

/-- Letters of either case, digits, the hyphen, and two with an ASCII letter as their other case: the Kelvin sign and
the long s. -/
def HostChar (c : Char) : Prop :=
  ('a' ≤ c ∧ c ≤ 'z') ∨ ('A' ≤ c ∧ c ≤ 'Z') ∨ ('0' ≤ c ∧ c ≤ '9') ∨ c = '-' ∨ c = '\u212A' ∨ c = '\u017F'

/-- One or more labels between dots. -/
def IsDomain (domain : String) : Prop := ∃ labels : List String,
  labels ≠ [] ∧ (∀ label ∈ labels, label ≠ "" ∧ ∀ c ∈ label.toList, HostChar c) ∧ domain = ".".intercalate labels

theorem isHostChar_iff (c : Char) : isHostChar c = true ↔ HostChar c := by
  have hlower : c.isLower = true ↔ 'a' ≤ c ∧ c ≤ 'z' :=
    Bool.and_eq_true_iff.trans (and_congr decide_eq_true_iff decide_eq_true_iff)
  have hupper : c.isUpper = true ↔ 'A' ≤ c ∧ c ≤ 'Z' := decide_eq_true_iff
  have hdigit : c.isDigit = true ↔ '0' ≤ c ∧ c ≤ '9' :=
    Bool.and_eq_true_iff.trans (and_congr decide_eq_true_iff decide_eq_true_iff)
  change (((c.isUpper || c.isLower) || c.isDigit) || c == '-' || c == '\u212A' || c == '\u017F') = true ↔ _
  rw [HostChar, ← hlower, ← hupper, ← hdigit]
  simp only [Bool.or_eq_true, beq_iff_eq]
  grind

theorem isDomain_iff (domain : String) : isDomain domain.toList = true ↔ IsDomain domain := by
  have hlabel : ∀ label : List Char, isLabel label = true ↔ label ≠ [] ∧ ∀ c ∈ label, HostChar c := by
    intro label
    simp only [isLabel, Bool.and_eq_true, bne_iff_ne, List.all_eq_true, isHostChar_iff]
  rw [isDomain, List.all_eq_true]
  simp only [hlabel]
  constructor
  · intro h
    refine ⟨(Text.split '.' domain.toList).map String.ofList, by simp [Text.split_ne_nil], ?_, ?_⟩
    · intro label hmem
      obtain ⟨piece, hpiece, rfl⟩ := List.mem_map.mp hmem
      obtain ⟨hne, hall⟩ := h piece hpiece
      exact ⟨by simpa using hne, by simpa using hall⟩
    · exact (Text.intercalate_split rfl domain).symm
  · rintro ⟨labels, hne, hall, rfl⟩ piece hpiece
    have hdotless : ∀ label ∈ labels, '.' ∉ label.toList := fun label hmem hdot =>
      absurd ((isHostChar_iff '.').mpr ((hall label hmem).2 '.' hdot)) (by decide)
    rw [Text.split_intercalate rfl hne hdotless] at hpiece
    obtain ⟨label, hmem, rfl⟩ := List.mem_map.mp hpiece
    obtain ⟨hlabel, hchars⟩ := hall label hmem
    exact ⟨by simpa using hlabel, hchars⟩

/-! ## Patterns of characters and domains -/

/-- Simple case folding, where it makes an ASCII letter of a character. -/
def folded (c : Char) : Char := if c = '\u212A' then 'k' else if c = '\u017F' then 's' else c.toLower

/-- A character that is in one of the ranges but for its case. -/
def oneOf (ranges : List (Char × Char)) : Pattern :=
  .char fun c => ranges.any fun range => range.1 ≤ folded c && folded c ≤ range.2

def hostCharForm : Pattern := oneOf [('a', 'z'), ('0', '9'), ('-', '-')]

def labelForm : Pattern := .many 1 none hostCharForm

def domainForm : Pattern := .seq labelForm (.many 0 none (.seq (.char (· == '.')) labelForm))

/-- What the groups of a form hold in a hostname. Blank hostnames have no form. -/
def classify (form : Pattern) (hostname : String) : Option (List (List Char)) :=
  if Text.trim hostname.toList = [] then none else form.captures hostname.toList

/-- A form with a dot in it doesn't match blank hostnames anyway. -/
theorem classify_eq {form : Pattern} (hproper : form.Proper)
    (hdot : ∀ text groups, form.Matches text groups → '.' ∈ text) (hostname : String) :
    classify form hostname = form.captures hostname.toList := by
  rw [classify]
  split
  · next hblank =>
    rw [eq_comm, ← Option.not_isSome_iff_eq_none, Pattern.captures_isSome_iff hproper]
    rintro ⟨groups, hmatches⟩
    have hall := List.all_eq_true.mp ((Text.trim_eq_nil_iff _).mp hblank)
    exact absurd (hall '.' (hdot _ _ hmatches)) (by decide)
  · rfl

theorem toNat_folded (c : Char) : (folded c).toNat = if c.toNat = 0x212A then 107 else if c.toNat = 0x017F then 115
    else if 65 ≤ c.toNat ∧ c.toNat ≤ 90 then c.toNat + 32 else c.toNat := by
  have hkelvin : c = '\u212A' ↔ c.toNat = 0x212A := Char.toNat_inj.symm
  have hlong : c = '\u017F' ↔ c.toNat = 0x017F := Char.toNat_inj.symm
  rw [folded]
  simp only [hkelvin, hlong, ← Text.toNat_toLower]
  split
  · rfl
  · split <;> rfl

theorem hostChar_iff_toNat (c : Char) : HostChar c ↔ 97 ≤ c.toNat ∧ c.toNat ≤ 122 ∨ 65 ≤ c.toNat ∧ c.toNat ≤ 90 ∨
    48 ≤ c.toNat ∧ c.toNat ≤ 57 ∨ c.toNat = 45 ∨ c.toNat = 0x212A ∨ c.toNat = 0x017F := by
  rw [HostChar, ← Char.toNat_inj (c := c), ← Char.toNat_inj (c := c), ← Char.toNat_inj (c := c)]
  rfl

theorem oneOf_eq {ranges : List (Char × Char)} {accepts : Char → Bool}
    (h : ∀ c, accepts c = true ↔
      ∃ range ∈ ranges, range.1.toNat ≤ (folded c).toNat ∧ (folded c).toNat ≤ range.2.toNat) :
    oneOf ranges = .char accepts := by
  refine congrArg Pattern.char (funext fun c => ?_)
  rw [Bool.eq_iff_iff, h, List.any_eq_true]
  simp only [Bool.and_eq_true, decide_eq_true_eq]
  rfl

theorem hostCharForm_eq : hostCharForm = .char isHostChar := by
  refine oneOf_eq fun c => ?_
  rw [isHostChar_iff, hostChar_iff_toNat]
  simp only [List.mem_cons, List.not_mem_nil, or_false, exists_eq_or_imp, exists_eq_left, Char.reduceToNat]
  have hfolded := toNat_folded c
  split_ifs at hfolded <;> omega

theorem exists_map_eq {α β : Type} {f : α → β} {p : α → Prop} : ∀ {l : List β}, (∀ b ∈ l, ∃ a, p a ∧ f a = b) →
    ∃ l' : List α, (∀ a ∈ l', p a) ∧ l'.map f = l
  | [], _ => ⟨[], by simp⟩
  | b :: l, h => by
    obtain ⟨⟨a, ha, hab⟩, hl⟩ := List.forall_mem_cons.mp h
    obtain ⟨l', hl', hmap⟩ := exists_map_eq hl
    exact ⟨a :: l', List.forall_mem_cons.mpr ⟨ha, hl'⟩, by rw [List.map_cons, hab, hmap]⟩

theorem matches_labelForm {text : List Char} {groups : List (List Char)} :
    labelForm.Matches text groups ↔ isLabel text = true ∧ groups = [] := by
  rw [labelForm, hostCharForm_eq, Pattern.matches_many_char, isLabel, Bool.and_eq_true, List.all_eq_true, bne_iff_ne,
    ← List.length_pos_iff, Nat.lt_iff_add_one_le]
  simp [and_assoc]

theorem proper_domainForm : domainForm.Proper := by
  refine ⟨Pattern.proper_many_char 1 none _, ⟨trivial, Pattern.proper_many_char 1 none _⟩, fun _ text groups h => ?_⟩
  obtain ⟨_, rest, _, _, ⟨c, _, rfl, _⟩, _, rfl, _⟩ := h
  exact List.cons_ne_nil c rest

theorem dot_notMem_of_isLabel {label : List Char} (h : isLabel label = true) : '.' ∉ label :=
  TunnelHost.dot_notMem_of_isHostChar (Bool.and_eq_true_iff.mp h).2

theorem matches_domainForm {text : List Char} {groups : List (List Char)} :
    domainForm.Matches text groups ↔ isDomain text = true ∧ groups = [] := by
  constructor
  · rintro ⟨first, _, _, _, hfirst, ⟨parts, _, _, hparts, rfl, rfl⟩, rfl, rfl⟩
    obtain ⟨hlabel, rfl⟩ := matches_labelForm.mp hfirst
    have hlabels : ∀ part ∈ parts, ∃ label, isLabel label = true ∧ ('.' :: label, []) = part := by
      intro part hpart
      obtain ⟨dot, label, _, _, ⟨c, hc, hdot, rfl⟩, hform, htext, hgroups⟩ := hparts part hpart
      obtain ⟨hl, rfl⟩ := matches_labelForm.mp hform
      rw [beq_iff_eq] at hc
      rw [hdot, hc] at htext
      exact ⟨label, hl, Prod.ext htext.symm hgroups.symm⟩
    obtain ⟨labels, hall, rfl⟩ := exists_map_eq hlabels
    have hmem : ∀ label ∈ first :: labels, isLabel label = true := List.forall_mem_cons.mpr ⟨hlabel, hall⟩
    rw [List.flatMap_map, List.flatMap_map, ← Text.join_cons, isDomain,
      Text.split_join (by simp) fun label hl => dot_notMem_of_isLabel (hmem label hl)]
    exact ⟨List.all_eq_true.mpr hmem, by simp⟩
  · rintro ⟨h, rfl⟩
    rw [isDomain] at h
    rw [← Text.join_split '.' text]
    cases hs : Text.split '.' text with
    | nil => exact absurd hs (Text.split_ne_nil '.' text)
    | cons first labels =>
      rw [hs, List.all_eq_true] at h
      obtain ⟨hfirst, hlabels⟩ := List.forall_mem_cons.mp h
      rw [Text.join_cons]
      refine ⟨first, _, [], [], matches_labelForm.mpr ⟨hfirst, rfl⟩, ⟨labels.map fun label => ('.' :: label, []), ?_⟩,
        rfl, rfl⟩
      refine ⟨Nat.zero_le _, by simp, ?_, by rw [List.flatMap_map], by simp [List.flatMap_map]⟩
      intro part hpart
      obtain ⟨label, hl, rfl⟩ := List.mem_map.mp hpart
      exact ⟨['.'], label, [], [], ⟨'.', rfl, rfl, rfl⟩, matches_labelForm.mpr ⟨hlabels label hl, rfl⟩, rfl, rfl⟩

end Hostname

theorem findSome?_reverse_range {α : Type} {f : Nat → Option α} {a : α} : ∀ {count : Nat},
    (List.range count).reverse.findSome? f = some a ↔ ∃ n < count, f n = some a ∧ ∀ m, n < m → m < count → f m = none
  | 0 => by simp
  | count + 1 => by
    rw [List.range_succ, List.reverse_append, List.reverse_singleton, List.singleton_append, List.findSome?_cons]
    cases hf : f count with
    | some b =>
      constructor
      · intro h
        cases h
        exact ⟨count, Nat.lt_succ_self count, hf, fun m hlt hle => absurd hle (by omega)⟩
      · rintro ⟨n, hn, hfn, hnone⟩
        rcases Nat.lt_or_eq_of_le (Nat.lt_succ_iff.mp hn) with hlt | rfl
        · rw [hnone count hlt (Nat.lt_succ_self count)] at hf
          cases hf
        · exact hf.symm.trans hfn
    | none =>
      rw [findSome?_reverse_range]
      constructor
      · rintro ⟨n, hn, hfn, hnone⟩
        refine ⟨n, by omega, hfn, fun m hlt hle => ?_⟩
        rcases Nat.lt_or_eq_of_le (Nat.lt_succ_iff.mp hle) with hm | rfl
        · exact hnone m hlt hm
        · exact hf
      · rintro ⟨n, hn, hfn, hnone⟩
        rcases Nat.lt_or_eq_of_le (Nat.lt_succ_iff.mp hn) with hlt | rfl
        · exact ⟨n, hlt, hfn, fun m hm hle => hnone m hm (by omega)⟩
        · rw [hf] at hfn
          cases hfn

namespace TunnelHost

open Hostname (HostChar IsDomain isHostChar isDomain)

/-! ## Cutting hostnames -/

def joined (host : TunnelHost) : String := host.address ++ "-" ++ host.entryId ++ "." ++ host.domain

/-- A way to cut a hostname into the parts of a tunnel hostname. -/
structure Splits (hostname : String) (host : TunnelHost) : Prop where
  joined : hostname = host.joined
  addressLength : 3 ≤ host.address.length ∧ host.address.length ≤ 128
  addressChars : ∀ c ∈ host.address.toList, HostChar c
  entryIdLength : 1 ≤ host.entryId.length ∧ host.entryId.length ≤ 32
  entryIdChars : ∀ c ∈ host.entryId.toList, HostChar c
  entryIdStart : host.entryId.toList.head? ≠ some '-'
  domain : IsDomain host.domain

variable {hostname : String} {host : TunnelHost} {label address entryId : List Char} {n : Nat}

theorem isAddress_iff (cs : List Char) : isAddress cs = true ↔
    (3 ≤ cs.length ∧ cs.length ≤ 128) ∧ ∀ c ∈ cs, HostChar c := by
  simp only [isAddress, Bool.and_eq_true, decide_eq_true_eq, List.all_eq_true, Hostname.isHostChar_iff]
  rfl

theorem isEntryId_iff (cs : List Char) : isEntryId cs = true ↔
    (1 ≤ cs.length ∧ cs.length ≤ 32) ∧ (∀ c ∈ cs, HostChar c) ∧ cs.head? ≠ some '-' := by
  simp only [isEntryId, Bool.and_eq_true, decide_eq_true_eq, List.all_eq_true, bne_iff_ne, Hostname.isHostChar_iff,
    and_assoc]

theorem splits_iff : Splits hostname host ↔
    hostname.toList = (host.address.toList ++ '-' :: host.entryId.toList) ++ '.' :: host.domain.toList ∧
      isAddress host.address.toList = true ∧ isEntryId host.entryId.toList = true ∧
      isDomain host.domain.toList = true := by
  have hjoined : hostname = host.joined ↔
      hostname.toList = (host.address.toList ++ '-' :: host.entryId.toList) ++ '.' :: host.domain.toList := by
    rw [← String.toList_inj, TunnelHost.joined]
    simp
  rw [← hjoined, isAddress_iff, isEntryId_iff, Hostname.isDomain_iff, String.length_toList, String.length_toList]
  constructor
  · rintro ⟨hjoined, hlength, hchars, hidLength, hidChars, hidStart, hdomain⟩
    exact ⟨hjoined, ⟨hlength, hchars⟩, ⟨hidLength, hidChars, hidStart⟩, hdomain⟩
  · rintro ⟨hjoined, ⟨hlength, hchars⟩, ⟨hidLength, hidChars, hidStart⟩, hdomain⟩
    exact ⟨hjoined, hlength, hchars, hidLength, hidChars, hidStart, hdomain⟩

theorem Splits.cut (h : Splits hostname host) : Text.cut '.' hostname.toList =
    some (host.address.toList ++ '-' :: host.entryId.toList, host.domain.toList) := by
  obtain ⟨hjoined, haddress, hentryId, _⟩ := splits_iff.mp h
  refine Text.cut_eq_some_iff.mpr ⟨hjoined, ?_⟩
  simp only [isAddress, isEntryId, Bool.and_eq_true] at haddress hentryId
  rw [List.mem_append, List.mem_cons]
  rintro (hdot | hdot | hdot)
  · exact dot_notMem_of_isHostChar haddress.2 hdot
  · exact absurd hdot (by decide)
  · exact dot_notMem_of_isHostChar hentryId.1.2 hdot

theorem splitAt?_eq_some_iff : splitAt? label n = some (address, entryId) ↔
    label = address ++ '-' :: entryId ∧ address.length = n ∧ isAddress address = true ∧ isEntryId entryId = true := by
  constructor
  · intro h
    have hlabel := eq_of_splitAt? h
    unfold splitAt? at h
    split at h
    · next hd =>
      split at h
      · next hparts =>
        cases h
        have hn : n ≤ label.length := by
          have := congrArg List.length hd
          rw [List.length_drop, List.length_cons] at this
          omega
        exact ⟨hlabel, List.length_take_of_le hn, Bool.and_eq_true_iff.mp hparts⟩
      · cases h
    · cases h
  · rintro ⟨rfl, rfl, haddress, hentryId⟩
    simp [splitAt?, haddress, hentryId]

theorem Splits.splitAt? (h : Splits hostname host) :
    splitAt? (host.address.toList ++ '-' :: host.entryId.toList) host.address.length =
      some (host.address.toList, host.entryId.toList) := by
  obtain ⟨_, haddress, hentryId, _⟩ := splits_iff.mp h
  exact splitAt?_eq_some_iff.mpr ⟨rfl, String.length_toList, haddress, hentryId⟩

theorem splits_of_splitAt? {domain : List Char} (hcut : Text.cut '.' hostname.toList = some (label, domain))
    (hdomain : isDomain domain = true) (h : TunnelHost.splitAt? label n = some (address, entryId)) :
    Splits hostname ⟨String.ofList address, String.ofList entryId, String.ofList domain⟩ := by
  obtain ⟨rfl, _, haddress, hentryId⟩ := splitAt?_eq_some_iff.mp h
  obtain ⟨hjoined, _⟩ := Text.cut_eq_some_iff.mp hcut
  apply splits_iff.mpr
  simp only [String.toList_ofList]
  exact ⟨hjoined, haddress, hentryId, hdomain⟩

/-- The split is the one with the longest address. -/
theorem ofString?_eq_some_iff : ofString? hostname = some host ↔
    Splits hostname host ∧ ∀ other, Splits hostname other → other.address.length ≤ host.address.length := by
  constructor
  · intro h
    unfold ofString? at h
    split at h
    · cases h
    · next label domain hcut =>
      split at h
      · cases h
      · next address entryId hlabel =>
        split at h
        · next hdomain =>
          cases h
          obtain ⟨n, _, hn, hlonger⟩ := findSome?_reverse_range.mp hlabel
          obtain ⟨_, hlength, _⟩ := splitAt?_eq_some_iff.mp hn
          refine ⟨splits_of_splitAt? hcut hdomain hn, fun other hother => ?_⟩
          -- a longer address would have been tried before
          rw [String.length_ofList, hlength]
          refine Nat.le_of_not_lt fun hlt => ?_
          have hsplit := hother.splitAt?
          rw [hother.cut] at hcut
          cases hcut
          rw [hlonger _ hlt (Nat.lt_succ_of_le hother.addressLength.2)] at hsplit
          cases hsplit
        · cases h
  · rintro ⟨h, hlongest⟩
    have hdomain := (splits_iff.mp h).2.2.2
    have hlabel : splitLabel? (host.address.toList ++ '-' :: host.entryId.toList) =
        some (host.address.toList, host.entryId.toList) := by
      refine findSome?_reverse_range.mpr ⟨_, Nat.lt_succ_of_le h.addressLength.2, h.splitAt?, fun m hlt _ => ?_⟩
      refine Option.eq_none_iff_forall_ne_some.mpr fun ⟨address, entryId⟩ hm => ?_
      have hle := hlongest _ (splits_of_splitAt? h.cut hdomain hm)
      rw [String.length_ofList, (splitAt?_eq_some_iff.mp hm).2.1] at hle
      omega
    simp only [ofString?, h.cut, hlabel, hdomain, if_true, String.ofList_toList]

theorem ofString?_eq_none_iff : ofString? hostname = none ↔ ∀ host, ¬ Splits hostname host := by
  constructor
  · intro hnone host h
    have hdomain := (splits_iff.mp h).2.2.2
    cases hlabel : splitLabel? (host.address.toList ++ '-' :: host.entryId.toList) with
    | none =>
      have hlength := h.addressLength.2
      have := List.findSome?_eq_none_iff.mp hlabel host.address.length (by simp [maxAddress]; omega)
      rw [h.splitAt?] at this
      cases this
    | some parts => simp [ofString?, h.cut, hlabel, hdomain] at hnone
  · intro h
    exact Option.eq_none_iff_forall_ne_some.mpr fun host hhost => h host (ofString?_eq_some_iff.mp hhost).1

/-! ## The pattern of the form -/

def entryIdForm : Pattern := .seq (Hostname.oneOf [('a', 'z'), ('0', '9')]) (.many 0 (some 31) Hostname.hostCharForm)

def addressForm : Pattern := .many 3 (some 128) Hostname.hostCharForm

def form : Pattern :=
  .separated (.group addressForm) '-' (.separated (.group entryIdForm) '.' (.group Hostname.domainForm))

def parts (host : TunnelHost) : List (List Char) := [host.address.toList, host.entryId.toList, host.domain.toList]

theorem entryStart_eq : Hostname.oneOf [('a', 'z'), ('0', '9')] = .char fun c => isHostChar c && c != '-' := by
  refine Hostname.oneOf_eq fun c => ?_
  rw [Bool.and_eq_true, Hostname.isHostChar_iff, Hostname.hostChar_iff_toNat, bne_iff_ne, Ne, ← Char.toNat_inj]
  simp only [List.mem_cons, List.not_mem_nil, or_false, exists_eq_or_imp, exists_eq_left, Char.reduceToNat]
  have hfolded := Hostname.toNat_folded c
  split_ifs at hfolded <;> omega

theorem matches_entryIdForm {text : List Char} {groups : List (List Char)} :
    entryIdForm.Matches text groups ↔ isEntryId text = true ∧ groups = [] := by
  rw [entryIdForm, entryStart_eq, Hostname.hostCharForm_eq, isEntryId]
  simp only [Bool.and_eq_true, decide_eq_true_eq, List.all_eq_true, bne_iff_ne]
  constructor
  · rintro ⟨_, rest, _, _, ⟨c, hc, rfl, rfl⟩, hrest, rfl, rfl⟩
    obtain ⟨_, hmost, hall, rfl⟩ := Pattern.matches_many_char.mp hrest
    rw [Bool.and_eq_true, bne_iff_ne] at hc
    have hlength := hmost 31 rfl
    refine ⟨⟨⟨?_, List.forall_mem_cons.mpr ⟨hc.1, hall⟩⟩, ?_⟩, rfl⟩
    · exact ⟨Nat.succ_le_succ (Nat.zero_le _), Nat.succ_le_succ hlength⟩
    · simpa using hc.2
  · rintro ⟨⟨⟨⟨hleast, hmost⟩, hall⟩, hstart⟩, rfl⟩
    cases text with
    | nil => cases hleast
    | cons c rest =>
      obtain ⟨hc, hrest⟩ := List.forall_mem_cons.mp hall
      refine ⟨[c], rest, [], [], ⟨c, ?_, rfl, rfl⟩, ?_, rfl, rfl⟩
      · simpa [hc] using hstart
      · refine Pattern.matches_many_char.mpr ⟨Nat.zero_le _, ?_, hrest, rfl⟩
        intro most hmany
        cases hmany
        exact Nat.le_of_succ_le_succ hmost

theorem matches_addressForm {text : List Char} {groups : List (List Char)} :
    addressForm.Matches text groups ↔ isAddress text = true ∧ groups = [] := by
  rw [addressForm, Hostname.hostCharForm_eq, Pattern.matches_many_char, isAddress, maxAddress]
  simp [and_assoc]

theorem matches_form {text : List Char} {groups : List (List Char)} : form.Matches text groups ↔
    ∃ host, Splits (String.ofList text) host ∧ groups = host.parts := by
  rw [form, Pattern.matches_separated]
  constructor
  · rintro ⟨address, _, _, _, ⟨_, hfirst, rfl⟩, hrest, rfl, rfl⟩
    obtain ⟨entryId, domain, _, _, ⟨_, hsecond, rfl⟩, ⟨_, hthird, rfl⟩, rfl, rfl⟩ := Pattern.matches_separated.mp hrest
    obtain ⟨haddress, rfl⟩ := matches_addressForm.mp hfirst
    obtain ⟨hentryId, rfl⟩ := matches_entryIdForm.mp hsecond
    obtain ⟨hdomain, rfl⟩ := Hostname.matches_domainForm.mp hthird
    refine ⟨⟨String.ofList address, String.ofList entryId, String.ofList domain⟩, splits_iff.mpr ?_, ?_⟩
    · simp only [String.toList_ofList]
      exact ⟨(List.append_assoc address ('-' :: entryId) _).symm, haddress, hentryId, hdomain⟩
    · simp [parts]
  · rintro ⟨host, h, rfl⟩
    obtain ⟨htext, haddress, hentryId, hdomain⟩ := splits_iff.mp h
    rw [String.toList_ofList, List.append_assoc] at htext
    exact ⟨host.address.toList, _, _, _, ⟨[], matches_addressForm.mpr ⟨haddress, rfl⟩, rfl⟩,
      Pattern.matches_separated.mpr ⟨host.entryId.toList, host.domain.toList, _, _,
        ⟨[], matches_entryIdForm.mpr ⟨hentryId, rfl⟩, rfl⟩, ⟨[], Hostname.matches_domainForm.mpr ⟨hdomain, rfl⟩, rfl⟩,
        rfl, rfl⟩, htext, rfl⟩

theorem proper_form : form.Proper :=
  Pattern.proper_separated '-' (Pattern.proper_many_char 3 (some 128) _)
    (Pattern.proper_separated '.' ⟨trivial, Pattern.proper_many_char 0 (some 31) _⟩ Hostname.proper_domainForm)

theorem longest_of_captures {text : List Char} {groups others : List (List Char)}
    (h : form.captures text = some groups) (hothers : form.Matches text others) :
    (others.headD []).length ≤ (groups.headD []).length :=
  Pattern.captures_longest proper_form.2 h hothers

/-- A matcher that goes back finds the same split. -/
theorem captures_form (hostname : String) : form.captures hostname.toList = (ofString? hostname).map parts := by
  have hmatches : ∀ groups, form.Matches hostname.toList groups ↔
      ∃ host, Splits hostname host ∧ groups = host.parts := by
    intro groups
    rw [matches_form, String.ofList_toList]
  apply Pattern.captures_eq_map proper_form
  · intro groups h
    obtain ⟨host, hsplits, rfl⟩ := (hmatches groups).mp (Pattern.captures_eq_some proper_form h)
    refine ⟨host, ofString?_eq_some_iff.mpr ⟨hsplits, fun other hother => ?_⟩, rfl⟩
    rw [← String.length_toList, ← String.length_toList]
    exact longest_of_captures h ((hmatches _).mpr ⟨other, hother, rfl⟩)
  · intro host h
    exact ⟨_, (hmatches _).mpr ⟨host, (ofString?_eq_some_iff.mp h).1, rfl⟩⟩

theorem classify_form (hostname : String) : Hostname.classify form hostname = (ofString? hostname).map parts := by
  rw [Hostname.classify_eq proper_form, captures_form]
  intro text groups h
  obtain ⟨host, hsplits, _⟩ := matches_form.mp h
  have htext := (splits_iff.mp hsplits).1
  rw [String.toList_ofList] at htext
  rw [htext]
  simp

/-- **The split of a tunnel hostname.** Of all ways to cut a hostname into an address, an entry id and a domain, it
is the one with the longest address. It gives back the hostname, and it is what the pattern of the form captures. -/
theorem ofString?_longest_address (hostname : String) :
    (∀ host, ofString? hostname = some host ↔
      Splits hostname host ∧ ∀ other, Splits hostname other → other.address.length ≤ host.address.length) ∧
    (ofString? hostname = none ↔ ∀ host, ¬ Splits hostname host) ∧
    (∀ host, ofString? hostname = some host → host.joined = hostname ∧ ofString? host.joined = some host) ∧
    Hostname.classify form hostname = (ofString? hostname).map parts := by
  refine ⟨fun host => ofString?_eq_some_iff, ofString?_eq_none_iff, fun host h => ?_, classify_form hostname⟩
  have hjoined := (ofString?_eq_some_iff.mp h).1.joined
  rw [← hjoined]
  exact ⟨rfl, h⟩

/-! Doubled hyphens, one at the end, and a letter from beyond ASCII. -/

theorem ofString?_longest_address_hyphens :
    ofString? "Abc--x-\u212A-.Tunnel4.com" = some ⟨"Abc--x", "\u212A-", "Tunnel4.com"⟩ ∧
    (∀ other, Splits "Abc--x-\u212A-.Tunnel4.com" other → other.address.length ≤ 6) ∧
    ofString? (joined ⟨"Abc--x", "\u212A-", "Tunnel4.com"⟩) = some ⟨"Abc--x", "\u212A-", "Tunnel4.com"⟩ := by
  have hhost : ofString? "Abc--x-\u212A-.Tunnel4.com" = some ⟨"Abc--x", "\u212A-", "Tunnel4.com"⟩ := by
    decide +kernel
  obtain ⟨hiff, _, hagain, _⟩ := ofString?_longest_address "Abc--x-\u212A-.Tunnel4.com"
  exact ⟨hhost, ((hiff _).mp hhost).2, (hagain _ hhost).2⟩

end TunnelHost

end NameServer
