import NameServer.Proofs.HostnameForms

/-!
# Legacy hostnames are tunnel hostnames

A legacy hostname is a guid, a dot and a domain. Its guid has hyphens, so it is
a tunnel hostname too: the id of the entry can't have a hyphen in it, or the
address would be shorter than it could be, and so it is the last group. The key
is the guid in lower case.
-/

namespace NameServer

theorem length_le_of_last {α : Type} {sep : α} {a e front last : List α} (h : a ++ sep :: e = front ++ sep :: last)
    (hlast : sep ∉ last) : a.length ≤ front.length := by
  rcases List.append_eq_append_iff.mp h with ⟨t, rfl, _⟩ | ⟨t, rfl, ht⟩
  · rw [List.length_append]
    exact Nat.le_add_right ..
  · cases t with
    | nil => simp
    | cons c t =>
      obtain ⟨_, rfl⟩ := List.cons_eq_cons.mp ht
      exact absurd (by simp) hlast

namespace LegacyHost

open Hostname (HostChar IsDomain)
open Text (isHexDigit)

variable {hostname : String} {legacy : LegacyHost} {host : TunnelHost}

/-! ## Guids -/

def HexDigit (c : Char) : Prop := ('0' ≤ c ∧ c ≤ '9') ∨ ('a' ≤ c ∧ c ≤ 'f') ∨ ('A' ≤ c ∧ c ≤ 'F')

/-- The groups of a guid. -/
structure Grouped (guid : String) (groups : List String) : Prop where
  joined : guid = "-".intercalate groups
  lengths : groups.map String.length = [8, 4, 4, 4, 12]
  digits : ∀ group ∈ groups, ∀ c ∈ group.toList, HexDigit c

/-- A way to cut a hostname into the parts of a legacy hostname. -/
structure Splits (hostname : String) (legacy : LegacyHost) : Prop where
  joined : hostname = legacy.guid ++ "." ++ legacy.domain
  guid : ∃ groups, Grouped legacy.guid groups
  domain : IsDomain legacy.domain

theorem isHexDigit_iff (c : Char) : isHexDigit c = true ↔ HexDigit c := by
  rw [Text.isHexDigit_iff, HexDigit]
  rfl

theorem HexDigit.hostChar {c : Char} (h : HexDigit c) : HostChar c := by
  rw [← isHexDigit_iff, Text.isHexDigit_iff] at h
  rw [Hostname.hostChar_iff_toNat]
  omega

theorem hyphen_notMem {cs : List Char} (h : ∀ c ∈ cs, HexDigit c) : '-' ∉ cs :=
  fun hmem => absurd ((isHexDigit_iff '-').mpr (h '-' hmem)) (by decide)

theorem isGuid_iff (guid : String) : isGuid guid.toList = true ↔ ∃ groups, Grouped guid groups := by
  simp only [isGuid, Bool.and_eq_true, beq_iff_eq, List.all_eq_true, isHexDigit_iff]
  constructor
  · rintro ⟨hlengths, hdigits⟩
    refine ⟨(Text.split '-' guid.toList).map String.ofList, (Text.intercalate_split rfl guid).symm, ?_, ?_⟩
    · rw [← hlengths, List.map_map]
      exact List.map_congr_left fun piece _ => String.length_ofList
    · intro group hmem
      obtain ⟨piece, hpiece, rfl⟩ := List.mem_map.mp hmem
      rw [String.toList_ofList]
      exact hdigits piece hpiece
  · rintro ⟨groups, rfl, hlengths, hdigits⟩
    have hne : groups ≠ [] := by
      rintro rfl
      cases hlengths
    rw [Text.split_intercalate rfl hne fun group hmem => hyphen_notMem (hdigits group hmem)]
    refine ⟨?_, List.forall_mem_map.mpr hdigits⟩
    rw [← hlengths, List.map_map]
    exact List.map_congr_left fun group _ => String.length_toList

theorem hexDigit_of_mem {groups : List String} (h : ∀ group ∈ groups, ∀ c ∈ group.toList, HexDigit c) {c : Char}
    (hc : c ∈ ("-".intercalate groups).toList) : c = '-' ∨ HexDigit c := by
  rw [Text.toList_intercalate rfl] at hc
  refine (Text.mem_join hc).imp_right fun ⟨piece, hpiece, hmem⟩ => ?_
  obtain ⟨group, hgroup, rfl⟩ := List.mem_map.mp hpiece
  exact h group hgroup c hmem

theorem dot_notMem_guid {guid : String} (h : isGuid guid.toList = true) : '.' ∉ guid.toList := by
  obtain ⟨groups, rfl, _, hdigits⟩ := (isGuid_iff guid).mp h
  intro hdot
  rcases hexDigit_of_mem hdigits hdot with hc | hc
  · exact absurd hc (by decide)
  · exact absurd ((isHexDigit_iff '.').mpr hc) (by decide)

theorem splits_iff : Splits hostname legacy ↔ hostname.toList = legacy.guid.toList ++ '.' :: legacy.domain.toList ∧
    isGuid legacy.guid.toList = true ∧ Hostname.isDomain legacy.domain.toList = true := by
  have hjoined : hostname = legacy.guid ++ "." ++ legacy.domain ↔
      hostname.toList = legacy.guid.toList ++ '.' :: legacy.domain.toList := by
    rw [← String.toList_inj]
    simp
  rw [← hjoined, isGuid_iff, Hostname.isDomain_iff]
  exact ⟨fun ⟨hj, hg, hd⟩ => ⟨hj, hg, hd⟩, fun ⟨hj, hg, hd⟩ => ⟨hj, hg, hd⟩⟩

theorem ofString?_eq_some_iff : ofString? hostname = some legacy ↔ Splits hostname legacy := by
  rw [splits_iff]
  constructor
  · intro h
    unfold ofString? at h
    split at h
    · cases h
    · next guid domain hcut =>
      split at h
      · next hparts =>
        cases h
        simp only [String.toList_ofList]
        exact ⟨(Text.cut_eq_some_iff.mp hcut).1, Bool.and_eq_true_iff.mp hparts⟩
      · cases h
  · rintro ⟨hjoined, hguid, hdomain⟩
    have hcut := Text.cut_eq_some_iff.mpr ⟨hjoined, dot_notMem_guid hguid⟩
    simp [ofString?, hcut, hguid, hdomain]

/-! ## The last group as an entry id -/

/-- A legacy hostname cut as a tunnel hostname: its guid is cut before the last group. -/
structure CutAs (legacy : LegacyHost) (host : TunnelHost) : Prop where
  guid : ∃ front, Grouped legacy.guid (front ++ [host.entryId]) ∧ host.address = "-".intercalate front
  addressLength : host.address.length = 23
  entryIdLength : host.entryId.length = 12
  domain : host.domain = legacy.domain
  key : host.key = Text.lowered legacy.guid

theorem Grouped.eq_five {guid : String} {groups : List String} (h : Grouped guid groups) : ∃ a b c d e : String,
    groups = [a, b, c, d] ++ [e] ∧ a.length = 8 ∧ b.length = 4 ∧ c.length = 4 ∧ d.length = 4 ∧ e.length = 12 := by
  have hlengths := h.lengths
  simp only [List.map_eq_cons_iff, List.map_eq_nil_iff] at hlengths
  obtain ⟨a, _, rfl, ha, b, _, rfl, hb, c, _, rfl, hc, d, _, rfl, hd, e, _, rfl, he, rfl⟩ := hlengths
  exact ⟨a, b, c, d, e, rfl, ha, hb, hc, hd, he⟩

theorem exists_cutAs (h : Splits hostname legacy) : ∃ host, legacy.CutAs host ∧ TunnelHost.Splits hostname host := by
  obtain ⟨groups, hgroups⟩ := h.guid
  obtain ⟨a, b, c, d, e, rfl, ha, hb, hc, hd, he⟩ := hgroups.eq_five
  obtain ⟨hfront, hlast⟩ := List.forall_mem_append.mp hgroups.digits
  have hlastDigits := hlast e (List.mem_singleton_self e)
  have hguid : legacy.guid = "-".intercalate [a, b, c, d] ++ "-" ++ e := by
    rw [hgroups.joined, String.intercalate_append_of_ne_nil (by simp) (by simp), String.intercalate_singleton]
  have hlength : ("-".intercalate [a, b, c, d]).length = 23 := by
    have hhyphen : "-".length = 1 := rfl
    simp only [String.intercalate_cons_cons, String.intercalate_singleton, String.length_append, ha, hb, hc, hd, hhyphen]
  refine ⟨⟨"-".intercalate [a, b, c, d], e, legacy.domain⟩, ⟨⟨_, hgroups, rfl⟩, hlength, he, rfl, ?_⟩, ?_⟩
  · rw [TunnelHost.key, hguid]
  · constructor
    case joined => rw [h.joined, hguid]; rfl
    case addressLength => rw [hlength]; decide
    case addressChars =>
      intro c hc
      rcases hexDigit_of_mem hfront hc with rfl | hc
      · exact .inr (.inr (.inr (.inl rfl)))
      · exact hc.hostChar
    case entryIdLength => rw [he]; decide
    case entryIdChars => exact fun c hc => (hlastDigits c hc).hostChar
    case entryIdStart => exact fun hstart => hyphen_notMem hlastDigits (List.mem_of_head? hstart)
    case domain => exact h.domain

theorem length_le_of_cutAs (hcut : legacy.CutAs host) (h : TunnelHost.Splits hostname host) {other : TunnelHost}
    (hother : TunnelHost.Splits hostname other) : other.address.length ≤ host.address.length := by
  obtain ⟨front, hgroups, _⟩ := hcut.guid
  have hlast : ∀ c ∈ host.entryId.toList, HexDigit c := hgroups.digits _ (by simp)
  have hlabel := hother.cut.symm.trans h.cut
  rw [Option.some.injEq, Prod.mk.injEq] at hlabel
  rw [← String.length_toList, ← String.length_toList]
  exact length_le_of_last hlabel.1 (hyphen_notMem hlast)

theorem tunnelHost_of_legacy (h : ofString? hostname = some legacy) :
    ∃ host, legacy.CutAs host ∧ TunnelHost.ofString? hostname = some host := by
  obtain ⟨host, hcut, hsplits⟩ := exists_cutAs (ofString?_eq_some_iff.mp h)
  exact ⟨host, hcut, TunnelHost.ofString?_eq_some_iff.mpr ⟨hsplits, fun other hother => length_le_of_cutAs hcut hsplits hother⟩⟩

/-! ## The pattern of the form -/

def groupForm (length : Nat) : Pattern := .many length (some length) (Hostname.oneOf [('0', '9'), ('a', 'f')])

def guidForm : Pattern :=
  .separated (groupForm 8) '-' (.separated (groupForm 4) '-' (.separated (groupForm 4) '-' (.separated (groupForm 4) '-'
    (groupForm 12))))

def form : Pattern := .separated (.group guidForm) '.' (.group Hostname.domainForm)

def parts (legacy : LegacyHost) : List (List Char) := [legacy.guid.toList, legacy.domain.toList]

theorem hexDigit_eq : Hostname.oneOf [('0', '9'), ('a', 'f')] = .char isHexDigit := by
  refine Hostname.oneOf_eq fun c => ?_
  rw [Text.isHexDigit_iff]
  simp only [List.mem_cons, List.not_mem_nil, or_false, exists_eq_or_imp, exists_eq_left, Char.reduceToNat]
  have hfolded := Hostname.toNat_folded c
  split_ifs at hfolded <;> omega

theorem matches_groupForm {length : Nat} {text : List Char} {groups : List (List Char)} :
    (groupForm length).Matches text groups ↔
      (text.length = length ∧ ∀ c ∈ text, isHexDigit c = true) ∧ groups = [] := by
  rw [groupForm, hexDigit_eq, Pattern.matches_many_char]
  simp only [Option.mem_some_iff, forall_eq']
  constructor
  · rintro ⟨hleast, hmost, hall, hnil⟩
    exact ⟨⟨Nat.le_antisymm hmost hleast, hall⟩, hnil⟩
  · rintro ⟨⟨hlength, hall⟩, hnil⟩
    exact ⟨Nat.le_of_eq hlength.symm, Nat.le_of_eq hlength, hall, hnil⟩

theorem matches_groupForm_hyphen {length : Nat} {rest : Pattern} {text : List Char} {groups : List (List Char)} :
    (Pattern.separated (groupForm length) '-' rest).Matches text groups ↔
      ∃ a b, (a.length = length ∧ ∀ c ∈ a, isHexDigit c = true) ∧ text = a ++ '-' :: b ∧ rest.Matches b groups := by
  rw [Pattern.matches_separated]
  constructor
  · rintro ⟨a, b, g, h, hgroup, hrest, htext, rfl⟩
    obtain ⟨ha, rfl⟩ := matches_groupForm.mp hgroup
    exact ⟨a, b, ha, htext, hrest⟩
  · rintro ⟨a, b, ha, htext, hrest⟩
    exact ⟨a, b, [], groups, matches_groupForm.mpr ⟨ha, rfl⟩, hrest, htext, rfl⟩

theorem matches_guidForm {text : List Char} {groups : List (List Char)} :
    guidForm.Matches text groups ↔ isGuid text = true ∧ groups = [] := by
  have hhyphen : ∀ {cs : List Char}, (∀ c ∈ cs, isHexDigit c = true) → '-' ∉ cs := fun h =>
    hyphen_notMem fun c hc => (isHexDigit_iff c).mp (h c hc)
  simp only [guidForm, matches_groupForm_hyphen, matches_groupForm, isGuid, Bool.and_eq_true, beq_iff_eq,
    List.all_eq_true]
  constructor
  · rintro ⟨a, _, ⟨ha, ha'⟩, rfl, b, _, ⟨hb, hb'⟩, rfl, c, _, ⟨hc, hc'⟩, rfl, d, e, ⟨hd, hd'⟩, rfl, ⟨he, he'⟩, hnil⟩
    rw [Text.split_append_cons (hhyphen ha'), Text.split_append_cons (hhyphen hb'), Text.split_append_cons (hhyphen hc'),
      Text.split_append_cons (hhyphen hd'), Text.split_eq_singleton (hhyphen he')]
    simp only [List.map_cons, List.map_nil, ha, hb, hc, hd, he, List.forall_mem_cons]
    exact ⟨⟨trivial, ha', hb', hc', hd', he', List.forall_mem_nil _⟩, hnil⟩
  · rintro ⟨⟨hlengths, hdigits⟩, hnil⟩
    simp only [List.map_eq_cons_iff, List.map_eq_nil_iff] at hlengths
    obtain ⟨a, _, hsplit, ha, b, _, rfl, hb, c, _, rfl, hc, d, _, rfl, hd, e, _, rfl, he, rfl⟩ := hlengths
    rw [hsplit] at hdigits
    simp only [List.forall_mem_cons] at hdigits
    obtain ⟨ha', hb', hc', hd', he', _⟩ := hdigits
    have htext := Text.join_split '-' text
    rw [hsplit] at htext
    exact ⟨a, _, ⟨ha, ha'⟩, htext.symm, b, _, ⟨hb, hb'⟩, rfl, c, _, ⟨hc, hc'⟩, rfl, d, e, ⟨hd, hd'⟩, rfl, ⟨he, he'⟩, hnil⟩

theorem matches_form {text : List Char} {groups : List (List Char)} : form.Matches text groups ↔
    ∃ legacy, Splits (String.ofList text) legacy ∧ groups = legacy.parts := by
  rw [form, Pattern.matches_separated]
  constructor
  · rintro ⟨guid, domain, _, _, ⟨_, hfirst, rfl⟩, ⟨_, hsecond, rfl⟩, rfl, rfl⟩
    obtain ⟨hguid, rfl⟩ := matches_guidForm.mp hfirst
    obtain ⟨hdomain, rfl⟩ := Hostname.matches_domainForm.mp hsecond
    refine ⟨⟨String.ofList guid, String.ofList domain⟩, splits_iff.mpr ?_, ?_⟩
    · simp only [String.toList_ofList]
      exact ⟨trivial, hguid, hdomain⟩
    · simp [parts]
  · rintro ⟨legacy, h, rfl⟩
    obtain ⟨htext, hguid, hdomain⟩ := splits_iff.mp h
    rw [String.toList_ofList] at htext
    exact ⟨legacy.guid.toList, legacy.domain.toList, _, _, ⟨[], matches_guidForm.mpr ⟨hguid, rfl⟩, rfl⟩,
      ⟨[], Hostname.matches_domainForm.mpr ⟨hdomain, rfl⟩, rfl⟩, htext, rfl⟩

theorem proper_form : form.Proper := by
  have hgroup : ∀ length, (groupForm length).Proper := fun length => Pattern.proper_many_char length (some length) _
  exact Pattern.proper_separated '.' (Pattern.proper_separated '-' (hgroup 8) (Pattern.proper_separated '-' (hgroup 4)
    (Pattern.proper_separated '-' (hgroup 4) (Pattern.proper_separated '-' (hgroup 4) (hgroup 12))))) Hostname.proper_domainForm

theorem captures_form (hostname : String) : form.captures hostname.toList = (ofString? hostname).map parts := by
  have hmatches : ∀ groups, form.Matches hostname.toList groups ↔
      ∃ legacy, ofString? hostname = some legacy ∧ groups = legacy.parts := by
    intro groups
    simp only [matches_form, String.ofList_toList, ofString?_eq_some_iff]
  apply Pattern.captures_eq_map proper_form
  · exact fun groups h => (hmatches groups).mp (Pattern.captures_eq_some proper_form h)
  · exact fun legacy h => ⟨_, (hmatches _).mpr ⟨legacy, h, rfl⟩⟩

theorem classify_form (hostname : String) : Hostname.classify form hostname = (ofString? hostname).map parts := by
  rw [Hostname.classify_eq proper_form, captures_form]
  intro text groups h
  obtain ⟨legacy, hsplits, _⟩ := matches_form.mp h
  have htext := (splits_iff.mp hsplits).1
  rw [String.toList_ofList] at htext
  rw [htext]
  simp

end LegacyHost

/-! ## Lookups -/

namespace Server

/-- What an owner of a name is answered with when a key is looked up. -/
def lookedUp (s : Server) (owner key entryId : String) : Answer :=
  let found := resolve s.cache s.store s.proxies s.now key entryId
  ⟨(found.address.map (.address owner s.config.ttls.tunnel)).toList, found.cache, found.askedStore⟩

/-- With legacy hostnames off, a question for one is looked up under the guid and its last group. -/
theorem answer_of_legacyOff {s : Server} {q : Question} {legacy : LegacyHost} {host : TunnelHost}
    (hoff : s.config.legacy.enabled = false) (hA : q.qtype = typeA) (hzone : Zone.Within s.config.zones q.name)
    (hcut : legacy.CutAs host) (hhost : TunnelHost.ofString? (hostnameOf q) = some host) :
    s.answer q = s.lookedUp q.name (Text.lowered legacy.guid) host.entryId := by
  have htunnel : s.tunnelHost? q = some host := by
    rw [tunnelHost?, if_pos ⟨(serves_hostnameOf _ q).mpr hzone, hA, by rw [hoff]; rfl⟩, hhost]
  rw [(answer_of_tunnelHost? htunnel).2, ← hcut.key]
  rfl

end Server

namespace LegacyHost

/-- **Legacy hostnames are a guid and a domain, and tunnel hostnames too.** What is before the last group of the guid
is the address, and the guid is the key; that is how they are looked up once legacy hostnames are off. -/
theorem legacy_iff_and_tunnel (hostname : String) :
    (∀ legacy, ofString? hostname = some legacy ↔ Splits hostname legacy) ∧
    (∀ legacy, ofString? hostname = some legacy → ∃ host, TunnelHost.ofString? hostname = some host ∧
      legacy.CutAs host ∧ ∀ (s : Server) (q : Question), Server.hostnameOf q = hostname → q.qtype = typeA →
        Zone.Within s.config.zones q.name → s.config.legacy.enabled = false →
          s.answer q = s.lookedUp q.name (Text.lowered legacy.guid) host.entryId) ∧
    Hostname.classify form hostname = (ofString? hostname).map parts := by
  refine ⟨fun legacy => ofString?_eq_some_iff, fun legacy h => ?_, classify_form hostname⟩
  obtain ⟨host, hcut, hhost⟩ := tunnelHost_of_legacy h
  refine ⟨host, hhost, hcut, ?_⟩
  rintro s q rfl hA hzone hoff
  exact Server.answer_of_legacyOff hoff hA hzone hcut hhost

/-! A guid in mixed case, asked for where legacy hostnames are off and its last group has an address. -/

def guidQuestion : Question := ⟨"2A3be342-60F3-48a9-A2c5-e7359E34959a.Tunnel4.com.", typeA, classIn⟩

def tunnelOnlyServer : Server where
  config := { legacy := { enabled := false } }
  cache := Cache.ofSettings {}
  store := {}
  proxies := .ofTable (Table.empty.insert "e7359e34959a" "203.0.113.77")
  tokens := []

theorem legacy_iff_and_tunnel_mixedCase : ∃ legacy host,
    ofString? "2A3be342-60F3-48a9-A2c5-e7359E34959a.Tunnel4.com" = some legacy ∧ legacy.CutAs host ∧
    Server.hostnameOf guidQuestion = "2A3be342-60F3-48a9-A2c5-e7359E34959a.Tunnel4.com" ∧
    Zone.Within tunnelOnlyServer.config.zones guidQuestion.name ∧
    (tunnelOnlyServer.answer guidQuestion).records = [.address guidQuestion.name 30 ⟨203, 0, 113, 77⟩] := by
  have hlegacy : ofString? "2A3be342-60F3-48a9-A2c5-e7359E34959a.Tunnel4.com" =
      some ⟨"2A3be342-60F3-48a9-A2c5-e7359E34959a", "Tunnel4.com"⟩ := by
    decide +kernel
  have hname : Server.hostnameOf guidQuestion = "2A3be342-60F3-48a9-A2c5-e7359E34959a.Tunnel4.com" := by
    decide +kernel
  have hzone : Zone.Within tunnelOnlyServer.config.zones guidQuestion.name :=
    ⟨"tunnel4.com", by decide, ["2a3be342-60f3-48a9-a2c5-e7359e34959a".toList], by decide +kernel⟩
  obtain ⟨_, htunnel, _⟩ := legacy_iff_and_tunnel "2A3be342-60F3-48a9-A2c5-e7359E34959a.Tunnel4.com"
  obtain ⟨host, hhost, hcut, hanswer⟩ := htunnel _ hlegacy
  have hsplit : TunnelHost.ofString? "2A3be342-60F3-48a9-A2c5-e7359E34959a.Tunnel4.com" =
      some ⟨"2A3be342-60F3-48a9-A2c5", "e7359E34959a", "Tunnel4.com"⟩ := by
    decide +kernel
  cases hhost.symm.trans hsplit
  refine ⟨_, _, hlegacy, hcut, hname, hzone, ?_⟩
  rw [hanswer tunnelOnlyServer guidQuestion hname rfl hzone rfl]
  decide +kernel

end LegacyHost

end NameServer
