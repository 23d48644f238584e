/-!
# Patterns with groups

A matcher that goes back: the ways to match a text are in the order in which
they are tried, and a repetition tries more rounds before fewer. The first way
that matches a whole text decides what its groups hold.

Which ways there are doesn't depend on the order. The order tells which of
them is first: one with the longest possible text for the first group, when
that group repeats a character class.
-/

namespace NameServer

inductive Pattern where
  | char (accepts : Char → Bool)
  | seq (first second : Pattern)
  | many (least : Nat) (most : Option Nat) (body : Pattern)
  | group (body : Pattern)

namespace Pattern

/-- A way to match at the front of a text: what is matched, what the groups in it hold, and the
rest. -/
structure Found where
  text : List Char
  groups : List (List Char)
  rest : List Char

def followed (found : List Found) (next : List Char → List Found) : List Found :=
  found.flatMap fun f => (next f.rest).map fun g => ⟨f.text ++ g.text, f.groups ++ g.groups, g.rest⟩

def rounds (body : List Char → List Found) : (least most : Nat) → List Char → List Found
  | least, 0, cs => if least = 0 then [⟨[], [], cs⟩] else []
  | least, most + 1, cs =>
    followed (body cs) (rounds body (least - 1) most) ++ if least = 0 then [⟨[], [], cs⟩] else []

/-- The ways to match at the front of a text, in the order in which they are tried. A repetition
without bound ends with the text, since its rounds are not to be empty. -/
def ways : Pattern → List Char → List Found
  | char _, [] => []
  | char accepts, c :: cs => if accepts c then [⟨[c], [], cs⟩] else []
  | seq first second, cs => followed (first.ways cs) second.ways
  | many least most body, cs => rounds body.ways least (most.getD cs.length) cs
  | group body, cs => (body.ways cs).map fun f => { f with groups := f.text :: f.groups }

/-- A pattern before a character and one after it. -/
def separated (first : Pattern) (sep : Char) (second : Pattern) : Pattern :=
  seq first (seq (char (· == sep)) second)

/-- What the groups hold when a whole text is matched. -/
def captures (p : Pattern) (cs : List Char) : Option (List (List Char)) :=
  ((p.ways cs).find? fun f => f.rest.isEmpty).map Found.groups

/-! ## What is matched -/

/-- A text and what the groups hold in it, in whatever way it is matched. -/
def Matches : Pattern → List Char → List (List Char) → Prop
  | char accepts, text, groups => ∃ c, accepts c = true ∧ text = [c] ∧ groups = []
  | seq first second, text, groups => ∃ a b g h, first.Matches a g ∧ second.Matches b h ∧ text = a ++ b ∧ groups = g ++ h
  | many least most body, text, groups => ∃ parts : List (List Char × List (List Char)),
    least ≤ parts.length ∧ (∀ n ∈ most, parts.length ≤ n) ∧ (∀ part ∈ parts, body.Matches part.1 part.2) ∧
      text = parts.flatMap Prod.fst ∧ groups = parts.flatMap Prod.snd
  | group body, text, groups => ∃ g, body.Matches text g ∧ groups = text :: g

/-- Rounds of a repetition without bound are not empty. -/
def Proper : Pattern → Prop
  | char _ => True
  | seq first second => first.Proper ∧ second.Proper
  | many _ most body => body.Proper ∧ (most = none → ∀ text groups, body.Matches text groups → text ≠ [])
  | group body => body.Proper

theorem mem_followed {found : List Found} {next : List Char → List Found} {h : Found} :
    h ∈ followed found next ↔ ∃ f ∈ found, ∃ g ∈ next f.rest, h = ⟨f.text ++ g.text, f.groups ++ g.groups, g.rest⟩ := by
  simp only [followed, List.mem_flatMap, List.mem_map, eq_comm]

theorem mem_stop {least : Nat} {cs : List Char} {f : Found} :
    f ∈ (if least = 0 then [⟨[], [], cs⟩] else [] : List Found) ↔ least = 0 ∧ f = ⟨[], [], cs⟩ := by
  split <;> simp [*]

section
variable {body : List Char → List Found} {M : List Char → List (List Char) → Prop}
  (hbody : ∀ cs f, f ∈ body cs ↔ cs = f.text ++ f.rest ∧ M f.text f.groups)
include hbody

theorem mem_rounds : ∀ (most least : Nat) (cs : List Char) (f : Found), f ∈ rounds body least most cs ↔
    cs = f.text ++ f.rest ∧ ∃ parts : List (List Char × List (List Char)), least ≤ parts.length ∧ parts.length ≤ most ∧
      (∀ part ∈ parts, M part.1 part.2) ∧ f.text = parts.flatMap Prod.fst ∧ f.groups = parts.flatMap Prod.snd
  | 0, least, cs, ⟨text, groups, rest⟩ => by
    simp only [rounds, mem_stop, Found.mk.injEq]
    constructor
    · rintro ⟨rfl, rfl, rfl, rfl⟩
      exact ⟨rfl, [], by simp⟩
    · rintro ⟨rfl, parts, hleast, hmost, _, rfl, rfl⟩
      have hnil : parts = [] := List.length_eq_zero_iff.mp (Nat.le_zero.mp hmost)
      subst hnil
      simpa using hleast
  | most + 1, least, cs, ⟨text, groups, rest⟩ => by
    simp only [rounds, List.mem_append, mem_followed, mem_stop, hbody, mem_rounds most, Found.mk.injEq]
    constructor
    · rintro (⟨f, ⟨rfl, hf⟩, g, ⟨hrest, parts, hleast, hmost, hall, htext, hgroups⟩, rfl, rfl, rfl⟩ | ⟨rfl, rfl, rfl, rfl⟩)
      · refine ⟨by rw [hrest, List.append_assoc], (f.text, f.groups) :: parts, ?_, ?_, ?_, ?_, ?_⟩
        · rw [List.length_cons]
          omega
        · rw [List.length_cons]
          omega
        · exact List.forall_mem_cons.mpr ⟨hf, hall⟩
        · rw [List.flatMap_cons, htext]
        · rw [List.flatMap_cons, hgroups]
      · exact ⟨rfl, [], by simp⟩
    · rintro ⟨rfl, parts, hleast, hmost, hall, rfl, rfl⟩
      cases parts with
      | nil => exact .inr ⟨Nat.le_zero.mp hleast, rfl, rfl, rfl⟩
      | cons part parts =>
        obtain ⟨hpart, hall⟩ := List.forall_mem_cons.mp hall
        rw [List.length_cons] at hleast hmost
        refine .inl ⟨⟨part.1, part.2, parts.flatMap Prod.fst ++ rest⟩, ⟨?_, hpart⟩,
          ⟨parts.flatMap Prod.fst, parts.flatMap Prod.snd, rest⟩, ⟨rfl, parts, ?_, ?_, hall, rfl, rfl⟩, rfl, rfl, rfl⟩
        · rw [List.flatMap_cons, List.append_assoc]
        · omega
        · omega

end

theorem proper_many_char (least : Nat) (most : Option Nat) (accepts : Char → Bool) :
    (many least most (char accepts)).Proper := by
  refine ⟨trivial, fun _ text groups h => ?_⟩
  obtain ⟨c, _, rfl, _⟩ := h
  exact List.cons_ne_nil c []

theorem length_le_flatMap : ∀ {parts : List (List Char × List (List Char))}, (∀ part ∈ parts, part.1 ≠ []) →
    parts.length ≤ (parts.flatMap Prod.fst).length
  | [], _ => Nat.le_refl _
  | part :: parts, h => by
    obtain ⟨hpart, hall⟩ := List.forall_mem_cons.mp h
    have hpos := List.length_pos_iff.mpr hpart
    have ih := length_le_flatMap hall
    rw [List.length_cons, List.flatMap_cons, List.length_append]
    omega

/-- **The ways to match are the texts that match.** -/
theorem mem_ways : ∀ {p : Pattern}, p.Proper → ∀ (cs : List Char) (f : Found),
    f ∈ p.ways cs ↔ cs = f.text ++ f.rest ∧ p.Matches f.text f.groups
  | char accepts, _, [], ⟨text, groups, rest⟩ => by
    simp only [ways, Matches, List.not_mem_nil, false_iff]
    rintro ⟨h, c, _, rfl, _⟩
    cases h
  | char accepts, _, c :: cs, ⟨text, groups, rest⟩ => by
    simp only [ways, Matches]
    by_cases hc : accepts c = true
    · simp only [hc, if_true, List.mem_singleton, Found.mk.injEq]
      constructor
      · rintro ⟨rfl, rfl, rfl⟩
        exact ⟨rfl, c, hc, rfl, rfl⟩
      · rintro ⟨h, d, _, rfl, rfl⟩
        cases h
        exact ⟨rfl, rfl, rfl⟩
    · simp only [hc, if_false, List.not_mem_nil, false_iff, Bool.false_eq_true]
      rintro ⟨h, d, hd, rfl, rfl⟩
      cases h
      exact hc hd
  | seq first second, ⟨hfirst, hsecond⟩, cs, ⟨text, groups, rest⟩ => by
    simp only [ways, Matches, mem_followed, mem_ways hfirst, mem_ways hsecond, Found.mk.injEq]
    constructor
    · rintro ⟨f, ⟨rfl, hf⟩, g, ⟨hrest, hg⟩, rfl, rfl, rfl⟩
      exact ⟨by rw [hrest, List.append_assoc], _, _, _, _, hf, hg, rfl, rfl⟩
    · rintro ⟨rfl, a, b, g, h, hf, hg, rfl, rfl⟩
      exact ⟨⟨a, g, b ++ rest⟩, ⟨List.append_assoc .., hf⟩, ⟨b, h, rest⟩, ⟨rfl, hg⟩, rfl, rfl, rfl⟩
  | many least most body, ⟨hbody, hrounds⟩, cs, f => by
    simp only [ways, Matches, mem_rounds (mem_ways hbody)]
    refine and_congr_right fun hcs => exists_congr fun parts => and_congr_right fun _ => ?_
    cases most with
    | some n => simp
    | none =>
      -- no round is empty, so the length of the text bounds their number
      simp only [Option.getD_none, Option.not_mem_none, false_implies, implies_true, true_and, and_iff_right_iff_imp]
      rintro ⟨hall, htext, _⟩
      have hlength := length_le_flatMap fun part hpart => hrounds rfl _ _ (hall part hpart)
      rw [hcs, List.length_append, htext]
      omega
  | group body, hbody, cs, ⟨text, groups, rest⟩ => by
    simp only [ways, Matches, List.mem_map, mem_ways (p := body) hbody, Found.mk.injEq]
    constructor
    · rintro ⟨f, ⟨hcs, hf⟩, rfl, rfl, rfl⟩
      exact ⟨hcs, _, hf, rfl⟩
    · rintro ⟨hcs, g, hg, rfl⟩
      exact ⟨⟨text, g, rest⟩, ⟨hcs, hg⟩, rfl, rfl, rfl⟩

/-! ## Which way is first -/

theorem pairwise_rounds_char (accepts : Char → Bool) : ∀ (most least : Nat) (cs : List Char),
    (rounds (char accepts).ways least most cs).Pairwise fun f g => g.text.length < f.text.length
  | 0, least, cs => by
    rw [rounds]
    split <;> simp
  | most + 1, least, cs => by
    have hstop : (if least = 0 then [⟨[], [], cs⟩] else [] : List Found).Pairwise fun f g =>
        g.text.length < f.text.length := by
      split <;> simp
    rw [rounds, List.pairwise_append]
    cases cs with
    | nil => exact ⟨.nil, hstop, fun f hf => nomatch hf⟩
    | cons c cs =>
      by_cases hc : accepts c = true
      · have hways : (char accepts).ways (c :: cs) = [⟨[c], [], cs⟩] := if_pos hc
        rw [hways, followed, List.flatMap_singleton, List.pairwise_map]
        refine ⟨(pairwise_rounds_char accepts most (least - 1) cs).imp fun h => ?_, hstop, ?_⟩
        · simpa using h
        · intro f hf g hg
          obtain ⟨_, rfl⟩ := mem_stop.mp hg
          obtain ⟨f', _, rfl⟩ := List.mem_map.mp hf
          simp
      · have hways : (char accepts).ways (c :: cs) = [] := if_neg hc
        rw [hways]
        exact ⟨.nil, hstop, fun f hf => nomatch hf⟩

/-- The length of what the first group holds. -/
def Found.reach (f : Found) : Nat := (f.groups.headD []).length

/-- Whatever follows, ways in which a repeated class at the front takes more come first. -/
theorem pairwise_reach (least most : Nat) (accepts : Char → Bool) (next : Pattern) (cs : List Char) :
    ((seq (group (many least (some most) (char accepts))) next).ways cs).Pairwise fun f g => g.reach ≤ f.reach := by
  rw [ways, followed, List.pairwise_flatMap, ways, List.pairwise_map]
  constructor
  · intro f hf
    obtain ⟨f', _, rfl⟩ := List.mem_map.mp hf
    rw [List.pairwise_map]
    exact List.pairwise_of_forall fun _ _ => Nat.le_refl _
  · refine (pairwise_rounds_char accepts most least cs).imp fun hlt x hx y hy => ?_
    obtain ⟨_, _, rfl⟩ := List.mem_map.mp hx
    obtain ⟨_, _, rfl⟩ := List.mem_map.mp hy
    exact Nat.le_of_lt hlt

theorem captures_eq_some {p : Pattern} {cs : List Char} {groups : List (List Char)} (hp : p.Proper)
    (h : p.captures cs = some groups) : p.Matches cs groups := by
  obtain ⟨f, hf, rfl⟩ := Option.map_eq_some_iff.mp h
  have hempty := List.find?_some hf
  have hrest : f.rest = [] := List.isEmpty_iff.mp hempty
  obtain ⟨hcs, hmatch⟩ := (mem_ways hp cs f).mp (List.mem_of_find?_eq_some hf)
  rw [hrest, List.append_nil] at hcs
  rw [hcs]
  exact hmatch

theorem captures_isSome_iff {p : Pattern} (hp : p.Proper) (cs : List Char) :
    (p.captures cs).isSome = true ↔ ∃ groups, p.Matches cs groups := by
  constructor
  · intro h
    obtain ⟨groups, hg⟩ := Option.isSome_iff_exists.mp h
    exact ⟨groups, captures_eq_some hp hg⟩
  · rintro ⟨groups, h⟩
    rw [captures, Option.isSome_map, List.find?_isSome]
    exact ⟨⟨cs, groups, []⟩, (mem_ways hp cs _).mpr ⟨(List.append_nil cs).symm, h⟩, rfl⟩

theorem captures_eq_map {α : Type} {p : Pattern} {cs : List Char} {o : Option α} {f : α → List (List Char)}
    (hp : p.Proper) (hfound : ∀ groups, p.captures cs = some groups → ∃ a, o = some a ∧ groups = f a)
    (hmatches : ∀ a, o = some a → ∃ groups, p.Matches cs groups) : p.captures cs = o.map f := by
  cases hcaptures : p.captures cs with
  | some groups =>
    obtain ⟨a, rfl, rfl⟩ := hfound groups hcaptures
    rfl
  | none =>
    cases ho : o with
    | none => rfl
    | some a =>
      have hsome := (captures_isSome_iff hp cs).mpr (hmatches a ho)
      rw [hcaptures] at hsome
      cases hsome

/-- What the first group holds can't be longer in any other way. -/
theorem captures_longest {least most : Nat} {accepts : Char → Bool} {next : Pattern} {cs : List Char}
    {groups others : List (List Char)} (hnext : next.Proper)
    (h : (seq (group (many least (some most) (char accepts))) next).captures cs = some groups)
    (hothers : (seq (group (many least (some most) (char accepts))) next).Matches cs others) :
    (others.headD []).length ≤ (groups.headD []).length := by
  have hproper : (seq (group (many least (some most) (char accepts))) next).Proper :=
    ⟨proper_many_char least (some most) accepts, hnext⟩
  obtain ⟨f, hf, rfl⟩ := Option.map_eq_some_iff.mp h
  obtain ⟨_, before, after, hways, hbefore⟩ := List.find?_eq_some_iff_append.mp hf
  have hmem := (mem_ways hproper cs ⟨cs, others, []⟩).mpr ⟨(List.append_nil cs).symm, hothers⟩
  have horder := pairwise_reach least most accepts next cs
  rw [hways] at hmem horder
  obtain ⟨_, hafter, _⟩ := List.pairwise_append.mp horder
  rcases List.mem_append.mp hmem with hmem | hmem
  · exact absurd (hbefore _ hmem) (by simp)
  · rcases List.mem_cons.mp hmem with heq | hmem
    · exact Nat.le_of_eq (congrArg Found.reach heq)
    · exact List.rel_of_pairwise_cons hafter hmem

/-! ## Parts of patterns -/

theorem matches_separated {first second : Pattern} {sep : Char} {text : List Char} {groups : List (List Char)} :
    (separated first sep second).Matches text groups ↔
      ∃ a b g h, first.Matches a g ∧ second.Matches b h ∧ text = a ++ sep :: b ∧ groups = g ++ h := by
  constructor
  · rintro ⟨a, tail, g, _, hfirst, ⟨_, b, _, h, ⟨c, hc, rfl, rfl⟩, hsecond, htail, hgroups⟩, rfl, rfl⟩
    rw [beq_iff_eq.mp hc] at htail
    exact ⟨a, b, g, h, hfirst, hsecond, by rw [htail, List.singleton_append], by rw [hgroups, List.nil_append]⟩
  · rintro ⟨a, b, g, h, hfirst, hsecond, rfl, rfl⟩
    exact ⟨a, sep :: b, g, h, hfirst, ⟨[sep], b, [], h, ⟨sep, beq_self_eq_true sep, rfl, rfl⟩, hsecond, rfl, rfl⟩, rfl, rfl⟩

theorem proper_separated {first second : Pattern} (sep : Char) (hfirst : first.Proper) (hsecond : second.Proper) :
    (separated first sep second).Proper := ⟨hfirst, trivial, hsecond⟩

theorem matches_many_char {least : Nat} {most : Option Nat} {accepts : Char → Bool} {text : List Char}
    {groups : List (List Char)} : (many least most (char accepts)).Matches text groups ↔
      least ≤ text.length ∧ (∀ n ∈ most, text.length ≤ n) ∧ (∀ c ∈ text, accepts c = true) ∧ groups = [] := by
  constructor
  · rintro ⟨parts, hleast, hmost, hall, rfl, rfl⟩
    have hparts : (parts.flatMap Prod.fst).length = parts.length ∧ (∀ c ∈ parts.flatMap Prod.fst, accepts c = true) ∧
        parts.flatMap Prod.snd = [] := by
      clear hleast hmost
      induction parts with
      | nil => simp
      | cons part parts ih =>
        obtain ⟨⟨c, hc, htext, hgroups⟩, hall⟩ := List.forall_mem_cons.mp hall
        obtain ⟨hlength, haccepts, hnil⟩ := ih hall
        rw [List.flatMap_cons, List.flatMap_cons, htext, hgroups, hnil]
        refine ⟨?_, List.forall_mem_cons.mpr ⟨hc, haccepts⟩, rfl⟩
        rw [List.singleton_append, List.length_cons, List.length_cons, hlength]
    rw [hparts.1]
    exact ⟨hleast, hmost, hparts.2⟩
  · rintro ⟨hleast, hmost, hall, rfl⟩
    refine ⟨text.map fun c => ([c], []), ?_, ?_, ?_, ?_, ?_⟩
    · rwa [List.length_map]
    · rwa [List.length_map]
    · intro part hpart
      obtain ⟨c, hc, rfl⟩ := List.mem_map.mp hpart
      exact ⟨c, hall c hc, rfl, rfl⟩
    · simp [List.flatMap_map]
    · simp [List.flatMap_map]

end Pattern

end NameServer
