import NameServer.Json.Decode
import NameServer.Json.Value

/-!
# What is written reads back

A text is read back as it was written, and an object as its members, if their
values are. This holds whatever follows, since both end with a character of
their own.
-/

namespace NameServer.Json

/-! ## Quoted text -/

namespace Quoted

theorem readEscape_control {n : Nat} (hn : n < 0x20) (s : Source) :
    readEscape (some 'u' :: some '0' :: some '0' :: some (Nat.digitChar (n / 16)) :: some (Nat.digitChar (n % 16)) :: s) =
      .ok (Char.ofNat n, 5) := by
  have hunit : ∀ m : Fin 0x20, unit? [some '0', some '0', some (Nat.digitChar (m.val / 16)),
      some (Nat.digitChar (m.val % 16))] = some m.val := by decide +kernel
  have hread : readUnit (some '0' :: some '0' :: some (Nat.digitChar (n / 16)) :: some (Nat.digitChar (n % 16)) :: s) =
      .ok n := by
    have hu : unit? (some '0' :: some '0' :: some (Nat.digitChar (n / 16)) :: some (Nat.digitChar (n % 16)) :: s) =
        some n := hunit ⟨n, hn⟩
    rw [readUnit, hu]
  have hlow : isLowSurrogate n = false := by simp [isLowSurrogate]; omega
  have hhigh : isHighSurrogate n = false := by simp [isHighSurrogate]; omega
  simp only [readEscape, hread]
  show (if isLowSurrogate n then _ else _) = _
  rw [hlow]
  show (if isHighSurrogate n then _ else _) = _
  rw [hhigh]
  rfl

theorem read_of_escape {c : Char} {count : Nat} {s : Source} (h : readEscape s = .ok (c, count)) :
    read (some '\\' :: s) = (read (s.drop count)).map fun (cs, rest) => (c :: cs, rest) := by
  rw [read, h]
  show (read (s.drop count) >>= _) = _
  cases read (s.drop count) <;> rfl

theorem read_of_plain {c e : Char} (h : plain? e = some c) (s : Source) :
    read (some '\\' :: some e :: s) = (read s).map fun (cs, rest) => (c :: cs, rest) := by
  have hu : e ≠ 'u' := by
    rintro rfl
    cases h
  have hread : readEscape (some e :: s) = .ok (c, 1) := by
    rw [readEscape, h]
    exact hu
  exact read_of_escape hread

theorem read_escaped (c : Char) (s : Source) :
    read ((escaped c).map some ++ s) = (read s).map fun (cs, rest) => (c :: cs, rest) := by
  unfold escaped
  split
  -- the characters with a short escape come first
  iterate 7 exact read_of_plain rfl s
  next hq hb _ _ _ _ _ =>
  split
  · next hn =>
    have h := read_of_escape (readEscape_control hn s)
    rw [Char.ofNat_toNat] at h
    exact h
  · next hn =>
    have hc : isControl c = false := by simpa [isControl] using hn
    rw [List.map_singleton, List.singleton_append, read, hc]
    · cases read s <;> rfl
    · exact hq
    · exact hb

theorem read_quoted : ∀ (cs : List Char) (s : Source),
    read ((cs.flatMap escaped ++ ['"']).map some ++ s) = .ok (cs, s)
  | [], s => by rw [List.flatMap_nil, List.nil_append, List.map_singleton, List.singleton_append, read]
  | c :: cs, s => by
    rw [List.flatMap_cons, List.append_assoc, List.map_append, List.append_assoc, read_escaped, read_quoted cs s]
    rfl

end Quoted

/-! ## Values -/

namespace Document

open Value (newLine prettyMembers)

/-- However deep it is written and whatever follows, a value is read as a document. -/
def ReadsBack (value : Value) (d : Document) : Prop :=
  ∀ depth fuel rest, 3 * (value.prettyText depth).length + 3 ≤ fuel →
    readValue fuel ((value.prettyText depth).map some ++ rest) = (d, rest)

theorem skipBlank_cons {u : Option Char} (h : isBlank u = true) (s : Source) : skipBlank (u :: s) = skipBlank s := by
  rw [skipBlank, List.dropWhile_cons, h]
  rfl

theorem skipBlank_of_not_blank {u : Option Char} (h : isBlank u = false) (s : Source) : skipBlank (u :: s) = u :: s := by
  rw [skipBlank, List.dropWhile_cons, h]
  rfl

theorem skipBlank_newLine (depth : Nat) (s : Source) : skipBlank ((newLine depth).map some ++ s) = skipBlank s := by
  have hspaces : ∀ n, skipBlank ((List.replicate n ' ').map some ++ s) = skipBlank s := by
    intro n
    induction n with
    | zero => rfl
    | succ n ih => exact ih
  exact hspaces (2 * depth)

theorem readQuoted_quoted (text : String) (s : Source) :
    readQuoted ((text.toList.flatMap escaped ++ ['"']).map some ++ s) = .ok (.ok text, s) := by
  rw [readQuoted, Quoted.read_quoted]
  simp only [String.ofList_toList]

theorem readsBack_text (text : String) : ReadsBack (.text text) (.text text) := by
  intro depth fuel rest hfuel
  cases fuel with
  | zero => omega
  | succ fuel =>
    show readValue (fuel + 1) (some '"' :: ((text.toList.flatMap escaped ++ ['"']).map some ++ rest)) = _
    rw [readValue.eq_def, skipBlank_of_not_blank rfl]
    show ofQuoted _ = _
    rw [ofQuoted, readQuoted_quoted]

theorem readMember_pretty {value : Value} {d : Document} (h : ReadsBack value d) {depth fuel : Nat} (rest : Source)
    (hfuel : 3 * (value.prettyText depth).length + 4 ≤ fuel) :
    readMember fuel (some ':' :: some ' ' :: ((value.prettyText depth).map some ++ rest)) = (d, rest) := by
  cases fuel with
  | zero => omega
  | succ fuel =>
    rw [readMember.eq_def, skipBlank_of_not_blank rfl]
    show readValue fuel _ = _
    have hblank : readValue fuel (some ' ' :: ((value.prettyText depth).map some ++ rest)) =
        readValue fuel ((value.prettyText depth).map some ++ rest) := by
      rw [readValue.eq_def, readValue.eq_def fuel, skipBlank_cons rfl]
    rw [hblank]
    exact h depth fuel rest (by omega)

section
variable {value : Value} {d : Document} (h : ReadsBack value d) {depth fuel : Nat}
  (hfuel : 3 * (value.prettyText depth).length + 4 ≤ fuel) (key : String)
include h hfuel

theorem readMoreMembers_cons (s : Source) :
    readMoreMembers (fuel + 1) ((newLine depth).map some ++ ((quoted key).map some ++
      some ':' :: some ' ' :: ((value.prettyText depth).map some ++ some ',' :: s))) =
    { readMoreMembers fuel s with members := (.ok key, d) :: (readMoreMembers fuel s).members } := by
  rw [readMoreMembers.eq_def, skipBlank_newLine, quoted, List.map_cons, List.cons_append, skipBlank_of_not_blank rfl]
  simp only [readQuoted_quoted, readMember_pretty h _ hfuel]
  rw [skipBlank_of_not_blank rfl]
  rfl

theorem readMoreMembers_last (depth' : Nat) (rest : Source) :
    readMoreMembers (fuel + 1) ((newLine depth).map some ++ ((quoted key).map some ++
      some ':' :: some ' ' :: ((value.prettyText depth).map some ++
        ((newLine depth').map some ++ some '\x7d' :: rest)))) =
    ⟨[(.ok key, d)], .closed, rest⟩ := by
  rw [readMoreMembers.eq_def, skipBlank_newLine, quoted, List.map_cons, List.cons_append, skipBlank_of_not_blank rfl]
  simp only [readQuoted_quoted, readMember_pretty h _ hfuel]
  rw [skipBlank_newLine, skipBlank_of_not_blank rfl]
  rfl

end

theorem readMembers_of_quote {fuel : Nat} {s s' : Source} (h : skipBlank s = some '"' :: s') :
    readMembers (fuel + 1) s = readMoreMembers fuel s := by
  rw [readMembers.eq_def, h]
  show readMoreMembers fuel (some '"' :: s') = _
  rw [readMoreMembers.eq_def, readMoreMembers.eq_def fuel s, h, skipBlank_of_not_blank rfl]

section
variable {α : Type} (key : α → String) {value : α → Value} {d : α → Document}

theorem prettyMembers_cons (depth : Nat) : ∀ (m : String × Value) (ms : List (String × Value)),
    ∃ tail, prettyMembers depth (m :: ms) = newLine depth ++ '"' :: tail
  | (_, _), [] => ⟨_, by rw [prettyMembers, quoted, List.append_assoc, List.cons_append]⟩
  | (_, _), _ :: _ => ⟨_, by rw [prettyMembers, quoted, List.append_assoc, List.cons_append]⟩

theorem readMoreMembers_pretty (depth depth' : Nat) (rest : Source) : ∀ (a : α) (as : List α) (fuel : Nat),
    (∀ b ∈ a :: as, ReadsBack (value b) (d b)) →
    3 * (prettyMembers depth ((a :: as).map fun b => (key b, value b))).length + 2 ≤ fuel →
    readMoreMembers fuel ((prettyMembers depth ((a :: as).map fun b => (key b, value b))).map some ++
      ((newLine depth').map some ++ some '\x7d' :: rest)) =
    ⟨(a :: as).map fun b => (.ok (key b), d b), .closed, rest⟩
  | a, as, 0, _, hfuel => by omega
  | a, [], fuel + 1, h, hfuel => by
    simp only [List.map_cons, List.map_nil, prettyMembers, newLine, quoted, List.length_append, List.length_cons,
      List.length_nil] at hfuel
    have hvalue : 3 * ((value a).prettyText depth).length + 4 ≤ fuel := by omega
    have hlast := readMoreMembers_last (h a (List.mem_cons_self ..)) hvalue (key a) depth' rest
    simpa only [List.map_cons, List.map_nil, prettyMembers, List.map_append, List.append_assoc,
      List.cons_append] using hlast
  | a, b :: as, fuel + 1, h, hfuel => by
    -- a member takes three calls, and has four characters at least besides its value
    simp only [List.map_cons, prettyMembers, newLine, quoted, List.length_append, List.length_cons,
      List.length_nil] at hfuel
    have hmore := readMoreMembers_pretty depth depth' rest b as fuel (fun c hc => h c (List.mem_cons_of_mem _ hc))
      (by simp only [List.map_cons]; omega)
    have hvalue : 3 * ((value a).prettyText depth).length + 4 ≤ fuel := by omega
    have hcons := readMoreMembers_cons (h a (List.mem_cons_self ..)) hvalue (key a)
      ((prettyMembers depth ((b :: as).map fun b => (key b, value b))).map some ++
        ((newLine depth').map some ++ some '\x7d' :: rest))
    rw [hmore] at hcons
    simpa only [List.map_cons, prettyMembers, List.map_append, List.append_assoc, List.cons_append] using hcons

theorem readsBack_object (l : List α) (h : ∀ a ∈ l, ReadsBack (value a) (d a)) :
    ReadsBack (.object (l.map fun a => (key a, value a))) (.object (l.map fun a => (.ok (key a), d a)) .closed) := by
  intro depth fuel rest hfuel
  -- the brace takes one call, what is behind it two more
  match fuel, l with
  | 0, _ => omega
  | 1, _ => omega
  | 2, _ => omega
  | fuel + 3, [] =>
    show readValue (fuel + 3) (some '\x7b' :: some '\x7d' :: rest) = _
    rw [readValue.eq_def, skipBlank_of_not_blank rfl]
    show (object (readMembers (fuel + 2) (some '\x7d' :: rest)).members _, _) = _
    rw [readMembers.eq_def, skipBlank_of_not_blank rfl]
    rfl
  | fuel + 3, a :: as =>
    simp only [List.map_cons, Value.prettyText, List.length_cons, List.length_append] at hfuel
    have hmembers := readMoreMembers_pretty key (depth + 1) depth rest a as (fuel + 1) h
      (by simp only [List.map_cons]; omega)
    have htext : ((Value.object ((a :: as).map fun a => (key a, value a))).prettyText depth).map some ++ rest =
        some '\x7b' :: ((prettyMembers (depth + 1) ((a :: as).map fun b => (key b, value b))).map some ++
          ((newLine depth).map some ++ some '\x7d' :: rest)) := by
      simp only [List.map_cons, Value.prettyText, List.map_append, List.append_assoc, List.cons_append, List.map_nil,
        List.nil_append]
    obtain ⟨tail, htail⟩ := prettyMembers_cons (depth + 1) (key a, value a) (as.map fun b => (key b, value b))
    have hquote : skipBlank ((prettyMembers (depth + 1) ((a :: as).map fun b => (key b, value b))).map some ++
        ((newLine depth).map some ++ some '\x7d' :: rest)) =
        some '"' :: (tail.map some ++ ((newLine depth).map some ++ some '\x7d' :: rest)) := by
      rw [List.map_cons, htail, List.map_append, List.append_assoc, skipBlank_newLine, List.map_cons, List.cons_append,
        skipBlank_of_not_blank rfl]
    rw [htext, readValue.eq_def, skipBlank_of_not_blank rfl]
    simp only [readMembers_of_quote hquote, hmembers]

end

end Document

end NameServer.Json
