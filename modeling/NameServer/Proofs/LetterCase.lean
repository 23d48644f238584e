import NameServer.Proofs.Tiers
import NameServer.Proofs.Writing

/-!
# Letter case in queries

Every step that reads a name gives the same in lower case, up to the case of
the names in its answer: cutting into labels, both forms of hostnames, zones
and challenges, keys, and writing. So two packets that differ in letter case
only leave the same server, and each is answered in its own letters.
-/

namespace NameServer

/-! ## Lower case -/

def Question.lowered (q : Question) : Question := { q with name := Text.lowered q.name }

def Record.lowered (r : Record) : Record := { r with name := Text.lowered r.name }

/-- The message with its names in lower case. Texts stay as they are. -/
def Message.lowered (m : Message) : Message :=
  { m with questions := m.questions.map Question.lowered, answers := m.answers.map Record.lowered }

def TunnelHost.lowered (host : TunnelHost) : TunnelHost :=
  ⟨Text.lowered host.address, Text.lowered host.entryId, Text.lowered host.domain⟩

def Answer.lowered (a : Answer) : Answer := { a with records := a.records.map Record.lowered }

def Server.Response.lowered (r : Response) : Response := { r with reply := r.reply.lowered }

/-! ## Texts -/

namespace Text

variable {sep : Char}

theorem lower_append (xs ys : List Char) : lower (xs ++ ys) = lower xs ++ lower ys := List.map_append

theorem lowered_append (a b : String) : lowered (a ++ b) = lowered a ++ lowered b := by
  rw [← String.toList_inj, String.toList_append]
  simp only [toList_lowered, String.toList_append, lower_append]

theorem split_lower (hsep : ∀ c : Char, c.toLower = sep ↔ c = sep) (cs : List Char) :
    split sep (lower cs) = (split sep cs).map lower := by
  induction cs with
  | nil => rfl
  | cons c cs ih =>
    show split sep (c.toLower :: lower cs) = _
    by_cases hc : c = sep
    · simp only [split, if_pos hc, if_pos ((hsep c).mpr hc), ih]
      rfl
    · simp only [split, if_neg hc, if_neg (mt (hsep c).mp hc), ih]
      cases split sep cs <;> rfl

theorem cut_lower (hsep : ∀ c : Char, c.toLower = sep ↔ c = sep) (cs : List Char) :
    cut sep (lower cs) = (cut sep cs).map fun (before, after) => (lower before, lower after) := by
  induction cs with
  | nil => rfl
  | cons c cs ih =>
    show cut sep (c.toLower :: lower cs) = _
    by_cases hc : c = sep
    · simp only [cut, if_pos hc, if_pos ((hsep c).mpr hc)]
      rfl
    · simp only [cut, if_neg hc, if_neg (mt (hsep c).mp hc), ih]
      cases cut sep cs <;> rfl

theorem trimDots_lower (cs : List Char) : trimEnd (· == '.') (lower cs) = lower (trimEnd (· == '.') cs) := by
  have hdot : (· == '.') ∘ Char.toLower = (· == '.') := funext fun c => by
    rw [Bool.eq_iff_iff, Function.comp_apply, beq_iff_eq, beq_iff_eq, toLower_eq_dot_iff]
  rw [trimEnd, trimEnd, lower, lower, ← List.map_reverse, List.dropWhile_map, hdot, List.map_reverse]

theorem isHexDigit_iff (c : Char) : isHexDigit c = true ↔
    48 ≤ c.toNat ∧ c.toNat ≤ 57 ∨ 97 ≤ c.toNat ∧ c.toNat ≤ 102 ∨ 65 ≤ c.toNat ∧ c.toNat ≤ 70 := by
  have hdigit : c.isDigit = true ↔ 48 ≤ c.toNat ∧ c.toNat ≤ 57 := Char.isDigit_iff_toNat
  have hsmall : 'a' ≤ c ∧ c ≤ 'f' ↔ 97 ≤ c.toNat ∧ c.toNat ≤ 102 := Iff.rfl
  have hlarge : 'A' ≤ c ∧ c ≤ 'F' ↔ 65 ≤ c.toNat ∧ c.toNat ≤ 70 := Iff.rfl
  rw [← hdigit, ← hsmall, ← hlarge, isHexDigit]
  simp only [hexDigit?, apply_ite Option.isSome, Option.isSome_some, Option.isSome_none]
  grind

theorem isHexDigit_toLower (c : Char) : isHexDigit c.toLower = isHexDigit c := by
  rcases toNat_toLower_cases c with h | ⟨hlo, hhi, h⟩
  · rw [h]
  · rw [Bool.eq_iff_iff, isHexDigit_iff, isHexDigit_iff, h]
    omega

end Text

/-! ## Hostnames -/

theorem Hostname.isLabel_lower (cs : List Char) : isLabel (Text.lower cs) = isLabel cs := by
  rw [isLabel, isLabel, all_isHostChar_lower]
  cases cs <;> rfl

theorem Hostname.isDomain_lower (cs : List Char) : isDomain (Text.lower cs) = isDomain cs := by
  rw [isDomain, isDomain, Text.split_lower fun c => Text.toLower_eq_dot_iff, List.all_map]
  exact congrArg (List.all _) (funext isLabel_lower)

theorem LegacyHost.isGuid_lower (cs : List Char) : isGuid (Text.lower cs) = isGuid cs := by
  have hlength : List.length ∘ Text.lower = List.length := funext Text.length_lower
  rw [isGuid, isGuid, Text.split_lower fun c => Text.toLower_eq_hyphen_iff, List.map_map, List.all_map, hlength]
  exact congrArg (_ && List.all _ ·) (funext (Text.all_lower Text.isHexDigit_toLower))

theorem LegacyHost.isSome_ofString?_lowered (hostname : String) :
    (ofString? (Text.lowered hostname)).isSome = (ofString? hostname).isSome := by
  unfold ofString?
  rw [Text.toList_lowered, Text.cut_lower fun c => Text.toLower_eq_dot_iff]
  cases Text.cut '.' hostname.toList with
  | none => rfl
  | some parts =>
    simp only [Option.map_some, isGuid_lower, Hostname.isDomain_lower]
    split <;> rfl

namespace TunnelHost

theorem ofString?_lowered (hostname : String) :
    ofString? (Text.lowered hostname) = (ofString? hostname).map lowered := by
  unfold ofString?
  rw [Text.toList_lowered, Text.cut_lower fun c => Text.toLower_eq_dot_iff]
  cases Text.cut '.' hostname.toList with
  | none => rfl
  | some parts =>
    simp only [Option.map_some, splitLabel?_lower]
    cases splitLabel? parts.1 with
    | none => rfl
    | some split =>
      simp only [Option.map_some, Hostname.isDomain_lower]
      split
      · simp [lowered, Text.lowered]
      · rfl

theorem key_lowered (host : TunnelHost) : host.lowered.key = host.key := by
  simp only [key, lowered, Text.lowered_append, Text.lowered_lowered]

end TunnelHost

theorem Zone.normalText_lowered (name : String) : normalText (Text.lowered name) = normalText name := by
  rw [normalText, normalText, Text.toList_lowered, Text.trimDots_lower, Text.lower_lower]

/-! ## Answers -/

namespace Server

theorem hostnameOf_lowered (q : Question) : hostnameOf q.lowered = Text.lowered (hostnameOf q) := by
  rw [hostnameOf, hostnameOf, Question.lowered, Text.toList_lowered, Text.trimDots_lower, Text.lowered,
    String.toList_ofList]

theorem resolved_lowered (s : Server) (host : TunnelHost) : s.resolved host.lowered = s.resolved host := by
  have hentry : s.proxies.address? host.lowered.entryId = s.proxies.address? host.entryId :=
    s.proxies.address?_lowered host.entryId
  rw [resolved, resolved, resolve, resolve, host.key_lowered, hentry]

theorem answerAddress_lowered (s : Server) (owner name : String) :
    s.answerAddress (Text.lowered owner) (Text.lowered name) = (s.answerAddress owner name).lowered := by
  unfold answerAddress
  simp only [LegacyHost.isSome_ofString?_lowered, TunnelHost.ofString?_lowered]
  split
  · rfl
  · cases TunnelHost.ofString? name with
    | none => rfl
    | some host =>
      have hresolved := s.resolved_lowered host
      simp only [resolved] at hresolved
      simp only [Option.map_some, hresolved]
      cases (resolve s.cache s.store s.proxies s.now host.key host.entryId).address <;> rfl

theorem answerChallenge_lowered (s : Server) (owner name : String) :
    s.answerChallenge (Text.lowered owner) (Text.lowered name) = (s.answerChallenge owner name).map Record.lowered := by
  unfold answerChallenge
  rw [Zone.isChallenge, Zone.isChallenge, Zone.normalText_lowered]
  split
  · cases s.currentTokens with
    | ok tokens =>
      show tokens.map _ = (tokens.map _).map _
      rw [List.map_map]
      rfl
    | error _ => rfl
  · rfl

theorem answer_lowered (s : Server) (q : Question) : s.answer q.lowered = (s.answer q).lowered := by
  have htype : q.lowered.qtype = q.qtype := rfl
  rw [answer, answer, htype, hostnameOf_lowered]
  by_cases hA : q.qtype = typeA
  · rw [if_pos hA, if_pos hA]
    exact s.answerAddress_lowered q.name (hostnameOf q)
  · rw [if_neg hA, if_neg hA]
    by_cases hT : q.qtype = typeTxt
    · have hrecords := s.answerChallenge_lowered q.name (hostnameOf q)
      rw [if_pos hT, if_pos hT, Answer.lowered, ← hrecords]
      rfl
    · rw [if_neg hT, if_neg hT]
      rfl

/-- A message in lower case is answered in lower case, and nothing else is different. -/
theorem respond_lowered (s : Server) (request : Message) :
    s.respond request.lowered = (s.respond request).lowered := by
  obtain ⟨id, flags, questions, answers⟩ := request
  cases questions with
  | nil => rfl
  | cons q qs =>
    have hserves : Zone.serves s.config.zones (hostnameOf q.lowered) = Zone.serves s.config.zones (hostnameOf q) := by
      rw [Zone.serves, Zone.serves, hostnameOf_lowered, Zone.normalText_lowered]
    unfold respond
    simp only [Message.lowered, List.map_cons, hserves, answer_lowered]
    cases Zone.serves s.config.zones (hostnameOf q) with
    | false => rfl
    | true =>
      simp only [Answer.lowered, List.isEmpty_map]
      rfl

end Server

/-! ## Writing -/

namespace Name

theorem undotted_lowered (name : String) : undotted (Text.lowered name) = Text.lower (undotted name) := by
  have hlast : (Text.lower name.toList).getLast? = some '.' ↔ name.toList.getLast? = some '.' := by
    rw [Text.lower, List.getLast?_map]
    simp [Text.toLower_eq_dot_iff]
  unfold undotted
  simp only [Text.toList_lowered, hlast]
  split
  · exact List.map_dropLast.symm
  · rfl

theorem labels_lowered (name : String) : labels (Text.lowered name) = (labels name).map Text.lower := by
  unfold labels
  rw [undotted_lowered]
  cases undotted name with
  | nil => rfl
  | cons c cs => exact Text.split_lower (fun c => Text.toLower_eq_dot_iff) (c :: cs)

theorem isLabel_lower (label : List Char) : isLabel (Text.lower label) = isLabel label := by
  have hlatin : ∀ c : Char, Latin1.isLatin1 c.toLower = Latin1.isLatin1 c := fun c => by
    rcases Text.toNat_toLower_cases c with h | ⟨_, hhi, h⟩
    · rw [h]
    · rw [Latin1.isLatin1, Latin1.isLatin1, h]
      rw [decide_eq_true (by omega : c.toNat < 256), decide_eq_true (by omega : c.toNat + 32 < 256)]
  have hempty : (Text.lower label != []) = (label != []) := by cases label <;> rfl
  rw [isLabel, isLabel, hempty, Text.all_lower hlatin, Text.length_lower]

theorem writable_lowered (name : String) : Writable (Text.lowered name) ↔ Writable name := by
  unfold Writable
  rw [labels_lowered, List.forall_mem_map]
  simp only [isLabel_lower]

end Name

namespace Message

theorem writable_lowered (m : Message) : m.lowered.Writable ↔ m.Writable := by
  have hquestions : (∀ q ∈ m.lowered.questions, Name.Writable q.name) ↔ ∀ q ∈ m.questions, Name.Writable q.name := by
    show (∀ q ∈ m.questions.map Question.lowered, _) ↔ _
    rw [List.forall_mem_map]
    exact forall₂_congr fun q _ => Name.writable_lowered q.name
  have hanswers : (∀ r ∈ m.lowered.answers, Name.Writable r.name ∧ r.data.Fits) ↔
      ∀ r ∈ m.answers, Name.Writable r.name ∧ r.data.Fits := by
    show (∀ r ∈ m.answers.map Record.lowered, _) ↔ _
    rw [List.forall_mem_map]
    exact forall₂_congr fun r _ => and_congr_left' (Name.writable_lowered r.name)
  have hcounts : m.lowered.questions.length = m.questions.length ∧ m.lowered.answers.length = m.answers.length :=
    ⟨List.length_map .., List.length_map ..⟩
  constructor
  · exact fun h => ⟨hcounts.1 ▸ h.questionCount, hcounts.2 ▸ h.answerCount, hquestions.mp h.questions,
      hanswers.mp h.answers⟩
  · exact fun h => ⟨hcounts.1 ▸ h.questionCount, hcounts.2 ▸ h.answerCount, hquestions.mpr h.questions,
      hanswers.mpr h.answers⟩

theorem sent_lowered (request reply : Message) : request.lowered.sent reply.lowered = (request.sent reply).lowered := by
  -- each of the messages that may be sent can be written as it is exactly if it can in lower case
  have hfailure : request.lowered.failure.Writable ↔ request.failure.Writable := writable_lowered request.failure
  by_cases hr : reply.Writable
  · rw [sent_of_writable hr, sent_of_writable ((writable_lowered reply).mpr hr)]
  · have hr' : ¬ reply.lowered.Writable := mt (writable_lowered reply).mp hr
    by_cases hf : request.failure.Writable
    · rw [sent_of_failure_writable hr hf, sent_of_failure_writable hr' (hfailure.mpr hf)]
      rfl
    · rw [sent_of_not_writable hr hf, sent_of_not_writable hr' (mt hfailure.mp hf)]
      rfl

end Message

/-! ## Two packets -/

namespace Server

open Message (decode)

/-- The reply to a request is written and read as `r`, with the names as they are in the request. Its questions
are left out only where one of them can't be written. -/
structure RepliesInKind (request : Message) (reply : List UInt8) (r : Message) : Prop where
  writes : r.encode = .ok reply
  reads : decode reply = .ok r.bare
  questions : r.questions = request.questions ∨ r.questions = [] ∧ ∃ q ∈ request.questions, Name.HasGap q.name
  owners : ∀ a ∈ r.answers, request.questions.head?.map Question.name = some a.name

variable {packet packet₁ packet₂ : List UInt8} {request request₁ request₂ : Message}

theorem RepliesInKind.questions_eq {reply : List UInt8} {r : Message} (h : RepliesInKind request reply r)
    (hq : ∀ q ∈ request.questions, [] ∉ Text.split '.' (Name.undotted q.name)) : r.questions = request.questions :=
  h.questions.resolve_right fun ⟨_, q, hmem, hgap⟩ => hq q hmem hgap.2

theorem sent_in_kind (h : decode packet = .ok request) (s : Server) :
    RepliesInKind request (s.handle packet).reply (s.sent packet) := by
  have hwrites := s.encode_sent packet
  have hreads := s.decode_reply packet
  rcases sent_cases h s with ⟨_, ⟨_, hsent⟩ | ⟨_, hsent⟩⟩ | ⟨hq, hsent⟩
  · obtain ⟨code, answers, hr, _, _, ha⟩ := s.respond_cases request
    rw [hsent, hr] at hwrites hreads ⊢
    exact ⟨hwrites, hreads, .inl rfl, fun a hmem => (ha a hmem).2.2⟩
  · rw [hsent] at hwrites hreads ⊢
    exact ⟨hwrites, hreads, .inl rfl, fun a hmem => nomatch hmem⟩
  · rw [hsent] at hwrites hreads ⊢
    exact ⟨hwrites, hreads, .inr ⟨rfl, (Message.exists_gap_iff h).mpr hq⟩, fun a hmem => nomatch hmem⟩

theorem handle_of_decode (h : decode packet = .ok request) (s : Server) :
    (s.handle packet).server = { s with cache := (s.respond request).cache } ∧
      (s.handle packet).askedStore = (s.respond request).askedStore := by
  rw [handle, h]
  exact ⟨rfl, rfl⟩

/-- **Letter case doesn't matter.** Packets that read the same but for the letter case of names leave the same
server, and have replies that are the same but for the letter case of names. -/
theorem handle_caseless (s : Server) (h₁ : decode packet₁ = .ok request₁) (h₂ : decode packet₂ = .ok request₂)
    (hcase : request₁.lowered = request₂.lowered) :
    (s.handle packet₁).server = (s.handle packet₂).server ∧
    (s.handle packet₁).askedStore = (s.handle packet₂).askedStore ∧
    ∃ r₁ r₂, RepliesInKind request₁ (s.handle packet₁).reply r₁ ∧
      RepliesInKind request₂ (s.handle packet₂).reply r₂ ∧ r₁.lowered = r₂.lowered := by
  obtain ⟨hserver₁, hasked₁⟩ := handle_of_decode h₁ s
  obtain ⟨hserver₂, hasked₂⟩ := handle_of_decode h₂ s
  have hrespond : (s.respond request₁).lowered = (s.respond request₂).lowered := by
    rw [← respond_lowered, ← respond_lowered, hcase]
  obtain ⟨hreply, hcache, hasked⟩ := Response.mk.inj hrespond
  refine ⟨?_, ?_, _, _, sent_in_kind h₁ s, sent_in_kind h₂ s, ?_⟩
  · rw [hserver₁, hserver₂, hcache]
  · rw [hasked₁, hasked₂, hasked]
  · rw [sent_of_decode h₁, sent_of_decode h₂, ← Message.sent_lowered, ← Message.sent_lowered, hcase, hreply]

/-! The same name in two mixtures of case, asked of a server whose proxy entries hold its address. -/

def otherCaseQuestion : Question := ⟨"aPP-e1.tunnel4.COM", typeA, classIn⟩

def otherCaseRequest : Message := ⟨7, ⟨0x0100⟩, [otherCaseQuestion], []⟩

theorem handle_caseless_troubled : ∃ packet₁ packet₂ r₁ r₂, decode packet₁ = .ok mixedCaseRequest ∧
    decode packet₂ = .ok otherCaseRequest ∧ mixedCaseRequest.lowered = otherCaseRequest.lowered ∧
    (troubledServer.handle packet₁).server = (troubledServer.handle packet₂).server ∧
    decode (troubledServer.handle packet₁).reply = .ok r₁ ∧ decode (troubledServer.handle packet₂).reply = .ok r₂ ∧
    r₁.questions = [mixedCaseQuestion] ∧ r₂.questions = [otherCaseQuestion] := by
  have hquery₁ : ∃ packet, mixedCaseRequest.encode = .ok packet := ⟨_, rfl⟩
  have hquery₂ : ∃ packet, otherCaseRequest.encode = .ok packet := ⟨_, rfl⟩
  obtain ⟨packet₁, hpacket₁⟩ := hquery₁
  obtain ⟨packet₂, hpacket₂⟩ := hquery₂
  have h₁ : decode packet₁ = .ok mixedCaseRequest := Message.decode_of_encode hpacket₁ fun r hr => nomatch hr
  have h₂ : decode packet₂ = .ok otherCaseRequest := Message.decode_of_encode hpacket₂ fun r hr => nomatch hr
  have hcase : mixedCaseRequest.lowered = otherCaseRequest.lowered := by decide +kernel
  obtain ⟨hserver, _, r₁, r₂, hr₁, hr₂, _⟩ := handle_caseless troubledServer h₁ h₂ hcase
  have hq₁ : r₁.questions = [mixedCaseQuestion] := hr₁.questions_eq (by decide +kernel)
  have hq₂ : r₂.questions = [otherCaseQuestion] := hr₂.questions_eq (by decide +kernel)
  refine ⟨packet₁, packet₂, r₁.bare, r₂.bare, h₁, h₂, hcase, hserver, hr₁.reads, hr₂.reads, ?_, ?_⟩
  · show r₁.questions.map Question.bare = _
    rw [hq₁]
    decide +kernel
  · show r₂.questions.map Question.bare = _
    rw [hq₂]
    decide +kernel

end Server

end NameServer
