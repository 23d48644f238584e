import NameServer.Proofs.Run
import NameServer.Proofs.Settings
import NameServer.Proofs.Tiers
import NameServer.Proofs.Writing

/-!
# Challenge tokens in replies

A certificate authority asks for the texts at `_acme-challenge.zone`. A reply
has texts at such a name only, and then all that the settings or the token file
hold, in their order and as they are there. One token that doesn't fit into a
record keeps all of them back.
-/

namespace NameServer

/-! ## Names of challenges -/

theorem Zone.isChallenge_iff (zones : List String) (hostname : String) :
    isChallenge zones hostname = true ↔ ∃ zone ∈ zones, normalize hostname = "_acme-challenge." ++ zone := by
  have hname : ∀ cs zone : List Char, Text.dropFront? challengeLabel cs = some zone ↔
      String.ofList cs = "_acme-challenge." ++ String.ofList zone := by
    intro cs zone
    rw [Text.dropFront?_eq_some_iff, ← String.toList_inj, String.toList_append]
    simp only [String.toList_ofList]
    rfl
  rw [isChallenge, Option.any_eq_true]
  simp only [hname, List.contains_iff_mem]
  constructor
  · rintro ⟨zone, hz, hmem⟩
    exact ⟨_, hmem, hz⟩
  · rintro ⟨zone, hmem, hz⟩
    refine ⟨zone.toList, ?_, ?_⟩
    · rw [String.ofList_toList]
      exact hz
    · rw [String.ofList_toList]
      exact hmem

/-- The zone check lets every name of a challenge through. -/
theorem Zone.within_of_challenge {zones : List String} {zone name : String} (hz : zone ∈ zones)
    (hname : normalize name = "_acme-challenge." ++ zone) : Within zones name := by
  refine ⟨zone, hz, ["_acme-challenge".toList], ?_⟩
  have hdot : '.' ∉ "_acme-challenge".toList := by decide
  have htext : normalText name = "_acme-challenge".toList ++ '.' :: zone.toList := by
    have hlist := congrArg String.toList hname
    rw [normalize, String.toList_ofList, String.toList_append] at hlist
    exact hlist
  rw [htext, Text.split_append_cons hdot]
  rfl

/-! ## Tokens of settings -/

theorem Text.trim_eq_nil_iff (cs : List Char) : trim cs = [] ↔ cs.all isBlank = true := by
  rw [List.all_eq_true, trim, trimEnd, List.reverse_eq_nil_iff, List.dropWhile_eq_nil_iff]
  constructor
  · intro h
    -- what is left begins with a character that is not blank, unless nothing is left
    cases hd : cs.dropWhile isBlank with
    | nil => exact List.dropWhile_eq_nil_iff.mp hd
    | cons c rest =>
      have hc : isBlank c = true := h c (by rw [hd]; simp)
      have hnot := List.head?_dropWhile_not isBlank cs
      rw [hd] at hnot
      simp [hc] at hnot
  · intro h c hc
    exact h c ((List.dropWhile_suffix isBlank).subset (List.mem_reverse.mp hc))

/-- The challenges that are there and not blank, in their order and with the blanks around them. -/
def presentTokens (challenge₁ challenge₂ : Option String) : List String :=
  (challenge₁.toList ++ challenge₂.toList).filter fun token => !token.toList.all Text.isBlank

theorem tokensOf_eq (challenge₁ challenge₂ : Option String) :
    tokensOf [challenge₁, challenge₂] = presentTokens challenge₁ challenge₂ := by
  have hblank : (fun token : String => Text.trimmed token != "") = fun token => !token.toList.all Text.isBlank := by
    funext token
    rw [Bool.eq_iff_iff]
    simp only [bne_iff_ne, ne_eq, Bool.not_eq_true', ← Bool.not_eq_true, ← Text.trim_eq_nil_iff, Text.trimmed,
      String.ofList_eq_empty_iff]
  rw [tokensOf, presentTokens, hblank]
  cases challenge₁ <;> cases challenge₂ <;> rfl

theorem length_presentTokens_le (challenge₁ challenge₂ : Option String) :
    (presentTokens challenge₁ challenge₂).length ≤ 2 := by
  refine (List.length_filter_le ..).trans ?_
  cases challenge₁ <;> cases challenge₂ <;> simp

namespace Server

/-- What the token source of a server holds: the challenges of settings, or those that the token file denotes if there
is one. -/
inductive Holds (s : Server) : Option String → Option String → Prop
  | settings {acme : AcmeSettings} : s.tokenFile = none → s.tokens = acme.tokens →
      Holds s acme.challenge1 acme.challenge2
  | file {place : Place} {content : List UInt8} {file : TokenFile} : s.tokenFile = some place →
      place.read = some content → Json.Denotes content TokenFile.meaning file →
      Holds s file.challenge1 file.challenge2

/-- The tokens are those of some settings, as they are from the start and after each replacement. -/
def Furnished (s : Server) : Prop := ∃ acme : AcmeSettings, s.tokens = acme.tokens

variable {s : Server} {tokens : List String}

theorem furnished_of_start {config : Config} {stateFile tokenFile : Option Place}
    (h : start config stateFile tokenFile = .ok s) : s.Furnished := by
  refine ⟨config.acme, ?_⟩
  cases stateFile with
  | none => rw [start_none h]
  | some place =>
    obtain ⟨_, _, rfl⟩ := start_some h
    rfl

theorem Furnished.reload (h : s.Furnished) (place : Place) : (s.reload place).2.Furnished := by
  unfold Server.reload
  split
  · exact h
  · next config _ => exact ⟨config.acme, rfl⟩

theorem Furnished.step (h : s.Furnished) {op : Operation}
    (hop : ∀ tokens, op = .tokens tokens → ∃ acme : AcmeSettings, tokens = acme.tokens) :
    (s.step op).2.Furnished := by
  cases op with
  | tokens tokens => exact hop tokens rfl
  | query packet =>
    show (s.handle packet).server.Furnished
    rw [handle_server]
    exact h
  | evict segment =>
    show (Api.evict s segment).2.Furnished
    rw [evict_server]
    exact h
  | opened _ | closed _ | clear | tokenFile _ | sweep _ | proxies _ | advance _ => exact h

/-- **Settings furnish the tokens throughout a run**, if it only replaces them by those of other settings. -/
theorem Furnished.after : ∀ {ops : List Operation} {s : Server}, s.Furnished →
    (∀ tokens, .tokens tokens ∈ ops → ∃ acme : AcmeSettings, tokens = acme.tokens) → (s.after ops).Furnished
  | [], _, h, _ => h
  | op :: ops, s, h, hops => by
    have hstep : (s.step op).2.Furnished := h.step fun tokens hop => hops tokens (hop ▸ List.mem_cons_self ..)
    show ((s.step op).2.after ops).Furnished
    exact hstep.after fun tokens hmem => hops tokens (List.mem_cons_of_mem _ hmem)

theorem currentTokens_ok_iff (hs : s.Furnished) :
    s.currentTokens = .ok tokens ↔ ∃ challenge₁ challenge₂, s.Holds challenge₁ challenge₂ ∧
      tokens = presentTokens challenge₁ challenge₂ := by
  simp only [← tokensOf_eq]
  cases hfile : s.tokenFile with
  | none =>
    obtain ⟨acme, hacme⟩ := hs
    rw [currentTokens, hfile]
    constructor
    · rintro ⟨⟩
      exact ⟨_, _, .settings hfile hacme, hacme⟩
    · rintro ⟨_, _, hholds, rfl⟩
      cases hholds with
      | settings _ h => exact congrArg Except.ok h
      | file h => cases hfile.symm.trans h
  | some place =>
    rw [currentTokens, hfile]
    simp only [TokenFile.tokens]
    constructor
    · intro h
      split at h
      · cases h
      · next content hread =>
        split at h
        · cases h
        · next file hdecode =>
          cases h
          exact ⟨_, _, .file hfile hread ((Json.decodeAll_ok_iff TokenFile.reads_decode ..).mp hdecode), rfl⟩
    · rintro ⟨_, _, hholds, rfl⟩
      cases hholds with
      | settings h _ => cases hfile.symm.trans h
      | file h hread hdenotes =>
        cases hfile.symm.trans h
        simp only [hread, (Json.decodeAll_ok_iff TokenFile.reads_decode ..).mpr hdenotes]

/-- The tokens that can be had from the source, none if it can't be read. -/
def offered (s : Server) : List String := s.currentTokens.toOption.getD []

theorem length_offered_le (s : Server) : s.offered.length ≤ max 2 s.tokens.length := by
  unfold offered currentTokens
  cases s.tokenFile with
  | none => exact Nat.le_max_right ..
  | some place =>
    simp only [TokenFile.tokens]
    split
    · exact Nat.zero_le _
    · split
      · exact Nat.zero_le _
      · next file _ =>
        refine Nat.le_trans ?_ (Nat.le_max_left ..)
        show (tokensOf [file.challenge1, file.challenge2]).length ≤ 2
        rw [tokensOf_eq]
        exact length_presentTokens_le ..

theorem Furnished.length_tokens_le (h : s.Furnished) : s.tokens.length ≤ 2 := by
  obtain ⟨acme, hacme⟩ := h
  rw [hacme, AcmeSettings.tokens, tokensOf_eq]
  exact length_presentTokens_le ..

/-! ## Questions for tokens -/

/-- A question for texts at the name of a challenge, in a zone of the server. -/
structure AsksTokens (s : Server) (q : Question) : Prop where
  text : q.qtype = typeTxt
  name : ∃ zone ∈ s.config.zones, Zone.normalize q.name = "_acme-challenge." ++ zone

variable {q : Question} {request : Message}

theorem isChallenge_hostnameOf (zones : List String) (q : Question) : Zone.isChallenge zones (hostnameOf q) = true ↔
    ∃ zone ∈ zones, Zone.normalize q.name = "_acme-challenge." ++ zone := by
  rw [Zone.isChallenge_iff, Zone.normalize, Zone.normalize, hostnameOf_normalText]

theorem AsksTokens.within (h : s.AsksTokens q) : Zone.Within s.config.zones q.name := by
  obtain ⟨zone, hz, hname⟩ := h.name
  exact Zone.within_of_challenge hz hname

theorem records_of_asksTokens (h : s.AsksTokens q) :
    (s.answer q).records = s.offered.map (.text q.name s.tokenTtl) := by
  have hA : q.qtype ≠ typeA := by
    rw [h.text]
    decide
  rw [answer, if_neg hA, if_pos h.text]
  simp only [answerChallenge, (isChallenge_hostnameOf s.config.zones q).mpr h.name, if_true, offered]
  cases s.currentTokens <;> rfl

theorem records_of_not_asksTokens (h : ¬ s.AsksTokens q) :
    (s.answer q).records = [] ∨ ∃ ttl ip, (s.answer q).records = [.address q.name ttl ip] := by
  by_cases hA : q.qtype = typeA
  · rw [answer, if_pos hA]
    unfold answerAddress
    simp only
    split
    · exact .inr ⟨_, _, rfl⟩
    · split
      · exact .inl rfl
      · next host _ =>
        cases (resolve s.cache s.store s.proxies s.now host.key host.entryId).address with
        | none => exact .inl rfl
        | some ip => exact .inr ⟨_, ip, rfl⟩
  · by_cases hT : q.qtype = typeTxt
    · have hname : Zone.isChallenge s.config.zones (hostnameOf q) = false := by
        rw [← Bool.not_eq_true, isChallenge_hostnameOf]
        exact fun hname => h ⟨hT, hname⟩
      rw [answer, if_neg hA, if_pos hT]
      simp only [answerChallenge, hname]
      exact .inl rfl
    · exact .inl (records_of_otherType hA hT)

theorem respond_of_asksTokens (hq : request.questions.head? = some q) (h : s.AsksTokens q) :
    (s.respond request).reply = request.reply (if s.offered.isEmpty then .nameError else .noError) true
      (s.offered.map (.text q.name s.tokenTtl)) := by
  rw [respond_of_served hq h.within, records_of_asksTokens h, List.isEmpty_map]

theorem answers_of_not_asksTokens (h : ∀ q, request.questions.head? = some q → ¬ s.AsksTokens q) :
    (s.respond request).reply.answers = [] ∨
      ∃ owner ttl ip, (s.respond request).reply.answers = [.address owner ttl ip] := by
  by_cases hz : ∃ q, request.questions.head? = some q ∧ Zone.Within s.config.zones q.name
  · obtain ⟨q, hq, hz⟩ := hz
    rw [respond_of_served hq hz]
    rcases records_of_not_asksTokens (h q hq) with hr | ⟨ttl, ip, hr⟩
    · exact .inl hr
    · exact .inr ⟨q.name, ttl, ip, hr⟩
  · rw [respond_of_refused fun q hq hzq => hz ⟨q, hq, hzq⟩]
    exact .inl rfl

/-- Only tokens can keep an answer from fitting. -/
theorem answersFit_respond_iff (htokens : s.tokens.length ≤ 65535) (request : Message) :
    (s.respond request).reply.AnswersFit ↔ ∀ q, request.questions.head? = some q → s.AsksTokens q →
      ∀ token ∈ s.offered, (RecordData.text token).Fits := by
  by_cases hasked : ∃ q, request.questions.head? = some q ∧ s.AsksTokens q
  · obtain ⟨q, hq, ha⟩ := hasked
    have hlength : s.offered.length ≤ 65535 := Nat.le_trans s.length_offered_le (by omega)
    rw [respond_of_asksTokens hq ha]
    show (s.offered.map (Record.text q.name s.tokenTtl)).length ≤ 65535 ∧ _ ↔ _
    rw [List.length_map]
    constructor
    · rintro ⟨_, hfit⟩ _ _ _ token ht
      exact hfit _ (List.mem_map_of_mem ht)
    · intro hfit
      refine ⟨hlength, fun r hr => ?_⟩
      obtain ⟨token, ht, rfl⟩ := List.mem_map.mp hr
      exact hfit q hq ha token ht
  · have hnot : ∀ q, request.questions.head? = some q → ¬ s.AsksTokens q := fun q hq ha => hasked ⟨q, hq, ha⟩
    refine ⟨fun _ q hq ha => absurd ha (hnot q hq), fun _ => ?_⟩
    unfold Message.AnswersFit
    rcases answers_of_not_asksTokens hnot with h | ⟨owner, ttl, ip, h⟩
    · rw [h]
      exact ⟨Nat.zero_le _, fun r hr => nomatch hr⟩
    · rw [h]
      refine ⟨by simp, fun r hr => ?_⟩
      cases List.mem_singleton.mp hr
      trivial

/-! ## Replies with tokens -/

/-- A packet asks for tokens first, there are some, and they all fit. -/
structure Serves (s : Server) (packet : List UInt8) (q : Question) (tokens : List String) : Prop where
  asked : ∃ request, Message.decode packet = .ok request ∧ request.questions.head? = some q
  challenge : s.AsksTokens q
  held : ∃ challenge₁ challenge₂, s.Holds challenge₁ challenge₂ ∧ tokens = presentTokens challenge₁ challenge₂
  nonempty : tokens ≠ []
  fit : ∀ token ∈ tokens, token.length ≤ 255 ∧ ∀ c ∈ token.toList, c.toNat ≤ 255

theorem offered_eq_iff (hs : s.Furnished) (hne : tokens ≠ []) : s.offered = tokens ↔
    ∃ challenge₁ challenge₂, s.Holds challenge₁ challenge₂ ∧ tokens = presentTokens challenge₁ challenge₂ := by
  rw [← currentTokens_ok_iff hs, offered]
  cases s.currentTokens with
  | ok current => exact Except.ok.injEq .. ▸ Iff.rfl
  | error _ => exact ⟨fun h => absurd h.symm hne, fun h => nomatch h⟩

theorem toNat_tokenTtl (s : Server) : s.tokenTtl.toNat = min s.config.tokenTtl (UInt32.size - 1) := by
  have hlt : min s.config.tokenTtl (UInt32.size - 1) < UInt32.size := by
    have := Nat.min_le_right s.config.tokenTtl (UInt32.size - 1)
    simp only [UInt32.size] at this ⊢
    omega
  exact UInt32.toNat_ofNat_of_lt hlt

variable {packet : List UInt8}

/-- A reply with a text in it is the one that was meant, and it was meant for a challenge. -/
theorem sent_of_text (hd : Message.decode packet = .ok request) {r : Record} (hr : r ∈ (s.sent packet).answers)
    (ht : r.rtype = typeTxt) : ∃ q, request.questions.head? = some q ∧ s.AsksTokens q ∧
      s.sent packet = (s.respond request).reply ∧ (s.respond request).reply.AnswersFit := by
  rcases sent_cases hd s with ⟨_, ⟨hfit, hsent⟩ | ⟨_, hsent⟩⟩ | ⟨_, hsent⟩
  · rw [hsent] at hr
    by_cases hasked : ∃ q, request.questions.head? = some q ∧ s.AsksTokens q
    · obtain ⟨q, hq, ha⟩ := hasked
      exact ⟨q, hq, ha, hsent, hfit⟩
    · rcases answers_of_not_asksTokens fun q hq ha => hasked ⟨q, hq, ha⟩ with h | ⟨owner, ttl, ip, h⟩
      · rw [h] at hr
        cases hr
      · rw [h] at hr
        cases List.mem_singleton.mp hr
        cases ht
  · rw [hsent] at hr
    cases hr
  · rw [hsent] at hr
    cases hr

section
variable (hs : s.Furnished) (hd : Message.decode packet = .ok request)
include hs hd

theorem Serves.sent {q : Question} (h : s.Serves packet q tokens)
    (hwritable : ∀ q ∈ request.questions, Name.Writable q.name) :
    s.sent packet = request.reply .noError true (tokens.map (.text q.name s.tokenTtl)) := by
  obtain ⟨request', hd', hq⟩ := h.asked
  cases hd.symm.trans hd'
  have hoffered := (offered_eq_iff hs h.nonempty).mpr h.held
  have hlength : s.tokens.length ≤ 65535 := Nat.le_trans hs.length_tokens_le (by decide)
  have hfit : (s.respond request).reply.AnswersFit := by
    rw [answersFit_respond_iff hlength, hoffered]
    exact fun _ _ _ token ht => h.fit token ht
  rcases sent_cases hd s with ⟨_, ⟨_, hsent⟩ | ⟨hnot, _⟩⟩ | ⟨hnot, _⟩
  · rw [hsent, respond_of_asksTokens hq h.challenge, hoffered,
      if_neg (by rw [List.isEmpty_iff]; exact h.nonempty)]
  · exact absurd hfit hnot
  · exact absurd hwritable hnot

theorem serves_of_sent {r : Record} (hr : r ∈ (s.sent packet).answers) (ht : r.rtype = typeTxt) :
    ∃ q tokens, s.Serves packet q tokens := by
  obtain ⟨q, hq, ha, hsent, hfit⟩ := sent_of_text hd hr ht
  have hlength : s.tokens.length ≤ 65535 := Nat.le_trans hs.length_tokens_le (by decide)
  have hne : s.offered ≠ [] := by
    intro hnil
    rw [hsent, respond_of_asksTokens hq ha, hnil] at hr
    cases hr
  exact ⟨q, s.offered, ⟨request, hd, hq⟩, ha, (offered_eq_iff hs hne).mp rfl, hne,
    (answersFit_respond_iff hlength request).mp hfit q hq ha⟩

end

/-- **Tokens are served completely, and nowhere else.** If the questions of a packet can be written, the reply
has a text exactly when the first question is for the tokens of a zone, and there are tokens and all of them
fit. Then it has each of them, in order and unchanged. -/
theorem text_iff_serves (hs : s.Furnished) (hwritable : ∀ request, Message.decode packet = .ok request →
      ∀ q ∈ request.questions, ∃ bytes, Name.write q.name = .ok bytes) :
    (∀ q, s.AsksTokens q → Zone.serves s.config.zones (hostnameOf q) = true) ∧
    ∃ r, Message.decode (s.handle packet).reply = .ok r ∧
      ((∃ a ∈ r.answers, a.rtype = typeTxt) ↔ ∃ q tokens, s.Serves packet q tokens) ∧
      ∀ q tokens, s.Serves packet q tokens → r.flags.has Flags.aa = true ∧ r.flags.responseCode = 0 ∧
        ∃ ttl : UInt32, ttl.toNat = min s.config.tokenTtl (UInt32.size - 1) ∧
          r.answers = tokens.map (.text (Name.bare q.name) ttl) := by
  refine ⟨fun q hq => (serves_hostnameOf s.config.zones q).mpr hq.within, (s.sent packet).bare,
    s.decode_reply packet, ⟨?_, ?_⟩, ?_⟩
  · rintro ⟨a, ha, ht⟩
    obtain ⟨r, hr, rfl⟩ := List.mem_map.mp ha
    cases hd : Message.decode packet with
    | error _ =>
      rw [sent, hd] at hr
      cases hr
    | ok request => exact serves_of_sent hs hd hr ht
  · rintro ⟨q, tokens, h⟩
    obtain ⟨request, hd, _⟩ := h.asked
    obtain ⟨token, ht⟩ := List.exists_mem_of_ne_nil tokens h.nonempty
    have hsent := h.sent hs hd fun q hq => (Name.exists_write_iff q.name).mp (hwritable request hd q hq)
    rw [hsent]
    exact ⟨_, List.mem_map_of_mem (List.mem_map_of_mem ht), rfl⟩
  · intro q tokens h
    obtain ⟨request, hd, _⟩ := h.asked
    have hsent := h.sent hs hd fun q hq => (Name.exists_write_iff q.name).mp (hwritable request hd q hq)
    obtain ⟨_, _, _, _, _, _, haa, hcode⟩ := replyFlags_fields request.flags .noError true
    rw [hsent]
    refine ⟨haa, hcode, s.tokenTtl, s.toNat_tokenTtl, ?_⟩
    show (tokens.map _).map Record.bare = _
    rw [List.map_map]
    rfl

/-! Two servers are asked for their tokens in mixed case: one whose tokens were replaced since it started, and one
with a token file. -/

def challengeConfig : Config := { acme := { challenge1 := some "first", ttl := some 5000000000 } }

def renewedSettings : AcmeSettings := { challenge1 := some " second ", challenge2 := some "third" }

def renewedServer : Server where
  config := challengeConfig
  cache := Cache.ofSettings challengeConfig.cache
  store := {}
  proxies := .ofTable challengeConfig.proxies
  tokens := renewedSettings.tokens

def tokenText : String := "\x7b\"challenge_2\":\"fifth\",\"challenge_1\":\" fourth\"\x7d"

def tokenPlace : Place := .file (Text.toUtf8 tokenText)

def filedServer : Server := { renewedServer with tokens := challengeConfig.acme.tokens, tokenFile := some tokenPlace }

theorem denotes_tokenText : Json.Denotes (Text.toUtf8 tokenText) TokenFile.meaning ⟨some " fourth", some "fifth"⟩ :=
  Json.denotes_of_chars TokenFile.reads_decode String.toList_ofList (by decide +kernel)

def challengeQuestion : Question := ⟨"_Acme-Challenge.Tunnel4.com", typeTxt, classIn⟩

def challengeRequest : Message := ⟨7, ⟨0x0100⟩, [challengeQuestion], []⟩

theorem asksTokens_challengeQuestion (hconfig : s.config = challengeConfig) : s.AsksTokens challengeQuestion where
  text := rfl
  name := by
    rw [hconfig]
    exact ⟨"tunnel4.com", by decide, by decide +kernel⟩

theorem text_iff_serves_renewed : ∃ packet, Message.decode packet = .ok challengeRequest ∧
    (∃ s r, start challengeConfig none none = .ok s ∧ s.after [.tokens renewedSettings.tokens] = renewedServer ∧
      Message.decode (renewedServer.handle packet).reply = .ok r ∧ r.flags.responseCode = 0 ∧
      r.answers = [" second ", "third"].map (.text "_Acme-Challenge.Tunnel4.com" 4294967295)) ∧
    ∃ r, start challengeConfig none (some tokenPlace) = .ok filedServer ∧
      Message.decode (filedServer.handle packet).reply = .ok r ∧ r.flags.responseCode = 0 ∧
      r.answers = [" fourth", "fifth"].map (.text "_Acme-Challenge.Tunnel4.com" 4294967295) := by
  have hquery : ∃ packet, challengeRequest.encode = .ok packet := ⟨_, rfl⟩
  obtain ⟨packet, hpacket⟩ := hquery
  have hd : Message.decode packet = .ok challengeRequest := Message.decode_of_encode hpacket fun r hr => nomatch hr
  have hwritable : ∀ request, Message.decode packet = .ok request → ∀ q ∈ request.questions,
      ∃ bytes, Name.write q.name = .ok bytes := by
    intro request hr q hq
    cases hd.symm.trans hr
    cases List.mem_singleton.mp hq
    exact ⟨_, rfl⟩
  -- either server, with what its source holds
  have hserved : ∀ {s : Server} {challenge₁ challenge₂ tokens}, s.Furnished → s.config = challengeConfig →
      s.Holds challenge₁ challenge₂ → presentTokens challenge₁ challenge₂ = tokens → tokens ≠ [] →
      (∀ token ∈ tokens, token.length ≤ 255 ∧ ∀ c ∈ token.toList, c.toNat ≤ 255) →
      ∃ r, Message.decode (s.handle packet).reply = .ok r ∧ r.flags.responseCode = 0 ∧
        r.answers = tokens.map (.text "_Acme-Challenge.Tunnel4.com" 4294967295) := by
    intro s challenge₁ challenge₂ tokens hs hconfig hholds htokens hne hfit
    obtain ⟨_, r, hr, _, hserves⟩ := text_iff_serves hs hwritable
    obtain ⟨_, hcode, ttl, httl, hanswers⟩ := hserves challengeQuestion tokens
      ⟨⟨_, hd, rfl⟩, asksTokens_challengeQuestion hconfig, ⟨_, _, hholds, htokens.symm⟩, hne, hfit⟩
    rw [hconfig] at httl
    have hclamped : ttl = 4294967295 := UInt32.toNat.inj httl
    rw [hclamped] at hanswers
    exact ⟨r, hr, hcode, hanswers⟩
  have hstart : start challengeConfig none none = .ok { renewedServer with tokens := challengeConfig.acme.tokens } :=
    rfl
  have hafter : ({ renewedServer with tokens := challengeConfig.acme.tokens } : Server).after
      [.tokens renewedSettings.tokens] = renewedServer := rfl
  have hrenewed : renewedServer.Furnished := by
    rw [← hafter]
    refine (furnished_of_start hstart).after fun tokens hmem => ?_
    cases List.mem_singleton.mp hmem
    exact ⟨renewedSettings, rfl⟩
  have hfiled : start challengeConfig none (some tokenPlace) = .ok filedServer := rfl
  have hfit : ∀ token ∈ [" second ", "third"], token.length ≤ 255 ∧ ∀ c ∈ token.toList, c.toNat ≤ 255 :=
    List.forall_mem_cons.mpr ⟨⟨by decide, by simp⟩, List.forall_mem_singleton.mpr ⟨by decide, by simp⟩⟩
  have hfit' : ∀ token ∈ [" fourth", "fifth"], token.length ≤ 255 ∧ ∀ c ∈ token.toList, c.toNat ≤ 255 :=
    List.forall_mem_cons.mpr ⟨⟨by decide, by simp⟩, List.forall_mem_singleton.mpr ⟨by decide, by simp⟩⟩
  obtain ⟨r, hr⟩ := hserved hrenewed rfl (.settings rfl rfl) (by decide +kernel) (by decide) hfit
  obtain ⟨r', hr'⟩ := hserved (furnished_of_start hfiled) rfl (.file rfl rfl denotes_tokenText) (by decide +kernel)
    (by decide) hfit'
  exact ⟨packet, hd, ⟨_, r, hstart, hafter, hr⟩, r', hfiled, hr'⟩

end Server

end NameServer
