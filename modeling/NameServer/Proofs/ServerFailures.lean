import NameServer.Proofs.Challenges

/-!
# When a query fails

A query fails for three reasons: it can't be read, a question in it can't be
written back, or a token that it asks for doesn't fit into a record. What the
store, the proxy entries or the token source can't give makes no failure.
-/

namespace NameServer

open Message (decode numberAt?)

/-! ## Reasons -/

/-- The packet is no message. -/
def Unreadable (packet : List UInt8) : Prop := ∃ e, decode packet = .error e

/-- A question of the packet, not only the first one, has a name with nothing between two dots. -/
def Gapped (packet : List UInt8) : Prop :=
  ∃ request, decode packet = .ok request ∧ ∃ q ∈ request.questions, Name.HasGap q.name

/-- The packet asks for tokens first, and one of them is too long or has a character that is no byte. -/
def Server.AsksOverlong (s : Server) (packet : List UInt8) : Prop :=
  ∃ request q tokens, decode packet = .ok request ∧ request.questions.head? = some q ∧ s.AsksTokens q ∧
    s.currentTokens = .ok tokens ∧ ∃ token ∈ tokens, 255 < token.length ∨ ∃ c ∈ token.toList, 255 < c.toNat

/-- The reply to a packet reads as `r`, which is a failure for these reasons only, with as much of the request
as can be given back. -/
structure FailsExactly (s : Server) (packet reply : List UInt8) (r : Message) : Prop where
  reads : decode reply = .ok r
  fails : r.flags.responseCode = 2 ↔ Unreadable packet ∨ Gapped packet ∨ s.AsksOverlong packet
  headerOnly : Unreadable packet ∨ Gapped packet →
    reply.length = 12 ∧ ∀ offset ∈ [4, 6, 8, 10], numberAt? reply offset = some 0
  echoed : s.AsksOverlong packet → ¬ Gapped packet →
    ∃ request, decode packet = .ok request ∧ r.questions = request.questions.map Question.bare ∧ r.answers = []
  otherwise : ¬ (Unreadable packet ∨ Gapped packet ∨ s.AsksOverlong packet) → r.flags.responseCode ∈ [0, 3, 5]

namespace Server

variable {s : Server} {packet : List UInt8} {request : Message}

theorem gapped_iff (hd : decode packet = .ok request) :
    Gapped packet ↔ ¬ ∀ q ∈ request.questions, Name.Writable q.name := by
  rw [← Message.exists_gap_iff hd]
  constructor
  · rintro ⟨request', hd', hgap⟩
    cases hd.symm.trans hd'
    exact hgap
  · exact fun hgap => ⟨request, hd, hgap⟩

theorem asksOverlong_iff (htokens : s.tokens.length ≤ 65535) (hd : decode packet = .ok request) :
    s.AsksOverlong packet ↔ ¬ (s.respond request).reply.AnswersFit := by
  have hoverlong : ∀ token : String, (255 < token.length ∨ ∃ c ∈ token.toList, 255 < c.toNat) ↔
      ¬ (RecordData.text token).Fits := by
    intro token
    simp only [RecordData.Fits, not_and_or, not_forall, Nat.not_le, exists_prop]
  have hoffered : ∀ token, token ∈ s.offered ↔ ∃ tokens, s.currentTokens = .ok tokens ∧ token ∈ tokens := by
    intro token
    unfold offered
    cases s.currentTokens with
    | ok tokens =>
      refine ⟨fun h => ⟨tokens, rfl, h⟩, ?_⟩
      rintro ⟨_, he, h⟩
      cases he
      exact h
    | error _ =>
      refine iff_of_false List.not_mem_nil ?_
      rintro ⟨_, he, _⟩
      cases he
  rw [answersFit_respond_iff htokens]
  simp only [AsksOverlong, hoverlong, not_forall]
  constructor
  · rintro ⟨request', q, tokens, hd', hq, ha, hcurrent, token, ht, hnot⟩
    cases hd.symm.trans hd'
    exact ⟨q, hq, ha, token, (hoffered token).mpr ⟨tokens, hcurrent, ht⟩, hnot⟩
  · rintro ⟨q, hq, ha, token, ht, hnot⟩
    obtain ⟨tokens, hcurrent, ht⟩ := (hoffered token).mp ht
    exact ⟨request, q, tokens, hd, hq, ha, hcurrent, token, ht, hnot⟩

theorem headerOnly_of_encode {m : Message} {bytes : List UInt8} (h : m.encode = .ok bytes) (hq : m.questions = [])
    (ha : m.answers = []) : bytes.length = 12 ∧ ∀ offset ∈ [4, 6, 8, 10], numberAt? bytes offset = some 0 := by
  obtain ⟨_, _, questions, answers, hqs, has, rfl⟩ := (Message.encode_ok_iff m bytes).mp h
  rw [hq] at hqs ⊢
  rw [ha] at has ⊢
  cases hqs
  cases has
  refine ⟨rfl, fun offset ho => ?_⟩
  simp only [List.mem_cons, List.not_mem_nil, or_false] at ho
  rcases ho with rfl | rfl | rfl | rfl <;> rfl

theorem responseCode_failure (request : Message) : request.failure.flags.responseCode = 2 :=
  responseCode_reply request .serverFailure false []

theorem responseCode_respond (s : Server) (request : Message) :
    (s.respond request).reply.flags.responseCode ∈ [0, 3, 5] := by
  obtain ⟨code, answers, hr, hcode, _⟩ := s.respond_cases request
  rw [hr, responseCode_reply]
  cases code with
  | serverFailure => exact absurd rfl hcode
  | noError | nameError | refused => decide

/-! ## Outcomes -/

/-- Each packet has one of three outcomes: a header, a failure with its questions, or no failure. -/
theorem outcome_cases (htokens : s.tokens.length ≤ 65535) (packet : List UInt8) :
    ((Unreadable packet ∨ Gapped packet) ∧ (s.sent packet).flags.responseCode = 2 ∧
      (s.sent packet).questions = [] ∧ (s.sent packet).answers = []) ∨
    (¬ Unreadable packet ∧ ¬ Gapped packet ∧ s.AsksOverlong packet ∧
      ∃ request, decode packet = .ok request ∧ s.sent packet = request.failure) ∨
    ¬ Unreadable packet ∧ ¬ Gapped packet ∧ ¬ s.AsksOverlong packet ∧
      (s.sent packet).flags.responseCode ∈ [0, 3, 5] := by
  cases hd : decode packet with
  | error e =>
    have hcode := (replyFlags_fields ((Message.peekFlags packet).getD ⟨0⟩) .serverFailure false).2.2.2.2.2.2.2
    rw [sent, hd]
    exact .inl ⟨.inl ⟨e, hd⟩, hcode, rfl, rfl⟩
  | ok request =>
    have hread : ¬ Unreadable packet := by
      rintro ⟨_, he⟩
      cases hd.symm.trans he
    rw [gapped_iff hd, asksOverlong_iff htokens hd]
    rcases sent_cases hd s with ⟨hq, ⟨hfit, hsent⟩ | ⟨hfit, hsent⟩⟩ | ⟨hq, hsent⟩
    · rw [hsent]
      exact .inr (.inr ⟨hread, not_not_intro hq, not_not_intro hfit, s.responseCode_respond request⟩)
    · exact .inr (.inl ⟨hread, not_not_intro hq, hfit, request, rfl, hsent⟩)
    · rw [hsent]
      exact .inl ⟨.inr hq, responseCode_failure request, rfl, rfl⟩

/-- **When a query fails.** No server has more tokens than a message can have answers, because settings give two
at most. -/
theorem handle_failsExactly (htokens : s.tokens.length ≤ 65535) (packet : List UInt8) :
    ∃ r, FailsExactly s packet (s.handle packet).reply r := by
  have hreads := s.decode_reply packet
  refine ⟨(s.sent packet).bare, ?_⟩
  rcases outcome_cases htokens packet with
    ⟨hbad, hcode, hq, ha⟩ | ⟨hread, hgap, hoverlong, request, hd, hsent⟩ | ⟨hread, hgap, hoverlong, hcode⟩
  · have hall : Unreadable packet ∨ Gapped packet ∨ s.AsksOverlong packet := hbad.imp_right .inl
    refine ⟨hreads, iff_of_true hcode hall, fun _ => headerOnly_of_encode (s.encode_sent packet) hq ha, ?_,
      fun hnot => absurd hall hnot⟩
    -- what asks for a token can be read, so here it has a gap
    rintro ⟨_, _, _, hd, _⟩ hgap
    rcases hbad with ⟨_, he⟩ | h
    · cases hd.symm.trans he
    · exact absurd h hgap
  · have hall : Unreadable packet ∨ Gapped packet ∨ s.AsksOverlong packet := .inr (.inr hoverlong)
    rw [hsent] at hreads ⊢
    exact ⟨hreads, iff_of_true (responseCode_failure request) hall, fun h => absurd h (not_or_intro hread hgap),
      fun _ _ => ⟨request, hd, rfl, rfl⟩, fun hnot => absurd hall hnot⟩
  · have hnone : ¬ (Unreadable packet ∨ Gapped packet ∨ s.AsksOverlong packet) :=
      not_or_intro hread (not_or_intro hgap hoverlong)
    refine ⟨hreads, iff_of_false ?_ hnone, fun h => absurd h (not_or_intro hread hgap),
      fun h => absurd h hoverlong, fun _ => hcode⟩
    intro hfailed
    have hcode' : (s.sent packet).flags.responseCode = 2 := hfailed
    rw [hcode'] at hcode
    exact absurd hcode (by decide)

/-! A server that holds one token that fits and one with a character that is no byte, asked for them. -/

def foreignServer : Server where
  config := challengeConfig
  cache := Cache.ofSettings challengeConfig.cache
  store := { reachable := false }
  proxies := .ofTable challengeConfig.proxies
  tokens := ["plain", "ā"]

theorem handle_failsExactly_foreign : ∃ packet r, decode packet = .ok challengeRequest ∧
    foreignServer.tokens.length ≤ 65535 ∧ FailsExactly foreignServer packet (foreignServer.handle packet).reply r ∧
    r.flags.responseCode = 2 ∧ r.questions = [challengeQuestion] ∧ r.answers = [] := by
  have hquery : ∃ packet, challengeRequest.encode = .ok packet := ⟨_, rfl⟩
  obtain ⟨packet, hpacket⟩ := hquery
  have hd : decode packet = .ok challengeRequest := Message.decode_of_encode hpacket fun r hr => nomatch hr
  have htokens : foreignServer.tokens.length ≤ 65535 := by decide
  obtain ⟨r, hr⟩ := handle_failsExactly htokens packet
  have hasks : foreignServer.AsksTokens challengeQuestion := ⟨rfl, "tunnel4.com", by decide, by decide +kernel⟩
  have hoverlong : foreignServer.AsksOverlong packet :=
    ⟨_, _, _, hd, rfl, hasks, rfl, "ā", by decide, .inr ⟨'ā', by decide, by decide⟩⟩
  have hgap : ¬ Gapped packet := by
    rw [gapped_iff hd, not_not]
    intro q hq
    cases List.mem_singleton.mp hq
    exact (Name.exists_write_iff _).mp ⟨_, rfl⟩
  obtain ⟨request, hd', hquestions, hanswers⟩ := hr.echoed hoverlong hgap
  cases hd.symm.trans hd'
  exact ⟨packet, r, hd, htokens, hr, hr.fails.mpr (.inr (.inr hoverlong)), hquestions, hanswers⟩

end Server

end NameServer
