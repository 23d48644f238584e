import NameServer.Proofs.RoundTrip
import NameServer.Proofs.Run

/-!
# How old an answer from the cache can be

Sweeping sessions and replacing proxy entries change what is true without
telling the cache. What it still answers was true less than its absolute time
ago, when a query found it, because looking an entry up doesn't change when it
was written.
-/

namespace NameServer.Server

/-- **Bounded staleness.** An address that a run ends up answering without asking the store was found by an
earlier query for the same key, less than the absolute time ago, and no operation since then has disturbed
the key. -/
theorem origin_of_cached_answer {s : Server} (hempty : s.cache.entries = .empty) {ops : List Operation}
    {packet : List UInt8} {host : TunnelHost} {record : Record} {ip : Ipv4}
    (hasked : (s.after ops).asked? packet = some host)
    (hcached : ((s.after ops).handle packet).askedStore = false)
    (hrecord : record ∈ (s.after ops).answersTo packet) (hip : record.data = .address ip) :
    ∃ before query between, ops = before ++ .query query :: between ∧
      (s.after before).Finds query host.key ip ∧
      (s.after before).now ≤ (s.after ops).now ∧
      (s.after ops).now - (s.after before).now < s.cache.absolute ∧
      ((s.after before).step (.query query)).2.Undisturbed host.key between := by
  have hfound := address_of_answersTo hasked hrecord hip
  have hhit := (handle_of_asked? hasked).2.symm.trans hcached
  obtain ⟨e, he, haddress, hlive⟩ := entry_of_hit hfound hhit
  rcases entry_of_after he with ⟨e₀, h₀, _⟩ | ⟨before, query, between, ip', hops, hf, hea, hew, hu⟩
  · rw [hempty] at h₀
    cases h₀
  · have hsame : ip' = ip := by
      rw [hea, addressOf?_toString] at haddress
      exact Option.some.inj haddress
    subst hsame
    refine ⟨before, query, between, hops, hf, ?_, ?_, hu⟩
    · rw [hops, after_append]
      exact now_le_after ..
    · simp only [Cache.isExpired, Bool.or_eq_false_iff, decide_eq_false_iff_not, Nat.not_le] at hlive
      have hage := hlive.2
      rw [hew, Cache.absolute_of_emptied (emptied_after ops s)] at hage
      exact hage

/-! A server with one proxy entry, asked for it before and after the entry goes. -/

def entryServer : Server where
  config := {}
  cache := Cache.ofSettings {}
  store := {}
  proxies := ⟨Table.empty.insert "e1" "203.0.113.10"⟩
  tokens := []

def appHost : TunnelHost := ⟨"app", "e1", "tunnel4.com"⟩

def entryRun : List Operation := [.query appQuery, .advance 2000, .proxies ⟨.empty⟩]

theorem decode_appQuery :
    Message.decode appQuery = .ok ⟨7, ⟨0x0100⟩, [⟨"app-e1.tunnel4.com", typeA, classIn⟩], []⟩ := by
  have hb : Message.encode ⟨7, ⟨0x0100⟩, [⟨"app-e1.tunnel4.com", typeA, classIn⟩], []⟩ = .ok appQuery := rfl
  rw [Message.decode_of_encode hb fun r hr => absurd hr List.not_mem_nil]
  rfl

theorem after_entryRun : entryServer.after entryRun =
    { entryServer with
      cache := (entryServer.resolved appHost).cache, now := 2000, proxies := ⟨.empty⟩ } := by
  have hasked : entryServer.asked? appQuery = some appHost := by
    rw [asked?, decode_appQuery]
    decide +kernel
  show ({ (entryServer.handle appQuery).server.advance 2000 with proxies := ⟨.empty⟩ } : Server) = _
  rw [(handle_of_asked? hasked).1]
  rfl

theorem origin_of_answer_after_entryRun :
    .address "app-e1.tunnel4.com" 30 ⟨203, 0, 113, 10⟩ ∈ (entryServer.after entryRun).answersTo appQuery ∧
    ∃ before query between, entryRun = before ++ .query query :: between ∧
      (entryServer.after before).Finds query appHost.key ⟨203, 0, 113, 10⟩ ∧
      (entryServer.after before).now ≤ (entryServer.after entryRun).now ∧
      (entryServer.after entryRun).now - (entryServer.after before).now < entryServer.cache.absolute ∧
      ((entryServer.after before).step (.query query)).2.Undisturbed appHost.key between := by
  have hasked : (entryServer.after entryRun).asked? appQuery = some appHost := by
    rw [asked?, decode_appQuery, after_entryRun]
    decide +kernel
  have hcached : ((entryServer.after entryRun).handle appQuery).askedStore = false := by
    rw [(handle_of_asked? hasked).2, after_entryRun]
    decide +kernel
  have hrecord : .address "app-e1.tunnel4.com" 30 ⟨203, 0, 113, 10⟩ ∈
      (entryServer.after entryRun).answersTo appQuery := by
    rw [answersTo, decode_appQuery, after_entryRun]
    decide +kernel
  exact ⟨hrecord, origin_of_cached_answer rfl hasked hcached hrecord rfl⟩

end NameServer.Server
