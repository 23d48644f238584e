import NameServer.Proofs.CacheEffects
import NameServer.Proofs.Interleaving
import NameServer.Proofs.Restart

/-!
# Sweeping and the cache

Closing a session drops its hostname from the cache, a sweep doesn't. So the
address of a session that expired can stay behind in the cache, and queries
are answered with it until the key is disturbed or the entry expires. Nothing
else makes an answer differ from what the store and the proxy entries have.
-/

namespace NameServer

/-- The proxy entries stay as they are. -/
def Operation.keepsProxies : Operation → Bool
  | .proxies _ => false
  | _ => true

theorem Operation.quiet_or_sweep {op : Operation} (h : op.keepsProxies = true) :
    op.isQuiet = true ∨ ∃ now, op = .sweep now := by
  cases op with
  | sweep now => exact .inr ⟨now, rfl⟩
  | proxies _ => cases h
  | query _ | opened _ | closed _ | evict _ | clear | tokens _ | tokenFile _ | advance _ => exact .inl rfl

namespace Server

/-- A sweep takes the session of a key away while its address is in the cache. -/
structure Strands (s : Server) (now : Timestamp) (key : String) (ip : Ipv4) : Prop where
  expired : ∃ session, s.store.find key = .ok (some session) ∧ session.isExpired now = true ∧
    addressOf? session.address = some ip
  cached : ∃ e, s.cache.entries.get? key = some e ∧ e.address = toString ip

/-- A sweep has left an address in the cache, and nothing has disturbed its key since. -/
def Stranded (s : Server) (ops : List Operation) (key : String) (ip : Ipv4) : Prop :=
  ∃ before now between, ops = before ++ .sweep now :: between ∧ (s.after before).Strands now key ip ∧
    ((s.after before).step (.sweep now)).2.Undisturbed key between

variable {s : Server} {op : Operation} {ops : List Operation} {key : String} {ip : Ipv4}

theorem after_concat (s : Server) (ops : List Operation) (op : Operation) :
    s.after (ops ++ [op]) = ((s.after ops).step op).2 := after_append s ops [op]

theorem Undisturbed.concat : ∀ {ops : List Operation} {s : Server}, s.Undisturbed key ops →
    ¬ (s.after ops).Disturbs key op → s.Undisturbed key (ops ++ [op])
  | [], _, _, hop => ⟨hop, trivial⟩
  | _ :: _, _, ⟨hfirst, hrest⟩, hop => ⟨hfirst, hrest.concat hop⟩

theorem Stranded.concat (h : s.Stranded ops key ip) (hop : ¬ (s.after ops).Disturbs key op) :
    s.Stranded (ops ++ [op]) key ip := by
  obtain ⟨before, now, between, rfl, hstrands, hu⟩ := h
  rw [after_append] at hop
  exact ⟨before, now, between ++ [op], by simp, hstrands, hu.concat hop⟩

/-! ## One sweep -/

/-- What a sweep takes away from a key is the address of a session that has expired. -/
theorem addressAt_sweep (hw : s.store.Writable) (hk : Text.lowered key = key) (h : s.addressAt key = some ip)
    (now : Timestamp) : (s.step (.sweep now)).2.addressAt key = some ip ∨
    ∃ session, s.store.find key = .ok (some session) ∧ session.isExpired now = true ∧
      addressOf? session.address = some ip := by
  obtain ⟨hsessions, hw'⟩ := Store.sweep_writable hw now
  have hfind : s.store.find key = .ok (s.store.sessions.get? key) := by
    rw [Store.find, hw.1, Sessions.find, hk]
    rfl
  have hswept : (s.step (.sweep now)).2.store.find key =
      .ok ((s.store.sessions.get? key).filter fun session => !session.isExpired now) := by
    show (s.store.sweep now).2.find key = _
    rw [Store.find, hw'.1, hsessions, Sessions.find, hk, Sessions.get?_dropExpired]
    rfl
  have hproxies : (s.step (.sweep now)).2.proxies = s.proxies := rfl
  rw [addressAt, Store.address?, hfind] at h
  rw [addressAt, Store.address?, hswept, hproxies, hfind]
  cases hsession : s.store.sessions.get? key with
  | none =>
    rw [hsession] at h
    exact .inl h
  | some session =>
    rw [hsession] at h
    rw [Option.filter_some]
    cases hx : session.isExpired now with
    | false => exact .inl h
    | true =>
      cases hip : addressOf? session.address with
      | none => exact .inl (by simpa [hip] using h)
      | some ip' =>
        have hsame : ip' = ip := by simpa [hip] using h
        exact .inr ⟨session, rfl, hx, hip.trans (congrArg some hsame)⟩

/-! ## Runs -/

/-- Each entry in the cache is current, or was left there by a sweep. -/
structure Traced (s : Server) (ops : List Operation) : Prop where
  filed : (s.after ops).store.sessions.Filed
  writable : (s.after ops).store.Writable
  entries : ∀ key e, (s.after ops).cache.entries.get? key = some e → Text.lowered key = key ∧
    ∃ ip, e.address = toString ip ∧ ((s.after ops).addressAt key = some ip ∨ s.Stranded ops key ip)

theorem Coherent.traced (h : s.Coherent) : s.Traced [] where
  filed := h.filed
  writable := h.writable
  entries := by
    intro key e he
    obtain ⟨hk, ip, ha, hip⟩ := h.entries key e he
    exact ⟨hk, ip, ha, .inl hip⟩

theorem Traced.quiet (h : s.Traced ops) (hq : op.isQuiet = true) : s.Traced (ops ++ [op]) where
  filed := by
    rw [after_concat]
    exact filed_step h.filed h.writable hq
  writable := by
    rw [after_concat]
    exact (store_of_step h.writable hq).2.1
  entries := by
    intro key e he
    rw [after_concat] at he ⊢
    rcases entry_of_quiet h.filed h.writable hq he with ⟨e₀, h₀, ha, hd, hsame⟩ | ⟨ip, hk, ha, hip⟩
    · obtain ⟨hk, ip, ha₀, hip⟩ := h.entries key e₀ h₀
      rw [hsame hk]
      exact ⟨hk, ip, ha.trans ha₀, hip.imp_right (·.concat hd)⟩
    · exact ⟨hk, ip, ha, .inl hip⟩

theorem Traced.sweep (h : s.Traced ops) (now : Timestamp) : s.Traced (ops ++ [.sweep now]) where
  filed := by
    rw [after_concat]
    show ((s.after ops).store.sweep now).2.sessions.Filed
    rw [(Store.sweep_writable h.writable now).1]
    exact h.filed.dropExpired now
  writable := by
    rw [after_concat]
    exact (Store.sweep_writable h.writable now).2
  entries := by
    intro key e he
    rw [after_concat] at he ⊢
    -- the cache is the one from before
    obtain ⟨hk, ip, ha, hip⟩ := h.entries key e he
    refine ⟨hk, ip, ha, ?_⟩
    rcases hip with hip | hstranded
    · rcases addressAt_sweep h.writable hk hip now with hsame | hexpired
      · exact .inl hsame
      · exact .inr ⟨ops, now, [], rfl, ⟨hexpired, e, he, ha⟩, trivial⟩
    · exact .inr (hstranded.concat not_false)

theorem Coherent.traced_after (h : s.Coherent) (hops : ∀ op ∈ ops, op.keepsProxies = true) : s.Traced ops := by
  induction ops using List.reverseRecOn with
  | nil => exact h.traced
  | append_singleton ops op ih =>
    have htraced := ih fun op' h' => hops op' (List.mem_append_left _ h')
    rcases Operation.quiet_or_sweep (hops op (List.mem_append_right _ (List.mem_singleton_self _))) with
      hq | ⟨now, rfl⟩
    · exact htraced.quiet hq
    · exact htraced.sweep now

/-- **Only what a sweep has left in the cache is answered in place of what is current.** A query is answered with
what the store and the proxy entries have then, unless the cache still has another address that a sweep left
under the key. -/
theorem current_iff_none_stranded (h : s.Coherent) (hops : ∀ op ∈ ops, op.keepsProxies = true)
    {packet : List UInt8} {host : TunnelHost} (hasked : (s.after ops).asked? packet = some host) :
    ∃ owner address, (s.after ops).answersTo packet =
        (address.map (.address owner (s.after ops).config.ttls.tunnel)).toList ∧
      (address = (s.after ops).addressAt host.key ↔ ∀ ip, s.Stranded ops host.key ip →
        (s.after ops).cached? host.key = some ip → (s.after ops).addressAt host.key = some ip) := by
  obtain ⟨owner, hanswers⟩ := answersTo_of_asked? hasked
  obtain ⟨hostname, hhost⟩ := ofString?_of_asked? hasked
  refine ⟨owner, _, hanswers _ rfl, ?_⟩
  rw [resolved_eq _ hhost]
  cases hcached : (s.after ops).cached? host.key with
  | none => simp
  | some ip =>
    rw [cached?, ← Cache.get_eq_live?] at hcached
    obtain ⟨text, htext, hip⟩ := Option.bind_eq_some_iff.mp hcached
    obtain ⟨e, he, rfl, _⟩ := Cache.get_eq_some htext
    obtain ⟨_, ip', ha, hcurrent⟩ := (h.traced_after hops).entries host.key e he
    have hsame : ip' = ip := by
      rw [ha, addressOf?_toString] at hip
      exact Option.some.inj hip
    subst hsame
    constructor
    · rintro hanswer _ _ ⟨⟩
      exact hanswer.symm
    · intro hall
      exact (hcurrent.elim id fun hstranded => hall ip' hstranded rfl).symm

/-! A session is asked for and then swept. The next query is still answered with it. Once the entry has expired,
a query is answered with the proxy entry. -/

def servingServer : Server := (System.twoEntries.opened System.movedSession).2

def sweptRun : List Operation := [.opened System.movedSession, .query appQuery, .sweep Store.lateLimit]

def agedRun : List Operation := sweptRun ++ [.advance 300000]

/-- After `sweptRun`. -/
def sweptServer : Server :=
  { servingServer with
    cache := (servingServer.resolved appHost).cache
    store := (servingServer.store.sweep Store.lateLimit).2 }

theorem after_sweptRun : System.twoEntries.after sweptRun = sweptServer := by
  have hasked : servingServer.asked? appQuery = some appHost := by
    rw [asked?, decode_appQuery]
    decide +kernel
  show ((servingServer.handle appQuery).server.sweep Store.lateLimit).2 = _
  rw [(handle_of_asked? hasked).1]
  rfl

theorem current_after_agedRun : ∃ owner address, (System.twoEntries.after agedRun).answersTo appQuery =
      (address.map (.address owner (System.twoEntries.after agedRun).config.ttls.tunnel)).toList ∧
    address = some ⟨203, 0, 113, 10⟩ := by
  have hcoherent : System.twoEntries.Coherent := coherent_of_empty rfl Sessions.filed_empty ⟨rfl, fun _ h => nomatch h⟩
  have hafter : System.twoEntries.after agedRun = sweptServer.advance 300000 := by
    rw [agedRun, after_concat, after_sweptRun]
    rfl
  have hasked : (System.twoEntries.after agedRun).asked? appQuery = some appHost := by
    rw [asked?, decode_appQuery, hafter]
    decide +kernel
  obtain ⟨owner, address, hanswers, hcurrent⟩ := current_iff_none_stranded hcoherent (by decide) hasked
  have huncached : (System.twoEntries.after agedRun).cached? appHost.key = none := by
    rw [hafter]
    decide +kernel
  have haddress : (System.twoEntries.after agedRun).addressAt appHost.key = some ⟨203, 0, 113, 10⟩ := by
    rw [hafter]
    decide +kernel
  refine ⟨owner, address, hanswers, ?_⟩
  rw [hcurrent.mpr fun ip _ hcached => absurd (huncached.symm.trans hcached) (by simp), haddress]

theorem swept_session_answered : (∃ session,
      (System.twoEntries.after (sweptRun.take 2)).store.find appHost.key = .ok (some session) ∧
      session.address = "203.0.113.11") ∧
    (System.twoEntries.after sweptRun).store.find appHost.key = .ok none ∧
    (System.twoEntries.after sweptRun).addressAt appHost.key = some ⟨203, 0, 113, 10⟩ ∧
    (System.twoEntries.after sweptRun).answersTo appQuery =
      [.address "app-e1.tunnel4.com" 30 ⟨203, 0, 113, 11⟩] := by
  constructor
  · show ∃ session, (servingServer.handle appQuery).server.store.find appHost.key = .ok (some session) ∧ _
    rw [handle_server]
    exact ⟨_, rfl, rfl⟩
  · rw [answersTo, decode_appQuery, after_sweptRun]
    decide +kernel

end Server

end NameServer
