import NameServer.Proofs.FailedWrites

/-!
# How long a session lives

A session ends so many seconds after its timestamp, or at the end of the year
9999 where it was opened if that is earlier. Until an event closes or replaces
it, it is held exactly as long as no sweep is made at a later moment. Sweeps
need no care: one that is repeated does nothing, and one that is followed by a
later sweep leaves no trace.
-/

namespace NameServer

open Sessions (Call)

/-! ## Ends -/

namespace Timestamp

variable (t : Timestamp)

theorem lastClock_lt : clockLimit - 1 < clockLimit := by decide

/-- The last nanosecond of the year 9999 at the same offset. -/
def last : Timestamp := { t with clock := clockLimit - 1, clock_lt := lastClock_lt }

theorem ofFields?_last : ofFields? ⟨9999, 12, 31⟩ 23 59 59 999999999 t.offset = some t.last := by
  have hclock : ((Date.toDays ⟨9999, 12, 31⟩ * 1440 + 23 * 60 + 59) * 60 + 59) * perSecond + 999999999 =
      clockLimit - 1 := by
    decide +kernel
  have hfits : clockLimit - 1 < clockLimit ∧ -1440 < t.offset ∧ t.offset < 1440 :=
    ⟨lastClock_lt, t.offset_gt, t.offset_lt⟩
  have hclock? : ofClock? (clockLimit - 1) t.offset = some t.last := dif_pos hfits
  rw [ofFields?, ← hclock?, ← hclock]
  rfl

theorem offset_after (seconds : Nat) : (t.after seconds).offset = t.offset := by rw [after]

theorem offset_last : t.last.offset = t.offset := by rw [last]

theorem moment_after (seconds : Nat) :
    (t.after seconds).moment = min (t.moment + (seconds * perSecond : Nat)) t.last.moment := by
  have hclock : (t.after seconds).clock = min (t.clock + seconds * perSecond) t.last.clock := rfl
  rw [moment, moment, moment, offset_after, offset_last, hclock]
  generalize t.offset * (60 * perSecond) = ahead
  generalize seconds * perSecond = duration
  omega

theorem moment_le_after (seconds : Nat) : t.moment ≤ (t.after seconds).moment := by
  have hclock : t.clock ≤ (t.after seconds).clock :=
    Nat.le_min.mpr ⟨Nat.le_add_right .., Nat.le_sub_one_of_lt t.clock_lt⟩
  rw [moment, moment, offset_after]
  exact Int.sub_le_sub_right (Int.ofNat_le.mpr hclock) _

/-- A number of seconds may be cut off at any that is beyond the years that there are. -/
theorem after_min {limit : Nat} (h : clockLimit ≤ limit * perSecond) (seconds : Nat) :
    t.after (min seconds limit) = t.after seconds := by
  rcases Nat.le_total seconds limit with hle | hle
  · rw [Nat.min_eq_left hle]
  · have hlimit := Nat.mul_le_mul_right perSecond hle
    have hbeyond := Nat.le_trans (Nat.sub_le clockLimit 1) h
    rw [Nat.min_eq_right hle, after, after, mk.injEq]
    rw [Nat.min_eq_right (Nat.le_add_left_of_le hbeyond),
      Nat.min_eq_right (Nat.le_add_left_of_le (Nat.le_trans hbeyond hlimit))]
    exact ⟨rfl, rfl⟩

example (seconds : Nat) : t.after (min seconds 9223372036854775807) = t.after seconds :=
  t.after_min (by decide) seconds

end Timestamp

theorem Session.isExpired_mono {session : Session} {earlier now : Timestamp} (h : earlier.moment ≤ now.moment)
    (hx : session.isExpired earlier = true) : session.isExpired now = true :=
  isExpired_iff.mpr (Int.lt_of_lt_of_le (isExpired_iff.mp hx) h)

/-! ## Sweeps one after another -/

namespace Sessions

variable (sessions : Sessions) {earlier now : Timestamp}

theorem dropExpired_dropExpired (h : earlier.moment ≤ now.moment) :
    ((sessions.dropExpired earlier).2.dropExpired now).2 = (sessions.dropExpired now).2 := by
  apply Table.ext
  simp only [dropExpired, Table.filter, List.filter_filter]
  apply List.filter_congr
  rintro ⟨_, session⟩ _
  cases hx : session.isExpired earlier with
  | false => simp
  | true => simp [session.isExpired_mono h hx]

theorem dropExpired_twice : ((sessions.dropExpired now).2.dropExpired now).1 = 0 := by
  rw [dropExpired_fst, List.length_eq_zero_iff, List.filter_eq_nil_iff]
  intro session hmem
  obtain ⟨_, hheld⟩ := Table.mem_values_iff.mp hmem
  rw [get?_dropExpired, Option.filter_eq_some_iff] at hheld
  simpa using hheld.2

theorem dropExpired_of_later (h : earlier.moment ≤ now.moment) (hzero : (sessions.dropExpired now).1 = 0) :
    (sessions.dropExpired earlier).1 = 0 := by
  rw [dropExpired_fst, List.length_eq_zero_iff, List.filter_eq_nil_iff] at hzero ⊢
  exact fun session hmem hx => hzero session hmem (session.isExpired_mono h hx)

end Sessions

namespace Store

variable {store : Store} {earlier now : Timestamp}

/-- What is saved in a state file is gone when other sessions are saved. -/
theorem save_save (store : Store) (sessions : Sessions) :
    ({ store.save.2 with sessions } : Store).save.2 = ({ store with sessions } : Store).save.2 := by
  obtain ⟨held, backing, reachable⟩ := store
  cases backing with
  | memory => rfl
  | disk place => cases place <;> rfl

theorem sessions_call (hreach : store.reachable = true) (c : Call) :
    (store.call c).2.sessions = (store.sessions.call c).2 ∧ (store.call c).2.reachable = true :=
  sessions_after [c] hreach

theorem sweep_snd (store : Store) (now : Timestamp) : (store.sweep now).2 = (store.call (.dropExpired now)).2 := by
  rw [sweep, call]
  split
  · next hdrop => rw [hdrop]
  · next hdrop => rw [hdrop]

theorem sessions_sweep (hreach : store.reachable = true) (now : Timestamp) :
    (store.sweep now).2.sessions = (store.sessions.dropExpired now).2 ∧ (store.sweep now).2.reachable = true := by
  rw [sweep_snd]
  exact sessions_call hreach (.dropExpired now)

theorem sweep_unreachable (hreach : store.reachable = false) : store.sweep now = (0, store) := by
  rw [sweep, dropExpired, hreach]
  rfl

theorem sweep_of_zero (hzero : (store.sessions.dropExpired now).1 = 0) : store.sweep now = (0, store) := by
  obtain ⟨held, backing, reachable⟩ := store
  have hsame := held.dropExpired_of_zero now hzero
  rcases hdrop : held.dropExpired now with ⟨count, live⟩
  rw [hdrop] at hsame
  simp only [hdrop] at hzero
  cases hzero
  cases hsame
  rw [sweep, dropExpired, hdrop]
  cases reachable <;> rfl

theorem sweep_of_ne_zero (hreach : store.reachable = true) (hcount : (store.sessions.dropExpired now).1 ≠ 0) :
    (store.sweep now).2 = ({ store with sessions := (store.sessions.dropExpired now).2 } : Store).save.2 := by
  have hchanged : ((store.sessions.dropExpired now).1 != 0) = true := bne_iff_ne.mpr hcount
  rw [sweep_snd, call, dropExpired, hreach]
  show (commit _ ((store.sessions.dropExpired now).1 != 0) _).2 = _
  rw [hchanged]
  rfl

theorem sweep_sweep (store : Store) (now : Timestamp) : (store.sweep now).2.sweep now = (0, (store.sweep now).2) := by
  cases hreach : store.reachable with
  | false => rw [sweep_unreachable hreach, sweep_unreachable hreach]
  | true =>
    apply sweep_of_zero
    rw [(sessions_sweep hreach now).1]
    exact store.sessions.dropExpired_twice

theorem sweep_later (store : Store) (h : earlier.moment ≤ now.moment) :
    ((store.sweep earlier).2.sweep now).2 = (store.sweep now).2 := by
  cases hreach : store.reachable with
  | false => rw [sweep_unreachable hreach, sweep_unreachable hreach]
  | true =>
    by_cases hearlier : (store.sessions.dropExpired earlier).1 = 0
    · rw [sweep_of_zero hearlier]
    -- what the earlier sweep drops, the later one alone would drop and save too
    · have hnow := mt (store.sessions.dropExpired_of_later h) hearlier
      obtain ⟨hsessions, hreach'⟩ := sessions_sweep hreach earlier
      have hboth := store.sessions.dropExpired_dropExpired h
      rw [← hsessions] at hboth
      rw [sweep_of_ne_zero hreach hnow]
      by_cases hrest : ((store.sweep earlier).2.sessions.dropExpired now).1 = 0
      · rw [sweep_of_zero hrest, sweep_of_ne_zero hreach hearlier, ← hboth, Sessions.dropExpired_of_zero _ _ hrest,
          hsessions]
      · rw [sweep_of_ne_zero hreach' hrest, hboth, sweep_of_ne_zero hreach hearlier]
        exact save_save { store with sessions := (store.sessions.dropExpired earlier).2 } _

end Store

/-! ## Runs -/

theorem Sessions.find_call_of_not_displaces {sessions : Sessions} {session : Session}
    (hkey : Text.lowered session.hostname = session.hostname)
    (honly : ∀ held ∈ sessions.find session.hostname, held = session) {c : Call} (hc : c.displaces session = false) :
    (sessions.call c).2.find session.hostname = sessions.find session.hostname := by
  rw [← Call.spares_iff]
  cases c with
  | put other =>
    simp only [Call.displaces, Bool.or_eq_false_iff, beq_eq_false_iff_ne] at hc
    rw [Call.spares, hkey, if_neg hc.2, Option.all_eq_true]
    intro held hheld
    rw [honly held hheld]
    exact bne_iff_ne.mpr hc.1
  | remove id =>
    rw [Call.spares, hkey, Option.all_eq_true]
    -- were the first session with the id the one under the hostname, it would be ours
    rintro ⟨key, held⟩ hfirst
    rw [bne_iff_ne]
    rintro rfl
    have hheld : sessions.find session.hostname = some held := by
      rw [find, hkey]
      exact (Table.get?_eq_some_iff ..).mpr (List.mem_of_find?_eq_some hfirst)
    have hid := List.find?_some hfirst
    simp only [honly held hheld] at hid
    cases hid.symm.trans hc
  | dropExpired now =>
    rw [Call.spares, Option.all_eq_true]
    intro held hheld
    rw [honly held hheld]
    exact congrArg not hc
  | find _ => rfl

theorem filter_true {α : Type} : ∀ found : Option α, found.filter (fun _ => true) = found
  | none => rfl
  | some _ => rfl

/-- A sweep after the end of a session. -/
def Operation.expires : Operation → Session → Bool
  | .sweep now, session => session.isExpired now
  | _, _ => false

namespace Server

variable {s : Server} {op : Operation} {session : Session}

/-- The call that an operation makes to the store. -/
def storeCall? (s : Server) : Operation → Option Call
  | .sweep now => some (.dropExpired now)
  | op => s.callOf? op

/-- Whether an event closes or replaces a session. -/
def retires (s : Server) (session : Session) (op : Operation) : Bool := (s.callOf? op).any (·.displaces session)

def Unretired (s : Server) (session : Session) : List Operation → Prop
  | [] => True
  | op :: ops => s.retires session op = false ∧ (s.step op).2.Unretired session ops

theorem store_step (s : Server) (op : Operation) :
    (s.step op).2.store = (s.storeCall? op).elim s.store fun c => (s.store.call c).2 := by
  cases op with
  | query packet =>
    show (s.handle packet).server.store = s.store
    rw [handle_server]
  | opened event =>
    have hcall : s.storeCall? (.opened event) =
        (s.proxies.get? event.entryId).map fun address => .put (event.session s.config.zones address) := rfl
    rw [hcall, step, opened, SessionState.opened]
    cases s.proxies.get? event.entryId with
    | none => rfl
    | some address =>
      show _ = (s.store.put (event.session s.config.zones address)).2
      rcases hput : s.store.put (event.session s.config.zones address) with ⟨error | replaced, store⟩
      · simp only [hput]
        rfl
      · simp only [hput]
        rfl
  | closed event =>
    rw [step, closed, SessionState.closed]
    show _ = (s.store.remove event.id).2
    rcases s.store.remove event.id with ⟨error | _ | removed, store⟩ <;> rfl
  | evict segment =>
    show (Api.evict s segment).2.store = s.store
    rw [evict_server]
  | sweep now => exact s.store.sweep_snd now
  | clear | tokens _ | tokenFile _ | proxies _ | advance _ => rfl

theorem find_step (hreach : s.store.reachable = true) (hkey : Text.lowered session.hostname = session.hostname)
    (honly : ∀ held ∈ s.store.sessions.find session.hostname, held = session) (hstays : s.retires session op = false) :
    (s.step op).2.store.reachable = true ∧ (s.step op).2.store.sessions.find session.hostname =
      (s.store.sessions.find session.hostname).filter fun held => !op.expires held := by
  have hsweep : (∃ now, op = .sweep now) ∨ s.storeCall? op = s.callOf? op ∧ op.expires = fun _ => false := by
    cases op with
    | sweep now => exact .inl ⟨now, rfl⟩
    | query _ | opened _ | closed _ | evict _ | clear | tokens _ | tokenFile _ | proxies _ | advance _ =>
      exact .inr ⟨rfl, rfl⟩
  rcases hsweep with ⟨now, rfl⟩ | ⟨hcall, hno⟩
  · obtain ⟨hsessions, hreach'⟩ := Store.sessions_sweep hreach now
    refine ⟨hreach', ?_⟩
    show (s.store.sweep now).2.sessions.find session.hostname = _
    rw [hsessions, Sessions.find, Sessions.get?_dropExpired]
    rfl
  · rw [store_step, hcall, hno]
    simp only [Bool.not_false, filter_true]
    cases hc : s.callOf? op with
    | none => exact ⟨hreach, rfl⟩
    | some c =>
      have hspared : c.displaces session = false := by
        rwa [retires, hc] at hstays
      obtain ⟨hsessions, hreach'⟩ := Store.sessions_call hreach c
      refine ⟨hreach', ?_⟩
      show (s.store.call c).2.sessions.find session.hostname = _
      rw [hsessions]
      exact Sessions.find_call_of_not_displaces hkey honly hspared

theorem find_after (hkey : Text.lowered session.hostname = session.hostname) : ∀ (ops : List Operation) {s : Server},
    s.store.reachable = true → (∀ held ∈ s.store.sessions.find session.hostname, held = session) →
    s.Unretired session ops → (s.after ops).store.find session.hostname =
      .ok ((s.store.sessions.find session.hostname).filter fun held => ops.all fun op => !op.expires held)
  | [], s, hreach, _, _ => by
    rw [after, Store.find, if_pos hreach]
    simp only [List.all_nil, filter_true]
  | op :: ops, s, hreach, honly, ⟨hstays, hrest⟩ => by
    obtain ⟨hreach', hfind⟩ := find_step hreach hkey honly hstays
    -- nothing else comes under the hostname, or it would have replaced the session
    have honly' : ∀ held ∈ (s.step op).2.store.sessions.find session.hostname, held = session := by
      rw [hfind]
      exact fun held hheld => honly held (Option.mem_filter_iff.mp hheld).1
    have ih := find_after hkey ops hreach' honly' hrest
    rw [hfind, Option.filter_filter] at ih
    rw [after, ih]
    simp only [List.all_cons]

/-! ## Events that are accepted -/

variable {e : SessionOpened}

theorem accepted_cases (h : (s.opened e).1 = .ok session) : s.store.reachable = true ∧
    ∃ address, s.callOf? (.opened e) = some (.put session) ∧ session = e.session s.config.zones address := by
  rw [opened, SessionState.opened] at h
  rw [callOf?]
  cases haddress : s.proxies.get? e.entryId with
  | none =>
    rw [haddress] at h
    cases h
  | some address =>
    simp only [haddress] at h
    rcases hput : s.store.put (e.session s.config.zones address) with ⟨error | replaced, store⟩
    · rw [hput] at h
      cases h
    · rw [hput] at h
      cases h
      refine ⟨?_, address, rfl, rfl⟩
      by_contra hreach
      rw [Store.put, Bool.eq_false_iff.mpr hreach] at hput
      cases hput

theorem find_opened (h : (s.opened e).1 = .ok session) : Text.lowered session.hostname = session.hostname ∧
    (s.opened e).2.store.reachable = true ∧ (s.opened e).2.store.sessions.find session.hostname = some session := by
  obtain ⟨hreach, address, hcall, hsession⟩ := accepted_cases h
  have hkey : Text.lowered session.hostname = session.hostname := by
    rw [hsession]
    exact Zone.lowered_sessionName ..
  have hfind := s.store.sessions.find_put session.hostname session
  rw [if_pos rfl, Session.filed, hkey] at hfind
  have hstore : (s.opened e).2.store = (s.store.call (.put session)).2 := by
    have hput : s.storeCall? (.opened e) = some (.put session) := hcall
    have hstep := s.store_step (.opened e)
    rwa [hput] at hstep
  obtain ⟨hsessions, hreach'⟩ := Store.sessions_call hreach (.put session)
  rw [hstore, hsessions]
  exact ⟨hkey, hreach', hfind⟩

theorem sweep_eq (s : Server) (now : Timestamp) :
    s.sweep now = ((s.store.sweep now).1, { s with store := (s.store.sweep now).2 }) := rfl

theorem find_sweep {hostname : String} (h : s.store.find hostname = .ok (some session)) (now : Timestamp) :
    (s.sweep now).2.store.find hostname =
      .ok (if session.expiresAt.moment < now.moment then none else some session) := by
  have hreach : s.store.reachable = true := by
    by_contra hreach
    rw [Store.find, if_neg hreach] at h
    cases h
  rw [Store.find, if_pos hreach, Sessions.find] at h
  obtain ⟨hsessions, hreach'⟩ := Store.sessions_sweep hreach now
  show (s.store.sweep now).2.find hostname = _
  rw [Store.find, if_pos hreach', hsessions, Sessions.find, Sessions.get?_dropExpired, Except.ok.inj h,
    Option.filter_some]
  by_cases hexpired : session.expiresAt.moment < now.moment
  · rw [if_pos hexpired, Session.isExpired_iff.mpr hexpired]
    rfl
  · rw [if_neg hexpired, Bool.eq_false_iff.mpr (mt Session.isExpired_iff.mp hexpired)]
    rfl

theorem held_after_iff (h : (s.opened e).1 = .ok session) {ops : List Operation}
    (hops : (s.opened e).2.Unretired session ops) :
    ((s.opened e).2.after ops).store.find session.hostname = .ok (some session) ↔
      ∀ now, .sweep now ∈ ops → now.moment ≤ session.expiresAt.moment := by
  obtain ⟨hkey, hreach, hfind⟩ := find_opened h
  have honly : ∀ held ∈ (s.opened e).2.store.sessions.find session.hostname, held = session := by
    rw [hfind]
    exact fun held hheld => (Option.some.inj hheld).symm
  rw [find_after hkey ops hreach honly hops, hfind, Except.ok.injEq, Option.filter_eq_some_iff, List.all_eq_true]
  constructor
  · rintro ⟨_, hall⟩ now hmem
    have hlive : (!session.isExpired now) = true := hall _ hmem
    rw [Bool.not_eq_true', ← Bool.not_eq_true, Session.isExpired_iff] at hlive
    exact Int.not_lt.mp hlive
  · refine fun hall => ⟨rfl, fun op hmem => ?_⟩
    cases op with
    | sweep now =>
      show (!session.isExpired now) = true
      rw [Bool.not_eq_true', ← Bool.not_eq_true, Session.isExpired_iff]
      exact Int.not_lt.mpr (hall now hmem)
    | query _ | opened _ | closed _ | evict _ | clear | tokens _ | tokenFile _ | proxies _ | advance _ => rfl

/-- **A session lives exactly its time.** It ends so many seconds after its timestamp, or with the year 9999 at the
offset of the timestamp. Until an event closes or replaces it, it is held if no sweep was made at a later moment. -/
theorem opened_lives_exactly (h : (s.opened e).1 = .ok session) :
    (∃ last, Timestamp.ofFields? ⟨9999, 12, 31⟩ 23 59 59 999999999 e.timestamp.offset = some last ∧
      session.expiresAt.moment = min (e.timestamp.moment + (e.ttl * perSecond : Nat)) last.moment) ∧
    session.createdAt = e.timestamp ∧ session.createdAt.moment ≤ session.expiresAt.moment ∧
    (∀ ops, (s.opened e).2.Unretired session ops →
      (((s.opened e).2.after ops).store.find session.hostname = .ok (some session) ↔
        ∀ now, .sweep now ∈ ops → now.moment ≤ session.expiresAt.moment) ∧
      ∀ now, ((s.opened e).2.after ops).store.find session.hostname = .ok (some session) →
        (((s.opened e).2.after ops).sweep now).2.store.find session.hostname =
          .ok (if session.expiresAt.moment < now.moment then none else some session)) ∧
    (∀ (s' : Server) now, (s'.sweep now).2.sweep now = (0, (s'.sweep now).2)) ∧
    ∀ (s' : Server) earlier now, earlier.moment ≤ now.moment →
      ((s'.sweep earlier).2.sweep now).2 = (s'.sweep now).2 := by
  obtain ⟨_, address, _, hsession⟩ := accepted_cases h
  have hcreated : session.createdAt = e.timestamp := by rw [hsession, SessionOpened.session]
  have hexpires : session.expiresAt = e.timestamp.after e.ttl := by rw [hsession, SessionOpened.session]
  refine ⟨⟨e.timestamp.last, e.timestamp.ofFields?_last, ?_⟩, hcreated, ?_, ?_, ?_, ?_⟩
  · rw [hexpires, Timestamp.moment_after]
  · rw [hcreated, hexpires]
    exact e.timestamp.moment_le_after e.ttl
  · exact fun ops hops => ⟨held_after_iff h hops, fun now hheld => find_sweep hheld now⟩
  · intro s' now
    rw [sweep_eq, sweep_eq, Store.sweep_sweep]
  · intro s' earlier now hle
    rw [sweep_eq, sweep_eq, sweep_eq, Store.sweep_later _ hle]

/-! A second of life in the last second of a leap day, five and a half hours ahead of UTC. Sessions of others come
and go in it. -/

def leapEve : Timestamp := ⟨63876470399500000000, 330, by decide, by decide, by decide⟩

/-- The end of the session, at another offset. -/
def leapEnd : Timestamp := ⟨63876447000500000000, -60, by decide, by decide, by decide⟩

def afterLeapEnd : Timestamp := ⟨63876447000500000001, -60, by decide, by decide, by decide⟩

def leapEvent : SessionOpened := ⟨"s1", "app-e1.tunnel4.com", "e2", leapEve, 1⟩

def leapSession : Session := leapEvent.session System.twoEntries.config.zones "203.0.113.11"

def leapRun : List Operation :=
  [.sweep leapEnd, .opened ⟨"s2", "other-e1.tunnel4.com", "e1", leapEve, 0⟩, .sweep leapEnd, .closed ⟨"s2", none⟩]

theorem opened_lives_exactly_leap : (System.twoEntries.opened leapEvent).1 = .ok leapSession ∧
    toString leapSession.createdAt = "2024-02-29T23:59:59.5+05:30" ∧
    toString leapSession.expiresAt = "2024-03-01T00:00:00.5+05:30" ∧ toString leapEnd = "2024-02-29T17:30:00.5-01:00" ∧
    ((System.twoEntries.opened leapEvent).2.after leapRun).store.find "app-e1" = .ok (some leapSession) ∧
    (((System.twoEntries.opened leapEvent).2.after leapRun).sweep afterLeapEnd).2.store.find "app-e1" = .ok none := by
  have haccepted : (System.twoEntries.opened leapEvent).1 = .ok leapSession := rfl
  obtain ⟨_, _, _, hruns, _⟩ := opened_lives_exactly haccepted
  have hops : (System.twoEntries.opened leapEvent).2.Unretired leapSession leapRun :=
    ⟨rfl, by decide +kernel, rfl, by decide +kernel, trivial⟩
  obtain ⟨hheld, hswept⟩ := hruns leapRun hops
  have hsweeps : ∀ now, .sweep now ∈ leapRun → now.moment ≤ leapSession.expiresAt.moment := by
    intro now hmem
    have hnow : now = leapEnd := by simpa [leapRun] using hmem
    rw [hnow]
    decide +kernel
  have hfound := hheld.mpr hsweeps
  exact ⟨haccepted, by decide +kernel, by decide +kernel, by decide +kernel, hfound, hswept afterLeapEnd hfound⟩

end Server

end NameServer
