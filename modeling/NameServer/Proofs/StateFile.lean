import NameServer.Proofs.Documents
import NameServer.Proofs.Records
import NameServer.Proofs.SessionTable
import NameServer.Proofs.TimestampText

/-!
# State files

A state file that a store wrote is read back in full: each session under the
key that it was written under, with its hostname, its address and its times.
-/

namespace NameServer

open Json Document

/-! ## Sessions -/

structure Session.Given (find : String → Option Document) (s : Session) : Prop where
  id : Member find "session_id" IsText s.id
  hostname : Member find "hostname" IsText s.hostname
  address : Member find "ip_address" IsText s.address
  createdAt : Member find "created_at" (IsParsed Timestamp.ofString?) s.createdAt
  expiresAt : Member find "expires_at" (IsParsed Timestamp.ofString?) s.expiresAt

def Session.meaning : Document → Session → Prop :=
  IsRecord ["session_id", "hostname", "ip_address", "created_at", "expires_at"] Given

section
open Json.Decoder Json.Shape

theorem Timestamp.reads_decode : decode.Reads (IsParsed ofString?) := reads_parsed _

theorem Session.reads_decode : shape.decode.Reads meaning := by
  have hshape : Follows shape _ := (follows_required reads_text ..).map _
    |>.seq (follows_required reads_text ..)
    |>.seq (follows_required reads_text ..)
    |>.seq (follows_required Timestamp.reads_decode ..)
    |>.seq (follows_required Timestamp.reads_decode ..)
  refine hshape.reads_decode rfl (by decide) fun find s => ?_
  constructor
  · rintro ⟨_, hid, _, hhostname, _, haddress, _, hcreated, _, hexpires, rfl⟩
    exact ⟨hid, hhostname, haddress, hcreated, hexpires⟩
  · exact fun h => ⟨_, h.id, _, h.hostname, _, h.address, _, h.createdAt, _, h.expiresAt, rfl⟩

end

def Session.members (s : Session) : List (String × String) :=
  [("session_id", s.id), ("hostname", s.hostname), ("ip_address", s.address), ("created_at", toString s.createdAt),
    ("expires_at", toString s.expiresAt)]

/-- What a session is read back as. -/
def Session.document (s : Session) : Document := .object (s.members.map fun m => (.ok m.1, .text m.2)) .closed

theorem Session.toValue_eq (s : Session) : s.toValue = .object (s.members.map fun m => (m.1, .text m.2)) := rfl

theorem Session.readsBack (s : Session) : ReadsBack s.toValue s.document := by
  rw [toValue_eq]
  exact readsBack_object Prod.fst s.members fun m _ => readsBack_text m.2

theorem Session.meaning_document (s : Session) : meaning s.document s := by
  have hdocument : s.document =
      .object ((s.members.map fun m => (m.1, .text m.2)).map fun m => (.ok m.1, m.2)) .closed := rfl
  rw [hdocument]
  exact isRecord_object rfl (by decide) ⟨⟨_, rfl, rfl⟩, ⟨_, rfl, rfl⟩, ⟨_, rfl, rfl⟩,
    ⟨_, rfl, _, rfl, Timestamp.ofString?_toString _⟩, ⟨_, rfl, _, rfl, Timestamp.ofString?_toString _⟩⟩

/-! ## Stores -/

namespace Store

def document (sessions : Sessions) : Document :=
  .object [(.ok "sessions", .object (sessions.entries.map fun e => (.ok e.1, e.2.document)) .closed)] .closed

theorem readsBack_stateValue (sessions : Sessions) : ReadsBack (stateValue sessions) (document sessions) := by
  have hentries : ReadsBack (.object (sessions.entries.map fun e => (e.1, e.2.toValue)))
      (.object (sessions.entries.map fun e => (.ok e.1, e.2.document)) .closed) :=
    readsBack_object Prod.fst sessions.entries fun e _ => e.2.readsBack
  have hstate := readsBack_object (fun _ : Unit => "sessions") [()] fun _ _ => hentries
  exact hstate

theorem read_stateText (sessions : Sessions) :
    Document.read (Text.ofUtf8 (stateText sessions)) = (document sessions, []) := by
  have h := readsBack_stateValue sessions 0 (3 * ((stateValue sessions).prettyText 0).length + 3) [] (Nat.le_refl _)
  rw [List.append_nil] at h
  rw [stateText, Text.ofUtf8_toUtf8, Value.pretty, String.toList_ofList, Document.read, List.length_map, h]

theorem decodeState_stateText (sessions : Sessions) :
    decodeState (stateText sessions) = stateShape.decode (document sessions) := by
  unfold decodeState decodeAll
  rw [read_stateText]
  show (stateShape.decode (document sessions) >>= .ok) = _
  cases stateShape.decode (document sessions) <;> rfl

theorem reads_stateShape : stateShape.decode.Reads
    (IsRecord ["sessions"] fun find sessions => Member find "sessions" (IsTable Session.meaning) sessions) := by
  have hshape := Shape.follows_required (Decoder.reads_table Session.reads_decode) "sessions"
  refine hshape.reads_decode rfl (by decide) fun find sessions => ?_
  exact ⟨fun ⟨_, h, hsessions⟩ => hsessions ▸ h, fun h => ⟨sessions, h, rfl⟩⟩

theorem isTable_document (sessions : Sessions) :
    IsTable Session.meaning (.object (sessions.entries.map fun e => (.ok e.1, e.2.document)) .closed) sessions := by
  refine ⟨_, sessions.entries, rfl, ?_, sessions.ofList_entries.symm⟩
  rw [List.forall₂_map_left_iff, List.forall₂_same]
  exact fun e _ => ⟨rfl, e.2.meaning_document⟩

/-- **A state file is read back in full.** -/
theorem decodeState_of_stateText (sessions : Sessions) : decodeState (stateText sessions) = .ok sessions := by
  have hdocument : document sessions =
      .object ([("sessions", .object (sessions.entries.map fun e => (.ok e.1, e.2.document)) .closed)].map
        fun m => (.ok m.1, m.2)) .closed := rfl
  rw [decodeState_stateText, reads_stateShape, hdocument]
  exact isRecord_object rfl (by decide) ⟨_, rfl, isTable_document sessions⟩

theorem filed_of_decodeState {sessions loaded : Sessions} (hf : sessions.Filed)
    (h : decodeState (stateText sessions) = .ok loaded) : loaded.Filed := by
  rw [decodeState_of_stateText] at h
  cases h
  exact hf

theorem load_absent : load .absent = .ok ⟨.empty, .disk (.file (stateText .empty)), true⟩ := by
  rw [load, ofState, decodeState_of_stateText]

theorem load_ok {place : Place} {store : Store} (h : load place = .ok store) :
    ∃ content, (place = .file content ∨ place = .absent ∧ content = stateText .empty) ∧
      decodeState content = .ok store.sessions ∧ store.Writable := by
  have hstate : ∀ {content : List UInt8}, ofState content = .ok store →
      decodeState content = .ok store.sessions ∧ store.Writable := by
    intro content h
    unfold ofState at h
    split at h
    · next sessions hd =>
      cases h
      refine ⟨hd, rfl, fun place hplace content => ?_⟩
      cases hplace
      rfl
    · cases h
  cases place with
  | file content => exact ⟨content, .inl rfl, hstate h⟩
  | absent => exact ⟨stateText .empty, .inr ⟨rfl, rfl⟩, hstate h⟩
  | directory => cases h
  | nowhere => cases h

end Store

/-! ## What stores hold -/

/-- The sessions of a store that started empty, after some operations, with its state file loaded again in
between. -/
inductive Sessions.Kept : Sessions → Prop
  | empty : Kept .empty
  | put {sessions : Sessions} (h : Kept sessions) (session : Session) : Kept (sessions.put session).2
  | remove {sessions : Sessions} (h : Kept sessions) (id : String) : Kept (sessions.remove id).2
  | dropExpired {sessions : Sessions} (h : Kept sessions) (now : Timestamp) : Kept (sessions.dropExpired now).2
  | loaded {sessions loaded : Sessions} (h : Kept sessions)
      (hl : Store.decodeState (Store.stateText sessions) = .ok loaded) : Kept loaded

theorem Sessions.Kept.filed {sessions : Sessions} (h : sessions.Kept) : sessions.Filed := by
  induction h with
  | empty => exact filed_empty
  | put _ session ih => exact ih.put session
  | remove _ id ih => exact ih.remove id
  | dropExpired _ now ih => exact ih.dropExpired now
  | loaded _ hl ih => exact Store.filed_of_decodeState ih hl

/-- No state file yet, or one that a store has saved. -/
inductive Store.Saved : Place → Prop
  | absent : Saved .absent
  | file {sessions : Sessions} (h : sessions.Kept) : Saved (.file (stateText sessions))

theorem Store.filed_of_load {place : Place} {store : Store} (hp : Saved place) (h : load place = .ok store) :
    store.sessions.Filed := by
  obtain ⟨content, hcontent, hd, _⟩ := load_ok h
  cases hp with
  | absent =>
    rcases hcontent with hc | ⟨_, rfl⟩
    · cases hc
    · exact filed_of_decodeState Sessions.filed_empty hd
  | file hk =>
    rcases hcontent with hc | ⟨hc, _⟩
    · cases hc
      exact filed_of_decodeState hk.filed hd
    · cases hc

end NameServer
