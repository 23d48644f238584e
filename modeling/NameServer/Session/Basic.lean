import NameServer.Json.Decode
import NameServer.Json.Value
import NameServer.Text.Case
import NameServer.Time.Timestamp

/-!
# Sessions

A session gives a hostname the address of a proxy entry for some time.
`Sessions` holds sessions under their hostnames, at most one for a hostname
and, when all of them come from `put`, at most one with an id.
-/

namespace NameServer

structure Session where
  id : String
  hostname : String
  address : String
  createdAt : Timestamp
  expiresAt : Timestamp
  deriving DecidableEq, Repr

open Json in
def Timestamp.decode : Decoder Timestamp := Decoder.parsed Timestamp.ofString?

namespace Session

def isExpired (s : Session) (now : Timestamp) : Bool := s.expiresAt.isBefore now

theorem isExpired_iff {s : Session} {now : Timestamp} :
    s.isExpired now = true ↔ s.expiresAt.moment < now.moment := decide_eq_true_iff

open Json

def shape : Shape Session :=
  Session.mk <$> .required "session_id" Decoder.text
    <*> .required "hostname" Decoder.text
    <*> .required "ip_address" Decoder.text
    <*> .required "created_at" Timestamp.decode
    <*> .required "expires_at" Timestamp.decode

def toValue (s : Session) : Value := .object [
  ("session_id", .text s.id),
  ("hostname", .text s.hostname),
  ("ip_address", .text s.address),
  ("created_at", .text (toString s.createdAt)),
  ("expires_at", .text (toString s.expiresAt))]

end Session

abbrev Sessions := Table Session

namespace Sessions

def find (sessions : Sessions) (hostname : String) : Option Session :=
  sessions.get? (Text.lowered hostname)

/-- Files a session under its hostname in lower case. Gives the sessions that had its id or its
hostname, which it replaces. -/
def put (sessions : Sessions) (session : Session) : List Session × Sessions :=
  let session := { session with hostname := Text.lowered session.hostname }
  let sameId := sessions.filter fun hostname s => s.id == session.id && hostname != session.hostname
  let others := sessions.filter fun hostname s => s.id != session.id || hostname == session.hostname
  (sameId.values ++ (sessions.get? session.hostname).toList,
    others.insert session.hostname session)

def remove (sessions : Sessions) (id : String) : Option Session × Sessions :=
  match sessions.entries.find? fun (_, s) => s.id == id with
  | none => (none, sessions)
  | some (hostname, session) => (some session, sessions.erase hostname)

def dropExpired (sessions : Sessions) (now : Timestamp) : Nat × Sessions :=
  let live := sessions.filter fun _ s => !s.isExpired now
  (sessions.size - live.size, live)

end Sessions

end NameServer
