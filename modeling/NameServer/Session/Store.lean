import NameServer.Disk
import NameServer.Session.Basic

/-!
# The session store

Sessions are held in memory and, when the store has a state file, written out
in whole after each change. A write that fails is reported, but what it was to
save stays in memory. A store that can't be reached fails in everything.
-/

namespace NameServer

inductive Backing where
  | memory
  | disk (place : Place)
  deriving DecidableEq, Repr

structure Store where
  sessions : Sessions := .empty
  backing : Backing := .memory
  reachable : Bool := true
  deriving DecidableEq

namespace Store

open Json

/-! ## State files -/

def stateShape : Shape Sessions := .required "sessions" (Decoder.table Session.shape.decode)

def stateValue (sessions : Sessions) : Value :=
  .object [("sessions", .object (sessions.entries.map fun (hostname, s) => (hostname, s.toValue)))]

def stateText (sessions : Sessions) : List UInt8 := Text.toUtf8 (stateValue sessions).pretty

def decodeState (content : List UInt8) : Except Fault Sessions :=
  decodeAll stateShape.decode content

def ofState (content : List UInt8) : Except FileError Store :=
  match decodeState content with
  | .ok sessions => .ok { sessions, backing := .disk (.file content) }
  | .error _ => .error .invalidJson

/-- Opens the store of a state file. Where there is none, one without sessions is written. -/
def load : Place → Except FileError Store
  | .file content => ofState content
  | .absent => ofState (stateText .empty)
  | .directory | .nowhere => .error .io

def save (store : Store) : Except FileError Unit × Store :=
  match store.backing with
  | .memory => (.ok (), store)
  | .disk place =>
    match place.write (stateText store.sessions) with
    | some place => (.ok (), { store with backing := .disk place })
    | none => (.error .io, store)

/-! ## Operations -/

def find (store : Store) (hostname : String) : Except FileError (Option Session) :=
  if store.reachable then .ok (store.sessions.find hostname) else .error .io

/-- Saves what changed and gives `result` unless that fails. -/
def commit {α : Type} (store : Store) (changed : Bool) (result : α) : Except FileError α × Store :=
  if changed then
    let (saved, store) := store.save
    (saved.map fun _ => result, store)
  else (.ok result, store)

def put (store : Store) (session : Session) : Except FileError (List Session) × Store :=
  if !store.reachable then (.error .io, store)
  else
    let (replaced, sessions) := store.sessions.put session
    { store with sessions }.commit true replaced

def remove (store : Store) (id : String) : Except FileError (Option Session) × Store :=
  if !store.reachable then (.error .io, store)
  else
    let (removed, sessions) := store.sessions.remove id
    { store with sessions }.commit removed.isSome removed

def dropExpired (store : Store) (now : Timestamp) : Except FileError Nat × Store :=
  if !store.reachable then (.error .io, store)
  else
    let (count, sessions) := store.sessions.dropExpired now
    { store with sessions }.commit (count != 0) count

/-- Drops the sessions that expired before `now`. A failure counts as none. -/
def sweep (store : Store) (now : Timestamp) : Nat × Store :=
  match store.dropExpired now with
  | (.ok count, store) => (count, store)
  | (.error _, store) => (0, store)

end Store

end NameServer
