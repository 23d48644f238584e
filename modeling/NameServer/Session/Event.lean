import NameServer.Cache
import NameServer.Proxies
import NameServer.Session.Store
import NameServer.Zone

/-!
# Session events

Sessions are opened and closed by events from outside. An event changes the
store first and then drops from the cache what the change made stale.
-/

namespace NameServer

structure SessionOpened where
  id : String
  /-- The hostname of the tunnel, with or without its zone. -/
  tunnelHost : String
  entryId : String
  timestamp : Timestamp
  /-- Seconds from the timestamp on. -/
  ttl : Nat
  deriving DecidableEq, Repr

structure SessionClosed where
  id : String
  reason : Option String := none
  deriving DecidableEq, Repr

inductive EventError where
  | unknownEntry (entryId : String)
  | unknownSession (id : String)
  | store (error : FileError)
  deriving DecidableEq, Repr

def EventError.message : EventError → String
  | unknownEntry entryId => "no IP address mapping for proxy entry \"" ++ entryId ++ "\""
  | unknownSession id => "session \"" ++ id ++ "\" not found"
  | store error => error.message

open Json

def SessionOpened.shape : Shape SessionOpened :=
  SessionOpened.mk <$> .required "session_id" Decoder.text
    <*> .required "tunnel_host" Decoder.text
    <*> .required "proxy_entry_id" Decoder.text
    <*> .required "timestamp" Timestamp.decode
    <*> .required "ttl" Decoder.u64

def SessionClosed.shape : Shape SessionClosed :=
  SessionClosed.mk <$> .required "session_id" Decoder.text
    <*> .defaulted "reason" none (Decoder.nullable Decoder.text)

def SessionOpened.session (e : SessionOpened) (zones : List String) (address : String) :
    Session where
  id := e.id
  hostname := Zone.sessionName zones e.tunnelHost
  address := address
  createdAt := e.timestamp
  expiresAt := e.timestamp.after e.ttl

structure SessionState where
  store : Store
  cache : Cache

namespace SessionState

def forget (cache : Cache) (hostnames : List String) : Cache :=
  hostnames.foldl (fun cache hostname => (cache.remove hostname).2) cache

def opened (state : SessionState) (zones : List String) (proxies : Proxies) (e : SessionOpened) :
    Except EventError Session × SessionState :=
  match proxies.get? e.entryId with
  | none => (.error (.unknownEntry e.entryId), state)
  | some address =>
    let session := e.session zones address
    match state.store.put session with
    | (.error error, store) => (.error (.store error), { state with store })
    | (.ok replaced, store) =>
      let stale := replaced.map Session.hostname ++ [session.hostname]
      (.ok session, { store, cache := forget state.cache stale })

def closed (state : SessionState) (e : SessionClosed) : Except EventError Session × SessionState :=
  match state.store.remove e.id with
  | (.error error, store) => (.error (.store error), { state with store })
  | (.ok none, store) => (.error (.unknownSession e.id), { state with store })
  | (.ok (some session), store) =>
    (.ok session, { store, cache := forget state.cache [session.hostname] })

end SessionState

end NameServer
