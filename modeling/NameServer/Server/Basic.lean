import NameServer.Challenge.Tokens
import NameServer.Config.Load
import NameServer.Session.Event

/-!
# Servers

A server is its configuration and what changes while it runs: the cache, the
session store, the proxy entries, the tokens, and the clock in milliseconds.
-/

namespace NameServer

structure Server where
  config : Config
  cache : Cache
  store : Store
  proxies : Proxies
  tokens : List String
  /-- The token file, which comes before the tokens of the configuration. -/
  tokenFile : Option Place := none
  now : Nat := 0

namespace Server

def start (config : Config) (stateFile tokenFile : Option Place) : Except FileError Server := do
  let store ← match stateFile with
    | none => .ok {}
    | some place => Store.load place
  return {
    config, store, tokenFile
    cache := Cache.ofSettings config.cache
    proxies := Proxies.ofTable config.proxies
    tokens := config.acme.tokens }

def currentTokens (s : Server) : Except FileError (List String) :=
  match s.tokenFile with
  | none => .ok s.tokens
  | some place => TokenFile.tokens place

/-- Takes proxy entries and tokens from a configuration that loads, and tells whether it did. -/
def reload (s : Server) (place : Place) : Bool × Server :=
  match Config.ofPlace place with
  | .error _ => (false, s)
  | .ok config =>
    (true, { s with proxies := Proxies.ofTable config.proxies, tokens := config.acme.tokens })

def advance (s : Server) (milliseconds : Nat) : Server := { s with now := s.now + milliseconds }

def withSessions (s : Server) (state : SessionState) : Server :=
  { s with store := state.store, cache := state.cache }

def opened (s : Server) (e : SessionOpened) : Except EventError Session × Server :=
  let (result, state) := SessionState.opened ⟨s.store, s.cache⟩ s.config.zones s.proxies e
  (result, s.withSessions state)

def closed (s : Server) (e : SessionClosed) : Except EventError Session × Server :=
  let (result, state) := SessionState.closed ⟨s.store, s.cache⟩ e
  (result, s.withSessions state)

/-- Drops expired sessions from the store. The cache stays as it is. -/
def sweep (s : Server) (now : Timestamp) : Nat × Server :=
  let (count, store) := s.store.sweep now
  (count, { s with store })

end Server

end NameServer
