import NameServer.Api.MediaType
import NameServer.Api.Target
import NameServer.Server.Basic

/-!
# The control interface

Requests that look at the cache or clear it, and that open and close sessions.
Failures are answered with an object that holds the message.
-/

namespace NameServer

namespace Api

open Json

structure Request where
  method : String
  path : String
  query : String := ""
  /-- The first content type that the request gives. -/
  contentType : Option String := none
  body : List UInt8 := []

structure Reply where
  status : Nat
  body : Option Value := none

def ok (body : Value) : Reply := ⟨200, some body⟩

def failure (status : Nat) (message : String) : Reply :=
  ⟨status, some (.object [("error", .text message)])⟩

def eventFailure (e : EventError) : Reply :=
  let status := match e with
    | .unknownEntry _ => 422
    | .unknownSession _ => 404
    | .store _ => 500
  failure status e.message

def eventReply : Except EventError Session → Reply
  | .ok session => ok session.toValue
  | .error e => eventFailure e

/-! ## Resources -/

inductive Resource where
  | health
  | cache
  | cacheKey (key : List Char)
  | sessions
  | session (id : List Char)

/-- The resource at a path. A key or id is one segment that isn't empty. -/
def Resource.ofPath? (path : String) : Option Resource :=
  match Target.segments path with
  | [[], first] =>
    match String.ofList first with
    | "healthz" => some .health
    | "cache" => some .cache
    | "sessions" => some .sessions
    | _ => none
  | [[], first, c :: cs] =>
    match String.ofList first with
    | "cache" => some (.cacheKey (c :: cs))
    | "sessions" => some (.session (c :: cs))
    | _ => none
  | _ => none

def health : Value := .object [("status", .text "healthy"), ("service", .text "tunneldns")]

def cacheStatus (cache : Cache) : Value :=
  .object [("enabled", .bool cache.enabled), ("entries", .number cache.size)]

/-! ## Opening sessions -/

def bodyLimit : Nat := 2097152

/-- A content type counts when it holds nothing but visible characters. -/
def isJson (request : Request) : Bool :=
  match request.contentType with
  | none => false
  | some text =>
    let cs := text.toList
    cs.all (fun c => c == '\t' || (0x20 ≤ c.toNat && c.toNat < 0x7F)) && MediaType.isJson cs

def openedEvent (request : Request) : Except Reply SessionOpened :=
  if !isJson request then
    .error (failure 415 "Expected request with \x60Content-Type: application/json\x60")
  else if bodyLimit < request.body.length then
    .error (failure 500 "Failed to buffer the request body")
  else match decodeFront SessionOpened.shape.decode request.body with
    | .ok e => .ok e
    | .error .mismatch =>
      .error (failure 422 "Failed to deserialize the JSON body into the target type")
    | .error _ => .error (failure 400 "Failed to parse the request body as JSON")

/-! ## Requests -/

def notAllowed : Reply := ⟨405, none⟩

def hasOneReason (query : String) : Bool :=
  (Target.queryNames query).count (Text.toUtf8 "reason") ≤ 1

def openSession (s : Server) (request : Request) : Reply × Server :=
  match openedEvent request with
  | .error reply => (reply, s)
  | .ok e =>
    let (result, s) := s.opened e
    (eventReply result, s)

def closeSession (s : Server) (request : Request) (id : List Char) : Reply × Server :=
  match Target.segment? id with
  | none => (⟨400, none⟩, s)
  | some id =>
    if !hasOneReason request.query then (⟨400, none⟩, s)
    else
      let (result, s) := s.closed { id }
      (eventReply result, s)

def evict (s : Server) (key : List Char) : Reply × Server :=
  match Target.segment? key with
  | none => (⟨400, none⟩, s)
  | some key =>
    let (removed, cache) := s.cache.remove (Text.lowered key)
    (⟨if removed then 204 else 404, none⟩, { s with cache })

def clearCache (s : Server) : Reply × Server :=
  let (count, cache) := s.cache.clear
  (ok (.object [("evicted", .number count)]), { s with cache })

/-- The reply to a request, and the server after it. What can be got can also be asked for
without its body. -/
def handle (s : Server) (request : Request) : Reply × Server :=
  match Resource.ofPath? request.path, request.method with
  | none, _ => (⟨404, none⟩, s)
  | some .health, "GET" => (ok health, s)
  | some .health, "HEAD" => (⟨200, none⟩, s)
  | some .cache, "GET" => (ok (cacheStatus s.cache), s)
  | some .cache, "HEAD" => (⟨200, none⟩, s)
  | some .cache, "DELETE" => clearCache s
  | some (.cacheKey key), "DELETE" => evict s key
  | some .sessions, "POST" => openSession s request
  | some (.session id), "DELETE" => closeSession s request id
  | some _, _ => (notAllowed, s)

end Api

end NameServer
