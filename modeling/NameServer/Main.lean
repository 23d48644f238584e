import NameServer.Api.Route
import NameServer.Server.Answer
import NameServer.Server.Launch
import NameServer.Server.Schedule
import Std.Http
import Std.Time.DateTime

/-!
# The program

Connects a server with the world: a datagram socket for queries, an HTTP
listener for the control interface, the files that the configuration names, a
timer for expired sessions, and signals. SIGHUP loads the configuration again,
SIGINT ends the program.
-/

namespace NameServer.Program

open Std.Async

/-! ## Files -/

def isDirectory (path : String) : IO Bool := do
  try
    let resolved ← IO.FS.realPath path
    resolved.isDir
  catch _ => return false

def directoryOf (path : String) : String :=
  let above := path.toList.reverse.dropWhile (· != '/')
  if above.isEmpty then "." else String.ofList above.reverse

def placeWithoutFile (path : String) : IO Place := do
  if ← isDirectory path then return .directory
  if ← isDirectory (directoryOf path) then return .absent
  return .nowhere

def placeAt (path : String) : IO Place := do
  try
    let content ← IO.FS.readBinFile path
    return .file content.data.toList
  catch _ => placeWithoutFile path

/-- A place as it is now for writing; what a file holds does not matter for that. -/
def refreshed (path : String) (place : Place) : IO Place := do
  match ← placeWithoutFile path, place with
  | .absent, .file content => return .file content
  | now, _ => return now

def writePlace (path : String) : Place → IO Unit
  | .file content => IO.FS.writeBinFile path ⟨content.toArray⟩
  | _ => return ()

/-! ## State -/

structure Running where
  server : Std.Mutex Server
  configPath : String
  statePath : Option String
  tokensPath : Option String

def Running.apply {α : Type} (running : Running) (operation : Server → α × Server) : IO α :=
  running.server.atomically do
    let s ← get
    let (a, s) := operation { s with now := ← IO.monoMsNow }
    set s
    return a

def Running.applyStored {α : Type} (running : Running) (operation : Server → α × Server) : IO α :=
  running.server.atomically do
    let s ← get
    let s := { s with now := ← IO.monoMsNow }
    match running.statePath, s.store.backing with
    | some path, .disk place =>
      let place ← refreshed path place
      let (a, s) := operation { s with store.backing := .disk place }
      if let .disk after := s.store.backing then
        if after ≠ place then writePlace path after
      set s
      return a
    | _, _ =>
      let (a, s) := operation s
      set s
      return a

/-! ## Queries -/

def toIp (ip : Ipv4) : Std.Net.IPv4Addr := .ofParts ip.a ip.b ip.c ip.d

def toIpv6 (ip : Ipv6) : Std.Net.IPv6Addr :=
  match ip.groups with
  | [a, b, c, d, e, f, g, h] => .ofParts a b c d e f g h
  | _ => default

def toSocketAddress : SocketAddress → Std.Net.SocketAddress
  | .v4 ip port => .v4 ⟨toIp ip, port⟩
  | .v6 ip _ port => .v6 ⟨toIpv6 ip, port⟩

def answerDatagram (running : Running) (datagram : ByteArray) : IO ByteArray := do
  let tokenFile ← running.tokensPath.mapM placeAt
  let reply ← running.apply fun s =>
    let handled := { s with tokenFile }.handleDatagram datagram.data.toList
    (handled.reply, handled.server)
  return ⟨reply.toArray⟩

partial def serveDatagrams (running : Running) (socket : UDP.Socket) : Async Unit := do
  try
    let (datagram, peer) ← socket.recv Server.datagramLimit.toUInt64
    let reply ← answerDatagram running datagram
    socket.send reply peer
  catch e => IO.eprintln s!"datagram not answered: {e}"
  serveDatagrams running socket

/-! ## Control interface -/

open Std.Http in
def readRequest (request : Request Body.Stream) : ContextAsync Api.Request := do
  let head := request.line
  let target := (toString head.uri).toList
  let path := target.takeWhile (· != '?')
  let query := (target.dropWhile (· != '?')).drop 1
  let body : ByteArray ← request.body.readAll
  return {
    method := toString head.method
    path := String.ofList path
    query := String.ofList query
    contentType := (head.headers.get? (.mk "content-type")).map toString
    body := body.data.toList }

open Std.Http in
def writeReply (reply : Api.Reply) : Async (Response Body.Any) := do
  let status := (Status.ofCode none reply.status.toUInt16).getD .internalServerError
  let builder := Response.withStatus status
  match reply.body with
  | none =>
    let response ← builder.empty
    return response
  | some body =>
    let response ← builder.json body.compact
    return response

open Std.Http in
def control (running : Running) (request : Request Body.Stream) :
    ContextAsync (Response Body.Any) := do
  let request ← readRequest request
  let reply ← running.applyStored fun s => Api.handle s request
  writeReply reply

/-! ## Timer and signals -/

def unixEpoch : Nat := ({ year := 1970, month := 1, day := 1 } : Date).toDays * 86400

def presentTimestamp : IO (Option Timestamp) := do
  let now ← Std.Time.Timestamp.now
  let nanoseconds := now.toNanosecondsSinceUnixEpoch.val.toNat
  return Timestamp.ofClock? (unixEpoch * perSecond + nanoseconds) 0

partial def sweepSessions (running : Running) (plan : Schedule) : Async Unit := do
  let now ← IO.monoMsNow
  if plan.isDue now then
    if let some moment ← presentTimestamp then
      let _ ← running.applyStored fun s => s.sweep moment
    sweepSessions running (plan.next now)
  else
    sleep (.ofNat (plan.due - now))
    sweepSessions running plan

partial def reloadOnSignal (running : Running) (signal : Signal.Waiter) : Async Unit := do
  let _ ← await (← signal.wait)
  let place ← placeAt running.configPath
  let reloaded ← running.apply fun s => s.reload place
  IO.eprintln (if reloaded then "configuration loaded again" else "configuration kept")
  reloadOnSignal running signal

/-! ## Main -/

def readPlaces (path : String) : IO (List (String × Place)) := do
  let place ← placeAt path
  let paths := match Config.ofPlace place with
    | .error _ => []
    | .ok config => config.sessions.statePath.toList ++ config.acme.tokensPath.toList
  let places ← paths.mapM placeAt
  return (path, place) :: paths.zip places

def serve (path : String) (s : Server) : IO Unit := Async.block do
  let statePath := s.config.sessions.statePath
  if let (some path, .disk place) := (statePath, s.store.backing) then
    if (← placeAt path) ≠ place then writePlace path place
  let running : Running := {
    server := ← Std.Mutex.new s, configPath := path, statePath
    tokensPath := s.config.acme.tokensPath }
  let socket ← UDP.Socket.mk
  socket.bind (toSocketAddress s.config.dnsAddress)
  let _ ← Std.Http.Server.serve (toSocketAddress s.config.apiAddress)
    (Std.Http.Server.Handler.ofFn (control running))
  background (serveDatagrams running socket)
  if s.config.sessions.cleanupInterval ≠ 0 then
    let interval := 1000 * s.config.sessions.cleanupInterval
    background (sweepSessions running (.start (← IO.monoMsNow) interval))
  let hangup ← Signal.Waiter.mk .sighup true
  background (reloadOnSignal running hangup)
  let interrupt ← Signal.Waiter.mk .sigint false
  let _ ← await (← interrupt.wait)

end NameServer.Program

open NameServer in
def main (arguments : List String) : IO UInt32 := do
  let places ← Program.readPlaces (arguments.headD "")
  match launch "tunneldns" arguments fun path => (places.lookup path).getD .nowhere with
  | .error e =>
    IO.eprintln ("Error: " ++ e.message)
    return 1
  | .ok s =>
    try
      Program.serve (arguments.headD "") s
      return 0
    catch e =>
      IO.eprintln s!"Error: {e}"
      return 1
