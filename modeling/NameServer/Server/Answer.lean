import NameServer.Hostname
import NameServer.Message.Decode
import NameServer.Message.Encode
import NameServer.Server.Basic
import NameServer.Server.Resolve

/-!
# Answering queries

Every packet gets a reply. Only the first question is answered, and only for
names in the zones of the server; what can't be read, or can't be written,
turns into a server failure.
-/

namespace NameServer

inductive ResponseCode where
  | noError
  | serverFailure
  | nameError
  | refused
  deriving DecidableEq, Repr

def ResponseCode.toWord : ResponseCode → UInt16
  | noError => 0
  | serverFailure => 2
  | nameError => 3
  | refused => 5

/-! ## Replies -/

def replyFlags (request : Flags) (code : ResponseCode) (authoritative : Bool) : Flags :=
  let flags : Flags := ⟨0⟩
  (((flags.set Flags.qr true).set Flags.rd (request.has Flags.rd)).set
    Flags.aa authoritative).setResponseCode code.toWord

def Message.reply (request : Message) (code : ResponseCode) (authoritative : Bool)
    (answers : List Record) : Message where
  id := request.id
  flags := replyFlags request.flags code authoritative
  questions := request.questions
  answers := answers

def unreadableReply (packet : List UInt8) : List UInt8 :=
  let flags := (Message.peekFlags packet).getD ⟨0⟩
  Message.writeHeader ((Message.peekId packet).getD 0)
    (replyFlags flags .serverFailure false) 0 0

/-- A reply on the wire. If it can't be written, a failure with the questions of the request; if
these can't be written either, only its header. -/
def Message.writeReply (request reply : Message) : List UInt8 :=
  match reply.encode with
  | .ok bytes => bytes
  | .error _ =>
    let failure := request.reply .serverFailure false []
    match failure.encode with
    | .ok bytes => bytes
    | .error _ => Message.writeHeader failure.id failure.flags 0 0

/-! ## Answers -/

structure Answer where
  records : List Record
  cache : Cache
  askedStore : Bool := false

namespace Server

def answerAddress (s : Server) (owner name : String) : Answer :=
  let ttls := s.config.ttls
  if s.config.legacy.enabled && (LegacyHost.ofString? name).isSome then
    ⟨[.address owner ttls.legacy s.config.legacy.address], s.cache, false⟩
  else match TunnelHost.ofString? name with
    | none => ⟨[], s.cache, false⟩
    | some host =>
      let found := resolve s.cache s.store s.proxies s.now host.key host.entryId
      ⟨(found.address.map (.address owner ttls.tunnel)).toList, found.cache, found.askedStore⟩

def tokenTtl (s : Server) : UInt32 := (min s.config.tokenTtl (UInt32.size - 1)).toUInt32

/-- One text record for each token, at the names where they are asked for. -/
def answerChallenge (s : Server) (owner name : String) : List Record :=
  if Zone.isChallenge s.config.zones name then
    match s.currentTokens with
    | .ok tokens => tokens.map (.text owner s.tokenTtl)
    | .error _ => []
  else []

def hostnameOf (q : Question) : String :=
  String.ofList (Text.trimEnd (· == '.') q.name.toList)

def answer (s : Server) (q : Question) : Answer :=
  if q.qtype = typeA then s.answerAddress q.name (hostnameOf q)
  else if q.qtype = typeTxt then ⟨s.answerChallenge q.name (hostnameOf q), s.cache, false⟩
  else ⟨[], s.cache, false⟩

structure Response where
  reply : Message
  cache : Cache
  askedStore : Bool

def respond (s : Server) (request : Message) : Response :=
  match request.questions with
  | [] => ⟨request.reply .refused false [], s.cache, false⟩
  | q :: _ =>
    if !Zone.serves s.config.zones (hostnameOf q) then
      ⟨request.reply .refused false [], s.cache, false⟩
    else
      let answer := s.answer q
      let code := if answer.records.isEmpty then .nameError else .noError
      ⟨request.reply code true answer.records, answer.cache, answer.askedStore⟩

/-! ## Packets -/

structure Handled where
  reply : List UInt8
  server : Server
  askedStore : Bool

def handle (s : Server) (packet : List UInt8) : Handled :=
  match Message.decode packet with
  | .error _ => ⟨unreadableReply packet, s, false⟩
  | .ok request =>
    let response := s.respond request
    ⟨request.writeReply response.reply, { s with cache := response.cache }, response.askedStore⟩

/-- The longest datagram that is read whole. -/
def datagramLimit : Nat := 4096

def handleDatagram (s : Server) (datagram : List UInt8) : Handled :=
  s.handle (datagram.take datagramLimit)

end Server

end NameServer
