/-!
# Why a message can't be read or written
-/

namespace NameServer

inductive DecodeError where
  | headerTooShort
  | pastEnd
  | reservedLabel
  | textTooLong
  | tooManyPointers
  deriving DecidableEq, Repr

namespace DecodeError

def message : DecodeError → String
  | headerTooShort => "malformed DNS packet: header too short"
  | pastEnd => "malformed DNS packet: read past end of packet"
  | reservedLabel => "malformed DNS packet: reserved label type"
  | textTooLong => "malformed DNS packet: TXT string longer than record data"
  | tooManyPointers => "too many compression pointer hops in DNS name"

end DecodeError

inductive EncodeError where
  | tooManyQuestions
  | tooManyAnswers
  | name (name : String)
  | textTooLong (length : Nat)
  deriving DecidableEq, Repr

namespace EncodeError

def message : EncodeError → String
  | tooManyQuestions => "malformed DNS packet: too many questions"
  | tooManyAnswers => "malformed DNS packet: too many answers"
  | name n => "name can't be encoded: \"" ++ n ++ "\""
  | textTooLong length => s!"TXT string of {length} bytes exceeds 255 bytes"

end EncodeError

end NameServer
