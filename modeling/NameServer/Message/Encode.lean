import NameServer.Message.Basic
import NameServer.Message.Name

/-!
# Writing messages

Section counts are the lengths of the lists, authority and additional sections
are empty, and names are written in full.
-/

namespace NameServer

namespace Message

def maxText : Nat := 255

def writeWord (w : UInt16) : List UInt8 := [(w.toNat / 0x100).toUInt8, w.toNat.toUInt8]

def writeLong (w : UInt32) : List UInt8 :=
  [(w.toNat / 0x1000000).toUInt8, (w.toNat / 0x10000).toUInt8, (w.toNat / 0x100).toUInt8,
    w.toNat.toUInt8]

/-- Text as one string behind its length; what doesn't fit is reported in characters, or in
bytes of UTF-8 where a character is above 255. -/
def writeText (text : String) : Except EncodeError (List UInt8) :=
  let cs := text.toList
  if cs.all Latin1.isLatin1 then
    if cs.length ≤ maxText then .ok (cs.length.toUInt8 :: Latin1.encode cs)
    else .error (.textTooLong cs.length)
  else .error (.textTooLong text.utf8ByteSize)

def writeData : RecordData → Except EncodeError (List UInt8)
  | .address ip => .ok ip.octets
  | .text text => writeText text
  | .none => .ok []

def writeQuestion (q : Question) : Except EncodeError (List UInt8) := do
  let name ← Name.write q.name
  return name ++ writeWord q.qtype ++ writeWord q.qclass

def writeRecord (r : Record) : Except EncodeError (List UInt8) := do
  let name ← Name.write r.name
  let data ← writeData r.data
  return name ++ writeWord r.rtype ++ writeWord r.rclass ++ writeLong r.ttl ++
    writeWord data.length.toUInt16 ++ data

def writeMany {α : Type} (writeItem : α → Except EncodeError (List UInt8)) :
    List α → Except EncodeError (List UInt8)
  | [] => .ok []
  | item :: items => do
    let first ← writeItem item
    let rest ← writeMany writeItem items
    return first ++ rest

def writeHeader (id : UInt16) (flags : Flags) (questions answers : Nat) : List UInt8 :=
  writeWord id ++ writeWord flags.bits ++ writeWord questions.toUInt16 ++
    writeWord answers.toUInt16 ++ [0, 0, 0, 0]

def encode (m : Message) : Except EncodeError (List UInt8) := do
  if 65535 < m.questions.length then throw .tooManyQuestions
  if 65535 < m.answers.length then throw .tooManyAnswers
  let questions ← writeMany writeQuestion m.questions
  let answers ← writeMany writeRecord m.answers
  return writeHeader m.id m.flags m.questions.length m.answers.length ++ questions ++ answers

end Message

end NameServer
