import NameServer.Message.Basic
import NameServer.Message.Name

/-!
# Reading messages

The header announces how many questions and answers follow. Authority and
additional records are not read, and neither is anything after the answers.
-/

namespace NameServer

namespace Message

/-! ## Fields -/

def word (high low : UInt8) : UInt16 := (high.toNat * 256 + low.toNat).toUInt16

def readWord : List UInt8 → Except DecodeError (UInt16 × List UInt8)
  | high :: low :: rest => .ok (word high low, rest)
  | _ => .error .pastEnd

def readLong : List UInt8 → Except DecodeError (UInt32 × List UInt8)
  | a :: b :: c :: d :: rest =>
    .ok ((((a.toNat * 256 + b.toNat) * 256 + c.toNat) * 256 + d.toNat).toUInt32, rest)
  | _ => .error .pastEnd

def readBytes (count : Nat) (rest : List UInt8) : Except DecodeError (List UInt8 × List UInt8) :=
  if (rest.take count).length < count then .error .pastEnd
  else .ok (rest.take count, rest.drop count)

/-! ## Sections -/

def readQuestion (packet rest : List UInt8) : Except DecodeError (Question × List UInt8) := do
  let (name, rest) ← Name.read packet rest
  let (qtype, rest) ← readWord rest
  let (qclass, rest) ← readWord rest
  return ({ name, qtype, qclass }, rest)

/-- The text of record data that starts with a string, whatever follows the string. -/
def readText : List UInt8 → Except DecodeError RecordData
  | [] => .ok .none
  | length :: rest =>
    if (rest.take length.toNat).length < length.toNat then .error .textTooLong
    else .ok (.text (String.ofList (Latin1.decode (rest.take length.toNat))))

def readAddress : List UInt8 → RecordData
  | [a, b, c, d] => .address ⟨a, b, c, d⟩
  | _ => .none

def readData (rtype : UInt16) (data : List UInt8) : Except DecodeError RecordData :=
  if rtype = typeA then .ok (readAddress data)
  else if rtype = typeTxt then readText data
  else .ok .none

def readRecord (packet rest : List UInt8) : Except DecodeError (Record × List UInt8) := do
  let (name, rest) ← Name.read packet rest
  let (rtype, rest) ← readWord rest
  let (rclass, rest) ← readWord rest
  let (ttl, rest) ← readLong rest
  let (length, rest) ← readWord rest
  let (bytes, rest) ← readBytes length.toNat rest
  let data ← readData rtype bytes
  return ({ name, rtype, rclass, ttl, data }, rest)

def readMany {α : Type} (readItem : List UInt8 → Except DecodeError (α × List UInt8)) :
    (count : Nat) → List UInt8 → Except DecodeError (List α × List UInt8)
  | 0, rest => .ok ([], rest)
  | count + 1, rest => do
    let (item, rest) ← readItem rest
    let (items, rest) ← readMany readItem count rest
    return (item :: items, rest)

/-! ## Whole messages -/

structure Header where
  id : UInt16
  flags : Flags
  questions : UInt16
  answers : UInt16

def readHeader : List UInt8 → Except DecodeError (Header × List UInt8)
  | i₁ :: i₀ :: f₁ :: f₀ :: q₁ :: q₀ :: a₁ :: a₀ :: _ :: _ :: _ :: _ :: rest =>
    .ok (⟨word i₁ i₀, ⟨word f₁ f₀⟩, word q₁ q₀, word a₁ a₀⟩, rest)
  | _ => .error .headerTooShort

def decode (packet : List UInt8) : Except DecodeError Message := do
  let (header, rest) ← readHeader packet
  let (questions, rest) ← readMany (readQuestion packet) header.questions.toNat rest
  let (answers, _) ← readMany (readRecord packet) header.answers.toNat rest
  return { id := header.id, flags := header.flags, questions, answers }

/-- The id at the front of a packet, whether or not the rest is a message. -/
def peekId : List UInt8 → Option UInt16
  | high :: low :: _ => some (word high low)
  | _ => none

def peekFlags : List UInt8 → Option Flags
  | _ :: _ :: high :: low :: _ => some ⟨word high low⟩
  | _ => none

end Message

end NameServer
