import NameServer.Message.Error
import NameServer.Text.Latin1
import NameServer.Text.Split

/-!
# Names on the wire

A name is a list of labels, each a length byte from 1 to 63 and that many
bytes, ended by a zero byte. When read, a byte from 192 up and the byte after
it are a pointer: the name goes on at that offset of the packet. At most
`maxPointers` pointers are followed, so reading ends even where they form a
circle.
-/

namespace NameServer

namespace Name

def maxLabel : Nat := 63

def maxPointers : Nat := 5

/-! ## Reading -/

def offset (high low : UInt8) : Nat := (high.toNat - 192) * 256 + low.toNat

/-- The labels of the name at the front of `rest`, and what follows the name: it ends with its
zero byte or, if it has one, with its first pointer. -/
def readLabels (packet : List UInt8) (pointers : Nat) (rest : List UInt8) :
    Except DecodeError (List (List UInt8) × List UInt8) :=
  match rest with
  | [] => .error .pastEnd
  | length :: rest =>
    if length = 0 then .ok ([], rest)
    else if 192 ≤ length then
      match rest, pointers with
      | [], _ => .error .pastEnd
      | _ :: _, 0 => .error .tooManyPointers
      | low :: rest, pointers + 1 => do
        let (labels, _) ← readLabels packet pointers (packet.drop (offset length low))
        return (labels, rest)
    else if 64 ≤ length then .error .reservedLabel
    else if (rest.take length.toNat).length < length.toNat then .error .pastEnd
    else do
      let (labels, after) ← readLabels packet pointers (rest.drop length.toNat)
      return (rest.take length.toNat :: labels, after)
  termination_by (pointers, rest.length)

def ofLabels (labels : List (List UInt8)) : String :=
  String.ofList (Text.join '.' (labels.map Latin1.decode))

def read (packet rest : List UInt8) : Except DecodeError (String × List UInt8) := do
  let (labels, rest) ← readLabels packet maxPointers rest
  return (ofLabels labels, rest)

/-! ## Writing -/

/-- The name without one trailing dot. -/
def undotted (name : String) : List Char :=
  if name.toList.getLast? = some '.' then name.toList.dropLast else name.toList

theorem undotted_eq_iff (name : String) (cs : List Char) : undotted name = cs ↔
    name.toList = cs ++ ['.'] ∨ name.toList = cs ∧ cs.getLast? ≠ some '.' := by
  unfold undotted
  split
  · next h =>
    obtain ⟨front, hname⟩ := List.getLast?_eq_some_iff.mp h
    rw [hname, List.dropLast_concat]
    constructor
    · rintro rfl
      exact .inl rfl
    · rintro (hdot | ⟨rfl, hlast⟩)
      · exact List.append_cancel_right hdot
      · simp at hlast
  · next h =>
    constructor
    · rintro rfl
      exact .inr ⟨rfl, h⟩
    · rintro (hdot | ⟨hname, _⟩)
      · simp [hdot] at h
      · exact hname

/-- The labels of a name, without the empty one that a trailing dot makes. -/
def labels (name : String) : List (List Char) :=
  if undotted name = [] then [] else Text.split '.' (undotted name)

def isLabel (label : List Char) : Bool :=
  label != [] && label.length ≤ maxLabel && label.all Latin1.isLatin1

def writeLabel (label : List Char) : List UInt8 :=
  label.length.toUInt8 :: Latin1.encode label

def write (name : String) : Except EncodeError (List UInt8) :=
  if (labels name).all isLabel then .ok ((labels name).flatMap writeLabel ++ [0])
  else .error (.name (String.ofList (undotted name)))

end Name

end NameServer
