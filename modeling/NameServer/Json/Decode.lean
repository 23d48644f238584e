import NameServer.Json.Document
import NameServer.Table
import NameServer.Text.Utf8

/-!
# Decoding documents

A decoder takes a document for a value of its type. A record is decoded from
an object or from an array of its fields in order; faults are found from left
to right, and fields that are missing only after that.
-/

namespace NameServer.Json

abbrev Decoder (α : Type) := Document → Except Fault α

namespace Decoder

variable {α β : Type}

/-- The fault of a document that isn't what is asked for. Brackets and braces are not looked
into; a scalar is read before its kind is refused. -/
def refuse : Document → Except Fault α
  | .garbled fault => .error fault
  | .broken fault _ => .error fault
  | _ => .error .mismatch

def text : Decoder String
  | .text value => .ok value
  | d => refuse d

def bool : Decoder Bool
  | .bool value => .ok value
  | d => refuse d

def natural (max : Nat) : Decoder Nat
  | .number n =>
    match n.natural? with
    | some value => if value ≤ max then .ok value else .error .mismatch
    | none => .error .mismatch
  | d => refuse d

def u32 : Decoder UInt32 := fun d => Nat.toUInt32 <$> natural (UInt32.size - 1) d

def u64 : Decoder Nat := natural (UInt64.size - 1)

def parsed (parse : String → Option α) : Decoder α := fun d => do
  match parse (← text d) with
  | some a => return a
  | none => throw .mismatch

def nullable (decode : Decoder α) : Decoder (Option α)
  | .null => .ok none
  | d => some <$> decode d

def items (decode : Decoder α) : List Document → Except Fault (List α)
  | [] => .ok []
  | d :: ds => do
    let a ← decode d
    let as ← items decode ds
    return a :: as

def list (decode : Decoder α) : Decoder (List α)
  | .array ds ending => do
    let as ← items decode ds
    ending.read
    return as
  | d => refuse d

def members (decode : Decoder α) :
    List (Except Fault String × Document) → Except Fault (List (String × α))
  | [] => .ok []
  | (key, d) :: rest => do
    let key ← key
    let a ← decode d
    let as ← members decode rest
    return (key, a) :: as

/-- An object with any keys; of equal keys the last one counts. -/
def table (decode : Decoder α) : Decoder (Table α)
  | .object ms ending => do
    let entries ← members decode ms
    ending.read
    return Table.ofList entries
  | d => refuse d

end Decoder

/-! ## Records -/

/-- The fields of a record, each with a check of its document, and how the record is built from
the documents of its fields. -/
structure Shape (α : Type) where
  fields : List (String × (Document → Except Fault Unit))
  build : (String → Option Document) → Except Fault α

namespace Shape

variable {α β : Type}

def required (name : String) (decode : Decoder α) : Shape α where
  fields := [(name, fun d => discard (decode d))]
  build := fun find => match find name with
    | some d => decode d
    | none => .error .mismatch

def defaulted (name : String) (default : α) (decode : Decoder α) : Shape α where
  fields := [(name, fun d => discard (decode d))]
  build := fun find => match find name with
    | some d => decode d
    | none => .ok default

instance : Applicative Shape where
  pure a := ⟨[], fun _ => .ok a⟩
  seq f a :=
    { fields := f.fields ++ (a ()).fields
      build := fun find => do
        let g ← f.build find
        let x ← (a ()).build find
        return g x }

/-- Checks the members of an object. A field may come once, other members are passed over. -/
def checkMembers (fields : List (String × (Document → Except Fault Unit))) (seen : List String) :
    List (Except Fault String × Document) → Except Fault Unit
  | [] => .ok ()
  | (key, d) :: rest => do
    let key ← key
    match fields.lookup key with
    | none =>
      d.skip
      checkMembers fields seen rest
    | some check =>
      if key ∈ seen then throw .mismatch
      check d
      checkMembers fields (key :: seen) rest

def checkItems (ending : Ending) : List (String × (Document → Except Fault Unit)) →
    List Document → Except Fault Unit
  | [], [] => ending.read
  | [], _ :: _ => .error .malformed
  | _ :: _, [] => ending.read
  | (_, check) :: fields, d :: ds => do
    check d
    checkItems ending fields ds

def findMember (members : List (Except Fault String × Document)) (name : String) :
    Option Document :=
  members.findSome? fun (key, d) => match key with
    | .ok key => if key = name then some d else none
    | .error _ => none

def findItem (fields : List (String × (Document → Except Fault Unit))) (items : List Document)
    (name : String) : Option Document :=
  ((fields.map Prod.fst).zip items).lookup name

def decode (shape : Shape α) : Decoder α
  | .object members ending => do
    checkMembers shape.fields [] members
    ending.read
    shape.build (findMember members)
  | .array items ending => do
    checkItems ending shape.fields items
    shape.build (findItem shape.fields items)
  | d => Decoder.refuse d

end Shape

/-! ## Texts -/

/-- Decodes the document at the front of a text, whatever comes after it. -/
def decodeFront {α : Type} (decode : Decoder α) (bytes : List UInt8) : Except Fault α :=
  decode (Document.read (Text.ofUtf8 bytes)).1

def decodeAll {α : Type} (decode : Decoder α) (bytes : List UInt8) : Except Fault α := do
  let (document, rest) := Document.read (Text.ofUtf8 bytes)
  let a ← decode document
  if Document.skipBlank rest ≠ [] then throw .malformed
  return a

end NameServer.Json
