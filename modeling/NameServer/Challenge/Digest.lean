/-!
# Challenge digests

A certificate authority expects the digest of a key: 32 bytes in the URL-safe
base64 alphabet, without padding. A text of any other bytes, length or unused
bits is refused with the first thing that is wrong with it.
-/

namespace NameServer.Digest

inductive EncodingError where
  | invalidByte (byte : UInt8) (offset : Nat)
  | sixBitRemainder
  | padding
  | invalidLastSymbol (byte : UInt8) (offset : Nat)
  deriving DecidableEq, Repr

def EncodingError.message : EncodingError → String
  | invalidByte byte offset => s!"Invalid byte {byte.toNat}, offset {offset}."
  | sixBitRemainder => "Encoded text cannot have a 6-bit remainder."
  | padding => "Invalid padding"
  | invalidLastSymbol byte offset => s!"Invalid last symbol {byte.toNat}, offset {offset}."

inductive Error where
  | encoding (error : EncodingError)
  | length (actual : Nat)
  deriving DecidableEq, Repr

def digestLength : Nat := 32

def Error.message : Error → String
  | encoding error => "invalid encoding: " ++ error.message
  | length actual =>
    s!"invalid decoded length: found {actual} bytes, expected {digestLength}"

def value? (byte : UInt8) : Option Nat :=
  let n := byte.toNat
  if 65 ≤ n ∧ n ≤ 90 then some (n - 65)
  else if 97 ≤ n ∧ n ≤ 122 then some (n - 97 + 26)
  else if 48 ≤ n ∧ n ≤ 57 then some (n - 48 + 52)
  else if n = 45 then some 62
  else if n = 95 then some 63
  else none

def isSymbol (byte : UInt8) : Bool := (value? byte).isSome

def pad : UInt8 := 61

def checkSymbols (offset : Nat) : List UInt8 → Except EncodingError Unit
  | [] => .ok ()
  | byte :: bytes =>
    if isSymbol byte then checkSymbols (offset + 1) bytes else .error (.invalidByte byte offset)

/-- The last block, of which `index` bytes are read: padding may stand only where a group of four
has two symbols already, and what is wrong after it is the padding. -/
def checkBlock (start index : Nat) (padded : Option Nat) : List UInt8 → Except EncodingError Unit
  | [] => if padded.isSome then .error .padding else .ok ()
  | byte :: bytes =>
    if byte = pad then
      if index % 4 < 2 then .error (.invalidByte pad (padded.getD (start + index)))
      else checkBlock start (index + 1) (padded <|> some (start + index)) bytes
    else match padded with
      | some offset => .error (.invalidByte pad offset)
      | none =>
        if isSymbol byte then checkBlock start (index + 1) none bytes
        else .error (.invalidByte byte (start + index))

/-- The bits of the last symbol that belong to no byte have to be zero. -/
def checkUnused (bytes : List UInt8) : Except EncodingError Unit :=
  match bytes.getLast? with
  | none => .ok ()
  | some last =>
    let unused := match bytes.length % 4 with
      | 2 => 16
      | 3 => 4
      | _ => 1
    if (value? last).getD 0 % unused = 0 then .ok ()
    else .error (.invalidLastSymbol last (bytes.length - 1))

/-- One symbol is too few for the last byte. -/
def checkLength (bytes : List UInt8) : Except EncodingError Unit :=
  if bytes.length % 4 ≠ 1 then .ok ()
  else match bytes.getLast? with
    | some last =>
      if last = pad ∨ isSymbol last then .error .sixBitRemainder
      else .error (.invalidByte last (bytes.length - 1))
    | none => .ok ()

def decodedLength (bytes : List UInt8) : Except EncodingError Nat := do
  let start := (bytes.length - 1) / 8 * 8
  checkLength bytes
  checkSymbols 0 (bytes.take start)
  checkBlock start 0 none (bytes.drop start)
  checkUnused bytes
  return bytes.length * 3 / 4

def check (text : String) : Except Error Unit :=
  match decodedLength text.toByteArray.data.toList with
  | .error error => .error (.encoding error)
  | .ok length => if length = digestLength then .ok () else .error (.length length)

end NameServer.Digest
