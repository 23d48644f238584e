/-!
# UTF-8 text

Bytes are read as characters. A byte that belongs to no character is kept in
its place as `none`.
-/

namespace NameServer.Text

def toUtf8 (text : String) : List UInt8 := text.toByteArray.data.toList

def ofUtf8? (bytes : List UInt8) : Option String := String.fromUTF8? ⟨bytes.toArray⟩

/-- The character that the first bytes of `bytes` are, with the number of those bytes. -/
def firstChar? (bytes : List UInt8) : Option (Char × Nat) :=
  [1, 2, 3, 4].findSome? fun n =>
    match (ofUtf8? (bytes.take n)).map String.toList with
    | some [c] => some (c, n)
    | _ => none

/-- Character by character, for bytes that are not all of a text. -/
def salvage : List UInt8 → List (Option Char)
  | [] => []
  | b :: bytes =>
    match firstChar? (b :: bytes) with
    | some (c, n) => some c :: salvage (bytes.drop (n - 1))
    | none => none :: salvage bytes
  termination_by bytes => bytes.length

def ofUtf8 (bytes : List UInt8) : List (Option Char) :=
  match ofUtf8? bytes with
  | some text => text.toList.map some
  | none => salvage bytes

theorem ofUtf8?_toUtf8 (text : String) : ofUtf8? (toUtf8 text) = some text := by
  have h : (⟨(toUtf8 text).toArray⟩ : ByteArray) = text.toByteArray := by simp [toUtf8]
  rw [ofUtf8?, h, String.fromUTF8?, dif_pos text.isValidUTF8]
  rfl

theorem ofUtf8_toUtf8 (text : String) : ofUtf8 (toUtf8 text) = text.toList.map some := by
  simp [ofUtf8, ofUtf8?_toUtf8]

end NameServer.Text
