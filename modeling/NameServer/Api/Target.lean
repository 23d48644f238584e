import NameServer.Text.Digits
import NameServer.Text.Split
import NameServer.Text.Utf8

/-!
# Request targets

The path of a request is a list of segments, and its query a list of pairs.
In both, a percent sign and two hexadecimal digits stand for a byte; a percent
sign without them stands for itself.
-/

namespace NameServer.Target

/-- The bytes that a text with percent escapes stands for. -/
def unescape : List UInt8 → List UInt8
  | 0x25 :: a :: b :: rest =>
    match Text.hexDigit? (Char.ofNat a.toNat), Text.hexDigit? (Char.ofNat b.toNat) with
    | some high, some low => (16 * high + low).toUInt8 :: unescape rest
    | _, _ => 0x25 :: unescape (a :: b :: rest)
  | byte :: rest => byte :: unescape rest
  | [] => []

def bytesOf (cs : List Char) : List UInt8 := Text.toUtf8 (String.ofList cs)

/-- The text of a path segment; `none` when it isn't UTF-8. -/
def segment? (cs : List Char) : Option String := Text.ofUtf8? (unescape (bytesOf cs))

/-- The segments of a path, the first of which is what comes before its first slash. -/
def segments (path : String) : List (List Char) := Text.split '/' path.toList

/-- The name of each pair of a query, where a plus sign stands for a blank. -/
def queryNames (query : String) : List (List UInt8) :=
  ((Text.split '&' query.toList).filter (· != [])).map fun pair =>
    let name := pair.takeWhile (· != '=')
    unescape (bytesOf (name.map fun c => if c = '+' then ' ' else c))

end NameServer.Target
