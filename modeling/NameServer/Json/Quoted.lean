import NameServer.Json.Fault
import NameServer.Text.Digits

/-!
# Quoted text

A text in quotes is read for its value or only passed over. To have a value it
must be valid UTF-8 without half surrogate pairs; to be passed over it only
has to end and to hold neither control characters nor unknown escapes.
-/

namespace NameServer.Json.Quoted

/-! ## Escapes

Each reader starts after the backslash and tells how many characters the
escape has. -/

def plain? : Char → Option Char
  | '"' => some '"'
  | '\\' => some '\\'
  | '/' => some '/'
  | 'b' => some '\x08'
  | 'f' => some '\x0c'
  | 'n' => some '\n'
  | 'r' => some '\r'
  | 't' => some '\t'
  | _ => none

def unit? : Source → Option Nat
  | some a :: some b :: some c :: some d :: _ =>
    if [a, b, c, d].all Text.isHexDigit then some (Text.ofHexadecimal [a, b, c, d]) else none
  | _ => none

def byteSize (s : Source) : Nat := s.foldr (fun u size => (u.map Char.utf8Size).getD 1 + size) 0

/-- Four hexadecimal digits. Where fewer than four bytes are left, it is the end that is wrong. -/
def readUnit (s : Source) : Except Fault Nat :=
  match unit? s with
  | some n => .ok n
  | none => .error (if byteSize (s.take 4) < 4 then .ended else .malformed)

def isHighSurrogate (n : Nat) : Bool := 0xD800 ≤ n && n ≤ 0xDBFF

def isLowSurrogate (n : Nat) : Bool := 0xDC00 ≤ n && n ≤ 0xDFFF

/-- The escape of a low surrogate, whose backslash is the first character. -/
def readLowSurrogate : Source → Except Fault Nat
  | [] => .error .ended
  | some '\\' :: [] => .error .ended
  | some '\\' :: some 'u' :: s => do
    let low ← readUnit s
    if isLowSurrogate low then return low else throw .malformed
  | _ => .error .malformed

def readEscape : Source → Except Fault (Char × Nat)
  | [] => .error .ended
  | some 'u' :: s => do
    let n ← readUnit s
    if isLowSurrogate n then throw .malformed
    if isHighSurrogate n then
      let low ← readLowSurrogate (s.drop 4)
      return (Char.ofNat (0x10000 + (n - 0xD800) * 0x400 + (low - 0xDC00)), 11)
    return (Char.ofNat n, 5)
  | some c :: _ =>
    match plain? c with
    | some e => .ok (e, 1)
    | none => .error .malformed
  | none :: _ => .error .malformed

def skipEscape : Source → Except Fault Nat
  | [] => .error .ended
  | some 'u' :: s => do
    let _ ← readUnit s
    return 5
  | some c :: _ => if (plain? c).isSome then .ok 1 else .error .malformed
  | none :: _ => .error .malformed

/-! ## Texts

Each reader starts after the opening quote and gives what follows the closing
one. -/

def isControl (c : Char) : Bool := c.toNat < 0x20

def read : Source → Except Fault (List Char × Source)
  | [] => .error .ended
  | some '"' :: s => .ok ([], s)
  | some '\\' :: s => do
    let (c, count) ← readEscape s
    let (cs, rest) ← read (s.drop count)
    return (c :: cs, rest)
  | some c :: s =>
    if isControl c then .error .malformed
    else do
      let (cs, rest) ← read s
      return (c :: cs, rest)
  | none :: s => do
    let _ ← read s
    throw .malformed
  termination_by s => s.length

def skip : Source → Except Fault Source
  | [] => .error .ended
  | some '"' :: s => .ok s
  | some '\\' :: s => do
    let count ← skipEscape s
    skip (s.drop count)
  | some c :: s => if isControl c then .error .malformed else skip s
  | none :: s => skip s
  termination_by s => s.length

end NameServer.Json.Quoted
