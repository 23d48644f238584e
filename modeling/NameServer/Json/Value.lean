import NameServer.Text.Digits

/-!
# Values and their text

`pretty` puts each item and member on a line of its own, two spaces deeper
than the bracket it belongs to; `compact` leaves all blanks out.
-/

namespace NameServer.Json

inductive Value where
  | null
  | bool (value : Bool)
  | number (value : Nat)
  | text (value : String)
  | array (items : List Value)
  | object (members : List (String × Value))

/-! ## Quoting -/

def escaped (c : Char) : List Char :=
  match c with
  | '"' => ['\\', '"']
  | '\\' => ['\\', '\\']
  | '\x08' => ['\\', 'b']
  | '\x0c' => ['\\', 'f']
  | '\n' => ['\\', 'n']
  | '\r' => ['\\', 'r']
  | '\t' => ['\\', 't']
  | c =>
    if c.toNat < 0x20 then
      ['\\', 'u', '0', '0', Nat.digitChar (c.toNat / 16), Nat.digitChar (c.toNat % 16)]
    else [c]

def quoted (text : String) : List Char := '"' :: (text.toList.flatMap escaped ++ ['"'])

namespace Value

def boolText (b : Bool) : List Char :=
  if b then ['t', 'r', 'u', 'e'] else ['f', 'a', 'l', 's', 'e']

/-! ## On one line -/

mutual

def compactText : Value → List Char
  | null => ['n', 'u', 'l', 'l']
  | bool b => boolText b
  | number n => Text.decimal n
  | text s => quoted s
  | array items => '[' :: (compactItems items ++ [']'])
  | object members => '\x7b' :: (compactMembers members ++ ['\x7d'])

def compactItems : List Value → List Char
  | [] => []
  | [item] => item.compactText
  | item :: next :: items => item.compactText ++ ',' :: compactItems (next :: items)

def compactMembers : List (String × Value) → List Char
  | [] => []
  | [(key, value)] => quoted key ++ ':' :: value.compactText
  | (key, value) :: next :: members =>
    quoted key ++ ':' :: (value.compactText ++ ',' :: compactMembers (next :: members))

end

/-! ## On many lines -/

def newLine (depth : Nat) : List Char := '\n' :: List.replicate (2 * depth) ' '

mutual

def prettyText (depth : Nat) : Value → List Char
  | null => ['n', 'u', 'l', 'l']
  | bool b => boolText b
  | number n => Text.decimal n
  | text s => quoted s
  | array [] => ['[', ']']
  | array (item :: items) =>
    '[' :: (prettyItems (depth + 1) (item :: items) ++ newLine depth ++ [']'])
  | object [] => ['\x7b', '\x7d']
  | object (member :: members) =>
    '\x7b' :: (prettyMembers (depth + 1) (member :: members) ++ newLine depth ++ ['\x7d'])

def prettyItems (depth : Nat) : List Value → List Char
  | [] => []
  | [item] => newLine depth ++ item.prettyText depth
  | item :: next :: items =>
    newLine depth ++ item.prettyText depth ++ ',' :: prettyItems depth (next :: items)

def prettyMembers (depth : Nat) : List (String × Value) → List Char
  | [] => []
  | [(key, value)] => newLine depth ++ quoted key ++ ':' :: ' ' :: value.prettyText depth
  | (key, value) :: next :: members =>
    newLine depth ++ quoted key ++ ':' :: ' ' :: (value.prettyText depth ++
      ',' :: prettyMembers depth (next :: members))

end

def compact (v : Value) : String := String.ofList v.compactText

def pretty (v : Value) : String := String.ofList (v.prettyText 0)

end Value

end NameServer.Json
