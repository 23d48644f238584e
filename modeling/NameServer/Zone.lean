import NameServer.Text.Affix
import NameServer.Text.Blank
import NameServer.Text.Case
import NameServer.Text.Split

/-!
# Zones

A zone is the name at the top of a tree of names. Zones are compared in normal
form: ASCII letters in lower case, and no dots at the end.
-/

namespace NameServer.Zone

def normalText (name : String) : List Char :=
  Text.lower (Text.trimEnd (· == '.') name.toList)

def normalize (name : String) : String := String.ofList (normalText name)

/-! ## Names that can be zones

A backslash takes the next character literally, or three octal digits for the
character of that code. An escape that the text ends in is left out. -/

def isOctal (c : Char) : Bool := '0' ≤ c && c ≤ '7'

def octal (digits : List Char) : Nat := digits.foldl (fun n c => 8 * n + (c.toNat - '0'.toNat)) 0

/-- An escape after its backslash: the character it stands for, if it is complete, and its
length. -/
def readEscape : List Char → Option (Option Char × Nat)
  | [] => some (none, 0)
  | c :: cs =>
    if !c.isDigit then some (some c, 1)
    else if !isOctal c then none
    else match cs with
      | [] => some (none, 1)
      | d :: cs =>
        if !isOctal d then none
        else match cs with
          | [] => some (none, 2)
          | e :: _ => if isOctal e then some (some (Char.ofNat (octal [c, d, e])), 3) else none

/-- The labels of a name with escapes; `label` is what is read of the first one. -/
def readLabels (label : List Char) : List Char → Option (List (List Char))
  | [] => some (if label = [] then [] else [label])
  | '.' :: cs => (label :: ·) <$> readLabels [] cs
  | '\\' :: cs => do
    let (c, count) ← readEscape cs
    readLabels (label ++ c.toList) (cs.drop count)
  | c :: cs => readLabels (label ++ [c]) cs
  termination_by cs => cs.length

def isFirstChar (c : Char) : Bool := c.isAlphanum || c == '_' || c == '*' || c == '.'

def isLaterChar (c : Char) : Bool := c.isAlphanum || c == '-' || c == '_' || c == '.'

def isLabel : List Char → Bool
  | [] => false
  | c :: cs => isFirstChar c && cs.all isLaterChar && cs.length < 63

def wireSize (labels : List (List Char)) : Nat :=
  labels.foldr (fun label size => label.length + 1 + size) 0

def isName (cs : List Char) : Bool :=
  match readLabels [] cs with
  | none => false
  | some labels => labels.all isLabel && wireSize labels ≤ 255

/-! ## Names in zones -/

def covers (zone name : List Char) : Bool :=
  name == zone || (Text.dropBack? zone name).any fun above => above.getLast? == some '.'

def serves (zones : List String) (hostname : String) : Bool :=
  zones.any fun zone => covers zone.toList (normalText hostname)

def challengeLabel : List Char := "_acme-challenge.".toList

def isChallenge (zones : List String) (hostname : String) : Bool :=
  (Text.dropFront? challengeLabel (normalText hostname)).any fun zone =>
    zones.contains (String.ofList zone)

/-- What a name in normal form has before a zone and its dot, unless that is nothing. -/
def above? (zone name : List Char) : Option (List Char) :=
  ((Text.dropBack? zone name).bind (Text.dropBack? ['.'])).filter (· != [])

/-- The name of the session that a hostname leads to: the hostname without the first zone that
it is below. -/
def sessionName (zones : List String) (hostname : String) : String :=
  let name := normalText hostname
  String.ofList ((zones.findSome? fun zone => above? zone.toList name).getD name)

end NameServer.Zone
