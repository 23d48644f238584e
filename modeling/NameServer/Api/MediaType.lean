import NameServer.Text.Case
import NameServer.Text.Split

/-!
# Media types

Whether a content type says JSON: `application/json`, or another application
type with the suffix `+json`, and parameters that are well formed.
-/

namespace NameServer.MediaType

def isToken (c : Char) : Bool :=
  let marks := ['!', '#', '$', '%', '&', '\'', '+', '-', '.', '^', '_', '\x60', '|', '~']
  c.isAlphanum || marks.contains c

def isQuotable (c : Char) : Bool := 0x20 ≤ c.toNat && c.toNat ≠ 0x7F

/-! ## Parameters -/

/-- Where in a list of parameters a character stands. -/
inductive ParameterState where
  | nameStart
  | name
  | valueStart
  | value
  | quotedStart
  | quoted
  | afterQuoted
  deriving DecidableEq, Repr

namespace ParameterState

/-- A name needs a character, and so does a value in quotes, where a quote can be the first one. -/
def next : ParameterState → Char → Option ParameterState
  | nameStart, c => if c = ' ' then some nameStart else if isToken c then some name else none
  | name, c => if c = '=' then some valueStart else if isToken c then some name else none
  | valueStart, c => if c = '"' then some quotedStart else if isToken c then some value else none
  | value, c => if c = ';' then some nameStart else if isToken c then some value else none
  | quotedStart, c => if isQuotable c then some quoted else none
  | quoted, c => if c = '"' then some afterQuoted else if isQuotable c then some quoted else none
  | afterQuoted, c => if c = ';' then some nameStart else if c = ' ' then some afterQuoted else none

def isEnd : ParameterState → Bool
  | nameStart | valueStart | value | afterQuoted => true
  | name | quotedStart | quoted => false

end ParameterState

def areParameters (cs : List Char) : Bool :=
  (cs.foldlM ParameterState.next .nameStart).any ParameterState.isEnd

/-! ## Types -/

/-- A subtype and its suffix: what stands before and after its last plus sign, unless that is
the first character. -/
def splitSuffix (subtype : List Char) : List Char × Option (List Char) :=
  let tail := (subtype.reverse.takeWhile (· != '+')).reverse
  let base := subtype.take (subtype.length - tail.length - 1)
  if base = [] then (subtype, none) else (base, some tail)

def json : List Char := ['j', 's', 'o', 'n']

def application : List Char := ['a', 'p', 'p', 'l', 'i', 'c', 'a', 't', 'i', 'o', 'n']

def isJsonSubtype (subtype : List Char) : Bool :=
  let (base, suffix) := splitSuffix (Text.lower subtype)
  subtype.all isToken && (base == json || suffix == some json)

def isJson (contentType : List Char) : Bool :=
  match Text.cut '/' contentType with
  | none => false
  | some (kind, rest) =>
    Text.lower kind == application &&
      match Text.cut ';' rest with
      | none => isJsonSubtype rest
      | some (subtype, parameters) => isJsonSubtype subtype && areParameters parameters

end NameServer.MediaType
