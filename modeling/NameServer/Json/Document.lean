import NameServer.Json.Numeral
import NameServer.Json.Quoted

/-!
# Documents

A document is what a JSON text holds up to its first fault. Whether a fault
counts depends on who reads: text and numbers are looked at closely only when
their value is asked for. So a document keeps, for each place, the fault that
a reader meets there, and readers go through it from left to right.
-/

namespace NameServer.Json

/-- How a list of items stops: with its bracket, or with a fault when it is read for its value
and one when it is passed over. -/
inductive Ending where
  | closed
  | broken (read skipped : Fault)
  deriving DecidableEq, Repr

inductive Document where
  | null
  | bool (value : Bool)
  | number (n : Numeral)
  | text (value : String)
  /-- A text or number that can be passed over but not read. -/
  | garbled (fault : Fault)
  | broken (read skipped : Fault)
  | array (items : List Document) (ending : Ending)
  | object (members : List (Except Fault String × Document)) (ending : Ending)

def Ending.read : Ending → Except Fault Unit
  | closed => .ok ()
  | broken fault _ => .error fault

def Ending.skip : Ending → Except Fault Unit
  | closed => .ok ()
  | broken _ fault => .error fault

namespace Document

mutual

def skip : Document → Except Fault Unit
  | broken _ fault => .error fault
  | array items ending => do
    skipItems items
    ending.skip
  | object members ending => do
    skipMembers members
    ending.skip
  | _ => .ok ()

def skipItems : List Document → Except Fault Unit
  | [] => .ok ()
  | item :: items => do
    item.skip
    skipItems items

def skipMembers : List (Except Fault String × Document) → Except Fault Unit
  | [] => .ok ()
  | (_, value) :: members => do
    value.skip
    skipMembers members

end

/-! ## Reading a text -/

def isBlank (u : Option Char) : Bool :=
  u == some ' ' || u == some '\n' || u == some '\t' || u == some '\r'

def skipBlank (s : Source) : Source := s.dropWhile isBlank

/-- The rest of a word of which the first letter is read. -/
def readWord (value : Document) : List Char → Source → Document × Source
  | [], s => (value, s)
  | _ :: _, [] => (broken .ended .ended, [])
  | c :: cs, u :: s =>
    if u = some c then readWord value cs s else (broken .malformed .malformed, [])

def readNumber (s : Source) : Document × Source :=
  match Numeral.read s with
  | .ok (n, rest) => (if n.isTooLarge then garbled .malformed else number n, rest)
  | .error fault => (broken fault .malformed, [])

/-- A text after its opening quote, by the result of reading and of skipping it. -/
def readQuoted (s : Source) : Except (Fault × Fault) (Except Fault String × Source) :=
  match Quoted.read s with
  | .ok (cs, rest) => .ok (.ok (String.ofList cs), rest)
  | .error fault =>
    match Quoted.skip s with
    | .ok rest => .ok (.error fault, rest)
    | .error skipped => .error (fault, skipped)

def ofQuoted (s : Source) : Document × Source :=
  match readQuoted s with
  | .ok (.ok value, rest) => (text value, rest)
  | .ok (.error fault, rest) => (garbled fault, rest)
  | .error (read, skipped) => (broken read skipped, [])

structure Items where
  items : List Document
  ending : Ending
  rest : Source

structure Members where
  members : List (Except Fault String × Document)
  ending : Ending
  rest : Source

mutual

/-- Reads a value. Of three calls inside one another one goes a character ahead, so fuel of three
for a character, and three more, is enough. -/
def readValue (fuel : Nat) (s : Source) : Document × Source :=
  match fuel, skipBlank s with
  | 0, _ => (broken .ended .ended, [])
  | _, [] => (broken .ended .ended, [])
  | _, some '"' :: s => ofQuoted s
  | _, some 't' :: s => readWord (bool true) ['r', 'u', 'e'] s
  | _, some 'f' :: s => readWord (bool false) ['a', 'l', 's', 'e'] s
  | _, some 'n' :: s => readWord null ['u', 'l', 'l'] s
  | fuel + 1, some '[' :: s =>
    let ⟨items, ending, rest⟩ := readItems fuel s
    (array items ending, rest)
  | fuel + 1, some '\x7b' :: s =>
    let ⟨members, ending, rest⟩ := readMembers fuel s
    (object members ending, rest)
  | _, u :: s =>
    if u = some '-' ∨ Numeral.isDigit u then readNumber (u :: s)
    else (broken .malformed .malformed, [])

def readItems (fuel : Nat) (s : Source) : Items :=
  match fuel, skipBlank s with
  | 0, _ => ⟨[], .broken .ended .ended, []⟩
  | _, [] => ⟨[], .broken .ended .ended, []⟩
  | _, some ']' :: rest => ⟨[], .closed, rest⟩
  | fuel + 1, s => readMoreItems fuel s

def readMoreItems (fuel : Nat) (s : Source) : Items :=
  match fuel with
  | 0 => ⟨[], .broken .ended .ended, []⟩
  | fuel + 1 =>
    let (item, rest) := readValue fuel s
    match skipBlank rest with
    | [] => ⟨[item], .broken .ended .ended, []⟩
    | some ']' :: rest => ⟨[item], .closed, rest⟩
    | some ',' :: rest =>
      let more := readMoreItems fuel rest
      { more with items := item :: more.items }
    | _ => ⟨[item], .broken .malformed .malformed, []⟩

def readMembers (fuel : Nat) (s : Source) : Members :=
  match fuel, skipBlank s with
  | 0, _ => ⟨[], .broken .ended .ended, []⟩
  | _, some '\x7d' :: rest => ⟨[], .closed, rest⟩
  | fuel + 1, s => readMoreMembers fuel s

def readMoreMembers (fuel : Nat) (s : Source) : Members :=
  match fuel, skipBlank s with
  | 0, _ => ⟨[], .broken .ended .ended, []⟩
  | _, [] => ⟨[], .broken .ended .ended, []⟩
  | fuel + 1, some '"' :: s =>
    match readQuoted s with
    | .error (read, skipped) => ⟨[], .broken read skipped, []⟩
    | .ok (key, rest) =>
      let (value, rest) := readMember fuel rest
      match skipBlank rest with
      | [] => ⟨[(key, value)], .broken .ended .ended, []⟩
      | some '\x7d' :: rest => ⟨[(key, value)], .closed, rest⟩
      | some ',' :: rest =>
        let more := readMoreMembers fuel rest
        { more with members := (key, value) :: more.members }
      | _ => ⟨[(key, value)], .broken .malformed .malformed, []⟩
  | _, _ => ⟨[], .broken .malformed .malformed, []⟩

def readMember (fuel : Nat) (s : Source) : Document × Source :=
  match fuel, skipBlank s with
  | 0, _ => (broken .ended .ended, [])
  | _, [] => (broken .ended .ended, [])
  | fuel + 1, some ':' :: rest => readValue fuel rest
  | _, _ => (broken .malformed .malformed, [])

end

/-- The document at the front of a text, and what follows it. -/
def read (s : Source) : Document × Source := readValue (3 * s.length + 3) s

end Document

end NameServer.Json
