import NameServer.Json.Fault
import NameServer.Text.Digits

/-!
# Numerals

The number literals of JSON. Only whole numbers below 2^64 have a use here,
but every literal that is read as a value has to be within the range of double
precision, which `isTooLarge` decides without floating point.
-/

namespace NameServer.Json

structure Numeral where
  negative : Bool
  whole : List Char
  fraction : List Char
  exponentNegative : Bool
  exponent : List Char
  deriving DecidableEq, Repr

namespace Numeral

/-! ## Reading -/

def isDigit (u : Option Char) : Bool := u.any Char.isDigit

def digits (s : Source) : List Char := (s.takeWhile isDigit).filterMap id

def afterDigits (s : Source) : Source := s.dropWhile isDigit

def readDigits (s : Source) : Except Fault (List Char × Source) :=
  if digits s = [] then .error (if s.isEmpty then .ended else .malformed)
  else .ok (digits s, afterDigits s)

def readWhole (s : Source) : Except Fault (List Char × Source) := do
  let (whole, rest) ← readDigits s
  if whole.head? = some '0' ∧ whole.length ≠ 1 then throw .malformed
  return (whole, rest)

def readFraction : Source → Except Fault (List Char × Source)
  | some '.' :: s => readDigits s
  | s => .ok ([], s)

def isExponentMark (u : Option Char) : Bool := u == some 'e' || u == some 'E'

def readExponent : Source → Except Fault (Bool × List Char × Source)
  | [] => .ok (false, [], [])
  | u :: s =>
    if isExponentMark u then do
      let (negative, s) := match s with
        | some '-' :: s => (true, s)
        | some '+' :: s => (false, s)
        | s => (false, s)
      let (exponent, s) ← readDigits s
      return (negative, exponent, s)
    else .ok (false, [], u :: s)

/-- Reads a numeral from the front of a text; the fault is that of a text read for its value. -/
def read (s : Source) : Except Fault (Numeral × Source) := do
  let (negative, s) := match s with
    | some '-' :: s => (true, s)
    | s => (false, s)
  let (whole, s) ← readWhole s
  let (fraction, s) ← readFraction s
  let (exponentNegative, exponent, s) ← readExponent s
  return ({ negative, whole, fraction, exponentNegative, exponent }, s)

/-! ## Values -/

def maxNatural : Nat := UInt64.size - 1

def natural? (n : Numeral) : Option Nat :=
  let value := Text.ofDecimal n.whole
  if n.negative || n.fraction != [] || n.exponent != [] || maxNatural < value then none
  else some value

/-- Appends as many digits to a number as keep it below 2^64; gives it with the count of the
digits taken. -/
def append (value : Nat) : List Char → Nat × Nat
  | [] => (value, 0)
  | c :: cs =>
    let next := 10 * value + Text.ofDecimal [c]
    if maxNatural < next then (value, 0)
    else
      let (value, count) := append next cs
      (value, count + 1)

/-- `n` to 53 significant bits, ties to even. -/
def rounded (n : Nat) : Nat :=
  if n < 1 <<< 53 then n
  else
    let unit := 1 <<< (n.log2 - 52)
    let low := n % unit
    let up := unit < 2 * low || (unit = 2 * low && n / unit % 2 = 1)
    (n / unit + if up then 1 else 0) * unit

/-- The least number that rounds to infinity in double precision. -/
def infinite : Nat := (1 <<< 1024) - (1 <<< 970)

def power (n : Numeral) : Int :=
  if n.exponentNegative then -(Text.ofDecimal n.exponent : Int) else Text.ofDecimal n.exponent

/-- The leading digits, as many as stay below 2^64, and the power of ten that is left. -/
def scientific (n : Numeral) : Nat × Int :=
  let (whole, wholeCount) := append 0 n.whole
  let (significand, fractionCount) := append whole n.fraction
  (significand, (n.whole.length - wholeCount : Nat) - (fractionCount : Int) + n.power)

/-- Whether the double closest to the leading digits, times the power of ten that is left, is
infinite. -/
def isTooLarge (n : Numeral) : Bool :=
  let (significand, scale) := n.scientific
  if significand = 0 ∨ scale < 0 then false
  else if 308 < scale then true
  else infinite ≤ rounded significand * rounded (Nat.pow 10 scale.toNat)

end Numeral

end NameServer.Json
