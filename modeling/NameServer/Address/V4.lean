import NameServer.Text.Digits

/-!
# IPv4 addresses

Four decimal octets of one to three digits, without leading zeros. Reading is
greedy and leaves the rest of the text, so that longer forms can build on it.
-/

namespace NameServer

structure Ipv4 where
  a : UInt8
  b : UInt8
  c : UInt8
  d : UInt8
  deriving DecidableEq, Repr, Inhabited

namespace Ipv4

def octets (ip : Ipv4) : List UInt8 := [ip.a, ip.b, ip.c, ip.d]

def isOctet (digits : List Char) : Bool :=
  digits != [] && digits.length ≤ 3 && (digits.head? != some '0' || digits.length == 1) &&
    Text.ofDecimal digits ≤ 255

def readOctet (cs : List Char) : Option (UInt8 × List Char) :=
  let digits := cs.takeWhile Char.isDigit
  if isOctet digits then
    some ((Text.ofDecimal digits).toUInt8, cs.dropWhile Char.isDigit)
  else none

def readDot : List Char → Option (List Char)
  | '.' :: cs => some cs
  | _ => none

def read (cs : List Char) : Option (Ipv4 × List Char) := do
  let (a, cs) ← readOctet cs
  let (b, cs) ← readOctet (← readDot cs)
  let (c, cs) ← readOctet (← readDot cs)
  let (d, cs) ← readOctet (← readDot cs)
  return (⟨a, b, c, d⟩, cs)

def ofText? (cs : List Char) : Option Ipv4 :=
  match read cs with
  | some (ip, []) => some ip
  | _ => none

def toText (ip : Ipv4) : List Char :=
  Text.decimal ip.a.toNat ++ '.' :: (Text.decimal ip.b.toNat ++ '.' ::
    (Text.decimal ip.c.toNat ++ '.' :: Text.decimal ip.d.toNat))

def ofString? (s : String) : Option Ipv4 := ofText? s.toList

def toString (ip : Ipv4) : String := String.ofList ip.toText

instance : ToString Ipv4 := ⟨toString⟩

/-- 127.0.0.0/8 -/
def isLoopback (ip : Ipv4) : Bool := ip.a = 127

/-- 10.0.0.0/8, 172.16.0.0/12 and 192.168.0.0/16. -/
def isPrivate (ip : Ipv4) : Bool :=
  ip.a = 10 || (ip.a = 172 && ip.b.toNat / 16 = 1) || (ip.a = 192 && ip.b = 168)

/-! ## What is written reads back -/

theorem isOctet_decimal (n : UInt8) : isOctet (Text.decimal n.toNat) = true := by
  have h : ∀ n : Fin 256, isOctet (Text.decimal n.val) = true := by decide +kernel
  exact h ⟨n.toNat, n.toNat_lt⟩

theorem readOctet_decimal (n : UInt8) {rest : List Char}
    (h : ∀ c ∈ rest.head?, c.isDigit = false) :
    readOctet (Text.decimal n.toNat ++ rest) = some (n, rest) := by
  have hd : ∀ c ∈ Text.decimal n.toNat, c.isDigit = true := fun _ => Text.isDigit_of_mem_decimal
  have ht : rest.takeWhile Char.isDigit = [] := by cases rest <;> simp_all
  have hr : rest.dropWhile Char.isDigit = rest := by cases rest <;> simp_all
  simp [readOctet, List.takeWhile_append_of_pos hd, List.dropWhile_append_of_pos hd, ht, hr,
    isOctet_decimal, Text.ofDecimal_decimal]

theorem read_toText (ip : Ipv4) {rest : List Char} (h : ∀ c ∈ rest.head?, c.isDigit = false) :
    read (ip.toText ++ rest) = some (ip, rest) := by
  have hdot : ∀ cs : List Char, ∀ c ∈ ('.' :: cs).head?, c.isDigit = false := by simp
  simp [read, toText, List.append_assoc, readOctet_decimal _ (hdot _), readDot,
    readOctet_decimal _ h]

theorem ofText?_toText (ip : Ipv4) : ofText? ip.toText = some ip := by
  have := @read_toText ip [] (by simp)
  rw [List.append_nil] at this
  simp [ofText?, this]

theorem ofString?_toString (ip : Ipv4) : ofString? ip.toString = some ip := by
  simp [ofString?, toString, ofText?_toText]

end Ipv4

end NameServer
