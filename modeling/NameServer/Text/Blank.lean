/-!
# White space

The characters with the Unicode property White_Space, and trimming by it.
-/

namespace NameServer.Text

def isBlank (c : Char) : Bool :=
  let n := c.toNat
  (9 ≤ n && n ≤ 13) || n = 0x20 || n = 0x85 || n = 0xA0 || n = 0x1680 ||
    (0x2000 ≤ n && n ≤ 0x200A) || n = 0x2028 || n = 0x2029 || n = 0x202F || n = 0x205F || n = 0x3000

def trimEnd (drop : Char → Bool) (cs : List Char) : List Char :=
  (cs.reverse.dropWhile drop).reverse

def trim (cs : List Char) : List Char := trimEnd isBlank (cs.dropWhile isBlank)

def trimmed (text : String) : String := String.ofList (trim text.toList)

end NameServer.Text
