/-!
# Latin-1 text

A byte stands for the character of the same number, so any byte string is a
text and a text is a byte string exactly when its characters are below 256.
-/

namespace NameServer.Latin1

def char (b : UInt8) : Char := Char.ofNat b.toNat

def byte (c : Char) : UInt8 := c.toNat.toUInt8

def isLatin1 (c : Char) : Bool := c.toNat < 256

def decode (bytes : List UInt8) : List Char := bytes.map char

/-- Only for texts all of whose characters are below 256. -/
def encode (text : List Char) : List UInt8 := text.map byte

theorem toNat_char (b : UInt8) : (char b).toNat = b.toNat := by
  have h : b.toNat.isValidChar := Or.inl (by have := b.toNat_lt; omega)
  exact (congrArg Char.toNat (dif_pos h)).trans rfl

theorem isLatin1_char (b : UInt8) : isLatin1 (char b) = true := by
  have := b.toNat_lt
  simp [isLatin1, toNat_char]; omega

theorem byte_char (b : UInt8) : byte (char b) = b := by
  simp [byte, toNat_char]

theorem char_byte {c : Char} (h : isLatin1 c = true) : char (byte c) = c := by
  have hlt : c.toNat < 256 := by simpa [isLatin1] using h
  apply Char.ext
  apply UInt32.toNat.inj
  have : (char (byte c)).toNat = c.toNat := by
    rw [toNat_char]; simp [byte]; omega
  exact this

theorem encode_decode (bytes : List UInt8) : encode (decode bytes) = bytes := by
  induction bytes with
  | nil => rfl
  | cons b bytes ih => simp_all [encode, decode, byte_char]

theorem decode_encode {text : List Char} (h : text.all isLatin1 = true) :
    decode (encode text) = text := by
  induction text with
  | nil => rfl
  | cons c text ih => simp_all [encode, decode, char_byte]

end NameServer.Latin1
