/-!
# Header flags

The sixteen flag bits of a message header: QR, a four bit opcode, AA, TC, RD,
RA, three reserved bits and a four bit response code.
-/

namespace NameServer

structure Flags where
  bits : UInt16
  deriving DecidableEq, Repr, Inhabited

namespace Flags

def qr : UInt16 := 0x8000
def aa : UInt16 := 0x0400
def tc : UInt16 := 0x0200
def rd : UInt16 := 0x0100
def ra : UInt16 := 0x0080

def has (flags : Flags) (mask : UInt16) : Bool := flags.bits &&& mask != 0

def set (flags : Flags) (mask : UInt16) (on : Bool) : Flags :=
  ⟨if on then flags.bits ||| mask else flags.bits &&& ~~~mask⟩

def opcode (flags : Flags) : UInt16 := (flags.bits &&& 0x7800) >>> 11

def responseCode (flags : Flags) : UInt16 := flags.bits &&& 0x000F

def setResponseCode (flags : Flags) (code : UInt16) : Flags :=
  ⟨(flags.bits &&& ~~~0x000F) ||| (code &&& 0x000F)⟩

end Flags

end NameServer
