import NameServer.Address.V4
import NameServer.Message.Flags

/-!
# Messages

A message is what an answer to an address or text query needs: header id and
flags, questions, and answers. Names are texts whose labels are separated by
dots; a character stands for the byte of the same number.
-/

namespace NameServer

def typeA : UInt16 := 1
def typeTxt : UInt16 := 16
def classIn : UInt16 := 1

structure Question where
  name : String
  qtype : UInt16 := typeA
  qclass : UInt16 := classIn
  deriving DecidableEq, Repr

inductive RecordData where
  | address (ip : Ipv4)
  | text (text : String)
  | none
  deriving DecidableEq, Repr

structure Record where
  name : String
  rtype : UInt16
  rclass : UInt16 := classIn
  ttl : UInt32
  data : RecordData
  deriving DecidableEq, Repr

namespace Record

def address (owner : String) (ttl : UInt32) (ip : Ipv4) : Record :=
  { name := owner, rtype := typeA, ttl, data := .address ip }

def text (owner : String) (ttl : UInt32) (text : String) : Record :=
  { name := owner, rtype := typeTxt, ttl, data := .text text }

end Record

structure Message where
  id : UInt16
  flags : Flags
  questions : List Question
  answers : List Record
  deriving DecidableEq, Repr

end NameServer
