/-!
# Files

What a path leads to, as far as reading and writing a whole file go, and why a
file can be of no use.
-/

namespace NameServer

inductive Place where
  | file (content : List UInt8)
  /-- No file, but a directory where one can be written. -/
  | absent
  | directory
  /-- No directory for the file to be in. -/
  | nowhere
  deriving DecidableEq, Repr

namespace Place

def read : Place → Option (List UInt8)
  | file content => some content
  | _ => none

/-- The place after its content is replaced; `none` when it can't be written. -/
def write (content : List UInt8) : Place → Option Place
  | file _ => some (file content)
  | absent => some (file content)
  | _ => none

end Place

inductive FileError where
  | io
  | invalidJson
  deriving DecidableEq, Repr

def FileError.message : FileError → String
  | io => "an IO error occurred"
  | invalidJson => "invalid JSON"

end NameServer
