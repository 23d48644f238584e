/-!
# What can be wrong with a JSON text
-/

namespace NameServer.Json

inductive Fault where
  | malformed
  | ended
  | mismatch
  deriving DecidableEq, Repr

/-- A text as it is read: `none` is a byte that belongs to no character. -/
abbrev Source := List (Option Char)

end NameServer.Json
