/-!
# Sweeping times

Expired sessions are swept once in an interval. A sweep that comes late by more
than `tolerance` puts the later ones off, so that two of them are never close
together. Times are milliseconds.
-/

namespace NameServer

structure Schedule where
  due : Nat
  interval : Nat
  deriving DecidableEq, Repr

namespace Schedule

def tolerance : Nat := 5

def start (now interval : Nat) : Schedule := ⟨now + interval, interval⟩

def isDue (s : Schedule) (now : Nat) : Bool := s.due ≤ now

def next (s : Schedule) (now : Nat) : Schedule :=
  { s with due := (if s.due + tolerance < now then now else s.due) + s.interval }

end Schedule

end NameServer
