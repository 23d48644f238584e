import NameServer.Config.Basic

/-!
# The address cache

Addresses that were found for tunnel hostnames, the most recently used first.
An entry expires when it wasn't looked up for the sliding time, and in any
case the absolute time after it was written. A full cache makes room by
dropping what has expired and, if nothing has, what was used the longest ago.
Times are milliseconds.
-/

namespace NameServer

structure CacheEntry where
  address : String
  writtenAt : Nat
  usedAt : Nat
  deriving DecidableEq, Repr

structure Cache where
  enabled : Bool
  sliding : Nat
  absolute : Nat
  maxEntries : Nat
  entries : Table CacheEntry := .empty
  deriving DecidableEq

namespace Cache

def ofSettings (settings : CacheSettings) : Cache where
  enabled := settings.enabled
  sliding := 1000 * settings.sliding
  absolute := 1000 * settings.absolute
  maxEntries := settings.maxEntries

/-- There is room for one entry at least. -/
def capacity (c : Cache) : Nat := max 1 c.maxEntries

def size (c : Cache) : Nat := c.entries.size

def isEmpty (c : Cache) : Bool := c.entries.isEmpty

def isExpired (c : Cache) (now : Nat) (e : CacheEntry) : Bool :=
  c.sliding ≤ now - e.usedAt || c.absolute ≤ now - e.writtenAt

/-- Looks a key up, which starts its sliding time again, or drops it if it has expired. -/
def get (c : Cache) (now : Nat) (key : String) : Option String × Cache :=
  if !c.enabled then (none, c)
  else match c.entries.get? key with
    | none => (none, c)
    | some e =>
      if c.isExpired now e then (none, { c with entries := c.entries.erase key })
      else (some e.address, { c with entries := c.entries.insert key { e with usedAt := now } })

def makeRoom (c : Cache) (now : Nat) (key : String) : Table CacheEntry :=
  if c.entries.contains key || c.size < c.capacity then c.entries
  else
    let live := c.entries.filter fun _ e => !c.isExpired now e
    if live.size < c.capacity then live else live.dropOldest

def insert (c : Cache) (now : Nat) (key address : String) : Cache :=
  if !c.enabled then c
  else { c with entries := (c.makeRoom now key).insert key ⟨address, now, now⟩ }

def remove (c : Cache) (key : String) : Bool × Cache :=
  (c.entries.contains key, { c with entries := c.entries.erase key })

def clear (c : Cache) : Nat × Cache := (c.size, { c with entries := .empty })

end Cache

end NameServer
