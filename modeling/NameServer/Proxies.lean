import NameServer.Table
import NameServer.Text.Blank
import NameServer.Text.Case

/-!
# Proxy entries

The addresses of the proxy entries by their ids, which are compared without
regard to case.
-/

namespace NameServer

structure Proxies where
  addresses : Table String := .empty
  deriving DecidableEq

namespace Proxies

/-- Of ids that differ only in case the last one counts. The order of the entries stands for the arbitrary one in which
a hash map gives them. -/
def ofTable (entries : Table String) : Proxies where
  addresses := Table.ofList <| entries.entries.map fun (id, address) =>
    (Text.lowered id, Text.trimmed address)

def get? (p : Proxies) (id : String) : Option String := p.addresses.get? (Text.lowered id)

def size (p : Proxies) : Nat := p.addresses.size

def isEmpty (p : Proxies) : Bool := p.addresses.isEmpty

end Proxies

end NameServer
