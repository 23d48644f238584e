import NameServer.Cache
import NameServer.Proxies
import NameServer.Session.Store

/-!
# Resolving tunnel hostnames

An address is looked for in the cache, then in the session store, then among
the proxy entries. What is not an address counts as missing there, and so does
a store that fails. An address that was not in the cache is put into it.
-/

namespace NameServer

def addressOf? (value : String) : Option Ipv4 := Ipv4.ofText? (Text.trim value.toList)

def Store.address? (store : Store) (key : String) : Option Ipv4 :=
  match store.find key with
  | .ok (some session) => addressOf? session.address
  | _ => none

def Proxies.address? (proxies : Proxies) (entryId : String) : Option Ipv4 :=
  (proxies.get? entryId).bind addressOf?

structure Resolution where
  address : Option Ipv4
  cache : Cache
  askedStore : Bool

def resolve (cache : Cache) (store : Store) (proxies : Proxies) (now : Nat) (key entryId : String) :
    Resolution :=
  let (cached, cache) := cache.get now key
  match cached.bind addressOf? with
  | some ip => ⟨some ip, cache, false⟩
  | none =>
    match store.address? key <|> proxies.address? entryId with
    | some ip => ⟨some ip, cache.insert now key (toString ip), true⟩
    | none => ⟨none, cache, true⟩

end NameServer
