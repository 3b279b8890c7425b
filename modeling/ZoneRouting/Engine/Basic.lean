import ZoneRouting.Settings
import ZoneRouting.Sealing
import ZoneRouting.Wire.Frame
import ZoneRouting.ZoneTable
import ZoneRouting.RouteCache
import ZoneRouting.Keyring
import ZoneRouting.Packet
/-!
The routing engine of one device: all that the device knows and holds, as one value. Nothing here
touches a radio or a clock. Every operation takes the time and returns the packets to transmit
together with the engine after it. The clock stands still during an operation: each of its lookups and
each of the payloads that it sends has the same time.
-/
namespace ZoneRouting

inductive SendOutcome where
  | direct
  | interZone
  | queued
  deriving DecidableEq, Repr

structure Engine where
  settings : Settings
  identity : Identity
  publicKey : PublicKey
  random : Random
  table : ZoneTable
  cache : RouteCache
  keyring : Keyring
  outgoing : List Packet
  incoming : List Bytes
  parked : Directory (List Bytes)
  -- When the latest discovery of each device began, while it is unanswered.
  pending : Directory UInt64

namespace Engine

def start (S : Suite) (settings : Settings) (identity : Identity) (random : Random) : Engine where
  settings := settings
  identity := identity
  publicKey := identity.publicKey S
  random := random
  table := ZoneTable.empty identity.id settings.zoneRadius
  cache := RouteCache.empty settings.routeCacheLifetime
  keyring := Directory.empty
  outgoing := []
  incoming := []
  parked := Directory.empty
  pending := Directory.empty

def id (e : Engine) : Identifier := e.identity.id

def routeTo (now : UInt64) (target : Identifier) (e : Engine) : Except Fault Route × Engine :=
  match e.table.lookup target now with
  | (none, table) => (.error (.noRoute target), { e with table })
  | (some route, table) => (.ok route, { e with table })

def cachedRouteTo (now : UInt64) (target : Identifier) (e : Engine) : Except Fault Route × Engine :=
  match e.cache.lookup target now with
  | (none, cache) => (.error (.noRoute target), { e with cache })
  | (some route, cache) => (.ok route, { e with cache })

def borderNodes (now : UInt64) (excluded : List Identifier) (e : Engine) :
    List Identifier × Engine :=
  let (nodes, table) := e.table.borderNodes excluded now
  (nodes, { e with table })

def parkedFor (target : Identifier) (e : Engine) : List Bytes := (e.parked.find? target).getD []

def takeOutgoing (e : Engine) : List Packet × Engine := (e.outgoing, { e with outgoing := [] })

def takeIncoming (e : Engine) : List Bytes × Engine := (e.incoming, { e with incoming := [] })

def advertise (e : Engine) : Except Fault Packet :=
  match Wire.encode (.advertisement
      { origin := e.id, key := e.publicKey, route := [],
        interval := e.settings.advertisementInterval }) with
  | .ok bytes => .ok (Packet.broadcast bytes)
  | .error fault => .error (.wire fault)

def describe (e : Engine) : String :=
  "Network \x7b id: \"" ++ e.id.text ++ "\", outgoing: " ++ toString e.outgoing.length
    ++ ", incoming: " ++ toString e.incoming.length
    ++ ", parked_destinations: " ++ toString e.parked.size ++ " \x7d"

end Engine
end ZoneRouting
