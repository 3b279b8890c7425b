import ZoneRouting.Config.Basic
import ZoneRouting.Toml.Document
import ZoneRouting.Toml.Printer
/-!
Configurations as text. A record is a table with its fields as keys, of which unknown ones are
ignored, or an array with its fields in order. Fields that are not given have the values of the
default configuration, unless there is none.
-/
namespace ZoneRouting

open Toml (Value Entries)

def fieldOf {α : Type} (read : Value → Option α) (default : Option α) : Option Value → Option α
  | some v => read v
  | none => default

def fields? (names : List String) : Value → Option (String → Option Value)
  | .table _ entries => some fun name => Entries.get? entries name
  | .array vs => some fun name => (names.zip vs).lookup name
  | .datetime => some fun _ => none
  | _ => none

def elements? : Value → Option (List Value)
  | .array vs => some vs
  | .tables latest => some latest.reverse
  | _ => none

def textOf? : Value → Option String
  | .string s => some s
  | _ => none

def natOf? : Value → Option Nat
  | .integer n => if 0 ≤ n then some n.toNat else none
  | _ => none

def wordOf? (v : Value) : Option UInt64 := (natOf? v).map UInt64.ofNat

def identifierOf? : Value → Option Identifier
  | .string s => Identifier.ofText? s
  | .array vs => do
    let octets ← (vs.take 16).mapM natOf?
    if octets.length = 16 ∧ octets.all (· < 256) then
      some (Identifier.ofBytes (octets.map UInt8.ofNat))
    else none
  | _ => none

def addressOf? (v : Value) : Option SocketAddress := (textOf? v).bind SocketAddress.ofText?

def Peer.ofValue? (v : Value) : Option Peer := do
  let field ← fields? ["id", "address"] v
  let id ← fieldOf identifierOf? none (field "id")
  let address ← fieldOf addressOf? none (field "address")
  return { id, address }

namespace Settings

def names : List String :=
  ["zone_radius", "advertisement_interval_ms", "max_route_length", "route_cache_ttl_ms",
    "discovery_timeout_ms", "max_nesting_depth"]

def ofValue? (v : Value) : Option Settings := do
  let field ← fields? names v
  let base : Settings := {}
  let zoneRadius ← fieldOf natOf? (some base.zoneRadius) (field "zone_radius")
  let advertisementInterval ←
    fieldOf wordOf? (some base.advertisementInterval) (field "advertisement_interval_ms")
  let maxRouteLength ← fieldOf natOf? (some base.maxRouteLength) (field "max_route_length")
  let routeCacheLifetime ←
    fieldOf wordOf? (some base.routeCacheLifetime) (field "route_cache_ttl_ms")
  let discoveryTimeout ← fieldOf wordOf? (some base.discoveryTimeout) (field "discovery_timeout_ms")
  let maxNestingDepth ← fieldOf natOf? (some base.maxNestingDepth) (field "max_nesting_depth")
  return ⟨zoneRadius, advertisementInterval, maxRouteLength, routeCacheLifetime, discoveryTimeout,
    maxNestingDepth⟩

def write? (s : Settings) : Option String := do
  let values := [s.zoneRadius, s.advertisementInterval.toNat, s.maxRouteLength,
    s.routeCacheLifetime.toNat, s.discoveryTimeout.toNat, s.maxNestingDepth]
  let written ← values.mapM Toml.writeNat?
  return String.join (List.zipWith Toml.writePair names written)

end Settings

namespace Config

def ofEntries? (entries : Entries) : Option Config := do
  let field := Entries.get? entries
  let base : Config := {}
  let identityPath ← fieldOf textOf? none (field "identity_path")
  let listen ← fieldOf addressOf? (some base.listen) (field "listen")
  let peers ←
    fieldOf (fun v => (elements? v).bind fun vs => vs.mapM Peer.ofValue?) (some []) (field "peers")
  let advertiseEvery ← fieldOf wordOf? (some base.advertiseEvery) (field "advertise_every_ms")
  let routing ← fieldOf Settings.ofValue? (some base.routing) (field "routing")
  return { identityPath, listen, peers, advertiseEvery, routing }

def ofText (s : String) : Except ConfigFault Config :=
  match (Toml.document? s).bind ofEntries? with
  | some c => .ok c
  | none => .error .unreadable

def peerText (p : Peer) : String :=
  "\n[[peers]]\n" ++ Toml.writePair "id" (Toml.writeString p.id.text)
    ++ Toml.writePair "address" (Toml.writeString p.address.text)

def toText (c : Config) : Except ConfigFault String :=
  match Toml.writeNat? c.advertiseEvery.toNat, c.routing.write? with
  | some every, some settings =>
    .ok (Toml.writePair "identity_path" (Toml.writeString c.identityPath)
      ++ Toml.writePair "listen" (Toml.writeString c.listen.text)
      ++ (if c.peers = [] then Toml.writePair "peers" "[]" else "")
      ++ Toml.writePair "advertise_every_ms" every
      ++ String.join (c.peers.map peerText)
      ++ "\n[routing]\n" ++ settings)
  | _, _ => .error .unwritable

end Config
end ZoneRouting
