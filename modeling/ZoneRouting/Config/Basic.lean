import ZoneRouting.Config.Address
import ZoneRouting.Identity
import ZoneRouting.Settings

namespace ZoneRouting

structure Peer where
  id : Identifier
  address : SocketAddress
  deriving DecidableEq, Repr

structure Config where
  identityPath : String := "node.identity"
  listen : SocketAddress := .everywhere 4870
  peers : List Peer := []
  advertiseEvery : UInt64 := 5000
  routing : Settings := {}
  deriving DecidableEq, Repr

inductive ConfigFault where
  | unreadable
  | unwritable
  | zoneRadius
  | advertiseNever
  | advertiseTooSeldom
  deriving DecidableEq, Repr

def ConfigFault.message (fault : ConfigFault) : String :=
  "Configuration error: " ++ match fault with
    | unreadable => "Failed to parse config"
    | unwritable => "Failed to serialize config"
    | zoneRadius => "zone_radius must be at least 1"
    | advertiseNever => "advertise_every_ms must be positive"
    | advertiseTooSeldom => "advertise_every_ms exceeds advertisement validity"

def Config.validate (c : Config) : Except ConfigFault Unit :=
  if c.routing.zoneRadius = 0 then .error .zoneRadius
  else if c.advertiseEvery = 0 then .error .advertiseNever
  else if c.advertiseEvery > c.routing.advertisementInterval then .error .advertiseTooSeldom
  else .ok ()

end ZoneRouting
