namespace ZoneRouting

-- Durations are in milliseconds.
structure Settings where
  zoneRadius : Nat := 2
  advertisementInterval : UInt64 := 10000
  maxRouteLength : Nat := 16
  routeCacheLifetime : UInt64 := 60000
  discoveryTimeout : UInt64 := 10000
  maxNestingDepth : Nat := 8
  deriving DecidableEq, Repr, Inhabited

namespace Settings

def borderHops (s : Settings) : Nat := s.zoneRadius + 1

def describe (s : Settings) : String :=
  "RoutingConfig \x7b zone_radius: " ++ toString s.zoneRadius
    ++ ", advertisement_interval_ms: " ++ toString s.advertisementInterval
    ++ ", max_route_length: " ++ toString s.maxRouteLength
    ++ ", route_cache_ttl_ms: " ++ toString s.routeCacheLifetime
    ++ ", discovery_timeout_ms: " ++ toString s.discoveryTimeout
    ++ ", max_nesting_depth: " ++ toString s.maxNestingDepth ++ " \x7d"

end Settings
end ZoneRouting
