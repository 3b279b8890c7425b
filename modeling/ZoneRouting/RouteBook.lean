import ZoneRouting.Directory
import ZoneRouting.Route
import ZoneRouting.Time
/-!
Routes kept by destination, each with the deadline until which it may be used. Routes past their
deadline are dropped when their destination is looked up, and a destination is forgotten with its
last route; of the routes that are left the shortest is chosen, and of equally short ones the
first learned.
-/
namespace ZoneRouting

structure TimedRoute where
  hops : Route
  validUntil : UInt64
  deriving DecidableEq, Repr

namespace TimedRoute

def Live (now : UInt64) (r : TimedRoute) : Prop := now ≤ r.validUntil

instance (now : UInt64) (r : TimedRoute) : Decidable (Live now r) :=
  inferInstanceAs (Decidable (now ≤ r.validUntil))

-- Enters a route among others: a new one at the end, one that is there with the later of the two
-- deadlines.
def enter (hops : Route) (validUntil : UInt64) : List TimedRoute → List TimedRoute
  | [] => [⟨hops, validUntil⟩]
  | r :: rest =>
    if r.hops = hops then ⟨hops, max r.validUntil validUntil⟩ :: rest
    else r :: enter hops validUntil rest

def shortest? : List TimedRoute → Option TimedRoute
  | [] => none
  | r :: rest =>
    match shortest? rest with
    | none => some r
    | some best => if best.hops.length < r.hops.length then some best else some r

end TimedRoute

structure RouteBook where
  buckets : Directory (List TimedRoute)
  deriving DecidableEq

namespace RouteBook

def empty : RouteBook := ⟨Directory.empty⟩

-- The routes entered for a destination, whether they may still be used or not.
def bucket (book : RouteBook) (destination : Identifier) : List TimedRoute :=
  (book.buckets.find? destination).getD []

def store (book : RouteBook) (destination : Identifier) (hops : Route) (validUntil : UInt64) :
    RouteBook :=
  ⟨book.buckets.insert destination (TimedRoute.enter hops validUntil (book.bucket destination))⟩

-- The shortest route to a destination that may be used, and the book without the routes to it that
-- may not.
def lookup (book : RouteBook) (destination : Identifier) (now : UInt64) :
    Option Route × RouteBook :=
  match book.buckets.find? destination with
  | none => (none, book)
  | some routes =>
    let live := routes.filter (TimedRoute.Live now ·)
    match TimedRoute.shortest? live with
    | none => (none, ⟨book.buckets.erase destination⟩)
    | some best => (some best.hops, ⟨book.buckets.insert destination live⟩)

def destinations (book : RouteBook) : List Identifier := book.buckets.keys

def routes (book : RouteBook) : List Route :=
  book.buckets.values.flatMap fun bucket => bucket.map TimedRoute.hops

end RouteBook
end ZoneRouting
