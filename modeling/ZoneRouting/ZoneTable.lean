import ZoneRouting.RouteBook
import ZoneRouting.Datagram
/-!
The routes inside a device's zone, learned from the advertisements that reach it. A route starts at
the device and ends at its destination. Devices whose shortest usable route has one hop more than
the radius of the zone are the border nodes, to whom discoveries are sent.
-/
namespace ZoneRouting

structure ZoneTable where
  owner : Identifier
  borderHops : Nat
  book : RouteBook
  -- Devices to which a route of that many hops was ever learned, in the order of learning.
  candidates : List Identifier
  deriving DecidableEq

namespace ZoneTable

def empty (owner : Identifier) (zoneRadius : Nat) : ZoneTable :=
  ⟨owner, zoneRadius + 1, RouteBook.empty, []⟩

-- The route to its origin that an advertisement carries for the last device on it.
def routeTo (a : Advertisement) : Route := a.route.reverse ++ [a.origin]

-- Learns the route that an advertisement carries, if it ends at the owner and has no loop; tells
-- whether it did.
def learn (table : ZoneTable) (a : Advertisement) (now : UInt64) : Bool × ZoneTable :=
  let hops := routeTo a
  if a.route.getLast? = some table.owner ∧ Route.LoopFree hops then
    let book := table.book.store a.origin hops (deadline now a.interval)
    let candidates :=
      if hops.length = table.borderHops + 1 ∧ a.origin ∉ table.candidates then
        table.candidates ++ [a.origin]
      else table.candidates
    (true, { table with book, candidates })
  else (false, table)

-- The shortest usable route to a device, and the table without its routes past their deadline.
def lookup (table : ZoneTable) (destination : Identifier) (now : UInt64) :
    Option Route × ZoneTable :=
  let (route, book) := table.book.lookup destination now
  (route, { table with book })

def sweep (borderHops : Nat) (excluded : List Identifier) (now : UInt64) :
    List Identifier → RouteBook → List Identifier × List Identifier × RouteBook
  | [], book => ([], [], book)
  | node :: nodes, book =>
    match book.lookup node now with
    | (none, book) => sweep borderHops excluded now nodes book
    | (some route, book) =>
      let (border, kept, book) := sweep borderHops excluded now nodes book
      if route.length = borderHops + 1 ∧ node ∉ excluded then (node :: border, node :: kept, book)
      else (border, node :: kept, book)

-- The border nodes except the excluded ones, in the order in which they were first learned.
-- Candidates without a usable route are forgotten.
def borderNodes (table : ZoneTable) (excluded : List Identifier) (now : UInt64) :
    List Identifier × ZoneTable :=
  let (border, candidates, book) := sweep table.borderHops excluded now table.candidates table.book
  (border, { table with book, candidates })

end ZoneTable
end ZoneRouting
