import ZoneRouting.RouteBook

namespace ZoneRouting

structure RouteCache where
  lifetime : UInt64
  book : RouteBook
  deriving DecidableEq

namespace RouteCache

def empty (lifetime : UInt64) : RouteCache := ⟨lifetime, RouteBook.empty⟩

def learn (cache : RouteCache) (destination : Identifier) (route : Route) (now : UInt64) :
    Bool × RouteCache :=
  if 2 ≤ route.length ∧ Route.LoopFree route then
    (true, { cache with
      book := cache.book.store destination route (deadline now cache.lifetime) })
  else (false, cache)

def lookup (cache : RouteCache) (destination : Identifier) (now : UInt64) :
    Option Route × RouteCache :=
  let (route, book) := cache.book.lookup destination now
  (route, { cache with book })

end RouteCache
end ZoneRouting
