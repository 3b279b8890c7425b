import ZoneRouting.Identifier

namespace ZoneRouting

inductive Target where
  | single (neighbour : Identifier)
  | broadcast
  deriving DecidableEq, Repr

structure Packet where
  target : Target
  payload : Bytes
  deriving DecidableEq, Repr

namespace Packet

def single (neighbour : Identifier) (payload : Bytes) : Packet := ⟨.single neighbour, payload⟩

def broadcast (payload : Bytes) : Packet := ⟨.broadcast, payload⟩

def neighbour? (p : Packet) : Option Identifier :=
  match p.target with
  | .single id => some id
  | .broadcast => none

end Packet
end ZoneRouting
