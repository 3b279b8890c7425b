import ZoneRouting.Directory
import ZoneRouting.Fault
import ZoneRouting.PublicKey
/-!
The public keys of other devices. The first key recorded for a device stays, so that nobody can take
its place with a key of their own.
-/
namespace ZoneRouting

abbrev Keyring := Directory PublicKey

namespace Keyring

-- Records the key of a device. Recording the same key again does nothing; another one is refused.
def record (ring : Keyring) (id : Identifier) (key : PublicKey) : Except Fault Keyring :=
  match ring.find? id with
  | none => .ok (ring.insert id key)
  | some known => if known = key then .ok ring else .error (.keyMismatch id)

def key (ring : Keyring) (id : Identifier) : Except Fault PublicKey :=
  match ring.find? id with
  | none => .error (.keyNotFound id)
  | some key => .ok key

end Keyring
end ZoneRouting
