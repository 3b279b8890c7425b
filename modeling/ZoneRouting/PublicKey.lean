import ZoneRouting.Octets
import ZoneRouting.Hex

namespace ZoneRouting

structure PublicKey where
  signing : Octets 32
  exchange : Octets 32
  deriving DecidableEq, Repr, Inhabited

namespace PublicKey

def toBytes (key : PublicKey) : Bytes := key.signing.toBytes ++ key.exchange.toBytes

-- The key that 64 octets write. Whether the signing half is a point is not asked here.
def ofBytes? (bytes : Bytes) : Option PublicKey :=
  if bytes.length = 64 then
    some ⟨Octets.ofBytes (bytes.take 32), Octets.ofBytes (bytes.drop 32)⟩
  else none

def fingerprint (key : PublicKey) : String := Hex.encode (key.signing.toBytes.take 8)

def describe (key : PublicKey) : String :=
  "PublicKey \x7b fingerprint: \"" ++ key.fingerprint ++ "\" \x7d"

@[simp] theorem length_to_bytes (key : PublicKey) : key.toBytes.length = 64 := by simp [toBytes]

@[simp] theorem of_bytes?_to_bytes (key : PublicKey) : ofBytes? key.toBytes = some key := by
  simp [ofBytes?, toBytes]

theorem of_bytes?_some {bytes : Bytes} {key : PublicKey} (h : ofBytes? bytes = some key) :
    key.toBytes = bytes := by
  unfold ofBytes? at h
  split at h
  · rename_i hl
    cases h
    simp only [toBytes]
    rw [Octets.to_bytes_of_bytes (by simp; omega), Octets.to_bytes_of_bytes (by simp; omega)]
    exact List.take_append_drop 32 bytes
  · cases h

end PublicKey
end ZoneRouting
