/-!
Time in milliseconds since a device's clock started, in words of 64 bits. Deadlines are clamped to
the last representable time; a clock that is moved past it starts again from zero.
-/
namespace ZoneRouting

def latest : UInt64 := 0xFFFFFFFFFFFFFFFF

-- The deadline a duration after a time, or the latest time.
def deadline (now duration : UInt64) : UInt64 :=
  if now.toNat + duration.toNat ≤ latest.toNat then now + duration else latest

-- The time passed since an earlier time; nothing, if that time is still to come.
def elapsed (now since : UInt64) : UInt64 := if since ≤ now then now - since else 0

theorem to_nat_deadline (now duration : UInt64) :
    (deadline now duration).toNat = min (now.toNat + duration.toNat) latest.toNat := by
  have hl : latest.toNat = 18446744073709551615 := rfl
  unfold deadline
  split
  · rename_i h
    rw [UInt64.toNat_add, Nat.mod_eq_of_lt (by omega)]
    omega
  · omega

theorem to_nat_elapsed (now since : UInt64) :
    (elapsed now since).toNat = now.toNat - since.toNat := by
  unfold elapsed
  split
  · rename_i h
    exact UInt64.toNat_sub_of_le _ _ h
  · rename_i h
    rw [UInt64.le_iff_toNat_le] at h
    have : (0 : UInt64).toNat = 0 := rfl
    omega

structure Clock where
  time : UInt64 := 0
  deriving DecidableEq, Repr, Inhabited

namespace Clock

def advance (c : Clock) (duration : UInt64) : Clock := ⟨c.time + duration⟩

def set (_ : Clock) (time : UInt64) : Clock := ⟨time⟩

end Clock
end ZoneRouting
