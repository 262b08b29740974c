import SpillStorage.Pool
import SpillStorage.Binary64

/-!
How splintered a pool is: 0 when all free bytes are one segment, close to 1 when they lie in many.

Correspondence:
  `FreeSpaceAllocator::fragmentation_score` ↔ `fragmentation`
-/

namespace SpillStorage.Pool

/-- One minus the largest segment's share of the free bytes, each step rounded to 64-bit binary. -/
def fragmentation (p : Pool) : Binary64 :=
  if p.freeBytes = 0 ∨ p.count = 0 then .zero
  else
    (((Binary64.ofNat p.largest).over? (Binary64.ofNat p.freeBytes)).getD .zero).complement

end SpillStorage.Pool
