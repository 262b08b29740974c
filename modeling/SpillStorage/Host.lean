import SpillStorage.Disk
import SpillStorage.Registry

/-!
The host of a space: what its operations share with other spaces. That is the registry, the disk,
and the greatest block that the heap can supply.
-/

namespace SpillStorage

structure Host where
  registry : Registry
  disk : Disk
  /-- The greatest block that the heap can supply, 31 GiB unless it is said otherwise. -/
  heapCapacity : Nat := 31 * Nat.pow 2 30

namespace Host

/-- Returns `bytes` of memory blocks to the registry. -/
def releaseCache (h : Host) (bytes : Nat) : Host :=
  { h with registry := h.registry.releaseCache bytes }

/-- Returns `bytes` of the directory at `index` to the registry. -/
def releaseDirectory (h : Host) (index bytes : Nat) : Host :=
  { h with registry := h.registry.releaseDirectory index bytes }

end Host

end SpillStorage
