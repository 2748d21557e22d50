import Mathlib.Data.Int.Notation
import Mathlib.Data.Nat.Notation

/-! Fixed-width types of `globals/global_types.h` that the prefetchers share. -/

namespace Scarab

/-- `Addr`, an `unsigned long long`. Bits 58 to 63 hold the core. -/
abbrev Addr := BitVec 64

/-- `uns64`. -/
abbrev Uns64 := BitVec 64

/-- `uns`, where its bits matter. Plain counters and positions are `ℕ`. -/
abbrev Uns := BitVec 32

/-- `uns8`. -/
abbrev Uns8 := BitVec 8

/-- `int`, in two's complement. -/
abbrev CInt := BitVec 32

end Scarab
