/-
# The page in a record and the page of the access

A record holds the guest physical page that the tracer found in the page tables. The
emulator found its own, earlier perhaps, and keeps it in its translation cache. This module
compares the two for every processor with an MMU, of version 5 or 6.

The tracer only knows the tables of version 6, and it takes the page from the descriptor as
it stands. It ends its walk at a section, as it is meant to, but also at a fine page table of
version 5. And in a large page it does not take bits 15 to 12 from the address.
-/

import TlbAnalyzer.Emulator.Coherence
import TlbAnalyzer.Emulator.WalkRecord

namespace TlbAnalyzer.Emulator

open Math Tracer

/-! ## A region and the tracer's walk -/

section

variable {env : CPUState} {mem : BitVec 32 → BitVec 32} {address : BitVec 32} {isUser : Bool}
  {region : Region}

end

/-! ## Addresses of one page -/

end TlbAnalyzer.Emulator
