/-
# The simulator program

`tlb_sim.c` replays a trace file against a nested TLB, a page walk cache, or
both, and counts the memory accesses of the two-dimensional page walk. This
module is the program: its globals, its five lookup functions, the three
emulation functions and the four simulations, one definition for each C
function.

The five lookup functions are copies of one body. The copies for the nested TLB
index by bits 12 and up and compare the address only; the copies for the page
walk cache index by bits 2 and up and compare and store the address space
identifier too. `lookup` is that body with the cache as a parameter.

The field `log` is the one thing the C program does not have. Every lookup
records its arguments and its answer there, newest first, and no function reads
it.
-/

import Mathlib.Logic.Function.Basic
import TlbAnalyzer.Cache.Geometry
import TlbAnalyzer.TraceFile.Format

namespace TlbAnalyzer.Simulator

open Cache TraceFile

/-- `CACHE_MAX_ENTRIES`. -/
def cacheMaxEntries : ℕ := 512

/-- The five tables `ntlb_tlb`, `ntlb2_tlb`, `pwc_tlb`, `pwc2_tlb`, `pwc3_tlb`. -/
inductive CacheName
  | ntlb | ntlb2 | pwc | pwc2 | pwc3
  deriving DecidableEq

namespace CacheName

/-- Whether a table is one of the page walk caches. -/
def isPwc : CacheName → Bool
  | .ntlb | .ntlb2 => false
  | .pwc | .pwc2 | .pwc3 => true

/-- The index bits of a key: `addr >> 12` for the nested TLB, `addr >> 2` for
the page walk cache. -/
def index (c : CacheName) (addr : BitVec 32) : BitVec 32 :=
  if c.isPwc then addr >>> 2 else addr >>> 12

/-- The hit test of the search loop. -/
def test (c : CacheName) (addr asid : BitVec 32) (e : TlbEntry) : Bool :=
  if c.isPwc then e.va == addr && e.asid == asid else e.va == addr

/-- What a refill stores, apart from the stamp. -/
def refill (c : CacheName) (addr asid : BitVec 32) (e : TlbEntry) : TlbEntry :=
  if c.isPwc then { e with va := addr, asid := asid } else { e with va := addr }

end CacheName

/-- One call of a lookup function. The nested TLB has no address space
identifiers; its lookups are recorded with 0. -/
structure Lookup where
  cache : CacheName
  addr : BitVec 32
  asid : BitVec 32
  hit : Bool
  deriving DecidableEq

/-- `enum SIM_CMD`, the four simulations. -/
inductive SimCmd
  | scNtlb | scPwcEpt | scPwcNoept | scNtlbPwc
  deriving DecidableEq

/-- The globals of `tlb_sim.c` that a simulation uses, and the log. -/
structure Sim where
  systs : ℕ
  /-- `TLB_MAX_ENTRIES_NTLB`, `TLB_WAYSTEP_NTLB`, `TLB_WAYMASK_NTLB`. -/
  ntlbGeometry : Geometry
  /-- `TLB_MAX_ENTRIES_PWC`, `TLB_WAYSTEP_PWC`, `TLB_WAYMASK_PWC`. -/
  pwcGeometry : Geometry
  /-- The five tables. -/
  tlb : CacheName → ℕ → TlbEntry
  /-- `ntlb_cnt`, `ntlb2_cnt`, `pwc_cnt`, `pwc2_cnt`, `pwc3_cnt`. -/
  cnt : CacheName → TlbCounter
  /-- `ntlb2_mem_accs`, `pwc2_mem_accs`, `pwc3_mem_accs` and `full_mem_accs`,
  the access totals of the four simulations. -/
  memAccs : SimCmd → ℕ
  log : List Lookup

/-- `struct SIM_RESULT`. -/
structure SimResult where
  accs : ℕ
  ntlb : TlbCounter
  pwc : TlbCounter
  deriving DecidableEq

/-- A function of the simulator: it works on the globals and may fault. -/
abbrev SimM := StateT Sim (Except Fault)

namespace Sim

/-- The globals when the process starts: C zeroes them. -/
def initial : Sim where
  systs := 0
  ntlbGeometry := ⟨0, 0, 0#32⟩
  pwcGeometry := ⟨0, 0, 0#32⟩
  tlb := fun _ _ => ⟨0#32, 0#32, 0⟩
  cnt := fun _ => ⟨0, 0⟩
  memAccs := fun _ => 0
  log := []

/-- The geometry a table is searched with. -/
def geometry (s : Sim) (c : CacheName) : Geometry :=
  if c.isPwc then s.pwcGeometry else s.ntlbGeometry

/-- Store an entry in a slot, stamp it with `++systs` and count the lookup. -/
def use (s : Sim) (c : CacheName) (addr asid : BitVec 32) (hit : Bool) (i : ℕ)
    (e : TlbEntry) : Sim :=
  { s with
    systs := s.systs + 1
    tlb := Function.update s.tlb c
      (Function.update (s.tlb c) i { e with ts := stampOf (s.systs + 1) })
    cnt := Function.update s.cnt c
      (if hit then { s.cnt c with hit := (s.cnt c).hit + 1 }
        else { s.cnt c with miss := (s.cnt c).miss + 1 })
    log := ⟨c, addr, asid, hit⟩ :: s.log }

/-- Add to the access total of a simulation. -/
def access (s : Sim) (cmd : SimCmd) (n : ℕ) : Sim :=
  { s with memAccs := Function.update s.memAccs cmd (s.memAccs cmd + n) }

/-- `flush_all`: the clock, the access totals, and `INIT_TLB` of every table. -/
def flushAll (s : Sim) : Sim :=
  { s with
    systs := 0
    tlb := fun c => flushTlb cacheMaxEntries (s.tlb c)
    cnt := fun _ => ⟨0, 0⟩
    memAccs := fun _ => 0
    log := [] }

end Sim

/-! ## Lookups -/

/-- The statement `if(cond) body`. -/
def whenever (cond : Prop) [Decidable cond] (body : SimM Unit) : SimM Unit :=
  if cond then body else pure ()

/-- The body the five lookup functions share. -/
def lookup (c : CacheName) (addr asid : BitVec 32) : SimM Bool := fun s =>
  match (s.geometry c).find cacheMaxEntries (s.tlb c) (c.test addr asid) (c.index addr) with
  | .error fault => .error fault
  | .ok (.hit i) => .ok (true, s.use c addr asid true i (s.tlb c i))
  | .ok (.miss mi) =>
      .ok (false, s.use c addr asid false mi (c.refill addr asid (s.tlb c mi)))

/-- `tlbtrace_ntlb_find2`. It also counts accesses: one for the content of a
descriptor unless the lookup is `final`, two more on a miss. -/
def tlbtraceNtlbFind2 (addr : BitVec 32) (final : Bool) : SimM Bool := do
  whenever (final = false) do
    modify fun s => s.access .scNtlb 1
  let hit ← lookup .ntlb2 addr 0#32
  whenever (hit = false) do
    modify fun s => s.access .scNtlb 2
  return hit

/-- `tlbtrace_refppa_pwc2`. -/
def tlbtraceRefppaPwc2 (addr asid : BitVec 32) : SimM Bool := lookup .pwc2 addr asid

/-- `tlbtrace_refppa_pwc3`. -/
def tlbtraceRefppaPwc3 (addr asid : BitVec 32) : SimM Bool := lookup .pwc3 addr asid

/-- `tlbtrace_ntlb_find`. -/
def tlbtraceNtlbFind (addr : BitVec 32) : SimM Bool := lookup .ntlb addr 0#32

/-- `tlbtrace_refppa_pwc`. -/
def tlbtraceRefppaPwc (addr asid : BitVec 32) : SimM Bool := lookup .pwc addr asid

/-! ## Emulation of one trace record -/

/-- The assignment to `l1_mpa`: the first level descriptor of the extended page
table for a guest address. -/
def l1Mpa (gpa : BitVec 32) : BitVec 32 := (gpa >>> 20) * 4#32

/-- The assignment to `l2_mpa`: the second level descriptor. -/
def l2Mpa (gpa : BitVec 32) : BitVec 32 :=
  BitVec.ofNat 32 (16 * 1024) + (gpa >>> 20) * 1024#32 + ((gpa >>> 12) &&& 0xFF#32) * 4#32

/-- `pwc2_mem_accs++`. -/
def countPwc2 : SimM Unit := modify fun s => s.access .scPwcEpt 1

/-- `pwc3_mem_accs++`. -/
def countPwc3 : SimM Unit := modify fun s => s.access .scPwcNoept 1

/-- `full_mem_accs++`. -/
def countFull : SimM Unit := modify fun s => s.access .scNtlbPwc 1

/-- The statement `if(call == 0) body`, where `call` is a lookup. -/
def onMiss (call : SimM Bool) (body : SimM Unit) : SimM Unit := do
  let hit ← call
  whenever (hit = false) body

/-- `emulate_ntlb2`. -/
def emulateNtlb2 (level : ℕ) (l1Gpa l2Gpa gpa : BitVec 32) : SimM Unit := do
  discard <| tlbtraceNtlbFind2 (l1Gpa &&& 0xFFFFF000#32) false
  whenever (level > 1) do
    discard <| tlbtraceNtlbFind2 (l2Gpa &&& 0xFFFFF000#32) false
  whenever (level > 2) do
    discard <| tlbtraceNtlbFind2 gpa true

/-- `emulate_pwc2`. -/
def emulatePwc2 (level : ℕ) (l1Gpa l2Gpa gpa : BitVec 32) : SimM Unit := do
  onMiss (tlbtraceRefppaPwc2 l1Gpa 1#32) do
    onMiss (tlbtraceRefppaPwc2 (l1Mpa l1Gpa) 0#32) countPwc2
    onMiss (tlbtraceRefppaPwc2 (l2Mpa l1Gpa) 0#32) countPwc2
    countPwc2
  whenever (level > 1) do
    onMiss (tlbtraceRefppaPwc2 l2Gpa 1#32) do
      onMiss (tlbtraceRefppaPwc2 (l1Mpa l2Gpa) 0#32) countPwc2
      onMiss (tlbtraceRefppaPwc2 (l2Mpa l2Gpa) 0#32) countPwc2
      countPwc2
  whenever (level > 2) do
    onMiss (tlbtraceRefppaPwc2 (l1Mpa gpa) 0#32) countPwc2
    onMiss (tlbtraceRefppaPwc2 (l2Mpa gpa) 0#32) countPwc2

/-- `emulate_pwc3`. -/
def emulatePwc3 (level : ℕ) (l1Gpa l2Gpa _gpa : BitVec 32) : SimM Unit := do
  onMiss (tlbtraceRefppaPwc3 l1Gpa 1#32) countPwc3
  whenever (level > 1) do
    onMiss (tlbtraceRefppaPwc3 l2Gpa 1#32) countPwc3

/-- `emulate_full`. -/
def emulateFull (level : ℕ) (l1Gpa l2Gpa gpa : BitVec 32) : SimM Unit := do
  onMiss (tlbtraceRefppaPwc l1Gpa 1#32) do
    onMiss (tlbtraceNtlbFind (l1Gpa &&& 0xFFFFF000#32)) do
      onMiss (tlbtraceRefppaPwc (l1Mpa l1Gpa) 0#32) countFull
      onMiss (tlbtraceRefppaPwc (l2Mpa l1Gpa) 0#32) countFull
    countFull
  whenever (level > 1) do
    onMiss (tlbtraceRefppaPwc l2Gpa 1#32) do
      onMiss (tlbtraceNtlbFind (l2Gpa &&& 0xFFFFF000#32)) do
        onMiss (tlbtraceRefppaPwc (l1Mpa l2Gpa) 0#32) countFull
        onMiss (tlbtraceRefppaPwc (l2Mpa l2Gpa) 0#32) countFull
      countFull
  whenever (level > 2) do
    onMiss (tlbtraceNtlbFind gpa) do
      onMiss (tlbtraceRefppaPwc (l1Mpa gpa) 0#32) countFull
      onMiss (tlbtraceRefppaPwc (l2Mpa gpa) 0#32) countFull

/-! ## The four simulations -/

/-- The statement `TLB_MAX_ENTRIES_NTLB = ..; TLB_WAYSTEP_NTLB = ..; TLB_WAYMASK_NTLB = ..`. -/
def setNtlbGeometry (size way : ℕ) : SimM Unit :=
  modify fun s => { s with ntlbGeometry := .ofSizeWay size way }

/-- The same for the page walk cache. -/
def setPwcGeometry (size way : ℕ) : SimM Unit :=
  modify fun s => { s with pwcGeometry := .ofSizeWay size way }

/-- `flush_all()`, then the loop `while(fread(..) == 4) emulate(..)` over the
contents of the trace file. -/
def replay (emulate : ℕ → BitVec 32 → BitVec 32 → BitVec 32 → SimM Unit)
    (trace : List (BitVec 8)) : SimM Unit := do
  modify Sim.flushAll
  (readRecords trace).forM fun t => emulate t.level t.l1Pa t.l2Pa t.pa

/-- `tlbsim_sim_ntlb`. -/
def tlbsimSimNtlb (trace : List (BitVec 8)) (ntlbSize ntlbWay _pwcSize _pwcWay : ℕ)
    (result : SimResult) : SimM SimResult := do
  setNtlbGeometry ntlbSize ntlbWay
  replay emulateNtlb2 trace
  let s ← get
  return { result with accs := s.memAccs .scNtlb, ntlb := s.cnt .ntlb2 }

/-- `tlbsim_sim_pwc_ept`. -/
def tlbsimSimPwcEpt (trace : List (BitVec 8)) (_ntlbSize _ntlbWay pwcSize pwcWay : ℕ)
    (result : SimResult) : SimM SimResult := do
  setPwcGeometry pwcSize pwcWay
  replay emulatePwc2 trace
  let s ← get
  return { result with accs := s.memAccs .scPwcEpt, pwc := s.cnt .pwc2 }

/-- `tlbsim_sim_pwc_noept`. -/
def tlbsimSimPwcNoept (trace : List (BitVec 8)) (_ntlbSize _ntlbWay pwcSize pwcWay : ℕ)
    (result : SimResult) : SimM SimResult := do
  setPwcGeometry pwcSize pwcWay
  replay emulatePwc3 trace
  let s ← get
  return { result with accs := s.memAccs .scPwcNoept, pwc := s.cnt .pwc3 }

/-- `tlbsim_sim_ntlb_pwc`. -/
def tlbsimSimNtlbPwc (trace : List (BitVec 8)) (ntlbSize ntlbWay pwcSize pwcWay : ℕ)
    (result : SimResult) : SimM SimResult := do
  setNtlbGeometry ntlbSize ntlbWay
  setPwcGeometry pwcSize pwcWay
  replay emulateFull trace
  let s ← get
  return { result with accs := s.memAccs .scNtlbPwc, ntlb := s.cnt .ntlb, pwc := s.cnt .pwc }

end TlbAnalyzer.Simulator
