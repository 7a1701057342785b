/-
# The tracer inside the emulator

The emulator calls the tracer for every memory access of the guest and for its TLB
maintenance. This module is the part of the emulator that the tracer depends on,
and the part of the tracer that is only built for the emulator: the two table
walks, `get_ptes` of the tracer and `get_phys_addr_v6` of the emulator, the
reference `tlbtrace_refmem_qemu`, and the TLB control case of `set_cp15`.

Both walks read guest physical memory through `ldl_phys`. The addresses they pass
to it are logged, oldest first. Pointer arguments are passed as the value they point
to before the call, and returned with the result.

The emulator's own translation cache is flushed along with the tracer's. No function of
this module reads it, and it is modelled in `Emulator.SoftTlb`, with the other registers
that `set_cp15` writes.
-/

import TlbAnalyzer.Tracer.Program

namespace TlbAnalyzer.Emulator

open Tracer

/-- The fields of `CPUState` that the two walks and the tracer read. -/
structure CPUState where
  uncachedCpsr : BitVec 32
  features : BitVec 32
  c1Sys : BitVec 32
  c2Base0 : BitVec 32
  c2Base1 : BitVec 32
  c2Mask : BitVec 32
  c2BaseMask : BitVec 32
  c3 : BitVec 32
  c13Context : BitVec 32

/-- The members of `enum arm_features` that the modelled functions test. -/
inductive ArmFeature
  | xscale
  | v6
  | v6k
  | v7
  | mpu
  | omapcp
  deriving DecidableEq

/-- The place of a feature in `features`. -/
def ArmFeature.bit : ArmFeature → ℕ
  | .xscale => 2
  | .v6 => 4
  | .v6k => 5
  | .v7 => 6
  | .mpu => 8
  | .omapcp => 14

/-- `arm_feature`. -/
def armFeature (env : CPUState) (feature : ArmFeature) : Bool :=
  env.features &&& (1#32 <<< feature.bit) ≠ 0#32

/-- The processor and the guest's physical memory at one moment. -/
structure Machine where
  env : CPUState
  mem : BitVec 32 → BitVec 32

/-! ## Table walks -/

/-- A call of `abort()`. -/
inductive Abort
  | abort
  deriving DecidableEq

/-- A table walk, with the log of the addresses it read. -/
abbrev WalkM := StateT (List (BitVec 32)) (Except Abort)

/-- `ldl_phys`. -/
def ldlPhys (mem : BitVec 32 → BitVec 32) (addr : BitVec 32) : WalkM (BitVec 32) := do
  modify fun reads => reads ++ [addr]
  return mem addr

/-- `get_level1_table_address`, of which the emulator and the tracer have a copy
each. -/
def getLevel1TableAddress (env : CPUState) (address : BitVec 32) : BitVec 32 :=
  let table :=
    if address &&& env.c2Mask ≠ 0#32 then env.c2Base1 &&& 0xFFFFC000#32
    else env.c2Base0 &&& env.c2BaseMask
  table ||| ((address >>> 18) &&& 0x3FFC#32)

/-- `get_ptes`. The outputs are those of `pte_helper`; `l1` is written in every case. -/
def getPtes (env : CPUState) (mem : BitVec 32 → BitVec 32) (address l2 gpa : BitVec 32) :
    WalkM PteResult := do
  let table := getLevel1TableAddress env address
  let l1 := table
  let desc ← ldlPhys mem table
  let type := desc &&& 3#32
  if type = 0#32 ∨ type = 3#32 then
    return ⟨1#32, l1, l2, gpa⟩
  let domain := if type = 2#32 ∧ desc &&& (1#32 <<< 18) ≠ 0#32 then 0#32
    else (desc >>> 4) &&& 0x1E#32
  let domain := (env.c3 >>> domain) &&& 3#32
  if domain = 0#32 ∨ domain = 2#32 then
    return ⟨1#32, l1, l2, gpa⟩
  if type = 2#32 then
    return ⟨1#32, l1, l2, gpa⟩
  let table := (desc &&& 0xFFFFFC00#32) ||| ((address >>> 10) &&& 0x3FC#32)
  let l2 := table
  let desc ← ldlPhys mem table
  if desc &&& 3#32 = 0#32 then
    return ⟨2#32, l1, l2, gpa⟩
  let gpa := desc &&& 0xFFFFF000#32
  return ⟨3#32, l1, l2, gpa⟩

/-- `PAGE_READ`. -/
def pageRead : BitVec 32 := 1#32

/-- `PAGE_WRITE`. -/
def pageWrite : BitVec 32 := 2#32

/-- `PAGE_EXEC`. -/
def pageExec : BitVec 32 := 4#32

/-- `check_ap`. -/
def checkAp (env : CPUState) (ap domain : BitVec 32) (accessType : Int) (isUser : Bool) :
    WalkM (BitVec 32) :=
  let protRo := if accessType = 1 then 0#32 else pageRead
  if domain = 3#32 then return pageRead ||| pageWrite
  else match ap.toNat with
  | 0 =>
      if accessType = 1 then return 0#32
      else match ((env.c1Sys >>> 8) &&& 3#32).toNat with
      | 1 => return if isUser then 0#32 else pageRead
      | 2 => return pageRead
      | _ => return 0#32
  | 1 => return if isUser then 0#32 else pageRead ||| pageWrite
  | 2 => return if isUser then protRo else pageRead ||| pageWrite
  | 3 => return pageRead ||| pageWrite
  | 4 => return 0#32
  | 5 => return if isUser then 0#32 else protRo
  | 6 => return protRo
  | 7 => return if armFeature env .v7 then protRo else 0#32
  | _ => throw .abort

/-- What `get_phys_addr_v6` returns and leaves in its three output arguments. -/
structure PhysResult where
  ret : BitVec 32
  physPtr : BitVec 32
  prot : BitVec 32
  pageSize : BitVec 32

/-- The statement at the label `do_fault`. -/
def doFault (out : PhysResult) (code domain : BitVec 32) : PhysResult :=
  { out with ret := code ||| (domain <<< 4) }

/-- The end of `get_phys_addr_v6`, from the test `domain == 3` on. -/
def checkAccess (env : CPUState) (accessType : Int) (isUser : Bool)
    (ap xn code domain physAddr : BitVec 32) (out : PhysResult) : WalkM PhysResult := do
  if domain = 3#32 then
    return { out with
      ret := 0#32
      physPtr := physAddr
      prot := pageRead ||| pageWrite ||| pageExec }
  else if xn ≠ 0#32 ∧ accessType = 2 then
    return doFault out code domain
  else if env.c1Sys &&& (1#32 <<< 29) ≠ 0#32 ∧ ap &&& 1#32 = 0#32 then
    return doFault out (if code = 15#32 then 6#32 else 3#32) domain
  else
    let prot ← checkAp env ap domain accessType isUser
    if prot = 0#32 then
      return doFault { out with prot := prot } code domain
    else
      let prot := if xn = 0#32 then prot ||| pageExec else prot
      return { out with ret := 0#32, physPtr := physAddr, prot := prot }

/-- `get_phys_addr_v6`. -/
def getPhysAddrV6 (env : CPUState) (mem : BitVec 32 → BitVec 32) (address : BitVec 32)
    (accessType : Int) (isUser : Bool) (out : PhysResult) : WalkM PhysResult := do
  let table := getLevel1TableAddress env address
  let desc ← ldlPhys mem table
  let type := desc &&& 3#32
  if type = 0#32 ∨ type = 3#32 then
    return doFault out 5#32 0#32
  let domain := if type = 2#32 ∧ desc &&& (1#32 <<< 18) ≠ 0#32 then 0#32
    else (desc >>> 4) &&& 0x1E#32
  let domain := (env.c3 >>> domain) &&& 3#32
  if domain = 0#32 ∨ domain = 2#32 then
    return doFault out (if type = 2#32 then 9#32 else 11#32) domain
  if type = 2#32 then
    let ap := ((desc >>> 10) &&& 3#32) ||| ((desc >>> 13) &&& 4#32)
    let xn := desc &&& (1#32 <<< 4)
    if desc &&& (1#32 <<< 18) ≠ 0#32 then
      let physAddr := (desc &&& 0xFF000000#32) ||| (address &&& 0x00FFFFFF#32)
      checkAccess env accessType isUser ap xn 13#32 domain physAddr
        { out with pageSize := 0x1000000#32 }
    else
      let physAddr := (desc &&& 0xFFF00000#32) ||| (address &&& 0x000FFFFF#32)
      checkAccess env accessType isUser ap xn 13#32 domain physAddr
        { out with pageSize := 0x100000#32 }
  else
    let table := (desc &&& 0xFFFFFC00#32) ||| ((address >>> 10) &&& 0x3FC#32)
    let desc ← ldlPhys mem table
    let ap := ((desc >>> 4) &&& 3#32) ||| ((desc >>> 7) &&& 4#32)
    if desc &&& 3#32 = 0#32 then
      return doFault out 7#32 domain
    else if desc &&& 3#32 = 1#32 then
      let physAddr := (desc &&& 0xFFFF0000#32) ||| (address &&& 0xFFFF#32)
      checkAccess env accessType isUser ap (desc &&& (1#32 <<< 15)) 15#32 domain physAddr
        { out with pageSize := 0x10000#32 }
    else
      let physAddr := (desc &&& 0xFFFFF000#32) ||| (address &&& 0xFFF#32)
      checkAccess env accessType isUser ap (desc &&& 1#32) 15#32 domain physAddr
        { out with pageSize := 0x1000#32 }

/-! ## Calls of the tracer -/

/-- `get_ptes` as the tracer's `pte_helper`: `tlbtrace_refmem_pwc` calls it with
variables that are 0. -/
def pteHelper (machine : Machine) (address : BitVec 32) : PteResult :=
  match (getPtes machine.env machine.mem address 0#32 0#32).run [] with
  | .ok (result, _) => result
  | .error .abort => ⟨0#32, 0#32, 0#32, 0#32⟩

/-- `tlbtrace_refmem_qemu`, in the state of the machine at the call. Only accesses in
user mode are traced. -/
def tlbtraceRefmemQemu (machine : Machine) (addr : BitVec 32) (ins : Bool) :
    TraceM Machine Unit := do
  let s ← get
  if s.started = false then
    return ()
  else if machine.env.uncachedCpsr &&& 0x1F#32 ≠ 0x10#32 then
    return ()
  else
    let asid := machine.env.c13Context &&& 0xFF#32
    tlbtraceRefmem addr asid ins machine

/-- The operand `op2` of a coprocessor instruction. -/
def op2 (insn : BitVec 32) : BitVec 32 := (insn >>> 5) &&& 7#32

/-- `set_cp15` for an instruction that writes register `c8`. The value is passed on as
an `unsigned long`. An unknown operand aborts the emulator. -/
def setCp15TlbControl (insn val : BitVec 32) : TraceM Machine Unit :=
  match (op2 insn).toNat with
  | 0 => tlbtraceFlushAll
  | 1 => tlbtraceFlushEntry (val.setWidth 64)
  | 2 => tlbtraceFlushAsid (val.setWidth 64)
  | 3 => pure ()
  | _ => do
      let s ← get
      throw (.exit s)

end TlbAnalyzer.Emulator
