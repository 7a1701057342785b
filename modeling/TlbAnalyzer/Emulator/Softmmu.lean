/-
# Guest memory accesses in the emulator

A load or store of the guest goes through the emulator's own translation cache,
`tlb_table`. Three copies of the access path read it: the C accessors of
`softmmu_header.h`, the machine code that the i386 backend emits for the operations
`qemu_ld` and `qemu_st`, and the helpers `__ld` and `__st` of `softmmu_template.h`,
which the first two call when their entry does not match. This module is the three of
them, with the split accesses `slow_ld` and `slow_st`, the device accesses and the
hooks of the memory checker.

A call of `tlbtrace_refmem_qemu` is logged with its address, and an access to memory or
to a device with its guest address and its size. A run that leaves the processor loop
carries its state along, so that the log of an access that does not complete can be
read as well. A `goto redo` and a call of a split access use up fuel.

The target is ARM and little endian with pages of 1 KB, unaligned accesses are allowed,
and the host is 64 bits wide.
-/

import TlbAnalyzer.Emulator.Program

namespace TlbAnalyzer.Emulator

/-! ## The template parameters -/

/-- `SUFFIX`, the letter of an access size. -/
inductive Suffix
  | b
  | w
  | l
  | q
  deriving DecidableEq

/-- `SHIFT`. -/
def Suffix.shift : Suffix → ℕ
  | .b => 0
  | .w => 1
  | .l => 2
  | .q => 3

/-- `DATA_SIZE`. -/
def Suffix.dataSize (suffix : Suffix) : ℕ := 1 <<< suffix.shift

/-- `DATA_TYPE`. -/
abbrev Suffix.DataType (suffix : Suffix) : Type := BitVec (8 * suffix.dataSize)

/-- `RES_TYPE`, in bits. -/
def Suffix.resBits : Suffix → ℕ
  | .q => 64
  | _ => 32

/-- The access types of `tlb_fill`, 0, 1 and 2. -/
inductive AccessType
  | read
  | write
  | code
  deriving DecidableEq

/-- `MMUSUFFIX`: the template is compiled for the translated code, for the emulator
outside of it, and for loads of code. -/
inductive MmuSuffix
  | mmu
  | outsideJit
  | cmmu
  deriving DecidableEq

/-- `READ_ACCESS_TYPE`. -/
def MmuSuffix.readAccessType : MmuSuffix → AccessType
  | .cmmu => .code
  | _ => .read

/-- Whether `CONFIG_MEMCHECK_MMU` is defined. -/
def MmuSuffix.configMemcheckMmu : MmuSuffix → Bool
  | .mmu => true
  | _ => false

/-! ## The machine -/

/-- `CPUTLBEntry`. -/
structure CPUTLBEntry where
  addrRead : BitVec 32
  addrWrite : BitVec 32
  addrCode : BitVec 32
  addend : BitVec 64

/-- The tag that an access compares its address with, `ADDR_READ` or `addr_write`. -/
def CPUTLBEntry.tag (entry : CPUTLBEntry) : AccessType → BitVec 32
  | .read => entry.addrRead
  | .write => entry.addrWrite
  | .code => entry.addrCode

/-- The fields of `env` that an access uses, the memory of the host, and in `rest` the
devices and whatever else the callbacks of `Host` read and write. A row of `tlb_table`
has `CPU_TLB_SIZE` entries. -/
structure Env (D : Type) where
  tlbTable : Fin 2 → ℕ → CPUTLBEntry
  iotlb : Fin 2 → ℕ → BitVec 32
  memIoVaddr : BitVec 32
  hostMem : BitVec 64 → BitVec 8
  rest : D

/-- A call out of the access path. It either comes back with a result or leaves the
processor loop. -/
abbrev Callback (D α : Type) := Env D → Option α × Env D

/-- What the access path calls. -/
structure Host (D : Type) where
  /-- `cpu_arm_handle_mmu_fault`: true when the guest takes an exception. -/
  cpuArmHandleMmuFault : BitVec 32 → AccessType → Fin 2 → Callback D Bool
  /-- `io_mem_read[index][shift]` at a physical address. -/
  ioMemRead : ℕ → ℕ → BitVec 32 → Callback D (BitVec 32)
  /-- `io_mem_write[index][shift]` at a physical address. -/
  ioMemWrite : ℕ → ℕ → BitVec 32 → BitVec 32 → Callback D Unit
  canDoIo : Env D → Bool
  memcheckInstrumentMmu : Bool
  memcheckValidateLd : BitVec 32 → ℕ → Env D → ℕ
  memcheckValidateSt : BitVec 32 → ℕ → BitVec 64 → Env D → ℕ

/-- A run of the access path: the machine, the addresses passed to
`tlbtrace_refmem_qemu`, and the guest addresses and sizes of the accesses made, oldest
first. -/
structure Execution (D : Type) where
  env : Env D
  refmems : List (BitVec 32)
  accesses : List (BitVec 32 × ℕ)

/-- Nothing traced and nothing accessed. -/
def Execution.start {D : Type} (env : Env D) : Execution D := ⟨env, [], []⟩

/-- Why an access does not complete. -/
inductive StopReason
  | raiseException
  | cpuLoopExit
  | cpuIoRecompile
  | outOfBounds
  | outOfFuel
  deriving DecidableEq

/-- An access that does not complete, with the run up to there. -/
structure Stop (D : Type) where
  reason : StopReason
  final : Execution D

/-- The monad of the access path. -/
abbrev SoftmmuM (D : Type) := StateT (Execution D) (Except (Stop D))

variable {D : Type}

/-- Leave the access path. -/
def stop {α : Type} (reason : StopReason) : SoftmmuM D α := fun s => .error ⟨reason, s⟩

/-- Make a call out of the access path. -/
def call {α : Type} (callback : Callback D α) : SoftmmuM D α := fun s =>
  match callback s.env with
  | (some result, env) => .ok (result, { s with env := env })
  | (none, env) => .error ⟨.cpuLoopExit, { s with env := env }⟩

/-- A call `tlbtrace_refmem_qemu(addr, 0)`. -/
def refmemQemu (addr : BitVec 32) : SoftmmuM D Unit :=
  modify fun s => { s with refmems := s.refmems ++ [addr] }

/-- Log an access. -/
def accessed (addr : BitVec 32) (suffix : Suffix) : SoftmmuM D Unit :=
  modify fun s => { s with accesses := s.accesses ++ [(addr, suffix.dataSize)] }

/-! ## Pages and entries -/

/-- `TARGET_PAGE_BITS`. -/
def targetPageBits : ℕ := 10

/-- `TARGET_PAGE_SIZE`. -/
def targetPageSize : BitVec 32 := 1#32 <<< targetPageBits

/-- `TARGET_PAGE_MASK`. -/
def targetPageMask : BitVec 32 := ~~~(targetPageSize - 1#32)

/-- `CPU_TLB_SIZE`. -/
def cpuTlbSize : BitVec 32 := 1#32 <<< 8

/-- `CPU_TLB_ENTRY_BITS`. -/
def cpuTlbEntryBits : ℕ := 5

/-- `TLB_INVALID_MASK`. -/
def tlbInvalidMask : BitVec 32 := 1#32 <<< 3

/-- `DATA_SIZE - 1` as a mask of addresses. -/
def Suffix.sizeMask (suffix : Suffix) : BitVec 32 := BitVec.ofNat 32 suffix.dataSize - 1#32

/-- The entry of `tlb_table` that an address belongs to. -/
def tlbIndex (addr : BitVec 32) : ℕ := ((addr >>> targetPageBits) &&& (cpuTlbSize - 1#32)).toNat

/-- The test of the helpers for an entry of the address's page. -/
def pageInTlb (addr tlbAddr : BitVec 32) : Bool :=
  addr &&& targetPageMask = tlbAddr &&& (targetPageMask ||| tlbInvalidMask)

/-- The test for bits that keep an access from going to memory directly. -/
def ioEntry (tlbAddr : BitVec 32) : Bool := tlbAddr &&& ~~~targetPageMask ≠ 0#32

/-- The test for an address that is not a multiple of the access size. -/
def unaligned (suffix : Suffix) (addr : BitVec 32) : Bool := addr &&& suffix.sizeMask ≠ 0#32

/-- The test for an access that reaches into the next page. -/
def spansPages (suffix : Suffix) (addr : BitVec 32) : Bool :=
  (addr &&& ~~~targetPageMask) + BitVec.ofNat 32 suffix.dataSize - 1#32 ≥ targetPageSize

/-- The test of the accessors and of the emitted code, which an unaligned access fails. -/
def fastPath (suffix : Suffix) (addr tlbAddr : BitVec 32) : Bool :=
  tlbAddr = addr &&& (targetPageMask ||| suffix.sizeMask)

/-! ## Memory and devices -/

/-- The bytes of a little endian load. -/
def loadBytes (mem : BitVec 64 → BitVec 8) (base : BitVec 64) (n : ℕ) : BitVec (8 * n) :=
  (List.range n).foldr
    (fun i value => (value <<< 8) ||| (mem (base + BitVec.ofNat 64 i)).setWidth (8 * n)) 0

/-- The memory after a little endian store. -/
def storeBytes (mem : BitVec 64 → BitVec 8) (base : BitVec 64) {n : ℕ} (val : BitVec (8 * n)) :
    BitVec 64 → BitVec 8 := fun p =>
  let i := (p - base).toNat
  if i < n then (val >>> (8 * i)).setWidth 8 else mem p

/-- `ld##USUFFIX##_raw` at a host address, for the guest address `addr`. -/
def ldRaw (suffix : Suffix) (addr : BitVec 32) (base : BitVec 64) :
    SoftmmuM D suffix.DataType := do
  accessed addr suffix
  let s ← get
  return loadBytes s.env.hostMem base suffix.dataSize

/-- `st##SUFFIX##_raw` at a host address, for the guest address `addr`. -/
def stRaw (suffix : Suffix) (addr : BitVec 32) (base : BitVec 64) (val : suffix.DataType) :
    SoftmmuM D Unit := do
  accessed addr suffix
  modify fun s => { s with env := { s.env with hostMem := storeBytes s.env.hostMem base val } }

/-- `IO_MEM_SHIFT`. -/
def ioMemShift : ℕ := 3

/-- `IO_MEM_NB_ENTRIES`. -/
def ioMemNbEntries : BitVec 32 := 1#32 <<< (targetPageBits - ioMemShift)

/-- `IO_MEM_NOTDIRTY >> IO_MEM_SHIFT`. -/
def ioMemNotdirty : ℕ := 3

/-- The device that an entry of `iotlb` names. -/
def ioIndex (physaddr : BitVec 32) : ℕ :=
  ((physaddr >>> ioMemShift) &&& (ioMemNbEntries - 1#32)).toNat

variable (host : Host D)

/-- The start of `io_read` and `io_write`. -/
def beginIo (index : ℕ) (addr : BitVec 32) : SoftmmuM D Unit := do
  let s ← get
  if ioMemNotdirty < index ∧ host.canDoIo s.env = false then
    stop .cpuIoRecompile
  else
    modify fun s => { s with env := { s.env with memIoVaddr := addr } }

/-- `io_read##SUFFIX`. -/
def ioRead (suffix : Suffix) (physaddr addr : BitVec 32) : SoftmmuM D suffix.DataType := do
  let index := ioIndex physaddr
  let physaddr := (physaddr &&& targetPageMask) + addr
  beginIo host index addr
  accessed addr suffix
  match suffix with
  | .q =>
      let low ← call (host.ioMemRead index 2 physaddr)
      let high ← call (host.ioMemRead index 2 (physaddr + 4#32))
      return low.setWidth _ ||| (high.setWidth _ <<< 32)
  | suffix =>
      let res ← call (host.ioMemRead index suffix.shift physaddr)
      return res.setWidth _

/-- `io_write##SUFFIX`. -/
def ioWrite (suffix : Suffix) (physaddr : BitVec 32) (val : suffix.DataType) (addr : BitVec 32) :
    SoftmmuM D Unit := do
  let index := ioIndex physaddr
  let physaddr := (physaddr &&& targetPageMask) + addr
  beginIo host index addr
  accessed addr suffix
  match suffix with
  | .q => do
      call (host.ioMemWrite index 2 physaddr (val.setWidth 32))
      call (host.ioMemWrite index 2 (physaddr + 4#32) ((val >>> 32).setWidth 32))
  | suffix => call (host.ioMemWrite index suffix.shift physaddr (val.setWidth 32))

/-! ## The memory checker -/

/-- Invert the page of an entry's two data tags, so that it no longer matches. -/
def Env.flipEntry (env : Env D) (mmuIdx : Fin 2) (index : ℕ) : Env D :=
  let entry := env.tlbTable mmuIdx index
  let flipped := { entry with
    addrRead := entry.addrRead ^^^ targetPageMask
    addrWrite := entry.addrWrite ^^^ targetPageMask }
  { env with
    tlbTable := Function.update env.tlbTable mmuIdx
      (Function.update (env.tlbTable mmuIdx) index flipped) }

/-- The end of `__ld` and `__st`, which acts on `invalidate_cache`. The test of the
source lets the last entry of a row through, and its successor is no entry. -/
def invalidateEntries (mmuIdx : Fin 2) (index invalidateCache : ℕ) : SoftmmuM D Unit := do
  if invalidateCache ≠ 0 then
    modify fun s => { s with env := s.env.flipEntry mmuIdx index }
    if invalidateCache = 2 ∧ index < cpuTlbSize.toNat then
      if index + 1 < cpuTlbSize.toNat then
        modify fun s => { s with env := s.env.flipEntry mmuIdx (index + 1) }
      else
        stop .outOfBounds

/-- Whether accesses of this kind are validated by the memory checker. -/
def memchecked (mmuSuffix : MmuSuffix) (mmuIdx : Fin 2) : Bool :=
  mmuSuffix.configMemcheckMmu && host.memcheckInstrumentMmu && mmuIdx == 1

/-! ## Helpers -/

/-- `tlb_fill`. -/
def tlbFill (addr : BitVec 32) (accessType : AccessType) (mmuIdx : Fin 2) : SoftmmuM D Unit := do
  let ret ← call (host.cpuArmHandleMmuFault addr accessType mmuIdx)
  if ret then
    stop .raiseException

variable (mmuSuffix : MmuSuffix)

/-- `slow_ld##SUFFIX##MMUSUFFIX`. -/
def slowLd (suffix : Suffix) : ℕ → BitVec 32 → Fin 2 → SoftmmuM D suffix.DataType
  | 0, _, _ => stop .outOfFuel
  | fuel + 1, addr, mmuIdx => do
      let s ← get
      let index := tlbIndex addr
      let entry := s.env.tlbTable mmuIdx index
      let tlbAddr := entry.tag mmuSuffix.readAccessType
      if pageInTlb addr tlbAddr then
        if ioEntry tlbAddr && !unaligned suffix addr then
          ioRead host suffix (s.env.iotlb mmuIdx index) addr
        else if ioEntry tlbAddr || spansPages suffix addr then
          -- both ways to the label `do_unaligned_access`
          let addr1 := addr &&& ~~~suffix.sizeMask
          let addr2 := addr1 + BitVec.ofNat 32 suffix.dataSize
          let res1 ← slowLd suffix fuel addr1 mmuIdx
          let res2 ← slowLd suffix fuel addr2 mmuIdx
          let shift := (addr &&& suffix.sizeMask).toNat * 8
          return (res1 >>> shift) ||| (res2 <<< (suffix.dataSize * 8 - shift))
        else
          ldRaw suffix addr (addr.setWidth 64 + entry.addend)
      else
        tlbFill host addr mmuSuffix.readAccessType mmuIdx
        slowLd suffix fuel addr mmuIdx

/-- `__ld##SUFFIX##MMUSUFFIX` from the label `redo` on. -/
def ldRedo (suffix : Suffix) (addr : BitVec 32) (mmuIdx : Fin 2) :
    ℕ → SoftmmuM D suffix.DataType
  | 0 => stop .outOfFuel
  | fuel + 1 => do
      let s ← get
      let index := tlbIndex addr
      let entry := s.env.tlbTable mmuIdx index
      let tlbAddr := entry.tag mmuSuffix.readAccessType
      if pageInTlb addr tlbAddr then
        if ioEntry tlbAddr then
          if unaligned suffix addr then
            slowLd host mmuSuffix suffix fuel addr mmuIdx
          else
            ioRead host suffix (s.env.iotlb mmuIdx index) addr
        else if spansPages suffix addr then
          let invalidateCache :=
            if memchecked host mmuSuffix mmuIdx &&
                host.memcheckValidateLd addr suffix.dataSize s.env != 0 then 2
            else 0
          let res ← slowLd host mmuSuffix suffix fuel addr mmuIdx
          invalidateEntries mmuIdx index invalidateCache
          return res
        else
          let invalidateCache :=
            if memchecked host mmuSuffix mmuIdx then
              host.memcheckValidateLd addr suffix.dataSize s.env
            else 0
          let res ← ldRaw suffix addr (addr.setWidth 64 + entry.addend)
          invalidateEntries mmuIdx index invalidateCache
          return res
      else
        tlbFill host addr mmuSuffix.readAccessType mmuIdx
        ldRedo suffix addr mmuIdx fuel

/-- `__ld##SUFFIX##MMUSUFFIX`. -/
def ldMmu (suffix : Suffix) (fuel : ℕ) (addr : BitVec 32) (mmuIdx : Fin 2) :
    SoftmmuM D suffix.DataType := do
  refmemQemu addr
  ldRedo host mmuSuffix suffix addr mmuIdx fuel

/-- `slow_st##SUFFIX##MMUSUFFIX`. -/
def slowSt : ℕ → (suffix : Suffix) → BitVec 32 → suffix.DataType → Fin 2 → SoftmmuM D Unit
  | 0, _, _, _, _ => stop .outOfFuel
  | fuel + 1, suffix, addr, val, mmuIdx => do
      let s ← get
      let index := tlbIndex addr
      let entry := s.env.tlbTable mmuIdx index
      let tlbAddr := entry.addrWrite
      if pageInTlb addr tlbAddr then
        if ioEntry tlbAddr && !unaligned suffix addr then
          ioWrite host suffix (s.env.iotlb mmuIdx index) val addr
        else if ioEntry tlbAddr || spansPages suffix addr then
          -- both ways to the label `do_unaligned_access`
          (List.range suffix.dataSize).reverse.forM fun i =>
            slowSt fuel .b (addr + BitVec.ofNat 32 i) ((val >>> (i * 8)).setWidth _) mmuIdx
        else
          stRaw suffix addr (addr.setWidth 64 + entry.addend) val
      else
        tlbFill host addr .write mmuIdx
        slowSt fuel suffix addr val mmuIdx

/-- `__st##SUFFIX##MMUSUFFIX` from the label `redo` on. -/
def stRedo (suffix : Suffix) (addr : BitVec 32) (val : suffix.DataType) (mmuIdx : Fin 2) :
    ℕ → SoftmmuM D Unit
  | 0 => stop .outOfFuel
  | fuel + 1 => do
      let s ← get
      let index := tlbIndex addr
      let entry := s.env.tlbTable mmuIdx index
      let tlbAddr := entry.addrWrite
      if pageInTlb addr tlbAddr then
        if ioEntry tlbAddr then
          if unaligned suffix addr then
            slowSt host fuel suffix addr val mmuIdx
          else
            ioWrite host suffix (s.env.iotlb mmuIdx index) val addr
        else if spansPages suffix addr then
          let invalidateCache :=
            if memchecked host mmuSuffix mmuIdx
              && host.memcheckValidateSt addr suffix.dataSize (val.setWidth 64) s.env != 0
            then 2 else 0
          slowSt host fuel suffix addr val mmuIdx
          invalidateEntries mmuIdx index invalidateCache
        else
          let invalidateCache :=
            if memchecked host mmuSuffix mmuIdx then
              host.memcheckValidateSt addr suffix.dataSize (val.setWidth 64) s.env
            else 0
          stRaw suffix addr (addr.setWidth 64 + entry.addend) val
          invalidateEntries mmuIdx index invalidateCache
      else
        tlbFill host addr .write mmuIdx
        stRedo suffix addr val mmuIdx fuel

/-- `__st##SUFFIX##MMUSUFFIX`. -/
def stMmu (suffix : Suffix) (fuel : ℕ) (addr : BitVec 32) (val : suffix.DataType)
    (mmuIdx : Fin 2) : SoftmmuM D Unit := do
  refmemQemu addr
  stRedo host mmuSuffix suffix addr val mmuIdx fuel

/-! ## Accessors -/

/-- A load of `softmmu_header.h`, before the loaded value is widened. -/
def ldData (suffix : Suffix) (fuel : ℕ) (addr : BitVec 32) (mmuIdx : Fin 2) :
    SoftmmuM D suffix.DataType := do
  let s ← get
  let entry := s.env.tlbTable mmuIdx (tlbIndex addr)
  if fastPath suffix addr (entry.tag mmuSuffix.readAccessType) then
    refmemQemu addr
    ldRaw suffix addr (addr.setWidth 64 + entry.addend)
  else
    ldMmu host mmuSuffix suffix fuel addr mmuIdx

/-- `ld##USUFFIX##MEMSUFFIX`. -/
def ld (suffix : Suffix) (fuel : ℕ) (ptr : BitVec 32) (mmuIdx : Fin 2) :
    SoftmmuM D (BitVec suffix.resBits) := do
  let res ← ldData host mmuSuffix suffix fuel ptr mmuIdx
  return res.setWidth _

/-- `lds##SUFFIX##MEMSUFFIX`, which exists for the two smaller sizes. -/
def lds (suffix : Suffix) (fuel : ℕ) (ptr : BitVec 32) (mmuIdx : Fin 2) :
    SoftmmuM D (BitVec 32) := do
  let res ← ldData host mmuSuffix suffix fuel ptr mmuIdx
  return res.signExtend 32

/-- `st##SUFFIX##MEMSUFFIX`. -/
def st (suffix : Suffix) (fuel : ℕ) (ptr : BitVec 32) (v : BitVec suffix.resBits)
    (mmuIdx : Fin 2) : SoftmmuM D Unit := do
  let s ← get
  let entry := s.env.tlbTable mmuIdx (tlbIndex ptr)
  if fastPath suffix ptr entry.addrWrite then
    refmemQemu ptr
    stRaw suffix ptr (ptr.setWidth 64 + entry.addend) (v.setWidth _)
  else
    stMmu host mmuSuffix suffix fuel ptr (v.setWidth _) mmuIdx

/-! ## Emitted code -/

/-- The size of a `qemu_ld`, and whether it extends the sign: `opc` in two parts. -/
structure LoadOpc where
  sBits : Suffix
  signed : Bool

/-- The code of `tcg_out_tlb_load` for a tag of the entry. The entry is found by its
offset in bytes. A hit leaves the host address in the first argument register. -/
def tlbLoad (addr : BitVec 32) (memIndex : Fin 2) (sBits : Suffix) (which : AccessType) :
    SoftmmuM D (Option (BitVec 64)) := do
  let s ← get
  let r1 := (addr >>> (targetPageBits - cpuTlbEntryBits)) &&&
    ((cpuTlbSize - 1#32) <<< cpuTlbEntryBits)
  let entry := s.env.tlbTable memIndex (r1.toNat / 2 ^ cpuTlbEntryBits)
  if fastPath sBits addr (entry.tag which) then
    return some (addr.setWidth 64 + entry.addend)
  else
    return none

/-- How `qemu_ld` leaves a loaded value in a register of the host. -/
def LoadOpc.extend (opc : LoadOpc) (value : opc.sBits.DataType) : BitVec 64 :=
  if opc.signed then value.signExtend 64 else value.setWidth 64

/-- The code of `tcg_out_qemu_ld`. -/
def qemuLd (opc : LoadOpc) (fuel : ℕ) (addr : BitVec 32) (memIndex : Fin 2) :
    SoftmmuM D (BitVec 64) := do
  match ← tlbLoad addr memIndex opc.sBits .read with
  | some r0 =>
      let res ← ldRaw opc.sBits addr r0
      return opc.extend res
  | none =>
      let res ← ldMmu host .mmu opc.sBits fuel addr memIndex
      return opc.extend res

/-- The code of `tcg_out_qemu_st`. -/
def qemuSt (opc : Suffix) (fuel : ℕ) (addr : BitVec 32) (dataReg : BitVec 64)
    (memIndex : Fin 2) : SoftmmuM D Unit := do
  match ← tlbLoad addr memIndex opc .write with
  | some r0 => stRaw opc addr r0 (dataReg.setWidth _)
  | none => stMmu host .mmu opc fuel addr (dataReg.setWidth _) memIndex

end TlbAnalyzer.Emulator
