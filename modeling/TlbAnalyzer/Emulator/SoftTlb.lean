/-
# The emulator's own translation cache

`exec.c` keeps `tlb_table` for the access path of `softmmu_template.h`: it fills an
entry after a translation, drops all entries or those of a page, and sets or clears the
flag that makes a write report itself. This module is these functions, the handler that
fills an entry, and the coprocessor registers whose writes drop entries, on the machine
of `Emulator.Softmmu` with the rest of the emulator put in its place.

Physical pages are looked up in a map from page numbers, RAM in a list of blocks. The
list is not reordered by a lookup here, which for blocks that do not overlap is only a
matter of speed. There is one processor. A call of `abort` or `cpu_abort` is `none`.
-/

import TlbAnalyzer.Emulator.Translation

namespace TlbAnalyzer.Emulator

/-! ## The emulator around the access path -/

/-- The fields of `PhysPageDesc`. -/
structure PhysPageDesc where
  physOffset : BitVec 64
  regionOffset : BitVec 64

/-- The fields of `RAMBlock` that the lookups use. -/
structure RAMBlock where
  host : BitVec 64
  offset : BitVec 64
  length : BitVec 64

/-- The fields of `TranslationBlock` that say what it was translated from. -/
structure TranslationBlock where
  pc : BitVec 32
  csBase : BitVec 32
  flags : BitVec 64
  deriving DecidableEq

/-- What the access path leaves to the rest of the emulator. -/
structure Board where
  arm : ArmState
  /-- Guest physical memory as `ldl_phys` reads it. -/
  mem : BitVec 32 → BitVec 32
  /-- `phys_page_find`. -/
  physPages : BitVec 32 → Option PhysPageDesc
  ramBlocks : List RAMBlock
  physDirty : ℕ → BitVec 8
  /-- The `vaddr` of each of `env->watchpoints`. -/
  watchpoints : List (BitVec 32)
  ioMemWatch : BitVec 32
  memcheckInstrumentMmu : Bool
  memcheckIsChecked : BitVec 32 → BitVec 32 → Bool
  tbJmpCache : ℕ → Option TranslationBlock
  tlbFlushCount : ℕ

/-- `MMU_USER_IDX`. -/
def mmuUserIdx : Fin 2 := ⟨1, Nat.one_lt_two⟩

/-- The processor with the emulator around it. -/
abbrev Cpu := Env Board

/-- Change the rest of the emulator only. -/
def Env.onBoard (env : Cpu) (change : Board → Board) : Cpu := { env with rest := change env.rest }

/-- Change one entry of `tlb_table`. -/
def Env.onEntry (env : Cpu) (mmuIdx : Fin 2) (index : ℕ) (change : CPUTLBEntry → CPUTLBEntry) :
    Cpu :=
  { env with
    tlbTable := Function.update env.tlbTable mmuIdx
      (Function.update (env.tlbTable mmuIdx) index (change (env.tlbTable mmuIdx index))) }

/-- Change every entry of `tlb_table`. -/
def Env.onEntries (env : Cpu) (change : CPUTLBEntry → CPUTLBEntry) : Cpu :=
  { env with
    tlbTable := fun mmuIdx i =>
      if i < cpuTlbSize.toNat then change (env.tlbTable mmuIdx i) else env.tlbTable mmuIdx i }

/-- Change the entries that an address belongs to, for every privilege. -/
def Env.onIndex (env : Cpu) (addr : BitVec 32) (change : CPUTLBEntry → CPUTLBEntry) : Cpu :=
  { env with
    tlbTable := fun mmuIdx => Function.update (env.tlbTable mmuIdx) (tlbIndex addr)
      (change (env.tlbTable mmuIdx (tlbIndex addr))) }

/-! ## RAM -/

/-- `qemu_get_ram_ptr` and `qemu_safe_ram_ptr`. -/
def qemuGetRamPtr (blocks : List RAMBlock) (addr : BitVec 64) : Option (BitVec 64) :=
  (blocks.find? fun block => addr - block.offset < block.length).map fun block =>
    block.host + (addr - block.offset)

/-- `TARGET_PAGE_MASK` as a mask of `ram_addr_t`. -/
def ramPageMask : BitVec 64 := ~~~0x3FF#64

/-- The dirty flags of a page of RAM. -/
def dirtyFlags (board : Board) (addr : BitVec 64) : BitVec 8 :=
  board.physDirty (addr >>> targetPageBits).toNat

/-- `cpu_physical_memory_is_dirty`. -/
def cpuPhysicalMemoryIsDirty (board : Board) (addr : BitVec 64) : Bool :=
  dirtyFlags board addr = 0xFF#8

/-! ## Flushes -/

/-- `TB_JMP_CACHE_SIZE`. -/
def tbJmpCacheSize : ℕ := 1 <<< 12

/-- `TB_JMP_PAGE_BITS`. -/
def tbJmpPageBits : ℕ := 6

/-- `TB_JMP_PAGE_SIZE`. -/
def tbJmpPageSize : ℕ := 1 <<< tbJmpPageBits

/-- `TB_JMP_ADDR_MASK`. -/
def tbJmpAddrMask : BitVec 32 := BitVec.ofNat 32 (tbJmpPageSize - 1)

/-- `TB_JMP_PAGE_MASK`. -/
def tbJmpPageMask : BitVec 32 := BitVec.ofNat 32 (tbJmpCacheSize - tbJmpPageSize)

/-- `tb_jmp_cache_hash_page`. -/
def tbJmpCacheHashPage (pc : BitVec 32) : ℕ :=
  let tmp := pc ^^^ (pc >>> (targetPageBits - tbJmpPageBits))
  ((tmp >>> (targetPageBits - tbJmpPageBits)) &&& tbJmpPageMask).toNat

/-- `tb_jmp_cache_hash_func`. -/
def tbJmpCacheHashFunc (pc : BitVec 32) : ℕ :=
  let tmp := pc ^^^ (pc >>> (targetPageBits - tbJmpPageBits))
  (((tmp >>> (targetPageBits - tbJmpPageBits)) &&& tbJmpPageMask) ||| (tmp &&& tbJmpAddrMask)).toNat

/-- Clear the entries of the jump cache that belong to a page. -/
def clearJmpPage (cache : ℕ → Option TranslationBlock) (addr : BitVec 32) :
    ℕ → Option TranslationBlock := fun i =>
  if tbJmpCacheHashPage addr ≤ i ∧ i < tbJmpCacheHashPage addr + tbJmpPageSize then none
  else cache i

/-- `tlb_flush_jmp_cache`. -/
def tlbFlushJmpCache (env : Cpu) (addr : BitVec 32) : Cpu :=
  env.onBoard fun board =>
    { board with
      tbJmpCache := clearJmpPage (clearJmpPage board.tbJmpCache (addr - targetPageSize)) addr }

/-- An entry that matches no address. -/
def CPUTLBEntry.invalidated (entry : CPUTLBEntry) : CPUTLBEntry :=
  { entry with addrRead := -1#32, addrWrite := -1#32, addrCode := -1#32 }

/-- `tlb_flush`. -/
def tlbFlush (env : Cpu) : Cpu :=
  (env.onEntries CPUTLBEntry.invalidated).onBoard fun board =>
    { board with
      tbJmpCache := fun i => if i < tbJmpCacheSize then none else board.tbJmpCache i
      tlbFlushCount := board.tlbFlushCount + 1 }

/-- `tlb_flush_entry`. -/
def tlbFlushEntry (addr : BitVec 32) (entry : CPUTLBEntry) : CPUTLBEntry :=
  if addr = entry.addrRead &&& (targetPageMask ||| tlbInvalidMask) ∨
      addr = entry.addrWrite &&& (targetPageMask ||| tlbInvalidMask) ∨
      addr = entry.addrCode &&& (targetPageMask ||| tlbInvalidMask) then entry.invalidated
  else entry

/-- `tlb_flush_page`. -/
def tlbFlushPage (env : Cpu) (addr : BitVec 32) : Cpu :=
  let addr := addr &&& targetPageMask
  tlbFlushJmpCache (env.onIndex addr (tlbFlushEntry addr)) addr

/-! ## Dirty pages -/

/-- `TLB_NOTDIRTY`. -/
def tlbNotdirty : BitVec 32 := 1#32 <<< 4

/-- `TLB_MMIO`. -/
def tlbMmio : BitVec 32 := 1#32 <<< 5

/-- Where an entry's page for writing starts in the memory of the host. -/
def CPUTLBEntry.writeBase (entry : CPUTLBEntry) : BitVec 64 :=
  (entry.addrWrite &&& targetPageMask).setWidth 64 + entry.addend

/-- `tlb_reset_dirty_range`. -/
def tlbResetDirtyRange (start length : BitVec 64) (entry : CPUTLBEntry) : CPUTLBEntry :=
  if entry.addrWrite &&& ~~~targetPageMask = 0#32 ∧ entry.writeBase - start < length then
    { entry with addrWrite := (entry.addrWrite &&& targetPageMask) ||| tlbNotdirty }
  else entry

/-- `cpu_physical_memory_mask_dirty_range`. -/
def maskDirtyRange (start length : BitVec 64) (flags : BitVec 8) (board : Board) : Board :=
  { board with
    physDirty := fun i =>
      if (start >>> targetPageBits).toNat ≤ i ∧
          i < (start >>> targetPageBits).toNat + (length >>> targetPageBits).toNat
      then board.physDirty i &&& ~~~flags else board.physDirty i }

/-- `cpu_physical_memory_reset_dirty`. -/
def cpuPhysicalMemoryResetDirty (start stop : BitVec 64) (flags : BitVec 8) (env : Cpu) :
    Option Cpu := do
  let start := start &&& ramPageMask
  let stop := (stop + 0x3FF#64) &&& ramPageMask
  let length := stop - start
  if length = 0#64 then
    return env
  else
    let env := env.onBoard (maskDirtyRange start length flags)
    let start1 ← qemuGetRamPtr env.rest.ramBlocks start
    let last ← qemuGetRamPtr env.rest.ramBlocks (stop - 1#64)
    if last - start1 = (stop - 1#64) - start then
      return env.onEntries (tlbResetDirtyRange start1 length)
    else
      none

/-- `tlb_set_dirty1`. -/
def tlbSetDirty1 (vaddr : BitVec 32) (entry : CPUTLBEntry) : CPUTLBEntry :=
  if entry.addrWrite = vaddr ||| tlbNotdirty then { entry with addrWrite := vaddr } else entry

/-- `tlb_set_dirty`. -/
def tlbSetDirty (env : Cpu) (vaddr : BitVec 32) : Cpu :=
  let vaddr := vaddr &&& targetPageMask
  env.onIndex vaddr (tlbSetDirty1 vaddr)

/-- `cpu_physical_memory_set_dirty_flags`. -/
def cpuPhysicalMemorySetDirtyFlags (addr : BitVec 64) (flags : BitVec 8) (board : Board) : Board :=
  { board with
    physDirty := Function.update board.physDirty (addr >>> targetPageBits).toNat
      (dirtyFlags board addr ||| flags) }

/-! ## New entries -/

/-- `IO_MEM_ROM`. -/
def ioMemRom : BitVec 64 := 1#64 <<< ioMemShift

/-- `IO_MEM_UNASSIGNED`. -/
def ioMemUnassigned : BitVec 64 := 2#64 <<< ioMemShift

/-- `IO_MEM_ROMD`. -/
def ioMemRomd : BitVec 64 := 1#64

/-- What a new entry says about a page: the entry, with every tag set as if all accesses
were permitted, and the entry of `iotlb`. -/
structure PageEntry where
  entry : CPUTLBEntry
  iotlb : BitVec 32
  /-- The page is RAM, so that `pd & ~TARGET_PAGE_MASK` is `IO_MEM_RAM`. -/
  isRam : Bool

/-- The first half of `tlb_set_page_exec`, up to where the permissions are looked at. -/
def pageEntry (board : Board) (vaddr paddr : BitVec 32) : Option PageEntry := do
  let p := board.physPages (paddr >>> targetPageBits)
  let pd := (p.map PhysPageDesc.physOffset).getD ioMemUnassigned
  let offset := pd &&& ~~~ramPageMask
  -- IO memory, with `IO_MEM_ROMD` handled for writes only
  let address := if ioMemRom < offset ∧ pd &&& ioMemRomd = 0#64 then vaddr ||| tlbMmio else vaddr
  let addend ← qemuGetRamPtr board.ramBlocks (pd &&& ramPageMask)
  let iotlb :=
    if offset ≤ ioMemRom then
      (pd &&& ramPageMask).setWidth 32 |||
        if offset = 0#64 then BitVec.ofNat 32 (ioMemNotdirty <<< ioMemShift)
        else ioMemRom.setWidth 32
    else
      offset.setWidth 32 + ((p.map fun p => p.regionOffset.setWidth 32).getD paddr)
  let codeAddress := address
  let watched := board.watchpoints.any fun wp => vaddr == wp &&& targetPageMask
  let iotlb := if watched then board.ioMemWatch + paddr else iotlb
  let address := if watched then address ||| tlbMmio else address
  let addrWrite :=
    if offset = ioMemRom ∨ pd &&& ioMemRomd ≠ 0#64 then address ||| tlbMmio
    else if offset = 0#64 ∧ cpuPhysicalMemoryIsDirty board pd = false then address ||| tlbNotdirty
    else address
  return ⟨⟨address, addrWrite, codeAddress, addend - vaddr.setWidth 64⟩, iotlb - vaddr,
    offset = 0#64⟩

/-- Leave only the tags that the permissions allow. -/
def CPUTLBEntry.permit (entry : CPUTLBEntry) (prot : BitVec 32) : CPUTLBEntry :=
  { entry with
    addrRead := if prot &&& pageRead ≠ 0#32 then entry.addrRead else -1#32
    addrWrite := if prot &&& pageWrite ≠ 0#32 then entry.addrWrite else -1#32
    addrCode := if prot &&& pageExec ≠ 0#32 then entry.addrCode else -1#32 }

/-- The end of `tlb_set_page_exec` for the memory checker: the data tags are inverted, so
that accesses go through the helpers. -/
def CPUTLBEntry.checked (entry : CPUTLBEntry) (prot : BitVec 32) : CPUTLBEntry :=
  { entry with
    addrRead :=
      if prot &&& pageRead ≠ 0#32 then entry.addrRead ^^^ targetPageMask else entry.addrRead
    addrWrite :=
      if prot &&& pageWrite ≠ 0#32 then entry.addrWrite ^^^ targetPageMask else entry.addrWrite }

/-- The test of `tlb_set_page_exec` for a page that the memory checker has to see. -/
def memcheckPage (board : Board) (vaddr prot : BitVec 32) (mmuIdx : Fin 2) (isSoftmmu : Bool)
    (isRam : Bool) : Bool :=
  board.memcheckInstrumentMmu && mmuIdx == mmuUserIdx && !isSoftmmu && isRam &&
    prot &&& (pageRead ||| pageWrite) != 0#32 &&
    board.memcheckIsChecked (vaddr &&& targetPageMask) targetPageSize

/-- `tlb_set_page_exec`. -/
def tlbSetPageExec (env : Cpu) (vaddr paddr prot : BitVec 32) (mmuIdx : Fin 2) (isSoftmmu : Bool) :
    Option Cpu := do
  let page ← pageEntry env.rest vaddr paddr
  let entry := page.entry.permit prot
  let entry :=
    if memcheckPage env.rest vaddr prot mmuIdx isSoftmmu page.isRam then entry.checked prot
    else entry
  let env := env.onEntry mmuIdx (tlbIndex vaddr) fun _ => entry
  return { env with
    iotlb := Function.update env.iotlb mmuIdx
      (Function.update (env.iotlb mmuIdx) (tlbIndex vaddr) page.iotlb) }

/-- `tlb_set_page`: what can be read can be executed. -/
def tlbSetPage (env : Cpu) (vaddr paddr prot : BitVec 32) (mmuIdx : Fin 2) (isSoftmmu : Bool) :
    Option Cpu :=
  let prot := if prot &&& pageRead ≠ 0#32 then prot ||| pageExec else prot
  tlbSetPageExec env vaddr paddr prot mmuIdx isSoftmmu

/-! ## Faults -/

/-- `EXCP_PREFETCH_ABORT`. -/
def excpPrefetchAbort : ℕ := 3

/-- `EXCP_DATA_ABORT`. -/
def excpDataAbort : ℕ := 4

/-- The end of `cpu_arm_handle_mmu_fault`, for an access that is not permitted. -/
def reportFault (address : BitVec 32) (kind : AccessType) (ret : BitVec 32) (arm : ArmState) :
    ArmState :=
  match kind with
  | .code => { arm with c5Insn := ret, c6Insn := address, exceptionIndex := excpPrefetchAbort }
  | .write =>
      { arm with
        c5Data := if armFeature arm.toCPUState .v6 then ret ||| (1#32 <<< 11) else ret
        c6Data := address
        exceptionIndex := excpDataAbort }
  | .read => { arm with c5Data := ret, c6Data := address, exceptionIndex := excpDataAbort }

/-- `get_phys_addr` as its callers call it, with variables that it sets. -/
def translate (board : Board) (address : BitVec 32) (kind : AccessType) (isUser : Bool) :
    Except Abort PhysResult :=
  (getPhysAddr board.arm board.mem address kind.toInt isUser ⟨0#32, 0#32, 0#32, 0#32⟩).run' []

/-- `cpu_arm_handle_mmu_fault`. The size of the page is passed on as `is_softmmu`. -/
def cpuArmHandleMmuFault (address : BitVec 32) (kind : AccessType) (mmuIdx : Fin 2) :
    Callback Board Bool := fun env =>
  match translate env.rest address kind (mmuIdx == mmuUserIdx) with
  | .error .abort => (none, env)
  | .ok result =>
      if result.ret = 0#32 then
        match tlbSetPage env (address &&& ~~~0x3FF#32) (result.physPtr &&& ~~~0x3FF#32) result.prot
          mmuIdx (result.pageSize ≠ 0#32) with
        | none => (none, env)
        | some env => (some false, env)
      else
        (some true, env.onBoard fun board =>
          { board with arm := reportFault address kind result.ret board.arm })

/-! ## The system control coprocessor -/

/-- The register that a coprocessor instruction names. -/
def crn (insn : BitVec 32) : ℕ := ((insn >>> 16) &&& 0xF#32).toNat

/-- The operand `crm` of a coprocessor instruction. -/
def crm (insn : BitVec 32) : ℕ := (insn &&& 0xF#32).toNat

/-- The operand `op1` of a coprocessor instruction. -/
def op1 (insn : BitVec 32) : ℕ := ((insn >>> 21) &&& 7#32).toNat

/-- `extended_mpu_ap_bits`. -/
def extendedMpuApBits (val : BitVec 32) : BitVec 32 :=
  (List.range 8).foldl (fun ret i => ret ||| ((val &&& (3#32 <<< (2 * i))) <<< (2 * i))) 0#32

/-- The translation registers that a write of `val` to the control register leaves. -/
def ArmState.setC2Control (arm : ArmState) (val : BitVec 32) : ArmState :=
  let val := val &&& 7#32
  { arm with
    c2Control := val
    c2Mask := ~~~(0xFFFFFFFF#32 >>> val)
    c2BaseMask := ~~~(0x3FFF#32 >>> val) }

/-- The physical address register after a translation. -/
def parOf (arm : ArmState) (result : PhysResult) : BitVec 32 :=
  if result.ret = 0#32 then
    if result.pageSize = 1#32 <<< 24 ∧ armFeature arm.toCPUState .v7 = true then
      (result.physPtr &&& 0xFF000000#32) ||| (1#32 <<< 1)
    else result.physPtr &&& 0xFFFFF000#32
  else
    ((result.ret &&& (10#32 <<< 1)) >>> 5) ||| ((result.ret &&& (12#32 <<< 1)) >>> 6) |||
      ((result.ret &&& 0xF#32) <<< 1) ||| 1#32

/-- Write the registers only. -/
def Env.setArm (env : Cpu) (arm : ArmState) : Cpu :=
  env.onBoard fun board => { board with arm := arm }

/-- The operand `op2`, which some cases of `set_cp15` ignore on an OMAP. -/
def op2Omap (arm : ArmState) (insn : BitVec 32) : ℕ :=
  if armFeature arm.toCPUState .omapcp then 0 else (op2 insn).toNat

/-- `set_cp15`, register 1: the system configuration. The auxiliary register and the
coprocessor access register are left out. -/
def setC1 (insn val : BitVec 32) (env : Cpu) : Cpu :=
  let arm := env.rest.arm
  if crm insn = 0 ∧ op2Omap arm insn = 0 then
    tlbFlush (env.setArm (if armFeature arm.toCPUState .xscale then arm
      else { arm with c1Sys := val }))
  else env

/-- `set_cp15`, register 2: the tables, or the protection unit's cache bits. -/
def setC2 (insn val : BitVec 32) (env : Cpu) : Option Cpu :=
  let arm := env.rest.arm
  match armFeature arm.toCPUState .mpu, (op2 insn).toNat with
  | true, 0 => some (env.setArm { arm with c2Data := val })
  | true, 1 => some (env.setArm { arm with c2Insn := val })
  | false, 0 => some (env.setArm { arm with c2Base0 := val })
  | false, 1 => some (env.setArm { arm with c2Base1 := val })
  | false, 2 => some (env.setArm (arm.setC2Control val))
  | _, _ => none

/-- `set_cp15`, register 5: the fault status, or the protection unit's permissions. -/
def setC5 (insn val : BitVec 32) (env : Cpu) : Option Cpu :=
  let arm := env.rest.arm
  match armFeature arm.toCPUState .mpu, op2Omap arm insn with
  | true, 0 => some (env.setArm { arm with c5Data := extendedMpuApBits val })
  | true, 1 => some (env.setArm { arm with c5Insn := extendedMpuApBits val })
  | true, 2 => some (env.setArm { arm with c5Data := val })
  | true, 3 => some (env.setArm { arm with c5Insn := val })
  | false, 0 => some (env.setArm { arm with c5Data := val })
  | false, 1 => some (env.setArm { arm with c5Insn := val })
  | _, _ => none

/-- `set_cp15`, register 6: the fault address, or the protection unit's regions. -/
def setC6 (insn val : BitVec 32) (env : Cpu) : Option Cpu :=
  let arm := env.rest.arm
  match armFeature arm.toCPUState .mpu, op2Omap arm insn with
  | true, _ =>
      if h : crm insn < 8 then
        some (env.setArm { arm with c6Region := Function.update arm.c6Region ⟨crm insn, h⟩ val })
      else none
  | false, 0 => some (env.setArm { arm with c6Data := val })
  | false, 1 => some (env.setArm { arm with c6Insn := val })
  | false, 2 => some (env.setArm { arm with c6Insn := val })
  | false, _ => none

/-- `set_cp15`, register 7: cache control, of which only the translations are there. -/
def setC7 (insn val : BitVec 32) (env : Cpu) : Option Cpu :=
  let arm := env.rest.arm
  if op1 insn ≠ 0 then none
  else if armFeature arm.toCPUState .v6k = false then some env
  else if crm insn = 4 then
    some (env.setArm { arm with
      c7Par := val &&& if armFeature arm.toCPUState .v7 then 0xFFFFF6FF#32 else 0xFFFFF1FF#32 })
  else if crm insn = 8 then
    if op2 insn &&& 4#32 ≠ 0#32 then none
    else
      let kind := if op2 insn &&& 1#32 ≠ 0#32 then AccessType.write else .read
      match translate env.rest val kind (op2 insn &&& 2#32 ≠ 0#32) with
      | .error .abort => none
      | .ok result => some (env.setArm { arm with c7Par := parOf arm result })
  else some env

/-- `set_cp15`, register 8: the emulator's part of the TLB control. -/
def setC8 (insn val : BitVec 32) (env : Cpu) : Option Cpu :=
  match (op2 insn).toNat with
  | 0 => some (tlbFlush env)
  | 1 => some (tlbFlushPage env (val &&& targetPageMask))
  | 2 => some (tlbFlush env)
  | 3 => some (tlbFlush env)
  | _ => none

/-- `set_cp15`, register 13: the process identifiers. -/
def setC13 (insn val : BitVec 32) (env : Cpu) : Option Cpu :=
  let arm := env.rest.arm
  match (op2 insn).toNat with
  | 0 =>
      let env := if arm.c13Fcse ≠ val then tlbFlush env else env
      some (env.setArm { arm with c13Fcse := val })
  | 1 =>
      let env :=
        if arm.c13Context ≠ val ∧ armFeature arm.toCPUState .mpu = false then tlbFlush env else env
      some (env.setArm { arm with c13Context := val })
  | _ => none

/-- `set_cp15`, for the registers that translation reads and those that drop entries. The
other registers are left out, with the instructions on them that abort. -/
def setCp15 (insn val : BitVec 32) (env : Cpu) : Option Cpu :=
  match crn insn with
  | 1 => some (setC1 insn val env)
  | 2 => setC2 insn val env
  | 3 => some (tlbFlush (env.setArm { env.rest.arm with c3 := val }))
  | 5 => setC5 insn val env
  | 6 => setC6 insn val env
  | 7 => setC7 insn val env
  | 8 => setC8 insn val env
  | 13 => setC13 insn val env
  | _ => some env

/-- `cpu_reset`, with the features and the control register that `cpu_reset_model_id` sets
for the processor. All fields are cleared first, but for those behind `breakpoints`, of which
`exception_index` is one. -/
def cpuReset (features c1Sys : BitVec 32) (env : Cpu) : Cpu :=
  let env := env.onEntries fun _ => ⟨0#32, 0#32, 0#32, 0#64⟩
  let env := { env with iotlb := fun _ _ => 0#32, memIoVaddr := 0#32 }
  tlbFlush (env.setArm
    { uncachedCpsr := 0x1D3#32, features := features, c1Sys := c1Sys, c2Base0 := 0#32
      c2Base1 := 0#32, c2Mask := 0#32, c2BaseMask := 0xFFFFC000#32, c3 := 0#32, c13Context := 0#32
      c2Control := 0#32, c2Data := 0#32, c2Insn := 0#32, c5Insn := 0#32, c5Data := 0#32
      c6Region := fun _ => 0#32, c6Insn := 0#32, c6Data := 0#32, c7Par := 0#32, c13Fcse := 0#32
      exceptionIndex := env.rest.arm.exceptionIndex })

/-! ## What happens to the translation cache -/

/-- The steps of the emulator that fill or drop entries, or that change what a translation
depends on. -/
inductive TlbEvent
  /-- A `tlb_fill` of the access path. -/
  | fill (address : BitVec 32) (kind : AccessType) (mmuIdx : Fin 2)
  | setCp15 (insn val : BitVec 32)
  /-- A `tlb_flush`, as `tlbtrace_start` and `tlbtrace_stop` call it. -/
  | flush
  /-- The guest or a device writes to physical memory. -/
  | writeMemory (mem : BitVec 32 → BitVec 32)
  /-- `cpu_register_physical_memory_offset`, with the map that it leaves. -/
  | registerMemory (physPages : BitVec 32 → Option PhysPageDesc)
  | watchpointInsert (addr : BitVec 32)
  | watchpointRemove (addr : BitVec 32)
  | resetDirty (start stop : BitVec 64) (flags : BitVec 8)
  | setDirtyFlags (addr : BitVec 64) (flags : BitVec 8)
  | setDirty (vaddr : BitVec 32)
  /-- The last step of `tb_find_slow`. -/
  | cacheBlock (tb : TranslationBlock)

/-- Perform one step. -/
def TlbEvent.perform : TlbEvent → Cpu → Option Cpu
  | .fill address kind mmuIdx, env =>
      match cpuArmHandleMmuFault address kind mmuIdx env with
      | (none, _) => none
      | (some _, env) => some env
  | .setCp15 insn val, env => Emulator.setCp15 insn val env
  | .flush, env => some (tlbFlush env)
  | .writeMemory mem, env => some (env.onBoard fun board => { board with mem := mem })
  | .registerMemory physPages, env =>
      some (tlbFlush (env.onBoard fun board => { board with physPages := physPages }))
  | .watchpointInsert addr, env =>
      some (tlbFlushPage (env.onBoard fun board =>
        { board with watchpoints := addr :: board.watchpoints }) addr)
  | .watchpointRemove addr, env =>
      if env.rest.watchpoints.contains addr then
        some (tlbFlushPage (env.onBoard fun board =>
          { board with watchpoints := board.watchpoints.erase addr }) addr)
      else some env
  | .resetDirty start stop flags, env => cpuPhysicalMemoryResetDirty start stop flags env
  | .setDirtyFlags addr flags, env => some (env.onBoard (cpuPhysicalMemorySetDirtyFlags addr flags))
  | .setDirty vaddr, env => some (tlbSetDirty env vaddr)
  | .cacheBlock tb, env =>
      some (env.onBoard fun board =>
        { board with
          tbJmpCache := Function.update board.tbJmpCache (tbJmpCacheHashFunc tb.pc) (some tb) })

/-- A step that does not abort. -/
def TlbStep (env : Cpu) (event : TlbEvent) (env' : Cpu) : Prop := event.perform env = some env'

/-- An emulator with 1 MB of RAM, right after a flush, whose guest has the MMU off. -/
def sampleCpu : Cpu := tlbFlush
  { tlbTable := fun _ _ => ⟨0#32, 0#32, 0#32, 0#64⟩
    iotlb := fun _ _ => 0#32
    memIoVaddr := 0#32
    hostMem := fun _ => 0#8
    rest :=
      { arm :=
          { uncachedCpsr := 0x10#32, features := 0#32, c1Sys := 0#32, c2Base0 := 0#32
            c2Base1 := 0#32, c2Mask := 0#32, c2BaseMask := 0xFFFFC000#32, c3 := 0#32
            c13Context := 0#32, c2Control := 0#32, c2Data := 0#32, c2Insn := 0#32
            c5Insn := 0#32, c5Data := 0#32
            c6Region := fun _ => 0#32, c6Insn := 0#32, c6Data := 0#32, c7Par := 0#32
            c13Fcse := 0#32, exceptionIndex := 0 }
        mem := fun _ => 0#32
        physPages := fun page =>
          if page < 1024#32 then some ⟨page.setWidth 64 <<< 10, 0#64⟩ else none
        ramBlocks := [⟨0x10000000#64, 0#64, 0x100000#64⟩]
        physDirty := fun _ => 0xFF#8
        watchpoints := []
        ioMemWatch := 0x40#32
        memcheckInstrumentMmu := false
        memcheckIsChecked := fun _ _ => false
        tbJmpCache := fun _ => none
        tlbFlushCount := 0 } }

end TlbAnalyzer.Emulator
