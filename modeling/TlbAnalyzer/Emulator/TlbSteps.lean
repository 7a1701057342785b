/-
# Steps on the translation cache

To the access path the table is a partial map from privileges, kinds of access and
pages to the place of a page in the host's memory. This module says what the functions of
`Emulator.SoftTlb` do to that map, and what a coprocessor write does to the registers that
a translation reads. Tags carry flags beside the page, and a flag never changes which
addresses a tag matches.
-/

import TlbAnalyzer.Emulator.SoftTlb

namespace TlbAnalyzer.Emulator

open Math

/-! ## Tags -/

/-- The bits of a tag that an address is compared with. -/
def tagPage (tag : BitVec 32) : BitVec 32 := tag &&& (targetPageMask ||| tlbInvalidMask)

theorem pageInTlb_iff {addr tag : BitVec 32} :
    pageInTlb addr tag = true ↔ addr &&& targetPageMask = tagPage tag := by
  rw [pageInTlb, decide_eq_true_iff, tagPage]

/-- The tag of a flushed entry matches no address. -/
theorem page_ne_tagPage_neg_one (addr : BitVec 32) : addr &&& targetPageMask ≠ tagPage (-1#32) := by
  intro h
  have hbit := congrArg (· &&& tlbInvalidMask) h
  have hleft : (addr &&& targetPageMask) &&& tlbInvalidMask = 0#32 := by
    have hmasks : targetPageMask &&& tlbInvalidMask = 0#32 := by decide
    rw [BitVec.and_assoc, hmasks, BitVec.and_zero]
  have hright : tagPage (-1#32) &&& tlbInvalidMask ≠ 0#32 := by decide
  exact hright (hbit.symm.trans hleft)

theorem tagPage_and_pageMask (addr : BitVec 32) :
    tagPage (addr &&& targetPageMask) = addr &&& targetPageMask := by
  have hmasks : targetPageMask &&& (targetPageMask ||| tlbInvalidMask) = targetPageMask := by decide
  rw [tagPage, BitVec.and_assoc, hmasks]

/-- Flags below the page bits do not change what a tag matches. -/
theorem tagPage_or {flag : BitVec 32}
    (hflag : flag &&& (targetPageMask ||| tlbInvalidMask) = 0#32) (tag : BitVec 32) :
    tagPage (tag ||| flag) = tagPage tag := by
  rw [tagPage, BitVec.and_or_distrib_right, hflag, BitVec.or_zero]
  rfl

theorem tagPage_or_mmio (tag : BitVec 32) : tagPage (tag ||| tlbMmio) = tagPage tag :=
  tagPage_or (by decide) tag

theorem tagPage_or_notdirty (tag : BitVec 32) : tagPage (tag ||| tlbNotdirty) = tagPage tag :=
  tagPage_or (by decide) tag

theorem tagPage_ite_mmio (flag : Prop) [Decidable flag] (tag : BitVec 32) :
    tagPage (if flag then tag ||| tlbMmio else tag) = tagPage tag := by
  split
  · exact tagPage_or_mmio tag
  · rfl

theorem tagPage_ite_notdirty (flag : Prop) [Decidable flag] (tag : BitVec 32) :
    tagPage (if flag then tag ||| tlbNotdirty else tag) = tagPage tag := by
  split
  · exact tagPage_or_notdirty tag
  · rfl

theorem tlbIndex_lt (addr : BitVec 32) : tlbIndex addr < cpuTlbSize.toNat := by
  rw [tlbIndex, BitVec.toNat_and]
  exact lt_of_le_of_lt Nat.and_le_right (by decide)

theorem SamePage.tlbIndex_eq {addr addr' : BitVec 32} (h : SamePage addr addr') :
    tlbIndex addr = tlbIndex addr' :=
  congrArg BitVec.toNat (h.index_eq (by decide))

theorem samePage_and_pageMask (addr : BitVec 32) : SamePage (addr &&& targetPageMask) addr := by
  rw [SamePage, BitVec.and_assoc, BitVec.and_self]

/-! ## The map -/

/-- What the entry answers to an access. -/
def CPUTLBEntry.answer (entry : CPUTLBEntry) (kind : AccessType) (addr : BitVec 32) :
    Option (BitVec 64) :=
  if pageInTlb addr (entry.tag kind) then some entry.addend else none

/-- What the table answers to an access: where the page is, in the host's memory and for
the devices. -/
def Env.lookup (env : Cpu) (mmuIdx : Fin 2) (kind : AccessType) (addr : BitVec 32) :
    Option (BitVec 64 × BitVec 32) :=
  ((env.tlbTable mmuIdx (tlbIndex addr)).answer kind addr).map fun addend =>
    (addend, env.iotlb mmuIdx (tlbIndex addr))

section

variable {entry entry' : CPUTLBEntry} {kind : AccessType} {addr : BitVec 32} {base : BitVec 64}

theorem CPUTLBEntry.answer_eq_some_iff :
    entry.answer kind addr = some base ↔
      addr &&& targetPageMask = tagPage (entry.tag kind) ∧ entry.addend = base := by
  rw [answer, Option.ite_none_right_eq_some, pageInTlb_iff, Option.some.injEq]

/-- An entry answers by its addend and by the pages of its tags. -/
theorem CPUTLBEntry.answer_congr (haddend : entry'.addend = entry.addend)
    (htags : ∀ kind, tagPage (entry'.tag kind) = tagPage (entry.tag kind)) :
    entry'.answer kind addr = entry.answer kind addr := by
  ext base
  rw [answer_eq_some_iff, answer_eq_some_iff, haddend, htags kind]

theorem CPUTLBEntry.answer_invalidated : entry.invalidated.answer kind addr = none := by
  rw [answer, if_neg]
  rw [pageInTlb_iff]
  cases kind <;> exact page_ne_tagPage_neg_one addr

/-- A write that has to report itself is still let through. -/
theorem answer_tlbResetDirtyRange (start length : BitVec 64) :
    (tlbResetDirtyRange start length entry).answer kind addr = entry.answer kind addr := by
  rw [tlbResetDirtyRange]
  split
  · rename_i h
    have hpage : entry.addrWrite &&& targetPageMask = entry.addrWrite := by
      have hsum := and_not_add_and entry.addrWrite (~~~targetPageMask)
      rw [h.1, BitVec.add_zero, BitVec.not_not] at hsum
      exact hsum
    refine CPUTLBEntry.answer_congr rfl ?_
    intro kind
    cases kind with
    | write =>
        show tagPage ((entry.addrWrite &&& targetPageMask) ||| tlbNotdirty) =
          tagPage entry.addrWrite
        rw [tagPage_or_notdirty, hpage]
    | _ => rfl
  · rfl

theorem answer_tlbSetDirty1 (vaddr : BitVec 32) :
    (tlbSetDirty1 vaddr entry).answer kind addr = entry.answer kind addr := by
  rw [tlbSetDirty1]
  split
  · rename_i h
    refine CPUTLBEntry.answer_congr rfl ?_
    intro kind
    cases kind with
    | write =>
        show tagPage vaddr = tagPage entry.addrWrite
        rw [h, tagPage_or_notdirty]
    | _ => rfl
  · rfl

/-- A flushed entry answers no more, and for the page that is flushed not at all. -/
theorem answer_tlbFlushEntry {vaddr : BitVec 32}
    (h : (tlbFlushEntry (vaddr &&& targetPageMask) entry).answer kind addr = some base) :
    entry.answer kind addr = some base ∧ ¬ SamePage addr vaddr := by
  rw [tlbFlushEntry] at h
  split at h
  · rw [CPUTLBEntry.answer_invalidated] at h
    cases h
  · rename_i hother
    refine ⟨h, ?_⟩
    intro hsame
    have hpage := (CPUTLBEntry.answer_eq_some_iff.mp h).1
    rw [hsame] at hpage
    apply hother
    cases kind with
    | read => exact Or.inl hpage
    | write => exact Or.inr (Or.inl hpage)
    | code => exact Or.inr (Or.inr hpage)

end

/-! ## Steps on the map -/

section

variable {env : Cpu} {mmuIdx : Fin 2} {kind : AccessType} {addr : BitVec 32}

/-- The map depends on the page of an address. -/
theorem SamePage.lookup_eq {addr' : BitVec 32} (h : SamePage addr addr') :
    env.lookup mmuIdx kind addr = env.lookup mmuIdx kind addr' := by
  rw [Env.lookup, Env.lookup, CPUTLBEntry.answer, CPUTLBEntry.answer, pageInTlb, pageInTlb,
    h.tlbIndex_eq, h]

theorem Env.lookup_onBoard (change : Board → Board) :
    (env.onBoard change).lookup mmuIdx kind addr = env.lookup mmuIdx kind addr :=
  rfl

theorem Env.lookup_onEntries (change : CPUTLBEntry → CPUTLBEntry) :
    (env.onEntries change).lookup mmuIdx kind addr =
      ((change (env.tlbTable mmuIdx (tlbIndex addr))).answer kind addr).map fun addend =>
        (addend, env.iotlb mmuIdx (tlbIndex addr)) := by
  have hentry : (env.onEntries change).tlbTable mmuIdx (tlbIndex addr) =
      change (env.tlbTable mmuIdx (tlbIndex addr)) := if_pos (tlbIndex_lt addr)
  rw [Env.lookup, hentry]
  rfl

theorem Env.onEntry_tlbTable (mmuIdx' : Fin 2) (index i : ℕ) (change : CPUTLBEntry → CPUTLBEntry) :
    (env.onEntry mmuIdx' index change).tlbTable mmuIdx i =
      if mmuIdx = mmuIdx' ∧ i = index then change (env.tlbTable mmuIdx i)
      else env.tlbTable mmuIdx i := by
  show Function.update env.tlbTable mmuIdx' _ mmuIdx i = _
  by_cases hmode : mmuIdx = mmuIdx'
  · subst hmode
    rw [Function.update_self]
    by_cases hindex : i = index
    · subst hindex
      rw [Function.update_self, if_pos ⟨rfl, rfl⟩]
    · rw [Function.update_of_ne hindex, if_neg fun h => hindex h.2]
  · rw [Function.update_of_ne hmode, if_neg fun h => hmode h.1]

theorem Env.onIndex_tlbTable (vaddr : BitVec 32) (i : ℕ) (change : CPUTLBEntry → CPUTLBEntry) :
    (env.onIndex vaddr change).tlbTable mmuIdx i =
      if i = tlbIndex vaddr then change (env.tlbTable mmuIdx i) else env.tlbTable mmuIdx i := by
  show Function.update (env.tlbTable mmuIdx) (tlbIndex vaddr) _ i = _
  by_cases hindex : i = tlbIndex vaddr
  · subst hindex
    rw [Function.update_self, if_pos rfl]
  · rw [Function.update_of_ne hindex, if_neg hindex]

theorem Env.lookup_onIndex (vaddr : BitVec 32) (change : CPUTLBEntry → CPUTLBEntry) :
    (env.onIndex vaddr change).lookup mmuIdx kind addr =
      if tlbIndex addr = tlbIndex vaddr then
        ((change (env.tlbTable mmuIdx (tlbIndex addr))).answer kind addr).map fun addend =>
          (addend, env.iotlb mmuIdx (tlbIndex addr))
      else env.lookup mmuIdx kind addr := by
  rw [Env.lookup, onIndex_tlbTable]
  by_cases hindex : tlbIndex addr = tlbIndex vaddr
  · rw [if_pos hindex, if_pos hindex]
    rfl
  · rw [if_neg hindex, if_neg hindex]
    rfl

theorem lookup_tlbFlush : (tlbFlush env).lookup mmuIdx kind addr = none := by
  rw [tlbFlush, Env.lookup_onBoard, Env.lookup_onEntries, CPUTLBEntry.answer_invalidated]
  rfl

theorem lookup_tlbSetDirty (vaddr : BitVec 32) :
    (tlbSetDirty env vaddr).lookup mmuIdx kind addr = env.lookup mmuIdx kind addr := by
  rw [tlbSetDirty, Env.lookup_onIndex, answer_tlbSetDirty1, ← Env.lookup, ite_self]

/-- What a reset of dirty flags does: nothing, or it masks the flags of the range and marks
the entries of its pages. -/
theorem resetDirty_cases {start stop : BitVec 64} {flags : BitVec 8} {env' : Cpu}
    (h : cpuPhysicalMemoryResetDirty start stop flags env = some env') :
    env' = env ∨ ∃ first length : BitVec 64,
      env' = (env.onBoard (maskDirtyRange (start &&& ramPageMask) length flags)).onEntries
        (tlbResetDirtyRange first length) := by
  unfold cpuPhysicalMemoryResetDirty at h
  dsimp only at h
  split at h
  · cases h
    exact Or.inl rfl
  · rcases Option.bind_eq_some_iff.mp h with ⟨first, -, hrest⟩
    rcases Option.bind_eq_some_iff.mp hrest with ⟨last, -, hlast⟩
    split at hlast
    · cases hlast
      exact Or.inr ⟨first, _, rfl⟩
    · cases hlast

theorem lookup_resetDirty {start stop : BitVec 64} {flags : BitVec 8} {env' : Cpu}
    (h : cpuPhysicalMemoryResetDirty start stop flags env = some env') :
    env'.lookup mmuIdx kind addr = env.lookup mmuIdx kind addr := by
  rcases resetDirty_cases h with rfl | ⟨first, length, rfl⟩
  · rfl
  · rw [Env.lookup_onEntries, answer_tlbResetDirtyRange]
    rfl

/-- A page flush keeps the answers for other pages at most. -/
theorem lookup_tlbFlushPage {vaddr : BitVec 32} {value : BitVec 64 × BitVec 32}
    (h : (tlbFlushPage env vaddr).lookup mmuIdx kind addr = some value) :
    env.lookup mmuIdx kind addr = some value ∧ ¬ SamePage addr vaddr := by
  rw [tlbFlushPage, tlbFlushJmpCache, Env.lookup_onBoard, Env.lookup_onIndex] at h
  by_cases hindex : tlbIndex addr = tlbIndex (vaddr &&& targetPageMask)
  · rw [if_pos hindex, Option.map_eq_some_iff] at h
    rcases h with ⟨base, hanswer, hvalue⟩
    have hflushed := answer_tlbFlushEntry hanswer
    refine ⟨?_, hflushed.2⟩
    rw [Env.lookup, hflushed.1, Option.map_some, hvalue]
  · rw [if_neg hindex] at h
    refine ⟨h, ?_⟩
    intro hsame
    exact hindex (hsame.tlbIndex_eq.trans (samePage_and_pageMask vaddr).tlbIndex_eq.symm)

end

/-! ## Fills -/

/-- The permissions that `tlb_set_page` passes on. -/
def effectiveProt (prot : BitVec 32) : BitVec 32 :=
  if prot &&& pageRead ≠ 0#32 then prot ||| pageExec else prot

theorem CPUTLBEntry.permit_tag (entry : CPUTLBEntry) (prot : BitVec 32) (kind : AccessType) :
    (entry.permit prot).tag kind =
      if prot &&& kind.pageFlag ≠ 0#32 then entry.tag kind else -1#32 := by
  cases kind <;> rfl

/-- Every tag of a new entry is for its page. -/
theorem pageEntry_tagPage {board : Board} {vaddr paddr : BitVec 32} {page : PageEntry}
    (h : pageEntry board vaddr paddr = some page) (kind : AccessType) :
    tagPage (page.entry.tag kind) = tagPage vaddr := by
  unfold pageEntry at h
  rcases Option.bind_eq_some_iff.mp h with ⟨addend, -, hpage⟩
  cases hpage
  cases kind with
  | read =>
      show tagPage (if _ then (if _ then _ else _) ||| tlbMmio else _) = _
      rw [tagPage_ite_mmio, tagPage_ite_mmio]
  | code => exact tagPage_ite_mmio _ vaddr
  | write =>
      show tagPage (if _ then (if _ then (if _ then _ else _) ||| _ else _) ||| tlbMmio else
        if _ then (if _ then (if _ then _ else _) ||| _ else _) ||| tlbNotdirty else _) = _
      split
      · rw [tagPage_or_mmio, tagPage_ite_mmio, tagPage_ite_mmio]
      · rw [tagPage_ite_notdirty, tagPage_ite_mmio, tagPage_ite_mmio]

/-- Where a new entry says that a page is. -/
def pagePlace (board : Board) (vaddr paddr : BitVec 32) : Option (BitVec 64 × BitVec 32) :=
  (pageEntry board vaddr paddr).map fun page => (page.entry.addend, page.iotlb)

/-- A new entry answers for its page, to the kinds of access that are permitted. -/
theorem CPUTLBEntry.answer_permit {entry : CPUTLBEntry} {address : BitVec 32}
    (htags : ∀ kind, tagPage (entry.tag kind) = address &&& targetPageMask) (prot : BitVec 32)
    (kind : AccessType) (addr : BitVec 32) :
    (entry.permit prot).answer kind addr =
      if SamePage addr address ∧ prot &&& kind.pageFlag ≠ 0#32 then some entry.addend
      else none := by
  rw [answer, permit_tag]
  by_cases hflag : prot &&& kind.pageFlag ≠ 0#32
  · have hpage : pageInTlb addr (entry.tag kind) = true ↔
        SamePage addr address ∧ prot &&& kind.pageFlag ≠ 0#32 := by
      rw [pageInTlb_iff, htags kind]
      exact ⟨fun h => ⟨h, hflag⟩, fun h => h.1⟩
    rw [if_pos hflag]
    simp only [hpage]
    rfl
  · have hpage : ¬ pageInTlb addr (-1#32) = true := fun h =>
      page_ne_tagPage_neg_one addr (pageInTlb_iff.mp h)
    rw [if_neg hflag, if_neg hpage, if_neg fun h => hflag h.2]

/-- The table after an entry is stored for a page. -/
theorem lookup_tlbSetPage {env env' : Cpu} {address paddr prot : BitVec 32} {mmuIdx : Fin 2}
    (h : tlbSetPage env (address &&& targetPageMask) paddr prot mmuIdx true = some env') :
    ∃ place, pagePlace env.rest (address &&& targetPageMask) paddr = some place ∧
      env'.rest = env.rest ∧
      ∀ mmuIdx' kind addr, env'.lookup mmuIdx' kind addr =
        if mmuIdx' = mmuIdx ∧ tlbIndex addr = tlbIndex address then
          if SamePage addr address ∧ effectiveProt prot &&& kind.pageFlag ≠ 0#32 then some place
          else none
        else env.lookup mmuIdx' kind addr := by
  rcases Option.bind_eq_some_iff.mp h with ⟨page, hpage, hstore⟩
  have hunchecked : ∀ isRam, memcheckPage env.rest (address &&& targetPageMask)
      (effectiveProt prot) mmuIdx true isRam = false := by
    intro isRam
    simp [memcheckPage]
  rw [effectiveProt.eq_1] at hunchecked
  simp only [hunchecked, Bool.false_eq_true, if_false] at hstore
  cases hstore
  refine ⟨(page.entry.addend, page.iotlb), congrArg (Option.map _) hpage, rfl, ?_⟩
  intro mmuIdx' kind addr
  have hindex := (samePage_and_pageMask address).tlbIndex_eq
  have htags : ∀ kind, tagPage (page.entry.tag kind) = address &&& targetPageMask := fun kind =>
    (pageEntry_tagPage hpage kind).trans (tagPage_and_pageMask address)
  rw [Env.lookup]
  dsimp only
  rw [Env.onEntry_tlbTable, hindex]
  by_cases hslot : mmuIdx' = mmuIdx ∧ tlbIndex addr = tlbIndex address
  · rw [if_pos hslot, if_pos hslot, CPUTLBEntry.answer_permit htags, hslot.1, hslot.2,
      Function.update_self, Function.update_self]
    show Option.map _ (if SamePage addr address ∧ effectiveProt prot &&& kind.pageFlag ≠ 0#32 then _
      else _) = _
    split <;> rfl
  · rw [if_neg hslot, if_neg hslot, Env.lookup]
    by_cases hmode : mmuIdx' = mmuIdx
    · have hother : tlbIndex addr ≠ tlbIndex address := fun h => hslot ⟨hmode, h⟩
      rw [hmode, Function.update_self, Function.update_of_ne hother]
      rfl
    · rw [Function.update_of_ne hmode]
      rfl

/-- What the handler leaves after an access that is permitted: one more entry. -/
structure Filled (env : Cpu) (address : BitVec 32) (kind : AccessType) (mmuIdx : Fin 2)
    (result : PhysResult) (place : BitVec 64 × BitVec 32) (env' : Cpu) : Prop where
  translated : translate env.rest address kind (mmuIdx == mmuUserIdx) = .ok result
  permitted : result.ret = 0#32
  entered : pagePlace env.rest (address &&& targetPageMask) (result.physPtr &&& targetPageMask) =
    some place
  rest_eq : env'.rest = env.rest
  lookup_eq : ∀ mmuIdx' kind' addr, env'.lookup mmuIdx' kind' addr =
    if mmuIdx' = mmuIdx ∧ tlbIndex addr = tlbIndex address then
      if SamePage addr address ∧ effectiveProt result.prot &&& kind'.pageFlag ≠ 0#32 then some place
      else none
    else env.lookup mmuIdx' kind' addr

/-- What the handler does: it fills an entry, or it reports a fault. -/
theorem handler_cases {env env' : Cpu} {address : BitVec 32} {kind : AccessType} {mmuIdx : Fin 2}
    {fault : Bool} (h : cpuArmHandleMmuFault address kind mmuIdx env = (some fault, env')) :
    (fault = false ∧ ∃ result place, Filled env address kind mmuIdx result place env') ∨
      (fault = true ∧ ∃ result,
        translate env.rest address kind (mmuIdx == mmuUserIdx) = .ok result ∧
        result.ret ≠ 0#32 ∧
        env' = env.onBoard fun board =>
          { board with arm := reportFault address kind result.ret board.arm }) := by
  unfold cpuArmHandleMmuFault at h
  split at h
  · cases h
  · rename_i result htranslate
    split at h
    · rename_i hret
      have hsize : result.pageSize ≠ 0#32 := by
        rcases Returns.eq_iff_run'.mpr htranslate with ⟨result', reads, hrun, heq⟩
        rw [← heq]
        exact getPhysAddr_pageSize _ _ _ _ _ _ _ _ _ hrun (heq ▸ hret)
      split at h
      · cases h
      · rename_i filled hfilled
        cases h
        rw [decide_eq_true hsize] at hfilled
        rcases lookup_tlbSetPage hfilled with ⟨place, hentered, hrest, hlookup⟩
        exact Or.inl ⟨rfl, result, place, htranslate, hret, hentered, hrest, hlookup⟩
    · rename_i hret
      cases h
      exact Or.inr ⟨rfl, result, htranslate, hret, rfl⟩

/-- A handler that aborts has changed nothing. -/
theorem handler_aborts {env env' : Cpu} {address : BitVec 32} {kind : AccessType} {mmuIdx : Fin 2}
    (h : cpuArmHandleMmuFault address kind mmuIdx env = (none, env')) : env' = env := by
  unfold cpuArmHandleMmuFault at h
  split at h
  · cases h
    rfl
  · split at h
    · split at h
      · cases h
        rfl
      · cases h
    · cases h

/-! ## Coprocessor writes -/

/-- The registers that the region of an address depends on. -/
def ArmState.translation (arm : ArmState) : CPUState × BitVec 32 :=
  ({ arm.toCPUState with uncachedCpsr := 0#32, c13Context := 0#32 }, arm.c13Fcse)

/-- The two masks are those that the control register of the tables stands for. -/
structure Ttbcr (arm : ArmState) : Prop where
  control_lt : arm.c2Control.toNat < 8
  mask_eq : arm.c2Mask = ~~~(0xFFFFFFFF#32 >>> arm.c2Control)
  baseMask_eq : arm.c2BaseMask = ~~~(0x3FFF#32 >>> arm.c2Control)

theorem setC2Control_ttbcr (arm : ArmState) (val : BitVec 32) : Ttbcr (arm.setC2Control val) where
  control_lt := by
    show (val &&& 7#32).toNat < 8
    rw [BitVec.toNat_and]
    exact lt_of_le_of_lt Nat.and_le_right (by decide)
  mask_eq := rfl
  baseMask_eq := rfl

/-- What a coprocessor write does to the table: nothing, or it drops everything, or a
page. On a processor with an MMU the registers that matter are changed with everything
dropped, or by the writes of the table registers. -/
inductive Cp15Effect (insn val : BitVec 32) (env : Cpu) : Cpu → Prop
  | quiet (arm : ArmState) (hcrn : crn insn ≠ 8) (hc2 : Ttbcr env.rest.arm → Ttbcr arm)
      (hfeatures : arm.features = env.rest.arm.features)
      (hsame : armFeature env.rest.arm.toCPUState .mpu = false → crn insn ≠ 2 →
        arm.translation = env.rest.arm.translation) :
      Cp15Effect insn val env (env.setArm arm)
  | all (arm : ArmState) (hc2 : Ttbcr env.rest.arm → Ttbcr arm)
      (hfeatures : arm.features = env.rest.arm.features)
      (hfcse : arm.c13Fcse = env.rest.arm.c13Fcse ∨
        (crn insn = 13 ∧ op2 insn = 0#32 ∧ arm.c13Fcse = val)) :
      Cp15Effect insn val env ((tlbFlush env).setArm arm)
  | page (hcrn : crn insn = 8) (hop : op2 insn = 1#32) :
      Cp15Effect insn val env (tlbFlushPage env (val &&& targetPageMask))

section

variable {insn val : BitVec 32} {env env' : Cpu}

/-- A write that changes nothing but registers no translation reads. -/
theorem Cp15Effect.of_unread {arm : ArmState} (hcrn : crn insn ≠ 8)
    (hsame : arm.translation = env.rest.arm.translation)
    (hcontrol : arm.c2Control = env.rest.arm.c2Control) :
    Cp15Effect insn val env (env.setArm arm) := by
  have hfeatures : arm.features = env.rest.arm.features :=
    congrArg (fun registers : CPUState × BitVec 32 => registers.1.features) hsame
  refine .quiet arm hcrn ?_ hfeatures fun _ _ => hsame
  intro h
  have hmask : arm.c2Mask = env.rest.arm.c2Mask :=
    congrArg (fun registers : CPUState × BitVec 32 => registers.1.c2Mask) hsame
  have hbase : arm.c2BaseMask = env.rest.arm.c2BaseMask :=
    congrArg (fun registers : CPUState × BitVec 32 => registers.1.c2BaseMask) hsame
  exact ⟨hcontrol ▸ h.control_lt, by rw [hmask, hcontrol, h.mask_eq],
    by rw [hbase, hcontrol, h.baseMask_eq]⟩

theorem setC1_effect (hcrn : crn insn = 1) : Cp15Effect insn val env (setC1 insn val env) := by
  unfold setC1
  dsimp only
  split
  · split
    · exact .all env.rest.arm id rfl (Or.inl rfl)
    · exact .all _ (fun h => ⟨h.control_lt, h.mask_eq, h.baseMask_eq⟩) rfl (Or.inl rfl)
  · exact .of_unread (by rw [hcrn]; decide) rfl rfl

theorem setC2_effect (h : setC2 insn val env = some env') (hcrn : crn insn = 2) :
    Cp15Effect insn val env env' := by
  have hother : crn insn ≠ 8 := by
    rw [hcrn]
    decide
  unfold setC2 at h
  dsimp only at h
  split at h
  · cases h
    exact .of_unread hother rfl rfl
  · cases h
    exact .of_unread hother rfl rfl
  · cases h
    exact .quiet _ hother (fun h => ⟨h.control_lt, h.mask_eq, h.baseMask_eq⟩) rfl fun _ hne =>
      absurd hcrn hne
  · cases h
    exact .quiet _ hother (fun h => ⟨h.control_lt, h.mask_eq, h.baseMask_eq⟩) rfl fun _ hne =>
      absurd hcrn hne
  · cases h
    exact .quiet _ hother (fun _ => setC2Control_ttbcr _ val) rfl fun _ hne => absurd hcrn hne
  · cases h

theorem setC5_effect (h : setC5 insn val env = some env') (hcrn : crn insn ≠ 8) :
    Cp15Effect insn val env env' := by
  unfold setC5 at h
  dsimp only at h
  split at h
  all_goals cases h
  all_goals exact .of_unread hcrn rfl rfl

theorem setC6_effect (h : setC6 insn val env = some env') (hcrn : crn insn ≠ 8) :
    Cp15Effect insn val env env' := by
  unfold setC6 at h
  dsimp only at h
  split at h
  · split at h
    · cases h
      exact .of_unread hcrn rfl rfl
    · cases h
  all_goals cases h
  all_goals exact .of_unread hcrn rfl rfl

theorem setC7_effect (h : setC7 insn val env = some env') (hcrn : crn insn ≠ 8) :
    Cp15Effect insn val env env' := by
  -- whatever is written, it is the address register only
  have hpar : ∀ par, some (env.setArm { env.rest.arm with c7Par := par }) = some env' →
      Cp15Effect insn val env env' := by
    intro par hsome
    cases hsome
    exact .of_unread hcrn rfl rfl
  unfold setC7 at h
  dsimp only at h
  split_ifs at h
  · exact hpar env.rest.arm.c7Par h
  · exact hpar _ h
  · exact hpar _ h
  · split at h
    · cases h
    · exact hpar _ h
  · split at h
    · cases h
    · exact hpar _ h
  · exact hpar env.rest.arm.c7Par h

theorem setC8_effect (h : setC8 insn val env = some env') (hcrn : crn insn = 8) :
    Cp15Effect insn val env env' := by
  have hall : some (tlbFlush env) = some env' → Cp15Effect insn val env env' := by
    intro hsome
    cases hsome
    exact .all env.rest.arm id rfl (Or.inl rfl)
  unfold setC8 at h
  split at h
  · exact hall h
  · rename_i hop
    cases h
    exact .page hcrn (BitVec.eq_of_toNat_eq hop)
  · exact hall h
  · exact hall h
  · cases h

theorem setC13_effect (h : setC13 insn val env = some env') (hcrn : crn insn = 13) :
    Cp15Effect insn val env env' := by
  have hother : crn insn ≠ 8 := by
    rw [hcrn]
    decide
  unfold setC13 at h
  dsimp only at h
  split at h
  · rename_i hop
    by_cases hval : env.rest.arm.c13Fcse ≠ val
    · simp only [if_pos hval] at h
      cases h
      exact .all _ (fun h => ⟨h.control_lt, h.mask_eq, h.baseMask_eq⟩) rfl
        (Or.inr ⟨hcrn, BitVec.eq_of_toNat_eq hop, rfl⟩)
    · simp only [if_neg hval] at h
      cases h
      rw [ne_eq, not_not] at hval
      exact .of_unread hother (by rw [← hval]) rfl
  · by_cases hval : env.rest.arm.c13Context ≠ val ∧ armFeature env.rest.arm.toCPUState .mpu = false
    · simp only [if_pos hval] at h
      cases h
      exact .all _ (fun h => ⟨h.control_lt, h.mask_eq, h.baseMask_eq⟩) rfl (Or.inl rfl)
    · simp only [if_neg hval] at h
      cases h
      exact .of_unread hother rfl rfl
  · cases h

theorem setCp15_effect (h : setCp15 insn val env = some env') : Cp15Effect insn val env env' := by
  unfold setCp15 at h
  split at h
  · rename_i hcrn
    cases h
    exact setC1_effect hcrn
  · rename_i hcrn
    exact setC2_effect h hcrn
  · cases h
    exact .all _ (fun h => ⟨h.control_lt, h.mask_eq, h.baseMask_eq⟩) rfl (Or.inl rfl)
  · rename_i hcrn
    exact setC5_effect h (by rw [hcrn]; decide)
  · rename_i hcrn
    exact setC6_effect h (by rw [hcrn]; decide)
  · rename_i hcrn
    exact setC7_effect h (by rw [hcrn]; decide)
  · rename_i hcrn
    exact setC8_effect h hcrn
  · rename_i hcrn
    exact setC13_effect h hcrn
  · rename_i hcrn _
    cases h
    exact .of_unread hcrn rfl rfl

end

/-! ## Steps of the emulator -/

section

variable {env env' : Cpu} {event : TlbEvent}

/-- A fill ends with an entry or with a fault. -/
theorem fill_step_cases {address : BitVec 32} {kind : AccessType} {mmuIdx : Fin 2}
    (hstep : TlbStep env (.fill address kind mmuIdx) env') :
    (∃ result place, Filled env address kind mmuIdx result place env') ∨
      ∃ result, translate env.rest address kind (mmuIdx == mmuUserIdx) = .ok result ∧
        result.ret ≠ 0#32 ∧
        env' = env.setArm (reportFault address kind result.ret env.rest.arm) := by
  rw [TlbStep, TlbEvent.perform] at hstep
  split at hstep
  · cases hstep
  · rename_i fault filled hfault
    cases hstep
    rcases handler_cases hfault with ⟨-, hfilled⟩ | ⟨-, hfaulted⟩
    · exact Or.inl hfilled
    · exact Or.inr hfaulted

/-- How a step changes registers: not at all, by reporting a fault, or as a coprocessor
write does. -/
theorem TlbStep.arm_cases (hstep : TlbStep env event env') :
    env'.rest.arm = env.rest.arm ∨
      (∃ address kind ret, env'.rest.arm = reportFault address kind ret env.rest.arm) ∨
      ∃ insn val, event = .setCp15 insn val ∧ Cp15Effect insn val env env' := by
  cases event with
  | fill address kind mmuIdx =>
      rcases fill_step_cases hstep with ⟨result, place, hfilled⟩ | ⟨result, -, -, rfl⟩
      · exact Or.inl (by rw [hfilled.rest_eq])
      · exact Or.inr (Or.inl ⟨address, kind, result.ret, rfl⟩)
  | setCp15 insn val => exact Or.inr (Or.inr ⟨insn, val, rfl, setCp15_effect hstep⟩)
  | watchpointRemove watched =>
      change (if env.rest.watchpoints.contains watched then _ else some env) = some env' at hstep
      left
      split at hstep
      · cases hstep
        rfl
      · cases hstep
        rfl
  | resetDirty start stop flags =>
      left
      rcases resetDirty_cases hstep with rfl | ⟨first, length, rfl⟩
      · rfl
      · rfl
  | _ =>
      cases hstep
      exact Or.inl rfl

/-- No step makes another processor of it. -/
theorem TlbStep.features_eq (hstep : TlbStep env event env') :
    env'.rest.arm.features = env.rest.arm.features := by
  rcases hstep.arm_cases with hsame | ⟨address, kind, ret, hfault⟩ | ⟨insn, val, -, heffect⟩
  · rw [hsame]
  · rw [hfault]
    cases kind <;> rfl
  · cases heffect with
    | quiet arm hcrn hc2 hfeatures hsame => exact hfeatures
    | all arm hc2 hfeatures hfcse => exact hfeatures
    | page hcrn hop => rfl

/-- The masks of the tables stay those of the control register. -/
theorem TlbStep.ttbcr (hstep : TlbStep env event env') (h : Ttbcr env.rest.arm) :
    Ttbcr env'.rest.arm := by
  rcases hstep.arm_cases with hsame | ⟨address, kind, ret, hfault⟩ | ⟨insn, val, -, heffect⟩
  · rw [hsame]
    exact h
  · rw [hfault]
    cases kind <;> exact ⟨h.control_lt, h.mask_eq, h.baseMask_eq⟩
  · cases heffect with
    | quiet arm hcrn hc2 hfeatures hsame => exact hc2 h
    | all arm hc2 hfeatures hfcse => exact hc2 h
    | page hcrn hop => exact h

end

end TlbAnalyzer.Emulator
