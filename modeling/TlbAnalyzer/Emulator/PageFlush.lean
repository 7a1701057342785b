/-
# What a page flush drops

`tlb_flush_page` looks at one entry for each privilege, and drops it with all its tags if
one of them is for the page. In a run that starts with an empty table the tags of an entry
are for one page, so that the flush is exact: the page is answered to no access, and every
other page as before. The blocks of translated code that are cached by their virtual
address go with it, those that start in the page and those that start in the page before,
from where a block may reach into it.
-/

import TlbAnalyzer.Emulator.Coherence
import TlbAnalyzer.Emulator.TableAddress

namespace TlbAnalyzer.Emulator

open Math

/-- The emulator right after a flush. -/
def JustFlushed (env : Cpu) : Prop := ∃ before, env = tlbFlush before

/-! ## One page for each entry -/

/-- What is answered from one entry is for one page. -/
def OnePage (env : Cpu) : Prop :=
  ∀ mmuIdx kind kind' addr addr' place place', tlbIndex addr = tlbIndex addr' →
    env.lookup mmuIdx kind addr = some place → env.lookup mmuIdx kind' addr' = some place' →
    SamePage addr addr'

section

variable {env env' : Cpu} {event : TlbEvent}

/-- A step that answers nothing new keeps the entries to one page each. -/
theorem OnePage.of_fewer (h : OnePage env)
    (hfewer : ∀ mmuIdx kind addr place, env'.lookup mmuIdx kind addr = some place →
      env.lookup mmuIdx kind addr = some place) : OnePage env' := by
  intro mmuIdx kind kind' addr addr' place place' hindex hanswer hanswer'
  exact h mmuIdx kind kind' addr addr' place place' hindex (hfewer _ _ _ _ hanswer)
    (hfewer _ _ _ _ hanswer')

theorem TlbStep.onePage (hstep : TlbStep env event env') (h : OnePage env) : OnePage env' := by
  by_cases hfill : ∃ address kind mmuIdx, event = .fill address kind mmuIdx
  · rcases hfill with ⟨address, kind, mmuIdx, rfl⟩
    rcases fill_step_cases hstep with ⟨result, place, hfilled⟩ | ⟨result, -, -, rfl⟩
    · intro mmuIdx' kind₁ kind₂ addr₁ addr₂ place₁ place₂ hindex hanswer₁ hanswer₂
      rw [hfilled.lookup_eq] at hanswer₁ hanswer₂
      by_cases hslot : mmuIdx' = mmuIdx ∧ tlbIndex addr₁ = tlbIndex address
      · -- both are answered from the new entry
        rw [if_pos hslot, Option.ite_none_right_eq_some] at hanswer₁
        rw [if_pos ⟨hslot.1, hindex ▸ hslot.2⟩, Option.ite_none_right_eq_some] at hanswer₂
        exact hanswer₁.1.1.trans hanswer₂.1.1.symm
      · rw [if_neg hslot] at hanswer₁
        rw [if_neg fun hslot' => hslot ⟨hslot'.1, hindex.trans hslot'.2⟩] at hanswer₂
        exact h mmuIdx' kind₁ kind₂ addr₁ addr₂ place₁ place₂ hindex hanswer₁ hanswer₂
    · exact h
  · refine h.of_fewer ?_
    intro mmuIdx kind addr place hanswer
    rcases lookup_step hstep hanswer with ⟨-, address, kind', result, hevent, -⟩ | ⟨hbefore, -⟩
    · exact absurd ⟨address, kind', mmuIdx, hevent⟩ hfill
    · exact hbefore

/-- A flush leaves an entry that answers nothing for the page. -/
theorem tlbFlushEntry_eq_self {entry : CPUTLBEntry} {vaddr : BitVec 32}
    (h : ∀ kind, entry.answer kind vaddr = none) :
    tlbFlushEntry (vaddr &&& targetPageMask) entry = entry := by
  have htag : ∀ kind, vaddr &&& targetPageMask ≠ tagPage (entry.tag kind) := by
    intro kind hpage
    have hanswer := CPUTLBEntry.answer_eq_some_iff.mpr ⟨hpage, rfl⟩
    rw [h kind] at hanswer
    cases hanswer
  rw [tlbFlushEntry, if_neg]
  rintro (hread | hwrite | hcode)
  · exact htag .read hread
  · exact htag .write hwrite
  · exact htag .code hcode

/-- The answers after a page flush, when each entry is for one page. -/
theorem OnePage.lookup_tlbFlushPage_eq (h : OnePage env) (vaddr : BitVec 32) (mmuIdx : Fin 2)
    (kind : AccessType) (addr : BitVec 32) :
    (tlbFlushPage env vaddr).lookup mmuIdx kind addr =
      if SamePage addr vaddr then none else env.lookup mmuIdx kind addr := by
  ext place
  rw [Option.ite_none_left_eq_some]
  constructor
  · intro hanswer
    exact (lookup_tlbFlushPage hanswer).symm
  · intro ⟨hother, hanswer⟩
    have hindex := (samePage_and_pageMask vaddr).tlbIndex_eq
    rw [tlbFlushPage, tlbFlushJmpCache, Env.lookup_onBoard, Env.lookup_onIndex, hindex]
    by_cases hslot : tlbIndex addr = tlbIndex vaddr
    · -- an entry that answers for the address answers nothing for the page
      have hnothing : ∀ kind', (env.tlbTable mmuIdx (tlbIndex addr)).answer kind' vaddr = none := by
        intro kind'
        rw [Option.eq_none_iff_forall_not_mem]
        intro base hbase
        have hflushed : env.lookup mmuIdx kind' vaddr =
            some (base, env.iotlb mmuIdx (tlbIndex vaddr)) := by
          rw [Env.lookup, ← hslot, hbase]
          rfl
        exact hother (h _ _ _ _ _ _ _ hslot hanswer hflushed)
      rw [if_pos hslot, tlbFlushEntry_eq_self hnothing]
      exact hanswer
    · rw [if_neg hslot]
      exact hanswer

end

/-! ## The blocks of a page -/

/-- Every cached block is where the hash of its address says. -/
def Hashed (env : Cpu) : Prop :=
  ∀ i < tbJmpCacheSize, ∀ tb, env.rest.tbJmpCache i = some tb → i = tbJmpCacheHashFunc tb.pc

section

variable {env env' : Cpu} {event : TlbEvent}

/-- The blocks that are left are blocks that were there. -/
def FewerBlocks (env env' : Cpu) : Prop :=
  ∀ i < tbJmpCacheSize, ∀ tb, env'.rest.tbJmpCache i = some tb → env.rest.tbJmpCache i = some tb

theorem Hashed.of_fewer (h : Hashed env) (hfewer : FewerBlocks env env') : Hashed env' := by
  intro i hi tb htb
  exact h i hi tb (hfewer i hi tb htb)

theorem FewerBlocks.of_eq (h : env'.rest.tbJmpCache = env.rest.tbJmpCache) :
    FewerBlocks env env' := by
  intro i hi tb htb
  rwa [h] at htb

/-- A full flush leaves no block. -/
theorem tbJmpCache_tlbFlush {i : ℕ} (hi : i < tbJmpCacheSize) :
    (tlbFlush env).rest.tbJmpCache i = none :=
  if_pos hi

theorem fewerBlocks_tlbFlush (h : env'.rest.tbJmpCache = (tlbFlush env).rest.tbJmpCache) :
    FewerBlocks env env' := by
  intro i hi tb htb
  rw [h, tbJmpCache_tlbFlush hi] at htb
  cases htb

theorem clearJmpPage_eq_some {cache : ℕ → Option TranslationBlock} {addr : BitVec 32} {i : ℕ}
    {tb : TranslationBlock} (h : clearJmpPage cache addr i = some tb) :
    cache i = some tb ∧
      ¬ (tbJmpCacheHashPage addr ≤ i ∧ i < tbJmpCacheHashPage addr + tbJmpPageSize) := by
  rw [clearJmpPage, Option.ite_none_left_eq_some] at h
  exact h.symm

theorem tbJmpCache_tlbFlushPage (vaddr : BitVec 32) :
    (tlbFlushPage env vaddr).rest.tbJmpCache =
      clearJmpPage (clearJmpPage env.rest.tbJmpCache ((vaddr &&& targetPageMask) - targetPageSize))
        (vaddr &&& targetPageMask) :=
  rfl

theorem fewerBlocks_tlbFlushPage (vaddr : BitVec 32) :
    FewerBlocks env (tlbFlushPage env vaddr) := by
  intro i hi tb htb
  rw [tbJmpCache_tlbFlushPage] at htb
  exact (clearJmpPage_eq_some (clearJmpPage_eq_some htb).1).1

/-- A step caches one block, where its hash says, or leaves at most what was there. -/
theorem TlbStep.tbJmpCache_cases (hstep : TlbStep env event env') :
    (∃ tb, env'.rest.tbJmpCache =
      Function.update env.rest.tbJmpCache (tbJmpCacheHashFunc tb.pc) (some tb)) ∨
      FewerBlocks env env' := by
  cases event with
  | fill address kind mmuIdx =>
      right
      rcases fill_step_cases hstep with ⟨result, place, hfilled⟩ | ⟨result, -, -, rfl⟩
      · exact .of_eq (by rw [hfilled.rest_eq])
      · exact .of_eq rfl
  | setCp15 insn val =>
      right
      cases setCp15_effect hstep with
      | quiet arm hcrn hc2 hfeatures hsame => exact .of_eq rfl
      | all arm hc2 hfeatures hfcse => exact fewerBlocks_tlbFlush rfl
      | page hcrn hop => exact fewerBlocks_tlbFlushPage _
  | flush =>
      cases hstep
      exact Or.inr (fewerBlocks_tlbFlush rfl)
  | registerMemory physPages =>
      cases hstep
      exact Or.inr (fewerBlocks_tlbFlush rfl)
  | watchpointInsert watched =>
      cases hstep
      exact Or.inr (fewerBlocks_tlbFlushPage watched)
  | watchpointRemove watched =>
      change (if env.rest.watchpoints.contains watched then _ else some env) = some env' at hstep
      right
      split at hstep
      · cases hstep
        exact fewerBlocks_tlbFlushPage watched
      · cases hstep
        exact .of_eq rfl
  | resetDirty start stop flags =>
      right
      rcases resetDirty_cases hstep with rfl | ⟨first, length, rfl⟩
      · exact .of_eq rfl
      · exact .of_eq rfl
  | cacheBlock tb =>
      cases hstep
      exact Or.inl ⟨tb, rfl⟩
  | _ =>
      cases hstep
      exact Or.inr (.of_eq rfl)

theorem TlbStep.hashed (hstep : TlbStep env event env') (h : Hashed env) : Hashed env' := by
  rcases hstep.tbJmpCache_cases with ⟨tb, hcache⟩ | hfewer
  · intro i hi tb' htb'
    rw [hcache] at htb'
    by_cases hslot : i = tbJmpCacheHashFunc tb.pc
    · subst hslot
      rw [Function.update_self] at htb'
      cases htb'
      rfl
    · rw [Function.update_of_ne hslot] at htb'
      exact h i hi tb' htb'
  · exact h.of_fewer hfewer

end

section

variable {pc addr : BitVec 32}

/-- The addresses of a page share the upper part of their hash. -/
theorem SamePage.tbJmpCacheHashPage_eq (h : SamePage pc addr) :
    tbJmpCacheHashPage pc = tbJmpCacheHashPage addr := by
  have hsplit : ∀ a : BitVec 32, tbJmpCacheHashPage a =
      (((a >>> 4) &&& tbJmpPageMask) ^^^ ((a >>> 8) &&& tbJmpPageMask)).toNat := by
    intro a
    rw [tbJmpCacheHashPage, BitVec.ushiftRight_xor_distrib, ← BitVec.shiftRight_add]
    congr 1
    ext i hi
    simp only [BitVec.getElem_and, BitVec.getElem_xor, Bool.and_xor_distrib_right]
    rfl
  rw [hsplit, hsplit, h.index_eq (n := 4) (by decide), h.index_eq (n := 8) (by decide)]

/-- The hash of an address is in the part of the cache that belongs to its page. -/
theorem tbJmpCacheHashFunc_mem (pc : BitVec 32) :
    tbJmpCacheHashPage pc ≤ tbJmpCacheHashFunc pc ∧
      tbJmpCacheHashFunc pc < tbJmpCacheHashPage pc + tbJmpPageSize := by
  have hpage : ∀ x : BitVec 32, (x &&& tbJmpPageMask).toNat =
      2 ^ 6 * ((x &&& 0xFFF#32).toNat / 2 ^ 6) := by
    intro x
    have hmask : tbJmpPageMask = 0xFFF#32 &&& ~~~tbJmpAddrMask := by decide
    rw [hmask, ← BitVec.and_assoc]
    exact toNat_and_not_ones (k := 6) (by decide) _
  have hoffset : ∀ x : BitVec 32, (x &&& tbJmpAddrMask).toNat < 2 ^ 6 := by
    intro x
    rw [toNat_and_ones (k := 6) (by decide)]
    exact Nat.mod_lt _ (by decide)
  have hsum : tbJmpCacheHashFunc pc = tbJmpCacheHashPage pc +
      ((pc ^^^ (pc >>> 4)) &&& tbJmpAddrMask).toNat :=
    toNat_or_index (hpage _) (hoffset _)
  have hlt : ((pc ^^^ (pc >>> 4)) &&& tbJmpAddrMask).toNat < tbJmpPageSize := hoffset _
  rw [hsum]
  exact ⟨Nat.le_add_right _ _, Nat.add_lt_add_left hlt _⟩

/-- The page before the page of an address. -/
theorem samePage_sub_pageSize (vaddr : BitVec 32) :
    SamePage ((vaddr &&& targetPageMask) - targetPageSize) (vaddr - targetPageSize) := by
  have hsize : targetPageSize.toNat = 1024 := rfl
  have hlt := vaddr.isLt
  rw [samePage_iff, BitVec.toNat_sub, BitVec.toNat_sub, toNat_and_pageMask, hsize]
  omega

end

/-- In every state after a flush a page flush is exact for the translation cache: no access
to the page is answered any more, by either privilege, and every other page is answered as
before. And no block of code stays cached that starts in the page or in the one before. -/
theorem reached_tlbFlushPage {env : Cpu} (h : Reached JustFlushed TlbStep env) (vaddr : BitVec 32) :
    (∀ mmuIdx kind addr, (tlbFlushPage env vaddr).lookup mmuIdx kind addr =
      if SamePage addr vaddr then none else env.lookup mmuIdx kind addr) ∧
      ∀ i < tbJmpCacheSize, ∀ tb, (tlbFlushPage env vaddr).rest.tbJmpCache i = some tb →
        env.rest.tbJmpCache i = some tb ∧ ¬ SamePage tb.pc vaddr ∧
          ¬ SamePage tb.pc (vaddr - targetPageSize) := by
  have hinv : OnePage env ∧ Hashed env := by
    refine h.invariant (fun env => OnePage env ∧ Hashed env) ?_ ?_
    · rintro start ⟨before, rfl⟩
      constructor
      · intro mmuIdx kind kind' addr addr' place place' _ hanswer
        rw [lookup_tlbFlush] at hanswer
        cases hanswer
      · intro i hi tb htb
        rw [tbJmpCache_tlbFlush hi] at htb
        cases htb
    · rintro before after event ⟨hone, hhashed⟩ hstep
      exact ⟨hstep.onePage hone, hstep.hashed hhashed⟩
  refine ⟨hinv.1.lookup_tlbFlushPage_eq vaddr, ?_⟩
  intro i hi tb htb
  rw [tbJmpCache_tlbFlushPage] at htb
  rcases clearJmpPage_eq_some htb with ⟨hrest, hpage⟩
  rcases clearJmpPage_eq_some hrest with ⟨hbefore, hprevious⟩
  have hi := hinv.2 i hi tb hbefore
  have hmem := tbJmpCacheHashFunc_mem tb.pc
  rw [← hi] at hmem
  refine ⟨hbefore, ?_, ?_⟩
  · intro hsame
    rw [hsame.tbJmpCacheHashPage_eq, ← (samePage_and_pageMask vaddr).tbJmpCacheHashPage_eq] at hmem
    exact hpage hmem
  · intro hsame
    rw [hsame.tbJmpCacheHashPage_eq, ← (samePage_sub_pageSize vaddr).tbJmpCacheHashPage_eq] at hmem
    exact hprevious hmem

/-- The page that the sample emulator has filled, and a page that shares its entry. -/
theorem reached_tlbFlushPage_sampleFilled :
    sampleFilled.lookup mmuUserIdx .write 0x1300#32 = some (0x10000000#64, 0x18#32) ∧
    (tlbFlushPage sampleFilled 0x41000#32).lookup mmuUserIdx .write 0x1300#32 =
      (if SamePage 0x1300#32 0x41000#32 then none
        else sampleFilled.lookup mmuUserIdx .write 0x1300#32) ∧
    (tlbFlushPage sampleFilled 0x1000#32).lookup mmuUserIdx .write 0x1300#32 =
      if SamePage 0x1300#32 0x1000#32 then none
      else sampleFilled.lookup mmuUserIdx .write 0x1300#32 :=
  have hreached : Reached JustFlushed TlbStep sampleFilled :=
    .next (.start ⟨_, rfl⟩) sampleFilled_step
  ⟨sampleFilled_lookup, (reached_tlbFlushPage hreached 0x41000#32).1 _ _ _,
    (reached_tlbFlushPage hreached 0x1000#32).1 _ _ _⟩

end TlbAnalyzer.Emulator
