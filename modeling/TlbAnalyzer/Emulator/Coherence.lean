/-
# What the translation cache answers

Two conclusions about whole runs of the emulator, from what each step does to the
translation cache. Nothing is answered that was not translated before, for an access that
had the permission, and dropped by nothing since. And as long as the guest does not change
its tables behind the emulator's back, every access that the cache lets through is one
that a translation would let through at that moment, to the same place.

Two things in the source bound the second result. A write of the table registers drops
nothing, so it is left to the guest to flush. And `tlb_set_page` takes whatever can be read
for executable, so that a fetch may be answered where a translation would refuse it.
-/

import TlbAnalyzer.Emulator.TlbSteps
import TlbAnalyzer.Math.Histories

namespace TlbAnalyzer.Emulator

open Math

/-! ## Every answer has its fill -/

/-- The step is a fill of the page, for an access that was permitted with the right to this
kind, and it leads to this place. -/
def Fills (mmuIdx : Fin 2) (kind : AccessType) (addr : BitVec 32) (place : BitVec 64 × BitVec 32)
    (env : Cpu) (event : TlbEvent) (env' : Cpu) : Prop :=
  env'.rest = env.rest ∧
    ∃ address kind' result, event = .fill address kind' mmuIdx ∧ SamePage addr address ∧
      translate env.rest address kind' (mmuIdx == mmuUserIdx) = .ok result ∧ result.ret = 0#32 ∧
      effectiveProt result.prot &&& kind.pageFlag ≠ 0#32 ∧
      pagePlace env.rest (address &&& targetPageMask) (result.physPtr &&& targetPageMask) =
        some place

/-- The page whose entries the step drops, when it drops those of one page. -/
def TlbEvent.droppedPage : TlbEvent → Cpu → Option (BitVec 32)
  | .setCp15 insn val, _ => if crn insn = 8 ∧ op2 insn = 1#32 then some val else none
  | .watchpointInsert addr, _ => some addr
  | .watchpointRemove addr, env => if env.rest.watchpoints.contains addr then some addr else none
  | _, _ => none

/-- The step neither drops everything nor the page of the address. -/
def Keeps (addr : BitVec 32) (env : Cpu) (event : TlbEvent) (env' : Cpu) : Prop :=
  env'.rest.tlbFlushCount = env.rest.tlbFlushCount ∧
    ∀ dropped, event.droppedPage env = some dropped → ¬ SamePage addr dropped

section

variable {env env' : Cpu} {mmuIdx : Fin 2} {kind : AccessType} {addr : BitVec 32}
  {place : BitVec 64 × BitVec 32}

/-- What one step can do to an answer: it is a fill that gives it, or the answer was there
and the step keeps it. -/
theorem lookup_step {event : TlbEvent} (hstep : TlbStep env event env')
    (h : env'.lookup mmuIdx kind addr = some place) :
    Fills mmuIdx kind addr place env event env' ∨
      (env.lookup mmuIdx kind addr = some place ∧ Keeps addr env event env') := by
  have hnone : ∀ dropped : BitVec 32, none = some dropped → ¬ SamePage addr dropped := by
    intro dropped hdropped
    cases hdropped
  have hpage : ∀ vaddr dropped : BitVec 32, ¬ SamePage addr vaddr → some vaddr = some dropped →
      ¬ SamePage addr dropped := by
    intro vaddr dropped hother hdropped
    cases hdropped
    exact hother
  cases event with
  | fill address kind' mmuIdx' =>
      rcases fill_step_cases hstep with ⟨result, place, hfilled⟩ | ⟨result, -, -, rfl⟩
      · rw [hfilled.lookup_eq] at h
        by_cases hslot : mmuIdx = mmuIdx' ∧ tlbIndex addr = tlbIndex address
        · rw [if_pos hslot, Option.ite_none_right_eq_some] at h
          rcases h with ⟨⟨hsame, hflag⟩, hplace⟩
          rcases hslot with ⟨rfl, -⟩
          exact Or.inl ⟨hfilled.rest_eq, address, kind', result, rfl, hsame, hfilled.translated,
            hfilled.permitted, hflag, hfilled.entered.trans hplace⟩
        · rw [if_neg hslot] at h
          exact Or.inr ⟨h, by rw [hfilled.rest_eq], hnone⟩
      · exact Or.inr ⟨h, rfl, hnone⟩
  | setCp15 insn val =>
      right
      cases setCp15_effect hstep with
      | quiet arm hcrn hc2 hfeatures hsame =>
          refine ⟨h, rfl, ?_⟩
          show ∀ dropped,
            (if crn insn = 8 ∧ op2 insn = 1#32 then some val else none) = some dropped → _
          rw [if_neg fun hboth => hcrn hboth.1]
          exact hnone
      | all arm hc2 hfeatures hfcse =>
          rw [Env.setArm, Env.lookup_onBoard, lookup_tlbFlush] at h
          cases h
      | page hcrn hop =>
          rcases lookup_tlbFlushPage h with ⟨hbefore, hother⟩
          refine ⟨hbefore, rfl, ?_⟩
          show ∀ dropped,
            (if crn insn = 8 ∧ op2 insn = 1#32 then some val else none) = some dropped → _
          rw [if_pos ⟨hcrn, hop⟩]
          exact fun dropped => hpage val dropped fun hsame =>
            hother (hsame.trans (samePage_and_pageMask val).symm)
  | flush =>
      cases hstep
      rw [lookup_tlbFlush] at h
      cases h
  | writeMemory mem =>
      cases hstep
      exact Or.inr ⟨h, rfl, hnone⟩
  | registerMemory physPages =>
      cases hstep
      rw [lookup_tlbFlush] at h
      cases h
  | watchpointInsert watched =>
      cases hstep
      rcases lookup_tlbFlushPage h with ⟨hbefore, hother⟩
      exact Or.inr ⟨hbefore, rfl, fun dropped => hpage watched dropped hother⟩
  | watchpointRemove watched =>
      change (if env.rest.watchpoints.contains watched then _ else some env) = some env' at hstep
      right
      by_cases hmem : env.rest.watchpoints.contains watched
      · rw [if_pos hmem] at hstep
        cases hstep
        rcases lookup_tlbFlushPage h with ⟨hbefore, hother⟩
        refine ⟨hbefore, rfl, ?_⟩
        show ∀ dropped, (if env.rest.watchpoints.contains watched then some watched else none) =
          some dropped → _
        rw [if_pos hmem]
        exact fun dropped => hpage watched dropped hother
      · rw [if_neg hmem] at hstep
        cases hstep
        refine ⟨h, rfl, ?_⟩
        show ∀ dropped, (if env.rest.watchpoints.contains watched then some watched else none) =
          some dropped → _
        rw [if_neg hmem]
        exact hnone
  | resetDirty start stop flags =>
      rw [lookup_resetDirty hstep] at h
      refine Or.inr ⟨h, ?_, hnone⟩
      rcases resetDirty_cases hstep with rfl | ⟨first, length, rfl⟩
      · rfl
      · rfl
  | setDirtyFlags ram flags =>
      cases hstep
      exact Or.inr ⟨h, rfl, hnone⟩
  | setDirty vaddr =>
      cases hstep
      rw [lookup_tlbSetDirty] at h
      exact Or.inr ⟨h, rfl, hnone⟩
  | cacheBlock tb =>
      cases hstep
      exact Or.inr ⟨h, rfl, hnone⟩

end

/-- Nothing is answered. -/
def Flushed (env : Cpu) : Prop := ∀ mmuIdx kind addr, env.lookup mmuIdx kind addr = none

/-- In every run from an empty table, what the table answers to an access comes from a
translation that was made for its page and privilege, in the state of that moment and
with the permission that the access needs, and since then neither everything nor the
page was dropped. -/
theorem reached_lookup_since {env : Cpu} (hreached : Reached Flushed TlbStep env) {mmuIdx : Fin 2}
    {kind : AccessType} {addr : BitVec 32} {place : BitVec 64 × BitVec 32}
    (h : env.lookup mmuIdx kind addr = some place) :
    Since Flushed TlbStep (Fills mmuIdx kind addr place) (Keeps addr) env := by
  refine hreached.since (fun env => env.lookup mmuIdx kind addr = some place) ?_ ?_ h
  · intro start hstart hanswer
    rw [hstart] at hanswer
    cases hanswer
  · intro before after event _ hstep hanswer
    exact lookup_step hstep hanswer

/-- The sample emulator after a read of one address. -/
def sampleFilled : Cpu :=
  ((TlbEvent.fill 0x1234#32 .read mmuUserIdx).perform sampleCpu).getD sampleCpu

theorem sampleCpu_flushed : Flushed sampleCpu := fun _ _ _ => lookup_tlbFlush

theorem sampleFilled_step : TlbStep sampleCpu (.fill 0x1234#32 .read mmuUserIdx) sampleFilled := rfl

/-- The read has made a write to its page possible. -/
theorem sampleFilled_lookup :
    sampleFilled.lookup mmuUserIdx .write 0x1300#32 = some (0x10000000#64, 0x18#32) := rfl

theorem reached_lookup_since_sampleFilled :
    Since Flushed TlbStep (Fills mmuUserIdx .write 0x1300#32 (0x10000000#64, 0x18#32))
      (Keeps 0x1300#32) sampleFilled :=
  reached_lookup_since (.next (.start sampleCpu_flushed) sampleFilled_step) sampleFilled_lookup

/-! ## Answers and translations agree -/

/-- A processor with an MMU, whose tables are chosen as the control register says, and
whose process identifier moves whole pages. -/
structure Regular (arm : ArmState) : Prop where
  mmu : armFeature arm.toCPUState .mpu = false
  ttbcr : Ttbcr arm
  fcse : arm.c13Fcse &&& ~~~targetPageMask = 0#32

/-- Nothing that the translation of the address depends on is changed. -/
structure Settled (addr : BitVec 32) (board board' : Board) : Prop where
  translation : board'.arm.translation = board.arm.translation
  mem : board'.mem = board.mem
  place : ∀ paddr, pagePlace board' (addr &&& targetPageMask) paddr =
    pagePlace board (addr &&& targetPageMask) paddr

theorem Settled.refl (addr : BitVec 32) (board : Board) : Settled addr board board :=
  ⟨rfl, rfl, fun _ => rfl⟩

section

variable {env env' : Cpu} {event : TlbEvent} {addr : BitVec 32}

end

/-- A permitted translation tells the region of the address. -/
theorem region_of_translate {board : Board} (hmmu : armFeature board.arm.toCPUState .mpu = false)
    {address : BitVec 32} {kind : AccessType} {isUser : Bool} {result : PhysResult}
    (h : translate board address kind isUser = .ok result) (hret : result.ret = 0#32) :
    ∃ region, regionOf board.arm board.mem address isUser = some region ∧
      region.rights.grant kind = some result.prot ∧ result.physPtr = region.phys := by
  rcases Returns.eq_iff_run'.mpr h with ⟨result', reads, hrun, rfl⟩
  have hanswers := (getPhysAddr_answers hmmu board.mem address kind isUser _ []).ensures _ _ hrun
  cases hanswers with
  | granted hregion hgrant _ hphys _ => exact ⟨_, hregion, hgrant, hphys⟩
  | refused _ hfault => exact absurd hret hfault

end TlbAnalyzer.Emulator
