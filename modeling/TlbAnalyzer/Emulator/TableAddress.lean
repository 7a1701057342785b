/-
# Where the first level descriptors are

The tracer and the emulator find a first level descriptor by an `or` of a table and an
index, after two masks that a write of the control register computes in advance. In every
state that a processor comes to after a reset the masks fit the control register, so that
the table and the index have no bit in common: the `or` is a sum, and the descriptors of a
table lie in the order of the megabytes that they describe.
-/

import TlbAnalyzer.Emulator.TlbSteps
import TlbAnalyzer.Math.Histories

namespace TlbAnalyzer.Emulator

open Math

/-- The state of a processor after a reset, on any board. -/
def AfterReset (env : Cpu) : Prop := ∃ features c1Sys before, env = cpuReset features c1Sys before

/-- The masks fit the control register in every state after a reset. -/
theorem reached_ttbcr {env : Cpu} (h : Reached AfterReset TlbStep env) : Ttbcr env.rest.arm := by
  refine h.invariant (fun env => Ttbcr env.rest.arm) ?_ ?_
  · rintro start ⟨features, c1Sys, before, rfl⟩
    exact ⟨(by decide : (0#32).toNat < 8), (by decide : 0#32 = ~~~(0xFFFFFFFF#32 >>> 0#32)),
      (by decide : 0xFFFFC000#32 = ~~~(0x3FFF#32 >>> 0#32))⟩
  · intro before after event httbcr hstep
    exact hstep.ttbcr httbcr

/-! ## The sum -/

section

variable {arm : ArmState} {address : BitVec 32}

/-- The index of a megabyte, in bytes. -/
theorem toNat_l1Index (address : BitVec 32) :
    ((address >>> 18) &&& 0x3FFC#32).toNat = 4 * (address.toNat / 2 ^ 20) := by
  have hmask : 0x3FFC#32 = ~~~3#32 &&& 0x3FFF#32 := by decide
  have hlow : (3#32).toNat = 2 ^ 2 - 1 := rfl
  have hhigh : (0x3FFF#32).toNat = 2 ^ 14 - 1 := rfl
  have hlt := address.isLt
  rw [hmask, ← BitVec.and_assoc, toNat_and_ones hhigh, toNat_and_not_ones hlow,
    BitVec.toNat_ushiftRight, Nat.shiftRight_eq_div_pow, Nat.div_div_eq_div_mul]
  omega

theorem Ttbcr.toNat_ones (h : Ttbcr arm) :
    (0xFFFFFFFF#32 >>> arm.c2Control).toNat = 2 ^ (32 - arm.c2Control.toNat) - 1 ∧
      (0x3FFF#32 >>> arm.c2Control).toNat = 2 ^ (14 - arm.c2Control.toNat) - 1 := by
  have hmasks : ∀ n : Fin 8,
      (0xFFFFFFFF#32 >>> BitVec.ofNat 32 n.val).toNat = 2 ^ (32 - n.val) - 1 ∧
        (0x3FFF#32 >>> BitVec.ofNat 32 n.val).toNat = 2 ^ (14 - n.val) - 1 := by decide
  have hcontrol := hmasks ⟨arm.c2Control.toNat, h.control_lt⟩
  rw [BitVec.ofNat_toNat, BitVec.setWidth_eq] at hcontrol
  exact hcontrol

/-- Which of the two tables an address belongs to. -/
theorem Ttbcr.and_mask_eq_iff (h : Ttbcr arm) :
    address &&& arm.c2Mask = 0#32 ↔ address.toNat < 2 ^ (32 - arm.c2Control.toNat) := by
  have hpos : 0 < 2 ^ (32 - arm.c2Control.toNat) := Nat.two_pow_pos _
  rw [h.mask_eq, ← BitVec.toNat_inj, toNat_and_not_ones h.toNat_ones.1]
  show _ = 0 ↔ _
  rw [Nat.mul_eq_zero, Nat.div_eq_zero_iff_lt hpos]
  exact ⟨fun hor => hor.resolve_left hpos.ne', Or.inr⟩

/-- A table and an index that is smaller than the table's alignment. -/
theorem toNat_or_index {table index : BitVec 32} {k n : ℕ} (htable : table.toNat = 2 ^ k * n)
    (hindex : index.toNat < 2 ^ k) : (table ||| index).toNat = table.toNat + index.toNat := by
  rw [BitVec.toNat_or, htable, Nat.two_pow_add_eq_or_of_lt hindex]

/-- The table that the first register names, for the lower part of the addresses. -/
theorem Ttbcr.toNat_table0 (h : Ttbcr arm) (hlow : address.toNat < 2 ^ (32 - arm.c2Control.toNat)) :
    (getLevel1TableAddress arm.toCPUState address).toNat =
      2 ^ (14 - arm.c2Control.toNat) * (arm.c2Base0.toNat / 2 ^ (14 - arm.c2Control.toNat)) +
        4 * (address.toNat / 2 ^ 20) := by
  have hbase : (arm.c2Base0 &&& arm.c2BaseMask).toNat =
      2 ^ (14 - arm.c2Control.toNat) * (arm.c2Base0.toNat / 2 ^ (14 - arm.c2Control.toNat)) := by
    rw [h.baseMask_eq, toNat_and_not_ones h.toNat_ones.2]
  have hindex : ((address >>> 18) &&& 0x3FFC#32).toNat < 2 ^ (14 - arm.c2Control.toNat) := by
    have hn := h.control_lt
    have hsplit : 2 ^ (32 - arm.c2Control.toNat) = 2 ^ 20 * 2 ^ (12 - arm.c2Control.toNat) := by
      rw [← pow_add]
      congr 1
      omega
    have hfour : 2 ^ (14 - arm.c2Control.toNat) = 4 * 2 ^ (12 - arm.c2Control.toNat) := by
      rw [show 14 - arm.c2Control.toNat = 2 + (12 - arm.c2Control.toNat) by omega, pow_add]
      rfl
    rw [toNat_l1Index, hfour]
    rw [hsplit] at hlow
    have hdiv := Nat.div_lt_of_lt_mul hlow
    omega
  rw [getLevel1TableAddress, if_neg (not_not.mpr (h.and_mask_eq_iff.mpr hlow)),
    toNat_or_index hbase hindex, hbase, toNat_l1Index]

/-- The table that the second register names, for the upper part. -/
theorem Ttbcr.toNat_table1 (h : Ttbcr arm)
    (hhigh : 2 ^ (32 - arm.c2Control.toNat) ≤ address.toNat) :
    (getLevel1TableAddress arm.toCPUState address).toNat =
      2 ^ 14 * (arm.c2Base1.toNat / 2 ^ 14) + 4 * (address.toNat / 2 ^ 20) := by
  have hmask : 0xFFFFC000#32 = ~~~0x3FFF#32 := by decide
  have hones : (0x3FFF#32).toNat = 2 ^ 14 - 1 := rfl
  have hbase : (arm.c2Base1 &&& 0xFFFFC000#32).toNat = 2 ^ 14 * (arm.c2Base1.toNat / 2 ^ 14) := by
    rw [hmask, toNat_and_not_ones hones]
  have hindex : ((address >>> 18) &&& 0x3FFC#32).toNat < 2 ^ 14 := by
    have hlt := address.isLt
    rw [toNat_l1Index]
    omega
  have hsecond : address &&& arm.c2Mask ≠ 0#32 := fun hzero =>
    absurd (h.and_mask_eq_iff.mp hzero) (not_lt.mpr hhigh)
  rw [getLevel1TableAddress, if_pos hsecond, toNat_or_index hbase hindex, hbase, toNat_l1Index]

end

/-- In every state after a reset the descriptor of an address is the one of its megabyte, in
the table that the control register assigns to it: the first table, which is aligned to its
own size, for addresses with as many leading zeros as the control register says, and the
second one, of full size, for the others. -/
theorem reached_level1TableAddress {env : Cpu} (h : Reached AfterReset TlbStep env)
    (address : BitVec 32) :
    (getLevel1TableAddress env.rest.arm.toCPUState address).toNat =
      (if address.toNat < 2 ^ (32 - env.rest.arm.c2Control.toNat) then
        2 ^ (14 - env.rest.arm.c2Control.toNat) *
          (env.rest.arm.c2Base0.toNat / 2 ^ (14 - env.rest.arm.c2Control.toNat))
      else 2 ^ 14 * (env.rest.arm.c2Base1.toNat / 2 ^ 14)) + 4 * (address.toNat / 2 ^ 20) := by
  have httbcr := reached_ttbcr h
  split
  · rename_i hlow
    exact httbcr.toNat_table0 hlow
  · rename_i hhigh
    exact httbcr.toNat_table1 (not_lt.mp hhigh)

/-- A guest that gives the lower half of its addresses a table of its own. -/
def sampleSplit : Cpu :=
  (setCp15 0x20040#32 1#32 (cpuReset 0#32 0#32 sampleCpu)).getD sampleCpu

theorem sampleSplit_step :
    TlbStep (cpuReset 0#32 0#32 sampleCpu) (.setCp15 0x20040#32 1#32) sampleSplit :=
  rfl

theorem reached_level1TableAddress_sampleSplit :
    sampleSplit.rest.arm.c2Control = 1#32 ∧
    (getLevel1TableAddress sampleSplit.rest.arm.toCPUState 0x40000000#32).toNat =
      (if (0x40000000#32).toNat < 2 ^ (32 - sampleSplit.rest.arm.c2Control.toNat) then
        2 ^ (14 - sampleSplit.rest.arm.c2Control.toNat) *
          (sampleSplit.rest.arm.c2Base0.toNat / 2 ^ (14 - sampleSplit.rest.arm.c2Control.toNat))
      else 2 ^ 14 * (sampleSplit.rest.arm.c2Base1.toNat / 2 ^ 14)) +
        4 * ((0x40000000#32).toNat / 2 ^ 20) :=
  ⟨rfl, reached_level1TableAddress (.next (.start ⟨0#32, 0#32, sampleCpu, rfl⟩) sampleSplit_step) _⟩

end TlbAnalyzer.Emulator
