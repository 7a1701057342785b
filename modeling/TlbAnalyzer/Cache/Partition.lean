/-
# Whether the sets partition the table

A set is selected with a bit mask and laid out with a stride, `x & (step - 1)` and
`start, start + step, ..`. The two fit together when the stride is a power of two:
then the sets are the residue classes of the slots. For any other stride the sets
still have equal sizes and do not overlap, but the mask leaves some residues out, and
their slots are never used.
-/

import Mathlib.Data.Nat.Log
import TlbAnalyzer.Cache.Geometry

namespace TlbAnalyzer.Cache

/-- The sets of a table partition it: each has `way` slots, two of them are equal or
have no slot in common, and every slot is in one. `index` takes the index bits from
an address. -/
structure Partitions (g : Geometry) (way : ℕ) (index : BitVec 32 → BitVec 32) : Prop where
  card_eq : ∀ addr, (g.slots (index addr)).card = way
  eq_or_disjoint : ∀ addr addr',
    g.slots (index addr) = g.slots (index addr') ∨
      Disjoint (g.slots (index addr)) (g.slots (index addr'))
  covers : ∀ i < g.entries, ∃ addr, i ∈ g.slots (index addr)

/-- A mask below which every number is kept has only low bits. -/
theorem exists_two_pow_of_forall_and {step : ℕ} (hstep : 0 < step)
    (h : ∀ j < step, j &&& (step - 1) = j) : ∃ k, step = 2 ^ k := by
  by_cases hone : step = 1
  · exact ⟨0, hone⟩
  -- the numbers below the highest bit of the mask need all of its lower bits
  have hne : step - 1 ≠ 0 := by omega
  have hle : 2 ^ Nat.log 2 (step - 1) ≤ step - 1 := Nat.pow_log_le_self 2 hne
  have hlt : step - 1 < 2 ^ (Nat.log 2 (step - 1) + 1) := Nat.lt_pow_succ_log_self one_lt_two _
  have hpos := Nat.two_pow_pos (Nat.log 2 (step - 1))
  have hlow := h (2 ^ Nat.log 2 (step - 1) - 1) (by omega)
  rw [Nat.and_comm, Nat.and_two_pow_sub_one_eq_mod] at hlow
  rw [Nat.pow_succ] at hlt
  have hmod : (step - 1) % 2 ^ Nat.log 2 (step - 1) = step - 1 - 2 ^ Nat.log 2 (step - 1) := by
    rw [Nat.mod_eq_sub_mod hle, Nat.mod_eq_of_lt (by omega)]
  exists Nat.log 2 (step - 1) + 1
  rw [Nat.pow_succ]
  omega

/-- Every small number is the index of some address. -/
theorem toNat_shiftLeft_ushiftRight {x shift : ℕ} (h : x * 2 ^ shift < 2 ^ 32) :
    ((BitVec.ofNat 32 x) <<< shift >>> shift).toNat = x := by
  have hx : x < 2 ^ 32 := lt_of_le_of_lt (Nat.le_mul_of_pos_right x (Nat.two_pow_pos shift)) h
  rw [BitVec.toNat_ushiftRight, BitVec.toNat_shiftLeft, BitVec.toNat_ofNat, Nat.mod_eq_of_lt hx,
    Nat.shiftLeft_eq, Nat.mod_eq_of_lt h, Nat.shiftRight_eq_div_pow,
    Nat.mul_div_cancel _ (Nat.two_pow_pos shift)]

namespace Geometry

variable {size way : ℕ}

/-- The mask, as a number. -/
theorem toNat_mask_ofSizeWay (hstep : 0 < size / way) (hlt : size < 2 ^ 32) :
    (ofSizeWay size way).mask.toNat = size / way - 1 := by
  have hle : size / way ≤ size := Nat.div_le_self size way
  show (BitVec.ofNat 32 (size / way) - 1#32).toNat = _
  rw [BitVec.toNat_sub, BitVec.toNat_ofNat]
  simp only [BitVec.toNat_ofNat]
  omega

/-- The first slot of a set, as a number. -/
theorem start_eq_and (hstep : 0 < size / way) (hlt : size < 2 ^ 32) (index : BitVec 32) :
    (ofSizeWay size way).start index = index.toNat &&& (size / way - 1) := by
  rw [start, BitVec.toNat_and, toNat_mask_ofSizeWay hstep hlt]

/-- Sets are residue classes, whatever the mask selects. -/
theorem slots_eq_or_disjoint {g : Geometry} {cap : ℕ} (h : g.Fits cap) (x y : BitVec 32) :
    g.slots x = g.slots y ∨ Disjoint (g.slots x) (g.slots y) := by
  by_cases hstart : g.start x = g.start y
  · exact Or.inl (by rw [slots, slots, hstart])
  · refine Or.inr (Finset.disjoint_left.mpr fun i hx hy => hstart ?_)
    rw [mem_slots_iff h] at hx hy
    rw [← hx.2, ← hy.2]

end Geometry

section

open Cache.Geometry

variable {size way shift : ℕ}

/-- A mask that reaches every slot is one below a power of two. -/
theorem exists_two_pow_of_covers {index : BitVec 32 → BitVec 32} (hstep : 0 < size / way)
    (hlt : size < 2 ^ 32) (hfits : (ofSizeWay size way).Fits size)
    (h : ∀ i < size, ∃ addr, i ∈ (ofSizeWay size way).slots (index addr)) :
    ∃ k, size / way = 2 ^ k := by
  apply exists_two_pow_of_forall_and hstep
  intro j hj
  rcases h j (lt_of_lt_of_le hj (Nat.div_le_self size way)) with ⟨addr, hmem⟩
  rw [mem_slots_iff hfits, start_eq_and hstep hlt] at hmem
  have hstart : j = (index addr).toNat &&& (size / way - 1) := by
    rw [← hmem.2]
    exact (Nat.mod_eq_of_lt hj).symm
  rw [hstart, Nat.and_assoc, Nat.and_self]

/-- With a power of two the slot `i` is in the set of the index `i`. -/
theorem mem_slots_of_two_pow {k i : ℕ} (hk : size / way = 2 ^ k) (hsize : size ≤ 512)
    (hfits : (ofSizeWay size way).Fits size) (hshift : shift = 12 ∨ shift = 2) (hi : i < size) :
    i ∈ (ofSizeWay size way).slots ((BitVec.ofNat 32 i) <<< shift >>> shift) := by
  have hindex : ((BitVec.ofNat 32 i) <<< shift >>> shift).toNat = i := by
    apply toNat_shiftLeft_ushiftRight
    rcases hshift with rfl | rfl
    · omega
    · omega
  have hk' : 2 ^ k < 2 ^ 32 := by
    have hle := Nat.div_le_self size way
    rw [← hk]
    omega
  rw [mem_slots_iff hfits, start_ofSizeWay hk hk', hindex]
  exact ⟨hi, rfl⟩

/-- For an associativity that divides the size, the sets partition the table if and
only if their number is a power of two. The index bits are those of a page address or
of the address of a descriptor. -/
theorem partitions_iff {size way shift : ℕ} (hway : 1 ≤ way) (hdvd : way ∣ size)
    (hsize : size ≤ 512)
    (hshift : shift = 12 ∨ shift = 2) :
    Partitions (.ofSizeWay size way) way (fun addr => addr >>> shift) ↔
      ∃ k, size / way = 2 ^ k := by
  by_cases hzero : size / way = 0
  · -- a table without entries
    have hempty : size = 0 := by
      rw [← Nat.div_mul_cancel hdvd, hzero, Nat.zero_mul]
    subst hempty
    refine ⟨fun h => ?_, fun ⟨k, hk⟩ => ?_⟩
    · have hcard := h.card_eq 0#32
      have hnone : (ofSizeWay 0 way).slots (0#32 >>> shift) = ∅ := probes_eq_empty (Nat.zero_le _)
      rw [hnone, Finset.card_empty] at hcard
      omega
    · rw [hzero] at hk
      exact absurd hk.symm (Nat.two_pow_pos k).ne'
  have hstep : 0 < size / way := Nat.pos_of_ne_zero hzero
  have hpos : 0 < size := lt_of_lt_of_le hstep (Nat.div_le_self size way)
  have hfits : (ofSizeWay size way).Fits size :=
    ofSizeWay_fits hway (Nat.le_of_dvd hpos hdvd) (le_refl size)
  have hlt : size < 2 ^ 32 := lt_of_le_of_lt hsize (by decide)
  refine ⟨fun h => exists_two_pow_of_covers hstep hlt hfits h.covers,
    fun ⟨k, hk⟩ => ⟨fun addr => ?_, fun addr addr' => ?_, fun i hi => ?_⟩⟩
  · exact card_probes (start_lt_step hfits _) (Nat.mul_div_cancel' hdvd).symm
  · exact slots_eq_or_disjoint hfits _ _
  · exact ⟨_, mem_slots_of_two_pow hk hsize hfits hshift hi⟩

end

/-- Four sets of two. -/
theorem partitions_iff_fourSets :
    Partitions (.ofSizeWay 8 2) 2 (fun addr => addr >>> 12) :=
  (partitions_iff (by decide) (by decide) (by decide) (Or.inl rfl)).mpr ⟨2, rfl⟩

/-- Three sets of one: the mask is 2, and no address leads to slot 1. -/
theorem not_partitions_threeSets :
    ¬ Partitions (.ofSizeWay 3 1) 1 (fun addr => addr >>> 12) ∧
      ∀ addr : BitVec 32, 1 ∉ (Geometry.ofSizeWay 3 1).slots (addr >>> 12) := by
  have hnever : ∀ addr : BitVec 32, 1 ∉ (Geometry.ofSizeWay 3 1).slots (addr >>> 12) := by
    intro addr hmem
    have hfits : (Geometry.ofSizeWay 3 1).Fits 3 :=
      Geometry.ofSizeWay_fits (by decide) (by decide) (by decide)
    rw [Geometry.mem_slots_iff hfits, Geometry.start_eq_and (by decide) (by decide)] at hmem
    have hbit : 1 % 3 &&& 1 = (addr >>> 12).toNat &&& (2 &&& 1) := by
      rw [← Nat.and_assoc]
      exact congrArg (· &&& 1) hmem.2
    rw [show 2 &&& 1 = 0 from rfl, Nat.and_zero] at hbit
    exact absurd hbit (by decide)
  exact ⟨fun h => (h.covers 1 (by decide)).elim fun addr hmem => hnever addr hmem, hnever⟩

end TlbAnalyzer.Cache
