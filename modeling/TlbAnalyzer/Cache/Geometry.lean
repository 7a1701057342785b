/-
# Geometry of a set-associative table

Both programs derive three numbers from a table size and an associativity: the
number of entries, the stride `size / way` between two slots of one set, and
the mask that selects a set from the index bits of a key. This module models
that arithmetic, runs the search loop with it, and relates the slots a lookup
visits to residues modulo the stride.

The search is seeded with entry 0 of the whole table, whichever set the key
belongs to. `ScansOldest` states when this seed is harmless. It is a condition
on the table before the lookup, and it can fail.

The scan index is a natural number here. In the source it is an `int`, and the sum
`i + step` of the tracer can overflow for tables of more than about 2^30 entries,
unless `set` divides `size` and `size / set` is a power of two. That is not modelled.
-/

import TlbAnalyzer.Cache.Table

namespace TlbAnalyzer.Cache

/-- Clearing the low twelve bits leaves a page-aligned address. -/
theorem toNat_and_page_mod (addr : BitVec 32) : (addr &&& 0xFFFFF000#32).toNat % 4096 = 0 := by
  have hlow : addr &&& 0xFFFFF000#32 &&& 0xFFF#32 = 0#32 := by
    rw [BitVec.and_assoc]
    simp
  have hmod := congrArg BitVec.toNat hlow
  rw [BitVec.toNat_and] at hmod
  exact (Nat.and_two_pow_sub_one_eq_mod _ 12).symm.trans hmod

/-- The geometry globals of one table: `TLB_MAX_ENTRIES_*`, `TLB_WAYSTEP_*` and
`TLB_WAYMASK_*` in the simulator, `tlb_size`, `tlb_set_step` and `tlb_set_mask`
in the tracer. -/
structure Geometry where
  entries : ℕ
  step : ℕ
  mask : BitVec 32
  deriving DecidableEq

namespace Geometry

/-- The assignments `step = size / way; mask = step - 1`. The mask is an `int`
that is converted to `unsigned int` where it is used. -/
def ofSizeWay (size way : ℕ) : Geometry where
  entries := size
  step := size / way
  mask := BitVec.ofNat 32 (size / way) - 1#32

variable (g : Geometry)

/-- First slot of the set selected by the index bits of a key. -/
def start (index : BitVec 32) : ℕ := (index &&& g.mask).toNat

/-- The slots of the set selected by the index bits of a key. -/
def slots (index : BitVec 32) : Finset ℕ := probes (g.start index) g.entries g.step

/-- The search of one lookup: `mi = 0; mts = tlb[0].ts`, then the loop from the
first slot of the key's set. The fuel allows one pass for every entry and the
final test of the loop condition. -/
def find (cap : ℕ) (tlb : ℕ → TlbEntry) (test : TlbEntry → Bool) (index : BitVec 32) :
    Except Fault Found :=
  if 0 < cap then
    search cap tlb test g.entries g.step (g.entries + 1) (g.start index) (tlb 0).ts 0
  else .error (.outOfBounds 0)

/-- The geometry can be searched in a table of `cap` slots: the stride makes
progress, a set starts inside the first stride, and the loop stays inside the
table. -/
structure Fits (cap : ℕ) : Prop where
  step_pos : 0 < g.step
  step_le : g.step ≤ g.entries
  mask_lt : g.mask.toNat < g.step
  entries_le : g.entries ≤ cap

theorem toNat_ofNat_sub_one_lt {step : ℕ} (hstep : 0 < step) :
    (BitVec.ofNat 32 step - 1#32).toNat < step := by
  rw [BitVec.toNat_sub, BitVec.toNat_ofNat]
  simp only [BitVec.toNat_ofNat]
  omega

/-- Every associativity between one and the size gives a searchable geometry,
also when it does not divide the size. -/
theorem ofSizeWay_fits {size way cap : ℕ} (hway : 1 ≤ way) (hle : way ≤ size)
    (hcap : size ≤ cap) : (ofSizeWay size way).Fits cap := by
  have hstep : 0 < size / way := Nat.div_pos hle hway
  exact ⟨hstep, Nat.div_le_self size way, toNat_ofNat_sub_one_lt hstep, hcap⟩

variable {g}

theorem start_lt_step {cap : ℕ} (h : g.Fits cap) (index : BitVec 32) :
    g.start index < g.step := by
  have hle : g.start index ≤ g.mask.toNat := by
    rw [start, BitVec.toNat_and]
    exact Nat.and_le_right
  exact lt_of_le_of_lt hle h.mask_lt

/-- For a power of two the mask selects the low bits, that is, the residue. -/
theorem start_ofSizeWay {size way k : ℕ} (hsets : size / way = 2 ^ k) (hk : 2 ^ k < 2 ^ 32)
    (index : BitVec 32) : (ofSizeWay size way).start index = index.toNat % (size / way) := by
  have hpos : 0 < 2 ^ k := Nat.two_pow_pos k
  have hmask : (BitVec.ofNat 32 (2 ^ k) - 1#32).toNat = 2 ^ k - 1 := by
    rw [BitVec.toNat_sub, BitVec.toNat_ofNat]
    simp only [BitVec.toNat_ofNat]
    omega
  rw [start, ofSizeWay, hsets, BitVec.toNat_and, hmask, Nat.and_two_pow_sub_one_eq_mod]

/-- A set is a residue class of slots modulo the stride. -/
theorem mem_slots_iff {cap : ℕ} (h : g.Fits cap) (index : BitVec 32) (i : ℕ) :
    i ∈ g.slots index ↔ i < g.entries ∧ i % g.step = g.start index :=
  mem_probes_iff_mod (start_lt_step h index) i

theorem lt_entries_of_mem_slots {index : BitVec 32} {i : ℕ} (h : i ∈ g.slots index) :
    i < g.entries :=
  (mem_probes.mp h).1

/-- A lookup that stays inside the table ends and finds what `Searched` says. -/
theorem find_spec_of_lt {cap : ℕ} (hcap : 0 < cap) (hstep : 0 < g.step) {index : BitVec 32}
    (hinside : ∀ i ∈ g.slots index, i < cap) (tlb : ℕ → TlbEntry) (test : TlbEntry → Bool) :
    ∃ found, g.find cap tlb test index = .ok found ∧
      Searched tlb test (g.slots index) (tlb 0).ts 0 found := by
  rw [find, if_pos hcap]
  exact search_spec tlb test hstep _ _ _ _ (by omega) hinside

/-- A lookup of a searchable geometry ends and finds what `Searched` says. -/
theorem find_spec {cap : ℕ} (h : g.Fits cap) (tlb : ℕ → TlbEntry) (test : TlbEntry → Bool)
    (index : BitVec 32) :
    ∃ found, g.find cap tlb test index = .ok found ∧
      Searched tlb test (g.slots index) (tlb 0).ts 0 found := by
  have hpos : 0 < cap :=
    lt_of_lt_of_le h.step_pos (h.step_le.trans h.entries_le)
  exact find_spec_of_lt hpos h.step_pos
    (fun i hi => lt_of_lt_of_le (lt_entries_of_mem_slots hi) h.entries_le) tlb test

/-- When nothing matches, a lookup leaves the table if its set does. -/
theorem find_outOfBounds {cap : ℕ} (hcap : 0 < cap) (hstep : 0 < g.step) {tlb : ℕ → TlbEntry}
    {test : TlbEntry → Bool} (hnone : ∀ j < cap, test (tlb j) = false) {index : BitVec 32}
    (hout : ∃ i ∈ g.slots index, cap ≤ i) :
    ∃ i, g.find cap tlb test index = .error (.outOfBounds i) := by
  rw [find, if_pos hcap]
  exact search_outOfBounds hnone hstep _ _ _ _ (by omega) hout

/-- With a stride of zero a lookup ends only if it starts beyond the last entry or at
an entry that matches. -/
theorem find_diverges {cap : ℕ} (hstep : g.step = 0) {tlb : ℕ → TlbEntry}
    {test : TlbEntry → Bool} {index : BitVec 32} (hstart : g.start index < g.entries)
    (hcap : g.start index < cap) (hnone : test (tlb (g.start index)) = false) :
    g.find cap tlb test index = .error .diverges := by
  rw [find, if_pos (Nat.zero_lt_of_lt hcap), hstep]
  exact search_diverges hstart hcap hnone _ _ _

/-- Tables that a search cannot tell apart give the same result. -/
theorem find_congr {cap : ℕ} {tlb tlb' : ℕ → TlbEntry} {test : TlbEntry → Bool}
    (h : Alike cap test tlb tlb') (index : BitVec 32) :
    g.find cap tlb' test index = g.find cap tlb test index := by
  rw [find, find]
  by_cases hcap : 0 < cap
  · rw [if_pos hcap, if_pos hcap, search_congr h _ _ 0 hcap]
  · rw [if_neg hcap, if_neg hcap]

/-! ## Where a refill lands -/

variable (g) in
/-- Entry 0 is a slot of the key's set, or some slot of that set was used
before entry 0. -/
def ScansOldest (tlb : ℕ → TlbEntry) (index : BitVec 32) : Prop :=
  0 ∈ g.slots index ∨ ∃ i ∈ g.slots index, (tlb i).ts < (tlb 0).ts

instance (tlb : ℕ → TlbEntry) (index : BitVec 32) : Decidable (g.ScansOldest tlb index) :=
  inferInstanceAs (Decidable (_ ∨ _))

/-- A key that is in its set or scans an old enough slot does the latter when the
search misses. -/
theorem scansOldest_of_miss {tlb : ℕ → TlbEntry} {test : TlbEntry → Bool} {index : BitVec 32}
    {mts mi victim : ℕ} (hfound : Searched tlb test (g.slots index) mts mi (.miss victim))
    (hseated : (∃ i ∈ g.slots index, test (tlb i) = true) ∨ g.ScansOldest tlb index) :
    g.ScansOldest tlb index := by
  rcases hseated with ⟨i, hi, htest⟩ | holdest
  · rw [hfound.forall_of_miss i hi] at htest
    exact absurd htest Bool.false_ne_true
  · exact holdest

/-- Under `ScansOldest` the refilled slot is a least recently used slot of the
key's own set. -/
theorem victim_mem_slots {tlb : ℕ → TlbEntry} {test : TlbEntry → Bool} {index : BitVec 32}
    {mi : ℕ} (hfound : Searched tlb test (g.slots index) (tlb 0).ts 0 (.miss mi))
    (holdest : g.ScansOldest tlb index) :
    mi ∈ g.slots index ∧ ∀ j ∈ g.slots index, (tlb mi).ts ≤ (tlb j).ts := by
  cases hfound with
  | older i hnone hmem hlt hleast => exact ⟨hmem, hleast⟩
  | seed hnone hleast =>
      rcases holdest with hzero | ⟨i, hi, hlt⟩
      · exact ⟨hzero, hleast⟩
      · have := hleast i hi
        omega

/-- Without `ScansOldest` a miss refills entry 0, which is no slot of the key's
set. -/
theorem victim_eq_zero {tlb : ℕ → TlbEntry} {test : TlbEntry → Bool} {index : BitVec 32}
    {mi : ℕ} (hfound : Searched tlb test (g.slots index) (tlb 0).ts 0 (.miss mi))
    (holdest : ¬ g.ScansOldest tlb index) : mi = 0 ∧ 0 ∉ g.slots index := by
  refine ⟨?_, fun hzero => holdest (Or.inl hzero)⟩
  cases hfound with
  | older i hnone hmem hlt hleast => exact absurd (Or.inr ⟨mi, hmem, hlt⟩) holdest
  | seed hnone hleast => rfl

/-- With one set, the seed is a slot of every key's set. -/
theorem scansOldest_of_step_eq_one {cap : ℕ} (h : g.Fits cap) (hstep : g.step = 1)
    (tlb : ℕ → TlbEntry) (index : BitVec 32) : g.ScansOldest tlb index := by
  refine Or.inl ((mem_slots_iff h index 0).mpr ⟨?_, ?_⟩)
  · exact lt_of_lt_of_le h.step_pos h.step_le
  · have := start_lt_step h index
    rw [Nat.zero_mod]
    omega

end Geometry

end TlbAnalyzer.Cache
