/-
# Cache tables and their search loop

The tracer (`tlb_trace.c`) and the simulator (`tlb_sim.c`) each carry their own
copy of the same data: `struct TLB_ENTRY`, `struct TLB_COUNTER`, the `FLUSH_TLB`
macro and one search loop, which scans the slots of a key's set and remembers a
slot with the least stamp as the one to refill. This module models that shared
part once, together with a description of what the loop returns.

A table is a function from slot numbers to entries. How many of the slots
really exist is a separate number: the loop reads out of bounds when it passes
it, and that is a `Fault` here. The loop also runs forever when its stride is
zero; it therefore takes fuel, and running out of it is the other `Fault`.

Addresses and address space identifiers are 32-bit words. A stamp is a natural
number that has been reduced modulo `2 ^ 32` when it was stored. The 64-bit
clock and event counters are natural numbers, since they are only ever
incremented, one event at a time.
-/

import Mathlib.Algebra.Order.Ring.Nat
import Mathlib.Data.Finset.Card
import Mathlib.Data.Finset.Image
import Mathlib.Data.Nat.ModEq

namespace TlbAnalyzer.Cache

/-- `struct TLB_ENTRY`, without the `pa` field, which no function reads or
writes. -/
structure TlbEntry where
  /-- Virtual address, or the address of a descriptor. -/
  va : BitVec 32
  /-- Address space identifier. -/
  asid : BitVec 32
  /-- Stamp of the last use. -/
  ts : ℕ
  deriving DecidableEq

/-- `struct TLB_COUNTER`. -/
structure TlbCounter where
  hit : ℕ
  miss : ℕ
  deriving DecidableEq

/-- The ways in which a call leaves the behaviour C defines. -/
inductive Fault
  /-- An access to a table slot that does not exist. -/
  | outOfBounds (index : ℕ)
  /-- A loop that never ends. -/
  | diverges
  /-- A use of a record buffer that is not allocated. -/
  | noBuffer
  /-- A read from a file that could not be opened. -/
  | noFile
  deriving DecidableEq

/-- The contents `FLUSH_TLB` gives an entry. -/
def flushedEntry : TlbEntry where
  va := 0xFFFFFFFF#32
  asid := 0#32
  ts := 0

/-- `FLUSH_TLB(tlb, size)`. -/
def flushTlb (size : ℕ) (tlb : ℕ → TlbEntry) : ℕ → TlbEntry :=
  fun idx => if idx < size then flushedEntry else tlb idx

/-- The value stored when `++systs` is assigned to the 32-bit field `ts`. -/
def stampOf (systs : ℕ) : ℕ := systs % 2 ^ 32

theorem stampOf_of_lt {systs : ℕ} (h : systs < 2 ^ 32) : stampOf systs = systs :=
  Nat.mod_eq_of_lt h

/-! ## The search loop -/

/-- How the search loop ends: at a matching entry, or with the slot to refill. -/
inductive Found
  | hit (i : ℕ)
  | miss (mi : ℕ)
  deriving DecidableEq

/-- The loop `for(i = start; i < entries; i += step)` over a table of `cap`
slots. The locals `i`, `mts` and `mi` are the arguments that change. -/
def search (cap : ℕ) (tlb : ℕ → TlbEntry) (test : TlbEntry → Bool) (entries step : ℕ) :
    (fuel i mts mi : ℕ) → Except Fault Found
  | 0, _, _, _ => .error .diverges
  | fuel + 1, i, mts, mi =>
      if i < entries then
        if cap ≤ i then .error (.outOfBounds i)
        else if test (tlb i) then .ok (.hit i)
        else if (tlb i).ts < mts then search cap tlb test entries step fuel (i + step) (tlb i).ts i
        else search cap tlb test entries step fuel (i + step) mts mi
      else .ok (.miss mi)

/-- The slots the loop visits from `start`. -/
def probes (start entries step : ℕ) : Finset ℕ :=
  (Finset.range entries).filter fun i => start ≤ i ∧ step ∣ i - start

theorem mem_probes {start entries step i : ℕ} :
    i ∈ probes start entries step ↔ i < entries ∧ start ≤ i ∧ step ∣ i - start := by
  simp [probes]

theorem probes_eq_empty {start entries step : ℕ} (h : entries ≤ start) :
    probes start entries step = ∅ := by
  ext i
  simp only [mem_probes, Finset.notMem_empty, iff_false]
  omega

/-- One pass of the loop: the current slot, then the slots from the next index. -/
theorem probes_eq_insert {start entries step : ℕ} (hstart : start < entries) :
    probes start entries step = insert start (probes (start + step) entries step) := by
  ext i
  rw [Finset.mem_insert, mem_probes, mem_probes]
  constructor
  · rintro ⟨hi, hle, k, hk⟩
    cases k with
    | zero => exact Or.inl (by omega)
    | succ k =>
        rw [Nat.mul_succ] at hk
        exact Or.inr ⟨hi, by omega, k, by omega⟩
  · rintro (rfl | ⟨hi, hle, k, hk⟩)
    · simp [hstart]
    · refine ⟨hi, by omega, k + 1, ?_⟩
      rw [Nat.mul_succ]
      omega

/-- From inside the first stride the loop visits a residue class. -/
theorem mem_probes_iff_mod {start entries step : ℕ} (hstart : start < step) (i : ℕ) :
    i ∈ probes start entries step ↔ i < entries ∧ i % step = start := by
  rw [mem_probes]
  refine and_congr_right fun _ => ⟨?_, fun hmod => ?_⟩
  · rintro ⟨hle, k, hk⟩
    have hi : i = start + step * k := by omega
    rw [hi, Nat.add_mul_mod_self_left, Nat.mod_eq_of_lt hstart]
  · refine ⟨hmod ▸ Nat.mod_le i step, i / step, ?_⟩
    have := Nat.div_add_mod i step
    omega

/-- When the stride divides the size, every residue class has the same number
of slots. -/
theorem card_probes {start entries step way : ℕ} (hstart : start < step)
    (hentries : entries = way * step) : (probes start entries step).card = way := by
  have himage : probes start entries step =
      (Finset.range way).image fun k => start + k * step := by
    ext i
    rw [mem_probes_iff_mod hstart, Finset.mem_image]
    constructor
    · rintro ⟨hi, hmod⟩
      refine ⟨i / step, ?_, ?_⟩
      · rw [Finset.mem_range, Nat.div_lt_iff_lt_mul (by omega), ← hentries]
        exact hi
      · have := Nat.mod_add_div' i step
        omega
    · rintro ⟨k, hk, rfl⟩
      rw [Finset.mem_range] at hk
      constructor
      · have hmul : (k + 1) * step ≤ way * step := Nat.mul_le_mul_right step hk
        rw [Nat.succ_mul] at hmul
        omega
      · rw [Nat.add_mul_mod_self_right, Nat.mod_eq_of_lt hstart]
  rw [himage, Finset.card_image_of_injective, Finset.card_range]
  intro first second heq
  exact Nat.eq_of_mul_eq_mul_right (by omega : 0 < step) (Nat.add_left_cancel heq)

/-- What the loop establishes about the visited slots, when it was entered with
the seed `mts`, `mi`: either some slot matches, or none does and the result is
a visited slot stamped earlier than the seed and no later than any other, or
the seed itself, because no visited slot is stamped earlier. -/
inductive Searched (tlb : ℕ → TlbEntry) (test : TlbEntry → Bool) (slots : Finset ℕ)
    (mts mi : ℕ) : Found → Prop
  | hit (i : ℕ) (hmem : i ∈ slots) (htest : test (tlb i) = true) :
      Searched tlb test slots mts mi (.hit i)
  | older (i : ℕ) (hnone : ∀ j ∈ slots, test (tlb j) = false) (hmem : i ∈ slots)
      (hlt : (tlb i).ts < mts) (hleast : ∀ j ∈ slots, (tlb i).ts ≤ (tlb j).ts) :
      Searched tlb test slots mts mi (.miss i)
  | seed (hnone : ∀ j ∈ slots, test (tlb j) = false)
      (hleast : ∀ j ∈ slots, mts ≤ (tlb j).ts) :
      Searched tlb test slots mts mi (.miss mi)

theorem Searched.forall_of_miss {tlb : ℕ → TlbEntry} {test : TlbEntry → Bool}
    {slots : Finset ℕ} {mts mi victim : ℕ} (h : Searched tlb test slots mts mi (.miss victim)) :
    ∀ j ∈ slots, test (tlb j) = false := by
  cases h with
  | older _ hnone _ _ _ => exact hnone
  | seed hnone _ => exact hnone

theorem Searched.insert {tlb : ℕ → TlbEntry} {test : TlbEntry → Bool} {slots : Finset ℕ}
    {i mts mi : ℕ} {found : Found} (hi : test (tlb i) = false) (hle : mts ≤ (tlb i).ts)
    (h : Searched tlb test slots mts mi found) :
    Searched tlb test (insert i slots) mts mi found := by
  cases h with
  | hit j hmem htest => exact .hit j (Finset.mem_insert_of_mem hmem) htest
  | older j hnone hmem hlt hleast =>
      refine .older j ?_ (Finset.mem_insert_of_mem hmem) hlt ?_
      · exact Finset.forall_mem_insert _ _ _ |>.mpr ⟨hi, hnone⟩
      · exact Finset.forall_mem_insert _ _ _ |>.mpr ⟨by omega, hleast⟩
  | seed hnone hleast =>
      refine .seed ?_ ?_
      · exact Finset.forall_mem_insert _ _ _ |>.mpr ⟨hi, hnone⟩
      · exact Finset.forall_mem_insert _ _ _ |>.mpr ⟨hle, hleast⟩

/-- Replacing the seed by an older slot that was just visited. -/
theorem Searched.insert_older {tlb : ℕ → TlbEntry} {test : TlbEntry → Bool}
    {slots : Finset ℕ} {i mts mi : ℕ} {found : Found} (hi : test (tlb i) = false)
    (hlt : (tlb i).ts < mts) (h : Searched tlb test slots (tlb i).ts i found) :
    Searched tlb test (Insert.insert i slots) mts mi found := by
  cases h with
  | hit j hmem htest => exact .hit j (Finset.mem_insert_of_mem hmem) htest
  | older j hnone hmem hlt' hleast =>
      refine .older j ?_ (Finset.mem_insert_of_mem hmem) (by omega) ?_
      · exact Finset.forall_mem_insert _ _ _ |>.mpr ⟨hi, hnone⟩
      · exact Finset.forall_mem_insert _ _ _ |>.mpr ⟨by omega, hleast⟩
  | seed hnone hleast =>
      refine .older i ?_ (Finset.mem_insert_self i slots) hlt ?_
      · exact Finset.forall_mem_insert _ _ _ |>.mpr ⟨hi, hnone⟩
      · exact Finset.forall_mem_insert _ _ _ |>.mpr ⟨le_refl _, hleast⟩

/-- With a positive stride and no slot beyond the table the loop ends within its fuel
and finds what `Searched` says. -/
theorem search_spec {cap entries step : ℕ} (tlb : ℕ → TlbEntry) (test : TlbEntry → Bool)
    (hstep : 0 < step) :
    ∀ fuel i mts mi, entries - i < fuel → (∀ j ∈ probes i entries step, j < cap) →
      ∃ found, search cap tlb test entries step fuel i mts mi = .ok found ∧
        Searched tlb test (probes i entries step) mts mi found := by
  intro fuel
  induction fuel with
  | zero =>
      intro i mts mi hfuel _
      exact absurd hfuel (Nat.not_lt_zero _)
  | succ fuel ih =>
      intro i mts mi hfuel hcap
      by_cases hi : i < entries
      · rw [probes_eq_insert hi] at hcap
        rcases (Finset.forall_mem_insert _ _ _).mp hcap with ⟨hbound, hcap'⟩
        have hnext : entries - (i + step) < fuel := by omega
        rw [search, if_pos hi, if_neg (Nat.not_le_of_lt hbound), probes_eq_insert hi]
        cases htest : test (tlb i) with
        | true => exact ⟨.hit i, rfl, .hit i (Finset.mem_insert_self _ _) htest⟩
        | false =>
            by_cases hlt : (tlb i).ts < mts
            · obtain ⟨found, hrun, hfound⟩ := ih (i + step) (tlb i).ts i hnext hcap'
              exact ⟨found, by simpa [hlt] using hrun, hfound.insert_older htest hlt⟩
            · obtain ⟨found, hrun, hfound⟩ := ih (i + step) mts mi hnext hcap'
              exact ⟨found, by simpa [hlt] using hrun, hfound.insert htest (by omega)⟩
      · rw [search, if_neg hi, probes_eq_empty (by omega)]
        exact ⟨.miss mi, rfl, .seed (by simp) (by simp)⟩

/-! ## Searches that fail -/

/-- When nothing matches and some slot to visit does not exist, the loop gets there. -/
theorem search_outOfBounds {cap entries step : ℕ} {tlb : ℕ → TlbEntry} {test : TlbEntry → Bool}
    (hnone : ∀ j < cap, test (tlb j) = false) (hstep : 0 < step) :
    ∀ fuel i mts mi, entries - i < fuel → (∃ j ∈ probes i entries step, cap ≤ j) →
      ∃ j, search cap tlb test entries step fuel i mts mi = .error (.outOfBounds j) := by
  intro fuel
  induction fuel with
  | zero =>
      intro i mts mi hfuel _
      exact absurd hfuel (Nat.not_lt_zero _)
  | succ fuel ih =>
      intro i mts mi hfuel hout
      rcases hout with ⟨j, hj, hcap⟩
      have hi : i < entries := lt_of_le_of_lt (mem_probes.mp hj).2.1 (mem_probes.mp hj).1
      rw [search, if_pos hi]
      by_cases hbound : cap ≤ i
      · rw [if_pos hbound]
        exact ⟨i, rfl⟩
      have hlater : ∃ j ∈ probes (i + step) entries step, cap ≤ j := by
        rw [probes_eq_insert hi, Finset.mem_insert] at hj
        rcases hj with rfl | hj
        · exact absurd hcap hbound
        · exact ⟨j, hj, hcap⟩
      have hnext : entries - (i + step) < fuel := by omega
      rw [if_neg hbound, hnone i (Nat.lt_of_not_le hbound)]
      show ∃ j, (if (tlb i).ts < mts then _ else _) = _
      split
      · exact ih _ _ _ hnext hlater
      · exact ih _ _ _ hnext hlater

/-- With a stride of zero the loop looks at one slot over and over. -/
theorem search_diverges {cap entries i : ℕ} {tlb : ℕ → TlbEntry} {test : TlbEntry → Bool}
    (hi : i < entries) (hcap : i < cap) (hnone : test (tlb i) = false) (fuel : ℕ) :
    ∀ mts mi, search cap tlb test entries 0 fuel i mts mi = .error .diverges := by
  induction fuel with
  | zero =>
      intro mts mi
      rfl
  | succ fuel ih =>
      intro mts mi
      rw [search, if_pos hi, if_neg (Nat.not_le_of_lt hcap), hnone]
      show (if (tlb i).ts < mts then search cap tlb test entries 0 fuel i _ _
        else search cap tlb test entries 0 fuel i _ _) = _
      rw [ih, ih, ite_self]

/-! ## What a search depends on -/

/-- Two tables that a search cannot tell apart: the same slots match, and the
stamps are ordered alike. -/
structure Alike (cap : ℕ) (test : TlbEntry → Bool) (tlb tlb' : ℕ → TlbEntry) : Prop where
  test_eq : ∀ i < cap, test (tlb' i) = test (tlb i)
  ts_lt_iff : ∀ i < cap, ∀ j < cap, (tlb' i).ts < (tlb' j).ts ↔ (tlb i).ts < (tlb j).ts

/-- The seed of the search is always the stamp of some slot, so it compares alike
too. -/
theorem search_congr {cap entries step : ℕ} {tlb tlb' : ℕ → TlbEntry} {test : TlbEntry → Bool}
    (h : Alike cap test tlb tlb') (fuel : ℕ) : ∀ i mi, mi < cap →
      search cap tlb' test entries step fuel i (tlb' mi).ts mi =
        search cap tlb test entries step fuel i (tlb mi).ts mi := by
  induction fuel with
  | zero =>
      intro i mi _
      rfl
  | succ fuel ih =>
      intro i mi hmi
      rw [search, search]
      by_cases hi : i < entries
      · rw [if_pos hi, if_pos hi]
        by_cases hcap : cap ≤ i
        · rw [if_pos hcap, if_pos hcap]
        · have hicap : i < cap := Nat.lt_of_not_le hcap
          rw [if_neg hcap, if_neg hcap, h.test_eq i hicap, ih _ mi hmi, ih _ i hicap]
          simp only [h.ts_lt_iff i hicap mi hmi]
      · rw [if_neg hi, if_neg hi]

end TlbAnalyzer.Cache
