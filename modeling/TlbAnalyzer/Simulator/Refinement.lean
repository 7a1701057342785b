/-
# The caches against a set-associative LRU reference

What the five lookup functions are for is a set-associative cache with least
recently used replacement. The reference model says so directly: one recency
list of at most `way` keys for each set, a hit moves its key to the front, a
miss puts the key in front and drops the least recently used key of the same
set.

The tables hold no list, only stamps. `Refines` relates the two, one set of
slots at a time, and a lookup that is `Seated` keeps it. A lookup is not seated
when it misses while entry 0 of the whole table is older than every slot of the
key's set: the search then refills entry 0, outside that set, where no later
lookup of the key finds it.
-/

import TlbAnalyzer.Math.StampedSlots
import TlbAnalyzer.Simulator.Lookup

namespace TlbAnalyzer.Simulator

open Cache Math

/-! ## Keys -/

/-- What a lookup compares: an address and an address space identifier. -/
abbrev Key := BitVec 32 × BitVec 32

/-- The key `FLUSH_TLB` leaves in an entry. -/
def emptyKey : Key := (0xFFFFFFFF#32, 0#32)

/-- A word address is no flushed entry. -/
theorem ne_emptyKey_of_word {addr asid : BitVec 32} (h : addr.toNat % 4 = 0) :
    (addr, asid) ≠ emptyKey := by
  intro heq
  have haddr : addr = 0xFFFFFFFF#32 := congrArg Prod.fst heq
  rw [haddr] at h
  exact absurd h (by decide)

namespace CacheName

/-- The key a lookup asks for. The nested TLB ignores the identifier. -/
def key (c : CacheName) (addr asid : BitVec 32) : Key :=
  if c.isPwc then (addr, asid) else (addr, 0#32)

/-- The key an entry holds. -/
def keyOf (c : CacheName) (e : TlbEntry) : Key := c.key e.va e.asid

/-- The key an entry holds, unless it is the one a flush leaves. -/
def cell (c : CacheName) (e : TlbEntry) : Option Key :=
  if c.keyOf e = emptyKey then none else some (c.keyOf e)

theorem test_iff (c : CacheName) (addr asid : BitVec 32) (e : TlbEntry) :
    c.test addr asid e = true ↔ c.keyOf e = c.key addr asid := by
  cases c <;> simp [test, keyOf, key, isPwc]

theorem keyOf_refill (c : CacheName) (addr asid : BitVec 32) (e : TlbEntry) :
    c.keyOf (c.refill addr asid e) = c.key addr asid := by
  cases c <;> rfl

/-- Using a slot changes the key of at most this slot. -/
theorem keyOf_use (s : Sim) (c : CacheName) (addr asid : BitVec 32) (hit : Bool) (i : ℕ)
    (e : TlbEntry) (c' : CacheName) (j : ℕ) :
    c'.keyOf ((s.use c addr asid hit i e).tlb c' j) = c'.keyOf (s.tlb c' j) ∨
      c' = c ∧ j = i ∧ c'.keyOf ((s.use c addr asid hit i e).tlb c' j) = c'.keyOf e := by
  rcases s.use_tlb_cases c c' addr asid hit i e j with heq | ⟨hc, hj, heq⟩
  · rw [heq]
    exact Or.inl rfl
  · rw [heq]
    exact Or.inr ⟨hc, hj, rfl⟩

theorem cell_eq_some_iff {c : CacheName} {addr asid : BitVec 32} {e : TlbEntry}
    (hkey : c.key addr asid ≠ emptyKey) :
    c.cell e = some (c.key addr asid) ↔ c.test addr asid e = true := by
  rw [test_iff, cell]
  by_cases hempty : c.keyOf e = emptyKey
  · rw [if_pos hempty, hempty]
    simpa using Ne.symm hkey
  · rw [if_neg hempty, Option.some.injEq]

theorem cell_flushedEntry (c : CacheName) : c.cell flushedEntry = none := by
  cases c <;> decide

end CacheName

/-! ## The reference model -/

/-- The sizes and associativities of the two kinds of cache. -/
structure Sizes where
  ntlbSize : ℕ
  ntlbWay : ℕ
  pwcSize : ℕ
  pwcWay : ℕ

namespace Sizes

variable (z : Sizes)

/-- Number of entries of a cache. -/
def size (c : CacheName) : ℕ := if c.isPwc then z.pwcSize else z.ntlbSize

/-- Associativity of a cache. -/
def way (c : CacheName) : ℕ := if c.isPwc then z.pwcWay else z.ntlbWay

/-- Number of sets of a cache. -/
def sets (c : CacheName) : ℕ := z.size c / z.way c

/-- The set a key belongs to: its index bits, reduced to the number of sets. -/
def setOf (c : CacheName) (addr : BitVec 32) : ℕ := (c.index addr).toNat % z.sets c

/-- The globals a simulation starts its loop with, for these sizes. -/
def start (s : Sim) : Sim :=
  Sim.flushAll { s with
    ntlbGeometry := .ofSizeWay z.ntlbSize z.ntlbWay
    pwcGeometry := .ofSizeWay z.pwcSize z.pwcWay }

/-- The associativity divides the size, the number of sets is a power of two,
and the table is large enough. -/
structure Regular : Prop where
  way_dvd : ∀ c, z.way c ∣ z.size c
  sets_eq : ∀ c, ∃ k, z.sets c = 2 ^ k
  size_le : ∀ c, z.size c ≤ 512

variable {z} in
theorem Regular.way_pos (h : z.Regular) (c : CacheName) : 0 < z.way c := by
  obtain ⟨k, hk⟩ := h.sets_eq c
  refine Nat.pos_of_ne_zero fun hzero => ?_
  rw [sets, hzero, Nat.div_zero] at hk
  exact absurd hk (Nat.two_pow_pos k).ne

end Sizes

/-- One recency list for each cache and set. -/
abbrev Reference := CacheName → ℕ → List Key

namespace Reference

/-- The reference starts empty. -/
def empty : Reference := fun _ _ => []

/-- A lookup of the reference, in a list that keeps `way` keys. -/
def lookup (r : Reference) (way : ℕ) (c : CacheName) (set : ℕ) (key : Key) : Reference :=
  Function.update r c (Function.update (r c) set (Recency.touch way key (r c set)))

end Reference

/-! ## One cache -/

/-- The slots of every set of the cache stand for that set's recency list, and
no stamp is ahead of the clock. -/
structure RefinesCache (s : Sim) (c : CacheName) (way : ℕ) (lists : ℕ → List Key) : Prop where
  fits : (s.geometry c).Fits cacheMaxEntries
  entries_eq : (s.geometry c).entries = way * (s.geometry c).step
  bounded : ∀ i < (s.geometry c).entries, (s.tlb c i).ts ≤ s.systs
  stands : ∀ set < (s.geometry c).step, ∃ order,
    StampedSlots (probes set (s.geometry c).entries (s.geometry c).step)
        (fun i => c.cell (s.tlb c i)) (fun i => (s.tlb c i).ts) order ∧
      order.filterMap (fun i => c.cell (s.tlb c i)) = lists set

/-- The condition under which a lookup keeps to its own set: it hits, or entry 0
belongs to the key's set, or some slot of that set was used before entry 0. -/
def Seated (s : Sim) (c : CacheName) (addr asid : BitVec 32) : Prop :=
  (∃ i ∈ s.slots c addr, c.test addr asid (s.tlb c i) = true) ∨
    (s.geometry c).ScansOldest (s.tlb c) (c.index addr)

instance (s : Sim) (c : CacheName) (addr asid : BitVec 32) : Decidable (Seated s c addr asid) :=
  inferInstanceAs (Decidable (_ ∨ _))

namespace RefinesCache

variable {s : Sim} {c : CacheName} {way : ℕ} {lists : ℕ → List Key}

/-- A flushed table stands for empty lists. -/
theorem start (hfits : (s.geometry c).Fits cacheMaxEntries)
    (hentries : (s.geometry c).entries = way * (s.geometry c).step) :
    RefinesCache s.flushAll c way fun _ => [] := by
  have hflushed : ∀ i < (s.geometry c).entries, s.flushAll.tlb c i = flushedEntry :=
    fun i hi => if_pos (lt_of_lt_of_le hi hfits.entries_le)
  refine ⟨hfits, hentries, ?_, ?_⟩
  · intro i hi
    rw [hflushed i hi]
    exact Nat.zero_le _
  · intro set _
    refine ⟨[], StampedSlots.of_empty ?_ ?_, rfl⟩
    · intro i hi
      rw [hflushed i (mem_probes.mp hi).1, CacheName.cell_flushedEntry]
    · intro i hi
      rw [hflushed i (mem_probes.mp hi).1]
      rfl

/-- A key is in its recency list exactly when a slot of its set matches. -/
theorem mem_lists_iff (h : RefinesCache s c way lists) {addr asid : BitVec 32}
    (hkey : c.key addr asid ≠ emptyKey) :
    c.key addr asid ∈ lists ((s.geometry c).start (c.index addr)) ↔
      ∃ i ∈ s.slots c addr, c.test addr asid (s.tlb c i) = true := by
  obtain ⟨order, hslots, hlist⟩ :=
    h.stands _ (Geometry.start_lt_step h.fits (c.index addr))
  rw [← hlist, hslots.mem_keys_iff]
  simp only [CacheName.cell_eq_some_iff hkey]
  rfl

/-- Lookups in another cache only move the clock. -/
theorem use_other (h : RefinesCache s c way lists) {c' : CacheName} (hne : c ≠ c')
    (addr asid : BitVec 32) (hit : Bool) (i : ℕ) (e : TlbEntry) :
    RefinesCache (s.use c' addr asid hit i e) c way lists := by
  have htlb := s.use_tlb_of_ne addr asid hit i e hne
  refine ⟨h.fits, h.entries_eq, ?_, ?_⟩
  · intro j hj
    rw [htlb]
    exact Nat.le_succ_of_le (h.bounded j hj)
  · intro set hset
    rw [htlb]
    exact h.stands set hset

/-- Writing a key into a slot of its set is one `touch` of that set's list, if
the slots of the set say so; the other sets do not notice. -/
theorem use_self (h : RefinesCache s c way lists) {addr asid : BitVec 32} {hit : Bool} {i : ℕ}
    {e : TlbEntry} (hi : i ∈ s.slots c addr) (he : c.cell e = some (c.key addr asid))
    (hclock : s.systs + 1 < 2 ^ 32)
    (hother : ∀ j ∈ s.slots c addr, c.cell (s.tlb c j) = some (c.key addr asid) → j = i)
    (hkeys : ∀ order,
      StampedSlots (s.slots c addr) (fun i => c.cell (s.tlb c i)) (fun i => (s.tlb c i).ts) order →
      (i :: order.erase i).filterMap
          (Function.update (fun i => c.cell (s.tlb c i)) i (some (c.key addr asid))) =
        Recency.touch (s.slots c addr).card (c.key addr asid)
          (order.filterMap fun i => c.cell (s.tlb c i))) :
    RefinesCache (s.use c addr asid hit i e) c way
      (Function.update lists ((s.geometry c).start (c.index addr))
        (Recency.touch way (c.key addr asid)
          (lists ((s.geometry c).start (c.index addr))))) := by
  set set₀ := (s.geometry c).start (c.index addr) with hset₀
  have hlt : set₀ < (s.geometry c).step := Geometry.start_lt_step h.fits (c.index addr)
  have htlb := s.use_tlb_self c addr asid hit i e hclock
  have hcell : (fun j => c.cell ((s.use c addr asid hit i e).tlb c j)) =
      Function.update (fun j => c.cell (s.tlb c j)) i (some (c.key addr asid)) := by
    rw [htlb, ← he]
    exact Function.comp_update c.cell (s.tlb c) i _
  have hstamp : (fun j => ((s.use c addr asid hit i e).tlb c j).ts) =
      Function.update (fun j => (s.tlb c j).ts) i (s.systs + 1) := by
    rw [htlb]
    exact Function.comp_update TlbEntry.ts (s.tlb c) i _
  refine ⟨h.fits, h.entries_eq, ?_, ?_⟩
  · exact s.use_ts_le c c addr asid hit i e h.bounded
  · intro set hset
    rw [Sim.use_geometry] at hset ⊢
    rw [hcell, hstamp]
    obtain ⟨order, hslots, hlist⟩ := h.stands set hset
    by_cases hsame : set = set₀
    · subst hsame
      refine ⟨i :: order.erase i, hslots.write hi hother ?_, ?_⟩
      · intro j hj
        exact Nat.lt_succ_of_le (h.bounded j (mem_probes.mp hj).1)
      · rw [Function.update_self, ← hlist]
        have hcard : (s.slots c addr).card = way := card_probes hlt h.entries_eq
        rw [← hcard]
        exact hkeys order hslots
    · -- slot `i` is in the residue class of `set₀`, so not in this one
      have hi' : i ∉ probes set (s.geometry c).entries (s.geometry c).step := by
        intro hmem
        rw [mem_probes_iff_mod hset] at hmem
        have := (Geometry.mem_slots_iff h.fits (c.index addr) i).mp hi
        exact hsame (hmem.2.symm.trans this.2)
      obtain ⟨hkept, hkeys'⟩ :=
        hslots.write_outside hi' (some (c.key addr asid)) (s.systs + 1)
      exact ⟨order, hkept, by rw [hkeys', hlist, Function.update_of_ne hsame]⟩

/-- A seated lookup answers as the recency list does and touches it. -/
theorem looked (h : RefinesCache s c way lists) {addr asid : BitVec 32} {hit : Bool} {s' : Sim}
    (hkey : c.key addr asid ≠ emptyKey) (hclock : s.systs + 1 < 2 ^ 32)
    (hseated : Seated s c addr asid) (hlooked : Looked s c addr asid hit s') :
    hit = decide (c.key addr asid ∈ lists ((s.geometry c).start (c.index addr))) ∧
      RefinesCache s' c way
        (Function.update lists ((s.geometry c).start (c.index addr))
          (Recency.touch way (c.key addr asid)
            (lists ((s.geometry c).start (c.index addr))))) := by
  have hnow : ∀ j ∈ s.slots c addr, (s.tlb c j).ts < s.systs + 1 := fun j hj =>
    Nat.lt_succ_of_le (h.bounded j (Geometry.lt_entries_of_mem_slots hj))
  cases hlooked with
  | hit i hmem htest =>
      have hcell := (CacheName.cell_eq_some_iff hkey).mpr htest
      obtain ⟨order, hslots, _⟩ := h.stands _ (Geometry.start_lt_step h.fits (c.index addr))
      refine ⟨?_, h.use_self hmem hcell hclock ?_ ?_⟩
      · exact (decide_eq_true ((h.mem_lists_iff hkey).mpr ⟨i, hmem, htest⟩)).symm
      · intro j hj hjcell
        exact hslots.unique j hj i hmem _ hjcell hcell
      · intro order' hslots'
        exact hslots'.keys_of_hit hmem hcell hnow
  | miss mi hfound =>
      have hnone := hfound.forall_of_miss
      have habsent : ∀ j ∈ s.slots c addr, c.cell (s.tlb c j) ≠ some (c.key addr asid) := by
        intro j hj hjcell
        rw [CacheName.cell_eq_some_iff hkey, hnone j hj] at hjcell
        exact Bool.false_ne_true hjcell
      obtain ⟨hmem, hleast⟩ :=
        Geometry.victim_mem_slots hfound (Geometry.scansOldest_of_miss hfound hseated)
      have hrefill : c.cell (c.refill addr asid (s.tlb c mi)) = some (c.key addr asid) := by
        rw [CacheName.cell, CacheName.keyOf_refill, if_neg hkey]
      refine ⟨?_, h.use_self hmem hrefill hclock ?_ ?_⟩
      · symm
        rw [decide_eq_false_iff_not, h.mem_lists_iff hkey]
        rintro ⟨j, hj, htest⟩
        rw [hnone j hj] at htest
        exact Bool.false_ne_true htest
      · intro j hj hjcell
        exact absurd hjcell (habsent j hj)
      · intro order' hslots'
        exact hslots'.keys_of_refill hmem hleast habsent hnow

theorem access (h : RefinesCache s c way lists) (cmd : SimCmd) (n : ℕ) :
    RefinesCache (s.access cmd n) c way lists :=
  ⟨h.fits, h.entries_eq, h.bounded, h.stands⟩

end RefinesCache

/-- A lookup that is not seated misses and leaves the slots of its set as they
were. -/
theorem Looked.eq_of_not_seated {s s' : Sim} {c : CacheName} {addr asid : BitVec 32} {hit : Bool}
    (hlooked : Looked s c addr asid hit s') (hseated : ¬ Seated s c addr asid) :
    hit = false ∧ ∀ j ∈ s.slots c addr, s'.tlb c j = s.tlb c j := by
  cases hlooked with
  | hit i hmem htest => exact absurd (Or.inl ⟨i, hmem, htest⟩) hseated
  | miss mi hfound =>
      obtain ⟨rfl, hzero⟩ := Geometry.victim_eq_zero hfound fun h => hseated (Or.inr h)
      refine ⟨rfl, fun j hj => ?_⟩
      have hne : j ≠ 0 := fun h => hzero (h ▸ hj)
      simp [Sim.use, hne]

/-! ## Any interleaving of calls -/

/-- A call of one of the five lookup functions. -/
inductive Call
  | ntlbFind2 (addr : BitVec 32) (final : Bool)
  | ntlbFind (addr : BitVec 32)
  | refppaPwc (addr asid : BitVec 32)
  | refppaPwc2 (addr asid : BitVec 32)
  | refppaPwc3 (addr asid : BitVec 32)

namespace Call

/-- Make the call. -/
def run : Call → SimM Bool
  | .ntlbFind2 addr final => tlbtraceNtlbFind2 addr final
  | .ntlbFind addr => tlbtraceNtlbFind addr
  | .refppaPwc addr asid => tlbtraceRefppaPwc addr asid
  | .refppaPwc2 addr asid => tlbtraceRefppaPwc2 addr asid
  | .refppaPwc3 addr asid => tlbtraceRefppaPwc3 addr asid

/-- The table the call works on. -/
def cache : Call → CacheName
  | .ntlbFind2 _ _ => .ntlb2
  | .ntlbFind _ => .ntlb
  | .refppaPwc _ _ => .pwc
  | .refppaPwc2 _ _ => .pwc2
  | .refppaPwc3 _ _ => .pwc3

/-- The address looked up. -/
def addr : Call → BitVec 32
  | .ntlbFind2 addr _ | .ntlbFind addr => addr
  | .refppaPwc addr _ | .refppaPwc2 addr _ | .refppaPwc3 addr _ => addr

/-- The identifier looked up. -/
def asid : Call → BitVec 32
  | .ntlbFind2 _ _ | .ntlbFind _ => 0#32
  | .refppaPwc _ asid | .refppaPwc2 _ asid | .refppaPwc3 _ asid => asid

/-- The key looked up. -/
def key (call : Call) : Key := call.cache.key call.addr call.asid

/-- Page-aligned addresses for the nested TLB, word-aligned ones for the page
walk cache. -/
def Aligned (call : Call) : Prop :=
  if call.cache.isPwc then call.addr.toNat % 4 = 0 else call.addr.toNat % 4096 = 0

instance (call : Call) : Decidable call.Aligned :=
  inferInstanceAs (Decidable (ite _ _ _))

/-- The globals after the call. -/
def after (call : Call) (s : Sim) : Sim :=
  match call.run.run s with
  | .ok (_, s') => s'
  | .error _ => s

theorem key_ne_emptyKey {call : Call} (h : call.Aligned) : call.key ≠ emptyKey := by
  have hword : call.addr.toNat % 4 = 0 := by
    unfold Aligned at h
    split at h <;> omega
  rw [key, CacheName.key]
  split
  · exact ne_emptyKey_of_word hword
  · exact ne_emptyKey_of_word hword

/-- A call is one lookup; `tlbtrace_ntlb_find2` also counts accesses, which
nothing about the caches depends on. -/
theorem returns {call : Call} {s : Sim} {post : Bool → Sim → Prop}
    (hlookup : ∀ n, Returns (lookup call.cache call.addr call.asid) (s.access .scNtlb n) post)
    (hpost : ∀ hit s' n, post hit s' → post hit (s'.access .scNtlb n)) :
    Returns call.run s post := by
  have hplain := hlookup 0
  rw [Sim.access_zero] at hplain
  cases call with
  | ntlbFind2 addr final =>
      apply tlbtraceNtlbFind2_returns
      apply (hlookup _).mono
      intro hit s' hs'
      exact hpost hit s' _ hs'
  | ntlbFind addr => exact hplain
  | refppaPwc addr asid => exact hplain
  | refppaPwc2 addr asid => exact hplain
  | refppaPwc3 addr asid => exact hplain

end Call

/-- Make calls one after another and collect what they report. -/
def answers : List Call → SimM (List Bool)
  | [] => pure []
  | call :: calls => do
      let hit ← call.run
      let hits ← answers calls
      return hit :: hits

/-- Every call of the run is seated in the globals it finds. -/
def SeatedRun : List Call → Sim → Prop
  | [], _ => True
  | call :: calls, s => Seated s call.cache call.addr call.asid ∧ SeatedRun calls (call.after s)

instance decidableSeatedRun : (calls : List Call) → (s : Sim) → Decidable (SeatedRun calls s)
  | [], _ => .isTrue trivial
  | call :: calls, s =>
      have := decidableSeatedRun calls (call.after s)
      inferInstanceAs (Decidable (_ ∧ _))

namespace Reference

/-- The reference after one call. -/
def call (z : Sizes) (r : Reference) (call : Call) : Reference :=
  r.lookup (z.way call.cache) call.cache (z.setOf call.cache call.addr) call.key

/-- The reference after some calls. -/
def after (z : Sizes) (r : Reference) (calls : List Call) : Reference := calls.foldl (call z) r

/-- What the reference reports for each call. -/
def answers (z : Sizes) : Reference → List Call → List Bool
  | _, [] => []
  | r, call :: calls =>
      decide (call.key ∈ r call.cache (z.setOf call.cache call.addr)) ::
        answers z (r.call z call) calls

end Reference

/-- All five tables stand for their reference lists. -/
structure Refines (z : Sizes) (s : Sim) (r : Reference) : Prop where
  geometry_eq : ∀ c, s.geometry c = .ofSizeWay (z.size c) (z.way c)
  caches : ∀ c, RefinesCache s c (z.way c) (r c)

namespace Refines

variable {z : Sizes} {s : Sim} {r : Reference}

/-- A regular geometry selects sets by residue. -/
theorem start_eq_setOf (hregular : z.Regular) (h : Refines z s r) (c : CacheName)
    (addr : BitVec 32) : (s.geometry c).start (c.index addr) = z.setOf c addr := by
  obtain ⟨k, hk⟩ := hregular.sets_eq c
  have hlt : 2 ^ k < 2 ^ 32 := by
    rw [← hk]
    have hle : z.sets c ≤ z.size c := Nat.div_le_self _ _
    have := hregular.size_le c
    omega
  rw [h.geometry_eq, Geometry.start_ofSizeWay hk hlt]
  rfl

theorem start (hregular : z.Regular) (s : Sim) : Refines z (z.start s) .empty := by
  have hgeometry : ∀ c, (z.start s).geometry c = .ofSizeWay (z.size c) (z.way c) := by
    intro c
    cases c <;> rfl
  refine ⟨hgeometry, fun c => RefinesCache.start ?_ ?_⟩
  · obtain ⟨k, hk⟩ := hregular.sets_eq c
    have hpos : 0 < z.sets c := hk ▸ Nat.two_pow_pos k
    have hle : z.way c ≤ z.size c := (Nat.div_pos_iff.mp hpos).2
    rw [← Sim.flushAll_geometry]
    exact hgeometry c ▸ Geometry.ofSizeWay_fits (hregular.way_pos c) hle (hregular.size_le c)
  · rw [← Sim.flushAll_geometry]
    exact hgeometry c ▸ (Nat.mul_div_cancel' (hregular.way_dvd c)).symm

/-- One seated call: the table answers as the reference does, and stands for the
reference after the call. -/
theorem call (hregular : z.Regular) (h : Refines z s r) {call : Call} (haligned : call.Aligned)
    (hclock : s.systs + 1 < 2 ^ 32) (hseated : Seated s call.cache call.addr call.asid) :
    Returns call.run s fun hit s' =>
      hit = decide (call.key ∈ r call.cache (z.setOf call.cache call.addr)) ∧
        Refines z s' (r.call z call) ∧ s'.systs = s.systs + 1 := by
  have hset := h.start_eq_setOf hregular call.cache call.addr
  apply Call.returns
  · intro n
    have hcache := (h.caches call.cache).access .scNtlb n
    apply (lookup_returns hcache.fits call.addr call.asid).mono
    intro hit s' hlooked
    obtain ⟨hanswer, htouched⟩ :=
      hcache.looked (Call.key_ne_emptyKey haligned) hclock hseated hlooked
    rw [Sim.access_geometry, hset] at hanswer htouched
    obtain ⟨i, e, rfl⟩ := hlooked.eq_use
    refine ⟨hanswer, ⟨h.geometry_eq, fun c => ?_⟩, rfl⟩
    by_cases hc : c = call.cache
    · subst hc
      rw [Reference.call, Reference.lookup, Function.update_self]
      exact htouched
    · rw [Reference.call, Reference.lookup, Function.update_of_ne hc]
      exact ((h.caches c).access .scNtlb n).use_other hc _ _ _ _ _
  · intro hit s' n hpost
    exact ⟨hpost.1, ⟨hpost.2.1.geometry_eq, fun c => (hpost.2.1.caches c).access .scNtlb n⟩,
      hpost.2.2⟩

/-- A run of seated calls is answered as by the reference. -/
theorem run (hregular : z.Regular) (calls : List Call) (h : Refines z s r)
    (haligned : ∀ call ∈ calls, call.Aligned) (hclock : s.systs + calls.length < 2 ^ 32)
    (hseated : SeatedRun calls s) :
    Returns (Simulator.answers calls) s fun hits s' =>
      hits = r.answers z calls ∧ Refines z s' (r.after z calls) ∧
        s' = calls.foldl (fun s call => call.after s) s := by
  induction calls generalizing s r with
  | nil => exact ⟨[], s, rfl, rfl, h, rfl⟩
  | cons call calls ih =>
      obtain ⟨hseatedCall, hseatedRest⟩ := hseated
      rw [List.length_cons] at hclock
      have hstep := h.call hregular (haligned call List.mem_cons_self) (by omega) hseatedCall
      obtain ⟨hit, s₁, hrun, hanswer, hrefines, hsysts⟩ := hstep
      have hafter : call.after s = s₁ := by rw [Call.after, hrun]
      rw [hafter] at hseatedRest
      have hrest := ih hrefines (fun call hmem => haligned call (List.mem_cons_of_mem _ hmem))
        (by omega) hseatedRest
      rw [Simulator.answers, Returns.bind_iff]
      refine ⟨hit, s₁, hrun, ?_⟩
      show Returns (Simulator.answers calls >>= fun hits => pure (hit :: hits)) s₁ _
      rw [Returns.bind_iff]
      apply hrest.mono
      rintro hits s' ⟨hhits, hfinal, hs'⟩
      rw [Returns.pure_iff]
      refine ⟨?_, hfinal, ?_⟩
      · rw [Reference.answers, hanswer, hhits]
      · rw [List.foldl_cons, hafter]
        exact hs'

end Refines

theorem seatedRun_append_singleton {calls : List Call} {call : Call} {s : Sim} :
    SeatedRun (calls ++ [call]) s ↔ SeatedRun calls s ∧
      Seated (calls.foldl (fun s call => call.after s) s) call.cache call.addr call.asid := by
  induction calls generalizing s with
  | nil => simp [SeatedRun]
  | cons first calls ih => simp [SeatedRun, ih, and_assoc]

theorem answers_append_returns_iff {xs ys : List Call} {s : Sim} {post : List Bool → Sim → Prop} :
    Returns (answers (xs ++ ys)) s post ↔
      Returns (answers xs) s fun hits s' =>
        Returns (answers ys) s' fun hits' s'' => post (hits ++ hits') s'' := by
  induction xs generalizing s post with
  | nil => simp [answers]
  | cons call xs ih =>
      simp only [List.cons_append, answers, Returns.bind_iff, Returns.pure_iff, ih]

theorem Reference.answers_append (z : Sizes) (r : Reference) (xs ys : List Call) :
    r.answers z (xs ++ ys) = r.answers z xs ++ (r.after z xs).answers z ys := by
  induction xs generalizing r with
  | nil => rfl
  | cons call xs ih =>
      rw [List.cons_append, Reference.answers, ih]
      rfl

/-- A call that is not seated misses, and so does the same call made again. -/
theorem not_seated_misses_twice {s : Sim} {call : Call}
    (hfits : (s.geometry call.cache).Fits cacheMaxEntries)
    (hseated : ¬ Seated s call.cache call.addr call.asid) :
    Returns (answers [call, call]) s fun hits _ => hits = [false, false] := by
  have hfirst : Returns call.run s fun hit s' => hit = false ∧
      s'.geometry call.cache = s.geometry call.cache ∧
      ∀ j ∈ s.slots call.cache call.addr, s'.tlb call.cache j = s.tlb call.cache j := by
    apply Call.returns
    · intro n
      apply (lookup_returns (s := s.access .scNtlb n) hfits call.addr call.asid).mono
      intro hit s' hlooked
      obtain ⟨hhit, htlb⟩ := hlooked.eq_of_not_seated hseated
      refine ⟨hhit, ?_, htlb⟩
      cases hlooked <;> rfl
    · exact fun hit s' n hpost => hpost
  have hsecond : ∀ s', s'.geometry call.cache = s.geometry call.cache →
      (∀ j ∈ s.slots call.cache call.addr, s'.tlb call.cache j = s.tlb call.cache j) →
      Returns call.run s' fun hit _ => hit = false := by
    intro s' hgeometry htlb
    apply Call.returns
    · intro n
      have hfits' : ((s'.access .scNtlb n).geometry call.cache).Fits cacheMaxEntries := by
        rw [Sim.access_geometry, hgeometry]
        exact hfits
      apply (lookup_returns hfits' call.addr call.asid).mono
      intro hit s'' hlooked
      cases hlooked with
      | hit j hmem htest =>
          rw [Sim.slots, Sim.access_geometry, hgeometry] at hmem
          rw [Sim.access_tlb, htlb j hmem] at htest
          exact absurd (Or.inl ⟨j, hmem, htest⟩) hseated
      | miss mi hfound => rfl
    · exact fun hit s' n hpost => hpost
  simp only [answers, Returns.bind_iff, Returns.pure_iff]
  apply hfirst.mono
  rintro hit s' ⟨rfl, hgeometry, htlb⟩
  apply (hsecond s' hgeometry htlb).mono
  rintro hit s'' rfl
  rfl

/-- The reference remembers the call it has just answered. -/
theorem Reference.answers_twice (z : Sizes) (r : Reference) {call : Call}
    (hway : 0 < z.way call.cache) : ∃ hit, r.answers z [call, call] = [hit, true] := by
  refine ⟨decide (call.key ∈ r call.cache (z.setOf call.cache call.addr)), ?_⟩
  rw [answers, answers, answers]
  congr 2
  rw [decide_eq_true_eq, Reference.call, lookup, Function.update_self, Function.update_self]
  obtain ⟨n, hn⟩ := Nat.exists_eq_succ_of_ne_zero hway.ne'
  rw [hn, Recency.touch, List.take_succ_cons]
  exact List.mem_cons_self

/-- From the state `flush_all` leaves, a run of seated calls is answered as the
set-associative LRU reference answers it. The condition is exact: where the next
call would not be seated, making it twice already tells the two apart. -/
theorem answers_eq_reference {z : Sizes} (hregular : z.Regular) (s : Sim) :
    (∀ calls : List Call, calls.length < 2 ^ 32 → (∀ call ∈ calls, call.Aligned) →
        SeatedRun calls (z.start s) →
        Returns (answers calls) (z.start s) fun hits _ =>
          hits = Reference.empty.answers z calls) ∧
      ∀ (calls : List Call) (call : Call), calls.length < 2 ^ 32 →
        (∀ call ∈ calls, call.Aligned) → SeatedRun calls (z.start s) →
        ¬ SeatedRun (calls ++ [call]) (z.start s) →
        Returns (answers (calls ++ [call, call])) (z.start s) fun hits _ =>
          hits ≠ Reference.empty.answers z (calls ++ [call, call]) := by
  have hstart := Refines.start hregular s
  have hzero : (z.start s).systs = 0 := rfl
  constructor
  · intro calls hlength haligned hseated
    apply (hstart.run hregular calls haligned (by omega) hseated).mono
    exact fun hits s' hpost => hpost.1
  · intro calls call hlength haligned hseated hnext
    rw [seatedRun_append_singleton, not_and] at hnext
    rw [answers_append_returns_iff]
    apply (hstart.run hregular calls haligned (by omega) hseated).mono
    rintro hits s' ⟨hhits, hrefines, hs'⟩
    have hunseated := hnext hseated
    rw [← hs'] at hunseated
    apply (not_seated_misses_twice (hrefines.caches call.cache).fits hunseated).mono
    rintro hits' s'' rfl heq
    obtain ⟨hit, htwice⟩ :=
      Reference.answers_twice z (Reference.empty.after z calls) (hregular.way_pos call.cache)
    rw [Reference.answers_append, hhits, List.append_cancel_left_eq, htwice] at heq
    simp at heq

/-- Two sets of two ways in every cache. -/
def twoByTwo : Sizes := ⟨4, 2, 4, 2⟩

theorem twoByTwo_regular : twoByTwo.Regular where
  way_dvd c := by cases c <;> decide
  sets_eq c := ⟨1, by cases c <;> rfl⟩
  size_le c := by cases c <;> decide

/-- Entry 0 is used before each refill of set 1, so that refill finds an older
slot in its own set: the run fills the set, hits in it, and replaces both of its
pages in the order of their last use. -/
theorem answers_eq_reference_twoByTwo :
    Returns (answers [.ntlbFind 0x0000#32, .ntlbFind 0x1000#32, .ntlbFind 0x3000#32,
        .ntlbFind 0x1000#32, .ntlbFind 0x0000#32, .ntlbFind 0x5000#32, .ntlbFind 0x3000#32])
      (twoByTwo.start .initial) fun hits _ =>
        hits = [false, false, false, true, true, false, false] :=
  (answers_eq_reference twoByTwo_regular .initial).1 _ (by decide) (by decide) (by decide)

/-- The first lookup of a page of set 1 in a flushed table refills entry 0, and
the second lookup of the page misses again. -/
theorem answers_ne_reference_twoByTwo :
    twoByTwo.Regular ∧ twoByTwo.sets .ntlb = 2 ∧ (Call.ntlbFind 0x1000#32).Aligned ∧
      (Returns (answers [.ntlbFind 0x1000#32, .ntlbFind 0x1000#32]) (twoByTwo.start .initial)
        fun hits _ => hits = [false, false]) ∧
      Reference.empty.answers twoByTwo [.ntlbFind 0x1000#32, .ntlbFind 0x1000#32] =
        [false, true] :=
  ⟨twoByTwo_regular, rfl, by decide, ⟨_, _, rfl, rfl⟩, by decide⟩

end TlbAnalyzer.Simulator
