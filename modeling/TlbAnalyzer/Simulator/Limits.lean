/-
# Sizes the simulator cannot simulate

`main` and `tlbsim_sim` pass sizes and associativities on without looking at them. The
tables have 512 entries each, and a lookup follows the geometry and not the table:
with a larger size it may read and refill what lies behind. With an associativity
above the size the stride is zero, and a lookup may never end.

Both are decided by the geometry of the caches that the simulation uses. A trace of one
record is enough to reach the bad case when there is one.
-/

import TlbAnalyzer.Cache.Partition
import TlbAnalyzer.Simulator.Runs

namespace TlbAnalyzer.Simulator

open Cache Math TraceFile

/-! ## The first lookups of a simulation -/

/-- A cache that has the geometry of a simulation and was just flushed. -/
structure Flushed (z : Sizes) (s : Sim) (c : CacheName) : Prop where
  geometry_eq : s.geometry c = .ofSizeWay (z.size c) (z.way c)
  tlb_eq : ∀ i < cacheMaxEntries, s.tlb c i = flushedEntry

/-- A trace of one walk, which ended at its first level descriptor. -/
def oneRecord (addr : BitVec 32) : List (BitVec 8) :=
  (TraceRecord.words ⟨1#32, addr, 0#32, 0#32⟩).flatMap wordBytes

/-- The identifier with which a cache is asked for a descriptor of the guest or for its
page. -/
def CacheName.guestAsid (c : CacheName) : BitVec 32 := if c.isPwc then 1#32 else 0#32

section

variable {z : Sizes} {cmd : SimCmd} {c : CacheName} {addr : BitVec 32} {s : Sim}
  {post : Fault → Prop}

theorem lookup_run_of_error {asid : BitVec 32} {failure : Fault}
    (h : (s.geometry c).find cacheMaxEntries (s.tlb c) (c.test addr asid) (c.index addr) =
      .error failure) : (lookup c addr asid).run s = .error failure := by
  show lookup c addr asid s = _
  rw [lookup, h]

/-- No key that is asked for first is in a flushed table. -/
theorem Flushed.test_eq_false (h : Flushed z s c)
    (haddr : c.isPwc = false → addr &&& 0xFFFFF000#32 = addr) :
    ∀ i < cacheMaxEntries, c.test addr c.guestAsid (s.tlb c i) = false := by
  intro i hi
  rw [h.tlb_eq i hi]
  have hkey : c.key addr c.guestAsid ≠ emptyKey := by
    cases hpwc : c.isPwc with
    | true =>
        rw [CacheName.key, if_pos hpwc, CacheName.guestAsid, if_pos hpwc]
        exact ne_emptyKey_of_guest addr
    | false =>
        have hpage := toNat_and_page_mod addr
        rw [haddr hpwc] at hpage
        rw [CacheName.key, hpwc]
        exact ne_emptyKey_of_word (by omega)
  apply Bool.eq_false_iff.mpr
  intro htest
  rw [CacheName.test_iff] at htest
  apply hkey
  rw [← htest]
  cases c <;> rfl

/-- A simulation of one record stops when the emulation of the record does. -/
theorem funcs_oneRecord_fails (h : Fails (cmd.emulate 1 addr 0#32 0#32) (cmd.start z s) post)
    (result : SimResult) :
    Fails (funcs cmd (oneRecord addr) z.ntlbSize z.ntlbWay z.pwcSize z.pwcWay result) s post := by
  have hrecords : readRecords (oneRecord addr) = [⟨1#32, addr, 0#32, 0#32⟩] := by
    have hwords := readRecords_of_words [⟨1#32, addr, 0#32, 0#32⟩]
    rwa [List.flatMap_singleton] at hwords
  have hlevel : TraceRecord.level ⟨1#32, addr, 0#32, 0#32⟩ = 1 := by
    show (1#32 &&& 0xF#32).toNat = 1
    decide
  rw [Fails, funcs_run, ← Fails, Fails.bind_iff, SimCmd.scripts, hrecords]
  left
  rw [List.map_singleton, List.forM, Fails.bind_iff, run_record, hlevel]
  exact Or.inl h

theorem onMiss_fails {call : SimM Bool} {body : SimM Unit}
    (h : Fails call s post ∨ Returns call s fun hit s' => hit = false ∧ Fails body s' post) :
    Fails (onMiss call body) s post := by
  rw [onMiss, Fails.bind_iff]
  refine h.imp_right fun hmiss => hmiss.mono fun hit s' hs' => ?_
  rw [whenever, if_pos hs'.1]
  exact hs'.2

/-- A simulation stops at the first lookup of a cache, if that lookup stops in a flushed
table and the lookup of a page walk cache before it, if there is one, does not hit. -/
theorem funcs_fails (huses : cmd.uses c = true)
    (haddr : c.isPwc = false → addr &&& 0xFFFFF000#32 = addr)
    (hfails : ∀ s, Flushed z s c → Fails (lookup c addr c.guestAsid) s post)
    (hothers : ∀ c' s, cmd.uses c' = true → c'.isPwc = true → Flushed z s c' →
      Fails (lookup c' addr c'.guestAsid) s post ∨
        Returns (lookup c' addr c'.guestAsid) s fun hit _ => hit = false)
    (result : SimResult) (s : Sim) :
    Fails (funcs cmd (oneRecord addr) z.ntlbSize z.ntlbWay z.pwcSize z.pwcWay result) s post := by
  have hflushed : ∀ c, cmd.uses c = true → Flushed z (cmd.start z s) c := fun _ huses =>
    ⟨SimCmd.configure_geometry huses z s, fun _ hi => if_pos hi⟩
  have hstart := hflushed c huses
  apply funcs_oneRecord_fails
  cases cmd with
  | scNtlb =>
      cases of_decide_eq_true huses
      rw [SimCmd.emulate, emulateNtlb2, haddr rfl, Fails.bind_iff]
      left
      have hdiscard : discard (tlbtraceNtlbFind2 addr false) =
        tlbtraceNtlbFind2 addr false >>= fun _ => pure () := rfl
      rw [hdiscard, Fails.bind_iff, tlbtraceNtlbFind2, Fails.bind_iff, whenever_true_iff rfl,
        Returns.modify_iff, Fails.bind_iff]
      exact Or.inl (Or.inr (Or.inl (hfails _ ⟨hstart.geometry_eq, hstart.tlb_eq⟩)))
  | scPwcEpt =>
      cases of_decide_eq_true huses
      rw [SimCmd.emulate, emulatePwc2, Fails.bind_iff]
      exact Or.inl (onMiss_fails (Or.inl (hfails _ hstart)))
  | scPwcNoept =>
      cases of_decide_eq_true huses
      rw [SimCmd.emulate, emulatePwc3, Fails.bind_iff]
      exact Or.inl (onMiss_fails (Or.inl (hfails _ hstart)))
  | scNtlbPwc =>
      rw [SimCmd.emulate, emulateFull, Fails.bind_iff]
      refine Or.inl (onMiss_fails ?_)
      have hc : c = .ntlb ∨ c = .pwc := by simpa [SimCmd.uses] using huses
      rcases hc with rfl | rfl
      · refine (hothers .pwc _ rfl rfl (hflushed .pwc rfl)).imp_right fun hmiss => ?_
        apply (hmiss.and_ensures (lookup_ensures _ _ _ _)).mono
        intro hit s₁ h₁
        refine ⟨h₁.1, ?_⟩
        rw [haddr rfl, Fails.bind_iff]
        refine Or.inl (onMiss_fails (Or.inl (hfails _ ?_)))
        -- the lookup in the page walk cache left the nested TLB alone
        rcases h₁.2 with ⟨i, e, rfl, -⟩
        refine ⟨hstart.geometry_eq, fun j hj => ?_⟩
        rw [Sim.use_tlb_of_ne _ _ _ _ _ _ (by decide)]
        exact hstart.tlb_eq j hj
      · exact Or.inl (hfails _ hstart)

end

/-! ## Staying inside the tables -/

/-- The number of index bits of a key. -/
def CacheName.indexBits (c : CacheName) : ℕ := if c.isPwc then 30 else 20

/-- Some entry behind the table belongs to the set of an address: its set number is made
of bits that the mask `size / way - 1` has, and of index bits. -/
def Overruns (bits size way : ℕ) : Prop :=
  ∃ i < size, cacheMaxEntries ≤ i ∧
    i % (size / way) &&& (size / way - 1) = i % (size / way) ∧ i % (size / way) < 2 ^ bits

instance (bits size way : ℕ) : Decidable (Overruns bits size way) :=
  inferInstanceAs (Decidable (∃ i < size, _))

section

variable {size way : ℕ} {c : CacheName}

/-- What the indices of a cache are. -/
theorem CacheName.toNat_index_lt (c : CacheName) (addr : BitVec 32) :
    (c.index addr).toNat < 2 ^ c.indexBits := by
  have haddr := addr.isLt
  cases hpwc : c.isPwc with
  | true =>
      rw [index, indexBits, hpwc, if_pos rfl, if_pos rfl, BitVec.toNat_ushiftRight,
        Nat.shiftRight_eq_div_pow]
      omega
  | false =>
      rw [index, indexBits, hpwc, if_neg (by decide), if_neg (by decide), BitVec.toNat_ushiftRight,
        Nat.shiftRight_eq_div_pow]
      omega

/-- Every index is that of some address, for the nested TLB that of a page. -/
theorem CacheName.exists_index_eq {x : ℕ} (hx : x < 2 ^ c.indexBits) :
    ∃ addr, (c.index addr).toNat = x ∧ (c.isPwc = false → addr &&& 0xFFFFF000#32 = addr) := by
  cases hpwc : c.isPwc with
  | true =>
      rw [indexBits, if_pos hpwc] at hx
      refine ⟨BitVec.ofNat 32 x <<< 2, ?_, fun h => absurd h Bool.true_eq_false.mp⟩
      rw [index, if_pos hpwc]
      exact toNat_shiftLeft_ushiftRight (by omega)
  | false =>
      rw [indexBits, hpwc, if_neg Bool.false_ne_true] at hx
      refine ⟨BitVec.ofNat 32 x <<< 12, ?_, fun _ => ?_⟩
      · rw [index, hpwc, if_neg Bool.false_ne_true]
        exact toNat_shiftLeft_ushiftRight (by omega)
      · have hmask : 0xFFFFF000#32 = BitVec.allOnes 32 <<< 12 := by decide
        rw [hmask, ← BitVec.shiftLeft_and_distrib, BitVec.and_allOnes]

/-- The sets of a geometry that does not overrun are inside the table. -/
theorem lt_of_not_overruns (hway : 1 ≤ way) (hle : way ≤ size) (hlt : size < 2 ^ 31)
    (h : ¬ Overruns c.indexBits size way) (addr : BitVec 32) :
    ∀ i ∈ (Geometry.ofSizeWay size way).slots (c.index addr), i < cacheMaxEntries := by
  have hstep : 0 < size / way := Nat.div_pos hle hway
  have hfits : (Geometry.ofSizeWay size way).Fits size :=
    Geometry.ofSizeWay_fits hway hle (le_refl size)
  intro i hi
  rw [Geometry.mem_slots_iff hfits, Geometry.start_eq_and hstep (by omega)] at hi
  rcases hi with ⟨hsize, hmod⟩
  change i % (size / way) = _ at hmod
  refine Nat.lt_of_not_le fun hge => h ⟨i, hsize, hge, ?_, ?_⟩
  · rw [hmod, Nat.and_assoc, Nat.and_self]
  · rw [hmod]
    exact lt_of_le_of_lt Nat.and_le_left (c.toNat_index_lt addr)

/-- A geometry that overruns has a set that is not. -/
theorem exists_slot_of_overruns (hway : 1 ≤ way) (hle : way ≤ size) (hlt : size < 2 ^ 31)
    (h : Overruns c.indexBits size way) :
    ∃ addr, (c.isPwc = false → addr &&& 0xFFFFF000#32 = addr) ∧
      ∃ i ∈ (Geometry.ofSizeWay size way).slots (c.index addr), cacheMaxEntries ≤ i := by
  have hstep : 0 < size / way := Nat.div_pos hle hway
  have hfits : (Geometry.ofSizeWay size way).Fits size :=
    Geometry.ofSizeWay_fits hway hle (le_refl size)
  rcases h with ⟨i, hsize, hge, hmask, hbits⟩
  rcases c.exists_index_eq hbits with ⟨addr, hindex, haddr⟩
  refine ⟨addr, haddr, i, ?_, hge⟩
  rw [Geometry.mem_slots_iff hfits, Geometry.start_eq_and hstep (by omega), hindex, hmask]
  exact ⟨hsize, rfl⟩

end

/-- Sizes and associativities as the simulator may be given them: for each cache that is
used, the associativity is at least one and at most the size, which is an `int`. -/
def Sizes.Given (z : Sizes) (cmd : SimCmd) : Prop :=
  ∀ c, cmd.uses c = true → 1 ≤ z.way c ∧ z.way c ≤ z.size c ∧ z.size c < 2 ^ 31

namespace Flushed

variable {z : Sizes} {s : Sim} {c : CacheName} {addr : BitVec 32}

/-- A first lookup of a set that is inside the table misses. -/
theorem lookup_returns (h : Flushed z s c) (hstep : 0 < z.size c / z.way c)
    (haddr : c.isPwc = false → addr &&& 0xFFFFF000#32 = addr)
    (hinside : ∀ i ∈ s.slots c addr, i < cacheMaxEntries) :
    Returns (lookup c addr c.guestAsid) s fun hit _ => hit = false := by
  have hstep' : 0 < (s.geometry c).step := by
    rw [h.geometry_eq]
    exact hstep
  apply (lookup_returns_of_lt hstep' hinside c.guestAsid).mono
  intro hit s' hlooked
  cases hlooked with
  | hit i hmem htest =>
      rw [h.test_eq_false haddr i (hinside i hmem)] at htest
      exact absurd htest Bool.false_ne_true
  | miss mi _ => rfl

/-- A first lookup of a set that is not leaves the table. -/
theorem lookup_fails (h : Flushed z s c) (hstep : 0 < z.size c / z.way c)
    (haddr : c.isPwc = false → addr &&& 0xFFFFF000#32 = addr)
    (hout : ∃ i ∈ s.slots c addr, cacheMaxEntries ≤ i) :
    Fails (lookup c addr c.guestAsid) s fun failure => ∃ i, failure = .outOfBounds i := by
  have hstep' : 0 < (s.geometry c).step := by
    rw [h.geometry_eq]
    exact hstep
  rcases Geometry.find_outOfBounds (by decide) hstep' (h.test_eq_false haddr) hout with ⟨i, hi⟩
  exact ⟨_, lookup_run_of_error hi, i, rfl⟩

/-- With a stride of zero the lookup of address 0 never ends. -/
theorem lookup_diverges (h : Flushed z s c) (hpos : 1 ≤ z.size c) (hlt : z.size c < z.way c) :
    Fails (lookup c 0#32 c.guestAsid) s fun failure => failure = .diverges := by
  have hstart : (s.geometry c).start (c.index 0#32) = 0 := by
    have hindex : c.index 0#32 = 0#32 := by cases c <;> rfl
    rw [hindex, Geometry.start, BitVec.zero_and]
    rfl
  have hstep : (s.geometry c).step = 0 := by
    rw [h.geometry_eq]
    exact Nat.div_eq_of_lt hlt
  have hentries : 0 < (s.geometry c).entries := by
    rw [h.geometry_eq]
    exact hpos
  refine ⟨_, lookup_run_of_error (Geometry.find_diverges hstep ?_ ?_ ?_), rfl⟩
  · rw [hstart]
    exact hentries
  · rw [hstart]
    decide
  · rw [hstart]
    exact h.test_eq_false (fun _ => BitVec.zero_and) 0 (by decide)

end Flushed

section

variable {z : Sizes} {cmd : SimCmd}

theorem Sizes.Given.step_pos (hgiven : z.Given cmd) {c : CacheName} (huses : cmd.uses c = true) :
    0 < z.size c / z.way c :=
  Nat.div_pos (hgiven c huses).2.1 (hgiven c huses).1

/-- A geometry that overruns makes a simulation of one record leave its table. -/
theorem exists_outOfBounds_of_overruns (hgiven : z.Given cmd) {c : CacheName}
    (huses : cmd.uses c = true) (hover : Overruns c.indexBits (z.size c) (z.way c)) :
    ∃ addr i, (funcs cmd (oneRecord addr) z.ntlbSize z.ntlbWay z.pwcSize z.pwcWay .zero).run
      .initial = .error (.outOfBounds i) := by
  rcases hgiven c huses with ⟨hway, hle, hlt⟩
  rcases exists_slot_of_overruns hway hle hlt hover with ⟨addr, haddr, hout⟩
  have hfails : ∀ s, Flushed z s c →
      Fails (lookup c addr c.guestAsid) s fun failure => ∃ i, failure = .outOfBounds i := by
    intro s hs
    apply hs.lookup_fails (hgiven.step_pos huses) haddr
    rw [Sim.slots, hs.geometry_eq]
    exact hout
  -- the lookups before it either miss or leave their own table
  have hothers : ∀ c' s, cmd.uses c' = true → c'.isPwc = true → Flushed z s c' →
      (Fails (lookup c' addr c'.guestAsid) s fun failure => ∃ i, failure = .outOfBounds i) ∨
        Returns (lookup c' addr c'.guestAsid) s fun hit _ => hit = false := by
    intro c' s huses' hpwc hs
    have haddr' : c'.isPwc = false → addr &&& 0xFFFFF000#32 = addr := fun hntlb =>
      absurd (hpwc.symm.trans hntlb) (by decide)
    by_cases hout' : ∃ i ∈ s.slots c' addr, cacheMaxEntries ≤ i
    · exact Or.inl (hs.lookup_fails (hgiven.step_pos huses') haddr' hout')
    · refine Or.inr (hs.lookup_returns (hgiven.step_pos huses') haddr' fun i hi => ?_)
      exact Nat.lt_of_not_le fun hge => hout' ⟨i, hi, hge⟩
  rcases funcs_fails huses haddr hfails hothers .zero .initial with ⟨_, hrun, i, rfl⟩
  exact ⟨addr, i, hrun⟩

/-- Without such a geometry every simulation comes to its end. -/
theorem funcs_returns_of_not_overruns (hgiven : z.Given cmd)
    (h : ∀ c, cmd.uses c = true → ¬ Overruns c.indexBits (z.size c) (z.way c))
    (trace : List (BitVec 8)) (result : SimResult) (s : Sim) :
    Returns (funcs cmd trace z.ntlbSize z.ntlbWay z.pwcSize z.pwcWay result) s
      fun _ _ => True := by
  have hkept : Kept cmd (readRecords trace) fun s =>
      ∀ c, cmd.uses c = true → s.geometry c = .ofSizeWay (z.size c) (z.way c) := by
    refine ⟨fun s cmd' n hs => hs, ?_⟩
    intro t _ c addr asid huses _ s hs
    rcases hgiven c huses with ⟨hway, hle, hlt⟩
    have hinside : ∀ i ∈ s.slots c addr, i < cacheMaxEntries := by
      rw [Sim.slots, hs c huses]
      exact lt_of_not_overruns hway hle hlt (h c huses) addr
    have hstep : 0 < (s.geometry c).step := by
      rw [hs c huses]
      exact hgiven.step_pos huses
    apply (lookup_returns_of_lt hstep hinside asid).mono
    intro hit s' hlooked
    rcases hlooked.eq_use with ⟨i, e, rfl⟩
    exact hs
  exact (hkept.funcs (fun s hs => hs) result s).mono fun _ _ _ => trivial

end

/-- No simulation leaves the tables, whatever the trace, if and only if none of the
geometries it uses overruns. -/
theorem funcs_inside_iff {z : Sizes} {cmd : SimCmd} (hgiven : z.Given cmd) :
    (∀ trace result s i,
      (funcs cmd trace z.ntlbSize z.ntlbWay z.pwcSize z.pwcWay result).run s ≠
        .error (.outOfBounds i)) ↔
      ∀ c, cmd.uses c = true → ¬ Overruns c.indexBits (z.size c) (z.way c) := by
  constructor
  · intro h c huses hover
    rcases exists_outOfBounds_of_overruns hgiven huses hover with ⟨addr, i, hrun⟩
    exact h (oneRecord addr) .zero .initial i hrun
  · intro h trace result s i hrun
    rcases funcs_returns_of_not_overruns hgiven h trace result s with ⟨_, _, hok, -⟩
    cases hrun.symm.trans hok

/-- A size above 512 that stays inside: of the 513 entries of seven ways the last one is
in no set that the mask selects. -/
theorem funcs_inside_iff_sevenWays :
    Sizes.Given ⟨513, 7, 0, 0⟩ .scNtlb ∧ ∀ trace result s i,
      (funcs .scNtlb trace 513 7 0 0 result).run s ≠ .error (.outOfBounds i) := by
  have hgiven : Sizes.Given ⟨513, 7, 0, 0⟩ .scNtlb := by
    intro c huses
    cases of_decide_eq_true huses
    exact ⟨by decide, by decide, by decide⟩
  refine ⟨hgiven, (funcs_inside_iff hgiven).mpr ?_⟩
  intro c huses
  cases of_decide_eq_true huses
  decide +kernel

/-- A direct mapped nested TLB of 1024 entries: page 512 is looked up behind the table. -/
theorem funcs_outOfBounds_directMapped :
    (funcs .scNtlb (oneRecord 0x200000#32) 1024 1 0 0 .zero).run .initial =
      .error (.outOfBounds 512) := by
  rfl

/-! ## Ending -/

/-- A cache with fewer entries than ways makes a simulation of one record run forever. -/
theorem funcs_diverges_of_lt {z : Sizes} {cmd : SimCmd}
    (hsize : ∀ c, 1 ≤ z.size c ∧ z.size c ≤ 512) (hway : ∀ c, 1 ≤ z.way c) {c : CacheName}
    (huses : cmd.uses c = true) (hlt : z.size c < z.way c) :
    (funcs cmd (oneRecord 0#32) z.ntlbSize z.ntlbWay z.pwcSize z.pwcWay .zero).run .initial =
      .error .diverges := by
  have hfails : ∀ c' s, z.size c' < z.way c' → Flushed z s c' →
      Fails (lookup c' 0#32 c'.guestAsid) s fun failure => failure = .diverges :=
    fun c' s hlt' hs => hs.lookup_diverges (hsize c').1 hlt'
  have hothers : ∀ c' s, cmd.uses c' = true → c'.isPwc = true → Flushed z s c' →
      (Fails (lookup c' 0#32 c'.guestAsid) s fun failure => failure = .diverges) ∨
        Returns (lookup c' 0#32 c'.guestAsid) s fun hit _ => hit = false := by
    intro c' s _ _ hs
    by_cases hle : z.way c' ≤ z.size c'
    · right
      apply hs.lookup_returns (Nat.div_pos hle (hway c')) fun _ => BitVec.zero_and
      intro i hi
      have hentries := Geometry.lt_entries_of_mem_slots hi
      rw [hs.geometry_eq] at hentries
      exact lt_of_lt_of_le hentries (hsize c').2
    · exact Or.inl (hfails c' s (Nat.lt_of_not_le hle) hs)
  rcases funcs_fails huses (fun _ => BitVec.zero_and) (fun s hs => hfails c s hlt hs) hothers .zero
    .initial with ⟨_, hrun, rfl⟩
  exact hrun

/-- With the one associativity that `tlbsim_sim` passes on, no lookup of a simulation
runs forever, whatever the trace, if and only if each cache that is used has at least as
many entries as ways. -/
theorem funcs_ends_iff {ntlbSize pwcSize way : ℕ} (hntlb : 1 ≤ ntlbSize ∧ ntlbSize ≤ 512)
    (hpwc : 1 ≤ pwcSize ∧ pwcSize ≤ 512) (hway : 1 ≤ way) (cmd : SimCmd) :
    (∀ trace result s,
      (funcs cmd trace ntlbSize way pwcSize way result).run s ≠ .error .diverges) ↔
      ∀ c, cmd.uses c = true → way ≤ Sizes.size ⟨ntlbSize, way, pwcSize, way⟩ c := by
  set z : Sizes := ⟨ntlbSize, way, pwcSize, way⟩
  have hwayEq : ∀ c, z.way c = way := fun c => ite_self way
  have hsize : ∀ c, 1 ≤ z.size c ∧ z.size c ≤ 512 := by
    intro c
    rw [Sizes.size]
    split
    · exact hpwc
    · exact hntlb
  constructor
  · intro h c huses
    apply Nat.le_of_not_lt
    intro hlt
    rw [← hwayEq c] at hlt
    have hways : ∀ c', 1 ≤ z.way c' := fun c' => le_of_le_of_eq hway (hwayEq c').symm
    exact h (oneRecord 0#32) .zero .initial (funcs_diverges_of_lt hsize hways huses hlt)
  · intro h trace result s hrun
    have hvalid : z.ValidFor cmd := by
      intro c huses
      rw [hwayEq c]
      exact ⟨hway, h c huses, (hsize c).2⟩
    rcases funcs_returns hvalid trace result s with ⟨_, _, hok, -⟩
    cases hrun.symm.trans hok

/-- A page walk cache with fewer entries than ways does no harm to a simulation that does
not use it. -/
theorem funcs_ends_iff_fourWays :
    (∀ c, SimCmd.scNtlb.uses c = true → 4 ≤ Sizes.size ⟨8, 4, 2, 4⟩ c) ∧ ∀ trace result s,
      (funcs .scNtlb trace 8 4 2 4 result).run s ≠ .error .diverges := by
  have hways : ∀ c, SimCmd.scNtlb.uses c = true → 4 ≤ Sizes.size ⟨8, 4, 2, 4⟩ c := by
    intro c huses
    cases of_decide_eq_true huses
    decide
  exact ⟨hways, (funcs_ends_iff (by decide) (by decide) (by decide) .scNtlb).mpr hways⟩

/-- A nested TLB of two entries beside a traced TLB of four ways: page 0 is looked up
forever. -/
theorem funcs_diverges_fourWays :
    (funcs .scNtlb (oneRecord 0#32) 2 4 2 4 .zero).run .initial = .error .diverges := by
  rfl

end TlbAnalyzer.Simulator
