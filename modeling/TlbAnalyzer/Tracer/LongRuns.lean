/-
# Stamps against recency

The tracer's clock has 64 bits, but an entry keeps only 32 of them. With one set,
and as long as a session has made fewer than `2 ^ 32` references, stamps are times:
entries are ordered by them as by their last reference, and a miss replaces the
least recently referenced entry. The reference at time `2 ^ 32` is stamped 0, and
from then on the most recent entry can be the next one to be replaced.
-/

import TlbAnalyzer.Math.Recency
import TlbAnalyzer.Tracer.Placement
import TlbAnalyzer.Tracer.Recording

namespace TlbAnalyzer.Tracer

open Cache Math
open Recency (LastAt LessRecent)

variable {α : Type} {s s' : Globals α} {size : ℕ}

/-! ## References and their order -/

/-- The translation that an entry holds. -/
def translation (e : TlbEntry) : BitVec 32 × BitVec 32 := (e.va, e.asid)

theorem references_append_refmem (ops : List (Op α)) (addr asid : BitVec 32) (ins : Bool)
    (arg : α) :
    references (ops ++ [.refmem addr asid ins arg]) = references ops ++ [(pageOf addr, asid)] := by
  simp [references, Op.translation]

theorem references_append_flush (ops : List (Op α)) {op : Op α} (hop : op.isFlush = true) :
    references (ops ++ [op]) = references ops := by
  cases op with
  | refmem => cases hop
  | flushAll => simp [references, Op.translation]
  | flushEntry va => simp [references, Op.translation]
  | flushAsid asid => simp [references, Op.translation]

/-- The stamp of every entry that is not flushed is the time of its last reference. -/
structure Aged (s : Globals α) (refs : List (BitVec 32 × BitVec 32)) : Prop where
  systs_eq : s.systs = refs.length
  last : ∀ i < s.geometry.entries, Valid (s.slTlb i) →
    LastAt refs (translation (s.slTlb i)) (s.slTlb i).ts

/-! ## One set -/

/-- With one set every slot is in the set of every page. -/
theorem Ready.mem_slots (hsize : 1 ≤ size) (h : Ready s size size) (index : BitVec 32) {i : ℕ} :
    i ∈ s.geometry.slots index ↔ i < size := by
  have hfits := h.fits hsize (le_refl size)
  have hstep : s.geometry.step = 1 := by
    rw [h.geometry_eq]
    exact Nat.div_self hsize
  have hstart := Geometry.start_lt_step hfits index
  rw [Geometry.mem_slots_iff hfits, h.entries_eq, hstep, Nat.mod_one]
  omega

/-- So every reference is seated. -/
theorem Ready.seated (hsize : 1 ≤ size) (h : Ready s size size) (addr asid : BitVec 32) :
    Seated s addr asid :=
  Or.inr (Or.inl ((h.mem_slots hsize _).mpr hsize))

/-- A reference stamps one slot for its page, and no other slot holds the page. -/
theorem Referenced.eq_update (hsize : 1 ≤ size) (hready : Ready s size size) (hplaced : Placed s)
    {addr asid : BitVec 32} {ins hit : Bool} (haddr : addr.toNat % 4096 = 0)
    (href : Referenced s addr asid ins hit s') :
    ∃ i < size, s'.slTlb = Function.update s.slTlb i ⟨addr, asid, stampOf (s.systs + 1)⟩ ∧
      ∀ j < size, j ≠ i → translation (s.slTlb j) ≠ (addr, asid) := by
  have hentries := hready.entries_eq
  have hcap := hready.slCap_eq
  -- a hit stamps the slot that holds the page, and it is held only once
  have hfound : ∀ i < size, test addr asid (s.slTlb i) = true →
      { s.slTlb i with ts := stampOf (s.systs + 1) } = ⟨addr, asid, stampOf (s.systs + 1)⟩ ∧
        ∀ j < size, j ≠ i → translation (s.slTlb j) ≠ (addr, asid) := by
    intro i hi htest
    rcases test_iff.mp htest with ⟨hva, hasid⟩
    refine ⟨by simp only [hva, hasid], fun j hj hne heq => hne ?_⟩
    rcases Prod.mk.inj heq with ⟨hvaj, hasidj⟩
    exact (hplaced.unique i (hentries ▸ hi) j (hentries ▸ hj) (.of_test haddr htest)
      (hva.trans hvaj.symm) (hasid.trans hasidj.symm)).symm
  cases href with
  | fast hins hidx htest =>
      have hlt : s.lastInsIdx < size := hcap ▸ hidx
      rcases hfound _ hlt htest with ⟨heq, hother⟩
      exact ⟨s.lastInsIdx, hlt, by rw [Globals.use_slTlb, heq], hother⟩
  | hit i hmem htest =>
      have hlt : i < size := (hready.mem_slots hsize _).mp hmem
      rcases hfound i hlt htest with ⟨heq, hother⟩
      exact ⟨i, hlt, by rw [Globals.fetched_slTlb, Globals.use_slTlb, heq], hother⟩
  | miss mi hsearched =>
      have hmem := (Geometry.victim_mem_slots hsearched
        (Geometry.scansOldest_of_miss hsearched (hready.seated hsize addr asid))).1
      refine ⟨mi, (hready.mem_slots hsize _).mp hmem,
        by rw [Globals.fetched_slTlb, Globals.use_slTlb], fun j hj _ heq => ?_⟩
      have htest : test addr asid (s.slTlb j) = true := test_iff.mpr (Prod.mk.inj heq)
      rw [hsearched.forall_of_miss j ((hready.mem_slots hsize _).mpr hj)] at htest
      exact Bool.false_ne_true htest

namespace Aged

variable {refs : List (BitVec 32 × BitVec 32)}

theorem opened (tm : Tm) (fresh : ℕ → BitVec 32) : Aged (s.opened tm fresh) [] where
  systs_eq := rfl
  last _ hi hvalid := absurd hvalid (Globals.not_valid_opened tm fresh hi)

theorem referenced (hsize : 1 ≤ size) (hready : Ready s size size) (hplaced : Placed s)
    (h : Aged s refs) {addr asid : BitVec 32} {ins hit : Bool} (haddr : addr.toNat % 4096 = 0)
    (hclock : refs.length + 1 < 2 ^ 32) (href : Referenced s addr asid ins hit s') :
    Aged s' (refs ++ [(addr, asid)]) := by
  rcases href.eq_update hsize hready hplaced haddr with ⟨i, hi, htlb, hother⟩
  refine ⟨by rw [href.systs_eq, h.systs_eq, List.length_append, List.length_singleton], ?_⟩
  intro j hj hvalid
  rw [href.geometry_eq, hready.entries_eq] at hj
  by_cases hji : j = i
  · rw [htlb, hji, Function.update_self, h.systs_eq, stampOf_of_lt hclock]
    exact .append_self refs (addr, asid)
  · rw [htlb, Function.update_of_ne hji] at hvalid ⊢
    exact (h.last j (hready.entries_eq ▸ hj) hvalid).append_of_ne (hother j hj hji).symm

theorem of_kept (h : Aged s refs) (hgeometry : s'.geometry = s.geometry)
    (hsysts : s'.systs = s.systs) (hkept : ∀ i, Valid (s'.slTlb i) → s'.slTlb i = s.slTlb i) :
    Aged s' refs := by
  refine ⟨hsysts.trans h.systs_eq, fun i hi hvalid => ?_⟩
  have heq := hkept i hvalid
  rw [heq] at hvalid ⊢
  exact h.last i (hgeometry ▸ hi) hvalid

/-- One operation. -/
theorem stepped (hsize : 1 ≤ size) (hready : Ready s size size) (hplaced : Placed s)
    {ops : List (Op α)} {op : Op α} (h : Aged s (references ops))
    (hclock : (references (ops ++ [op])).length < 2 ^ 32) (hstep : Stepped s op s') :
    Aged s' (references (ops ++ [op])) := by
  cases hstep with
  | @refmem addr asid ins arg hit s₁ _ href hrec =>
      rw [references_append_refmem] at hclock ⊢
      rw [List.length_append, List.length_singleton] at hclock
      have haged := h.referenced hsize hready hplaced (toNat_pageOf_mod addr) hclock href
      rcases hrec.eq_with with ⟨_, _, _, rfl⟩
      exact haged.of_kept rfl rfl fun _ _ => rfl
  | flush hop _ =>
      rw [references_append_flush ops hop]
      exact h.of_kept rfl rfl fun i hvalid => (flushMatching_of_valid hvalid).1
  | idle hop _ =>
      rw [references_append_flush ops hop]
      exact h

/-- Entries are ordered by their stamps as by their last reference. -/
theorem ts_lt_iff (h : Aged s refs) {i j : ℕ} (hi : i < s.geometry.entries)
    (hj : j < s.geometry.entries) (hvalid : Valid (s.slTlb i)) (hvalid' : Valid (s.slTlb j)) :
    (s.slTlb i).ts < (s.slTlb j).ts ↔
      LessRecent refs (translation (s.slTlb i)) (translation (s.slTlb j)) :=
  (h.last i hi hvalid).lt_iff (h.last j hj hvalid')

/-- A miss in a table without flushed entries replaces the least recently referenced
entry. -/
theorem victim (hsize : 1 ≤ size) (hready : Ready s size size) (hplaced : Placed s)
    (h : Aged s refs) (hfull : ∀ i < size, Valid (s.slTlb i)) {addr asid : BitVec 32} {ins : Bool}
    (href : Referenced s addr asid ins false s') :
    ∃ mi < size, s'.slTlb = Function.update s.slTlb mi ⟨addr, asid, stampOf (s.systs + 1)⟩ ∧
      ∀ j < size, j ≠ mi →
        LessRecent refs (translation (s.slTlb mi)) (translation (s.slTlb j)) := by
  have hentries := hready.entries_eq
  cases href with
  | miss mi hsearched =>
      rcases Geometry.victim_mem_slots hsearched
        (Geometry.scansOldest_of_miss hsearched (hready.seated hsize addr asid)) with ⟨hmem, hleast⟩
      have hmi : mi < size := (hready.mem_slots hsize _).mp hmem
      refine ⟨mi, hmi, by rw [Globals.fetched_slTlb, Globals.use_slTlb], fun j hj hne => ?_⟩
      have hle := hleast j ((hready.mem_slots hsize _).mpr hj)
      have hlastmi := h.last mi (hentries ▸ hmi) (hfull mi hmi)
      have hlastj := h.last j (hentries ▸ hj) (hfull j hj)
      -- two entries have different stamps, since they hold different translations
      have hts : (s.slTlb mi).ts ≠ (s.slTlb j).ts := by
        intro heq
        rw [heq] at hlastmi
        rcases Prod.mk.inj (hlastmi.eq_of_time hlastj) with ⟨hva, hasid⟩
        have hsame := hplaced.unique mi (hentries ▸ hmi) j (hentries ▸ hj) (hfull mi hmi) hva hasid
        exact hne hsame.symm
      exact (hlastmi.lt_iff hlastj).mp (lt_of_le_of_ne hle hts)

end Aged

/-! ## Sessions -/

/-- The operations of a session with one set, as long as stamps are times. -/
theorem Running.aged_ensures (hsize : 1 ≤ size) (h : Running s size size) (hplaced : Placed s)
    (haged : Aged s []) (ops : List (Op α)) :
    Ensures (runOps ops) s fun _ s' => Running s' size size ∧ Placed s' ∧
      ((references ops).length < 2 ^ 32 → Aged s' (references ops)) := by
  apply h.ensures_of_stepped hsize (le_refl size) fun handled s' => Placed s' ∧
    ((references handled).length < 2 ^ 32 → Aged s' (references handled))
  · intro handled op s₁ s₂ hrunning hinv hstep
    rcases hinv with ⟨hplaced₁, haged₁⟩
    have hseated : op.Seated s₁ := by
      cases op with
      | refmem addr asid ins arg => exact hrunning.toReady.seated hsize _ _
      | flushAll => trivial
      | flushEntry va => trivial
      | flushAsid asid => trivial
    refine ⟨hplaced₁.stepped hsize (le_refl size) hrunning.toReady hseated hstep, fun hclock => ?_⟩
    have hle : (references handled).length ≤ (references (handled ++ [op])).length := by
      rw [references, references, List.filterMap_append, List.length_append]
      exact Nat.le_add_right _ _
    exact (haged₁ (lt_of_le_of_lt hle hclock)).stepped hsize hrunning.toReady hplaced₁ hclock hstep
  · exact ⟨hplaced, fun _ => haged⟩

/-- The stamps of a table with one set after some operations: of two entries the one with
the smaller stamp was referenced less recently, and a miss replaces the least recently
referenced entry when none is flushed. -/
structure LruTable (size : ℕ) (ops : List (Op α)) (s' : Globals α) : Prop where
  ts_lt_iff : ∀ i < size, ∀ j < size, Valid (s'.slTlb i) → Valid (s'.slTlb j) →
    ((s'.slTlb i).ts < (s'.slTlb j).ts ↔
      LessRecent (references ops) (translation (s'.slTlb i)) (translation (s'.slTlb j)))
  victim : (∀ i < size, Valid (s'.slTlb i)) → ∀ addr asid ins,
    Ensures (tlbtraceRefmemSl (pageOf addr) asid ins) s' fun hit s'' => hit = false →
      ∃ mi < size, s''.slTlb =
          Function.update s'.slTlb mi ⟨pageOf addr, asid, stampOf (s'.systs + 1)⟩ ∧
        ∀ j < size, j ≠ mi → LessRecent (references ops) (translation (s'.slTlb mi))
          (translation (s'.slTlb j))

/-- With one set, every state of a session that has made fewer than `2 ^ 32` references
has its stamps in the order of use. This holds of every session that ends. Every such session
ends, and so does the next reference, when the last instruction fetch before it used a slot
that exists: a stale `last_ins_idx` makes the fast path read outside the table. -/
theorem session_lru (hsize : 1 ≤ size) (hready : Ready s size size) (tm : Tm)
    (fresh : ℕ → BitVec 32) (ops : List (Op α)) (hrefs : (references ops).length < 2 ^ 32) :
    (Ensures (do tlbtraceStart tm fresh; runOps ops) s fun _ s' => LruTable size ops s') ∧
      (s.lastInsIdx < size → Returns (do tlbtraceStart tm fresh; runOps ops) s fun _ s' =>
        LruTable size ops s' ∧ ∀ addr asid ins,
          Returns (tlbtraceRefmemSl (pageOf addr) asid ins) s' fun _ _ => True) := by
  have hstart := tlbtraceStart_returns hready tm fresh
  have hopened := hready.opened tm fresh
  have hrun : Ensures (runOps ops) (s.opened tm fresh) fun _ s' =>
      Running s' size size ∧ LruTable size ops s' := by
    refine (hopened.aged_ensures hsize (Placed.opened tm fresh) (Aged.opened tm fresh) ops).mono
      fun _ s' hs' => ?_
    rcases hs' with ⟨hrunning, hplaced, haged⟩
    have haged' := haged hrefs
    have hentries := hrunning.toReady.entries_eq
    refine ⟨hrunning, fun i hi j hj => haged'.ts_lt_iff (hentries ▸ hi) (hentries ▸ hj), ?_⟩
    intro hfull addr asid ins hit s'' hsl hmiss
    have href := (tlbtraceRefmemSl_ensures (hrunning.fits hsize (le_refl size)) hit s'' hsl).1
    rw [hmiss] at href
    exact haged'.victim hsize hrunning.toReady hplaced hfull href
  constructor
  · rw [Ensures.known_bind_iff hstart]
    exact hrun.mono fun _ s' hs' => hs'.2
  · intro hidx
    have hlimit : (2 : ℕ) ^ 32 < refLimit := by decide
    rw [Returns.known_bind_iff hstart]
    have hreturns := (Logged.opened s tm fresh).runOps_returns hsize (le_refl size) ops hopened
      hidx (by omega)
    apply (hreturns.and_ensures hrun).mono
    rintro _ s' ⟨⟨hidx', hsysts⟩, hrunning, hlru⟩
    refine ⟨hlru, fun addr asid ins => ?_⟩
    apply (tlbtraceRefmemSl_returns (hrunning.fits hsize (le_refl size))
      (hrunning.slCap_eq ▸ hidx') (by omega)).mono
    exact fun _ _ _ => trivial

/-- One page, another one, and the first one again. -/
def twoPageOps : List (Op Unit) :=
  [.refmem 0x1000#32 7#32 true (), .refmem 0x2000#32 7#32 false (), .refmem 0x1000#32 7#32 true ()]

/-- A table of two entries: the stamps tell which page to replace. -/
theorem session_lru_twoPageOps :
    Returns (do tlbtraceStart sampleTm (fun _ => 0#32); runOps twoPageOps) (sampleTracer 2 2)
      fun _ s' => LessRecent [(0x1000#32, 7#32), (0x2000#32, 7#32), (0x1000#32, 7#32)]
        (translation (s'.slTlb 1)) (translation (s'.slTlb 0)) := by
  have hready : Ready (sampleTracer 2 2) 2 2 := ⟨rfl, rfl⟩
  have hlru := (session_lru (by decide) hready sampleTm (fun _ => 0#32) twoPageOps (by decide)).2
    (by decide)
  have hstamps : Returns (do tlbtraceStart sampleTm (fun _ => 0#32); runOps twoPageOps)
      (sampleTracer 2 2) fun _ s' => Valid (s'.slTlb 0) ∧ Valid (s'.slTlb 1) ∧
        (s'.slTlb 1).ts < (s'.slTlb 0).ts := by decide +kernel
  apply (hlru.and_ensures hstamps.ensures).mono
  rintro _ s' ⟨⟨hlru', -⟩, hvalid, hvalid', hts⟩
  exact (hlru'.ts_lt_iff 1 (by decide) 0 (by decide) hvalid' hvalid).mp hts

/-! ## After `2 ^ 32` references -/

/-- Many references to one page, then one to another. -/
def longRefs (n : ℕ) : List (Ref Unit) :=
  List.replicate n ⟨0x1000#32, 7#32, false, ()⟩ ++ [⟨0x2000#32, 7#32, false, ()⟩]

theorem longRefs_forM (n : ℕ) : (longRefs n).forM Ref.run =
    (List.replicate n ⟨0x1000#32, 7#32, false, ()⟩).forM Ref.run >>= fun _ =>
      List.forM [⟨0x2000#32, 7#32, false, ()⟩] Ref.run :=
  List.forM_append

/-- The references as operations of a session. -/
def Ref.op (r : Ref α) : Op α := .refmem r.addr r.asid r.ins r.arg

theorem runOps_map_op (refs : List (Ref α)) : runOps (refs.map Ref.op) = refs.forM Ref.run := by
  induction refs with
  | nil => rfl
  | cons r refs ih =>
      rw [List.map_cons, runOps, List.forM, List.forM]
      exact congrArg _ (funext fun _ => ih)

/-- A table of two entries after `n` references to the page in its first one. -/
structure Repeated (s : Globals Unit) (n : ℕ) : Prop where
  running : Running s 2 2
  systs_eq : s.systs = n
  first : s.slTlb 0 = ⟨0x1000#32, 7#32, stampOf n⟩
  second : s.slTlb 1 = flushedEntry

section

variable {s s' : Globals Unit} {n : ℕ}

/-- What a reference did to the table and the clock. -/
theorem Stepped.exists_referenced {r : Ref Unit} (h : Stepped s r.op s') :
    ∃ hit s₁, Referenced s (pageOf r.addr) r.asid r.ins hit s₁ ∧ s'.slTlb = s₁.slTlb ∧
      s'.systs = s.systs + 1 := by
  cases h with
  | @refmem _ _ _ _ hit s₁ _ href hrec =>
      rcases hrec.eq_with with ⟨_, _, _, rfl⟩
      exact ⟨hit, s₁, href, rfl, href.systs_eq⟩
  | flush hop _ => cases hop
  | idle hop _ => cases hop

/-- The first reference fills the first entry. -/
theorem Repeated.of_opened {s₀ : Globals Unit} (hready : Ready s₀ 2 2) (tm : Tm)
    (fresh : ℕ → BitVec 32)
    (hstep : Stepped (s₀.opened tm fresh) (Ref.op ⟨0x1000#32, 7#32, false, ()⟩) s') :
    Repeated s' 1 := by
  have hopened := hready.opened tm fresh
  have hflushed : ∀ i < 2, (s₀.opened tm fresh).slTlb i = flushedEntry :=
    fun i hi => Globals.opened_slTlb tm fresh (hready.entries_eq.symm ▸ hi)
  have hmem : ∀ {i : ℕ} {index : BitVec 32},
      i ∈ (s₀.opened tm fresh).geometry.slots index ↔ i < 2 :=
    hopened.toReady.mem_slots (by decide) _
  rcases hstep.exists_referenced with ⟨hit, s₁, href, htlb, hsysts⟩
  have hupdate : s₁.slTlb = Function.update (s₀.opened tm fresh).slTlb 0
      ⟨0x1000#32, 7#32, stampOf 1⟩ := by
    cases href with
    | fast hins _ _ => cases hins
    | hit i hslot htest =>
        rw [hflushed i (hmem.mp hslot)] at htest
        exact absurd htest (by decide)
    | miss mi hsearched =>
        cases hsearched with
        | older _ _ hslot hlt _ =>
            rw [hflushed mi (hmem.mp hslot), hflushed 0 (by decide)] at hlt
            exact absurd hlt (lt_irrefl _)
        | seed _ _ => rfl
  refine ⟨hopened.stepped hstep, hsysts, ?_, ?_⟩
  · rw [htlb, hupdate, Function.update_self]
  · rw [htlb, hupdate, Function.update_of_ne (by decide)]
    exact hflushed 1 (by decide)

/-- Every further reference to the page stamps the first entry again. -/
theorem Repeated.again (h : Repeated s n)
    (hstep : Stepped s (Ref.op ⟨0x1000#32, 7#32, false, ()⟩) s') : Repeated s' (n + 1) := by
  have hmem : ∀ {i : ℕ} {index : BitVec 32}, i ∈ s.geometry.slots index ↔ i < 2 :=
    h.running.toReady.mem_slots (by decide) _
  have hpage : test (pageOf 0x1000#32) 7#32 (s.slTlb 0) = true := by
    rw [h.first]
    rfl
  rcases hstep.exists_referenced with ⟨hit, s₁, href, htlb, hsysts⟩
  have hupdate : s₁.slTlb = Function.update s.slTlb 0
      ⟨0x1000#32, 7#32, stampOf (n + 1)⟩ := by
    cases href with
    | fast hins _ _ => cases hins
    | hit i hslot htest =>
        have hi : i = 0 := by
          by_contra hne
          have hone : i = 1 := by
            have := hmem.mp hslot
            omega
          rw [hone, h.second] at htest
          exact absurd htest (by decide)
        rw [hi, Globals.fetched_slTlb, Globals.use_slTlb, h.first, h.systs_eq]
    | miss mi hsearched =>
        rw [hsearched.forall_of_miss 0 (hmem.mpr (by decide))] at hpage
        exact absurd hpage Bool.false_ne_true
  refine ⟨h.running.stepped hstep, by rw [hsysts, h.systs_eq], ?_, ?_⟩
  · rw [htlb, hupdate, Function.update_self]
  · rw [htlb, hupdate, Function.update_of_ne (by decide), h.second]

/-- The other page fills the second entry. -/
theorem Repeated.other (h : Repeated s n) (hts : 0 < stampOf n)
    (hstep : Stepped s (Ref.op ⟨0x2000#32, 7#32, false, ()⟩) s') :
    s'.systs = n + 1 ∧ s'.slTlb 0 = ⟨0x1000#32, 7#32, stampOf n⟩ ∧
      s'.slTlb 1 = ⟨0x2000#32, 7#32, stampOf (n + 1)⟩ := by
  have hmem : ∀ {i : ℕ} {index : BitVec 32}, i ∈ s.geometry.slots index ↔ i < 2 :=
    h.running.toReady.mem_slots (by decide) _
  have hcases : ∀ {i : ℕ} {index : BitVec 32}, i ∈ s.geometry.slots index → i = 0 ∨ i = 1 := by
    intro i index hslot
    have := hmem.mp hslot
    omega
  rcases hstep.exists_referenced with ⟨hit, s₁, href, htlb, hsysts⟩
  have hupdate : s₁.slTlb = Function.update s.slTlb 1
      ⟨0x2000#32, 7#32, stampOf (n + 1)⟩ := by
    cases href with
    | fast hins _ _ => cases hins
    | hit i hslot htest =>
        rcases hcases hslot with rfl | rfl
        · rw [h.first] at htest
          exact absurd htest (by simp [test, pageOf])
        · rw [h.second] at htest
          exact absurd htest (by decide)
    | miss mi hsearched =>
        cases hsearched with
        | older _ _ hslot hlt _ =>
            rcases hcases hslot with rfl | rfl
            · exact absurd hlt (lt_irrefl _)
            · rw [Globals.fetched_slTlb, Globals.use_slTlb, h.systs_eq]
              rfl
        | seed _ hleast =>
            have hle := hleast 1 (hmem.mpr (by decide))
            rw [h.first, h.second] at hle
            exact absurd hts (Nat.not_lt.mpr hle)
  refine ⟨by rw [hsysts, h.systs_eq], ?_, ?_⟩
  · rw [htlb, hupdate, Function.update_of_ne (by decide), h.first]
  · rw [htlb, hupdate, Function.update_self]

/-- Many references to the first page. -/
theorem Repeated.replicate (h : Repeated s n) (k : ℕ) :
    Ensures ((List.replicate k ⟨0x1000#32, 7#32, false, ()⟩).forM Ref.run) s fun _ s' =>
      Repeated s' (n + k) := by
  induction k generalizing s n with
  | zero =>
      rw [List.replicate_zero, List.forM, Ensures.pure_iff]
      exact h
  | succ k ih =>
      have hfits := h.running.fits (by decide) (le_refl 2)
      rw [List.replicate_succ, List.forM, Ensures.bind_iff]
      refine (Op.run_ensures hfits (Ref.op ⟨0x1000#32, 7#32, false, ()⟩)).mono fun _ s₁ hstep => ?_
      rw [Nat.add_comm k, ← Nat.add_assoc]
      exact ih (h.again hstep)

/-- Many references to the first page and one to the other. -/
theorem Repeated.longRefs (h : Repeated s n) (k : ℕ) (hts : 0 < stampOf (n + k)) :
    Ensures ((longRefs k).forM Ref.run) s fun _ s' => s'.systs = n + k + 1 ∧
      s'.slTlb 0 = ⟨0x1000#32, 7#32, stampOf (n + k)⟩ ∧
      s'.slTlb 1 = ⟨0x2000#32, 7#32, stampOf (n + k + 1)⟩ := by
  rw [longRefs_forM, Ensures.bind_iff]
  refine (h.replicate k).mono fun _ s₁ h₁ => ?_
  have hfits := h₁.running.fits (by decide) (le_refl 2)
  rw [List.forM, Ensures.bind_iff]
  refine (Op.run_ensures hfits (Ref.op ⟨0x2000#32, 7#32, false, ()⟩)).mono fun _ s₂ hstep => ?_
  rw [List.forM, Ensures.pure_iff]
  exact h₁.other hts hstep

/-- The same from the start of a session. -/
theorem longRefs_ensures {s₀ : Globals Unit} (hready : Ready s₀ 2 2) (tm : Tm)
    (fresh : ℕ → BitVec 32) (k : ℕ) (hts : 0 < stampOf (k + 1)) :
    Ensures ((longRefs (k + 1)).forM Ref.run) (s₀.opened tm fresh) fun _ s' =>
      s'.systs = k + 2 ∧ s'.slTlb 0 = ⟨0x1000#32, 7#32, stampOf (k + 1)⟩ ∧
        s'.slTlb 1 = ⟨0x2000#32, 7#32, stampOf (k + 2)⟩ := by
  have hfits := (hready.opened tm fresh).fits (by decide) (le_refl 2)
  rw [longRefs, List.replicate_succ, List.cons_append, List.forM, Ensures.bind_iff]
  refine (Op.run_ensures hfits (Ref.op ⟨0x1000#32, 7#32, false, ()⟩)).mono fun _ s₁ hstep => ?_
  have hlong := (Repeated.of_opened hready tm fresh hstep).longRefs k (by rwa [Nat.add_comm 1 k])
  rw [Nat.add_comm 1 k] at hlong
  exact hlong

theorem longRefs_returns {s₀ : Globals Unit} (hready : Ready s₀ 2 2) (hidx : s₀.lastInsIdx < 2)
    (tm : Tm) (fresh : ℕ → BitVec 32) {k : ℕ} (hk : k + 1 < refLimit) :
    Returns ((longRefs k).forM Ref.run) (s₀.opened tm fresh) fun _ s' => s'.lastInsIdx < 2 := by
  have hlength : (longRefs k).length = k + 1 := by simp [longRefs]
  have hrunning := hready.opened tm fresh
  exact (Logged.opened s₀ tm fresh).run_returns (by decide) (le_refl 2) _ hrunning hidx (by omega)

end

theorem references_longRefs (k : ℕ) : references ((longRefs k).map Ref.op) =
    List.replicate k (0x1000#32, 7#32) ++ [(0x2000#32, 7#32)] := by
  have hpage : Op.translation (Ref.op ⟨0x1000#32, 7#32, false, ()⟩) = some (0x1000#32, 7#32) := rfl
  rw [references, longRefs, List.map_append, List.map_replicate, List.filterMap_append,
    List.filterMap_replicate_of_some hpage]
  rfl

/-- A table of two entries. A page is referenced `2 ^ 32 - 1` times, then another one:
its stamp is 0, and its entry counts as the older one. -/
theorem session_notLru_longRefs :
    Returns (do
        tlbtraceStart sampleTm fun _ => 0#32
        runOps ((longRefs (2 ^ 32 - 1)).map Ref.op)) (sampleTracer 2 2) fun _ s' =>
      s'.systs < refLimit ∧ Valid (s'.slTlb 0) ∧ Valid (s'.slTlb 1) ∧
        (s'.slTlb 1).ts < (s'.slTlb 0).ts ∧
        ¬ LessRecent (references ((longRefs (2 ^ 32 - 1)).map Ref.op))
          (translation (s'.slTlb 1)) (translation (s'.slTlb 0)) := by
  have hready : Ready (sampleTracer 2 2) 2 2 := ⟨rfl, rfl⟩
  have hk : 2 ^ 32 - 1 = 4294967294 + 1 := by decide
  rw [runOps_map_op, references_longRefs, hk,
    Returns.known_bind_iff (tlbtraceStart_returns hready sampleTm fun _ => 0#32)]
  have hreturns := longRefs_returns hready (by decide) sampleTm (fun _ => 0#32)
    (by decide : 4294967294 + 1 + 1 < refLimit)
  have hensures := longRefs_ensures hready sampleTm (fun _ => 0#32) 4294967294 (by decide)
  apply (hreturns.and_ensures hensures).mono
  rintro _ s' ⟨-, hsysts, hfirst, hsecond⟩
  rw [hsysts, hfirst, hsecond]
  refine ⟨by decide, by decide, by decide, by decide, ?_⟩
  exact Recency.not_lessRecent_append_singleton _ _ _

end TlbAnalyzer.Tracer
