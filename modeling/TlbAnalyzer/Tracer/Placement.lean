/-
# Where the tracer keeps its entries

A reference looks for its page in one set only, so an entry can be found again
only if it sits in the set of its own page. `Placed` says that every entry does,
and that no translation is held twice.

Hits and flushes keep this invariant. A refill keeps it when the reference is
`Seated`: the search is seeded with entry 0 of the whole table, and if no slot of
the set is older than entry 0, the page goes to entry 0, whichever set it belongs
to. That is also the only way in which the fast path for instruction fetches can
answer what the search would not.
-/

import TlbAnalyzer.Tracer.Steps

namespace TlbAnalyzer.Tracer

open Cache Math

variable {α : Type} {s s' : Globals α} {size set : ℕ}

/-! ## The invariant -/

/-- Every translation is held in its own set, and only once. -/
structure Placed (s : Globals α) : Prop where
  own_set : ∀ i < s.geometry.entries, Valid (s.slTlb i) →
    i % s.geometry.step = s.geometry.start ((s.slTlb i).va >>> 12)
  unique : ∀ i < s.geometry.entries, ∀ j < s.geometry.entries, Valid (s.slTlb i) →
    (s.slTlb i).va = (s.slTlb j).va → (s.slTlb i).asid = (s.slTlb j).asid → i = j

/-- The condition under which a reference keeps to its own set: its page is
there, or entry 0 belongs to the set, or some slot of the set was used before
entry 0. -/
def Seated (s : Globals α) (addr asid : BitVec 32) : Prop :=
  (∃ i ∈ s.geometry.slots (addr >>> 12), test addr asid (s.slTlb i) = true) ∨
    s.geometry.ScansOldest s.slTlb (addr >>> 12)

instance (s : Globals α) (addr asid : BitVec 32) : Decidable (Seated s addr asid) :=
  inferInstanceAs (Decidable (_ ∨ _))

namespace Placed

theorem mem_slots (hfits : s.geometry.Fits s.slCap) (h : Placed s) {i : ℕ}
    (hi : i < s.geometry.entries) {addr asid : BitVec 32} (haddr : addr.toNat % 4096 = 0)
    (htest : test addr asid (s.slTlb i) = true) : i ∈ s.geometry.slots (addr >>> 12) := by
  rw [Geometry.mem_slots_iff hfits]
  exact ⟨hi, (test_iff.mp htest).1 ▸ h.own_set i hi (.of_test haddr htest)⟩

theorem opened (tm : Tm) (fresh : ℕ → BitVec 32) : Placed (s.opened tm fresh) :=
  ⟨fun _ hi hvalid => absurd hvalid (Globals.not_valid_opened tm fresh hi),
    fun _ hi _ _ hvalid => absurd hvalid (Globals.not_valid_opened tm fresh hi)⟩

/-- Writing an entry into a slot of its own set, when no other slot holds the
same translation. -/
theorem write (hfits : s.geometry.Fits s.slCap) (h : Placed s) {i : ℕ} {e : TlbEntry}
    (hmem : i ∈ s.geometry.slots (e.va >>> 12))
    (hother : ∀ j < s.geometry.entries, (s.slTlb j).va = e.va → (s.slTlb j).asid = e.asid → j = i)
    (hgeometry : s'.geometry = s.geometry) (htlb : s'.slTlb = Function.update s.slTlb i e) :
    Placed s' := by
  constructor
  · intro j hj hvalid
    rw [hgeometry] at hj ⊢
    by_cases hji : j = i
    · rw [htlb, hji, Function.update_self]
      exact ((Geometry.mem_slots_iff hfits _ i).mp hmem).2
    · rw [htlb, Function.update_of_ne hji] at hvalid ⊢
      exact h.own_set j hj hvalid
  · intro j hj k hk hvalid hva hasid
    rw [hgeometry] at hj hk
    rw [htlb] at hvalid hva hasid
    by_cases hji : j = i <;> by_cases hki : k = i
    · rw [hji, hki]
    · rw [hji, Function.update_self, Function.update_of_ne hki] at hva hasid
      rw [hji, hother k hk hva.symm hasid.symm]
    · rw [hki, Function.update_self, Function.update_of_ne hji] at hva hasid
      rw [hki, hother j hj hva hasid]
    · rw [Function.update_of_ne hji] at hvalid hva hasid
      rw [Function.update_of_ne hki] at hva hasid
      exact h.unique j hj k hk hvalid hva hasid

/-- Removing translations keeps the others where they are. -/
theorem of_kept (h : Placed s) (hgeometry : s'.geometry = s.geometry)
    (hkept : ∀ i, Valid (s'.slTlb i) → s'.slTlb i = s.slTlb i) : Placed s' := by
  constructor
  · intro i hi hvalid
    have heq := hkept i hvalid
    rw [hgeometry] at hi ⊢
    rw [heq] at hvalid ⊢
    exact h.own_set i hi hvalid
  · intro i hi j hj hvalid hva hasid
    have hvalidj : Valid (s'.slTlb j) := by
      rw [Valid, ← hva]
      exact hvalid
    have heqi := hkept i hvalid
    have heqj := hkept j hvalidj
    rw [hgeometry] at hi hj
    rw [heqi, heqj] at hva hasid
    rw [heqi] at hvalid
    exact h.unique i hi j hj hvalid hva hasid

/-- A seated reference keeps every translation in its own set. -/
theorem referenced (hfits : s.geometry.Fits s.slCap) (hcap : s.slCap = s.geometry.entries)
    (h : Placed s) {addr asid : BitVec 32} {ins hit : Bool} (haddr : addr.toNat % 4096 = 0)
    (hseated : Seated s addr asid) (href : Referenced s addr asid ins hit s') : Placed s' := by
  -- a hit rewrites the entry it found, with a new stamp
  have hrestamp : ∀ i ∈ s.geometry.slots (addr >>> 12), test addr asid (s.slTlb i) = true →
      ∀ s₁ : Globals α, s₁.geometry = s.geometry →
        s₁.slTlb = Function.update s.slTlb i
          { s.slTlb i with ts := stampOf (s.systs + 1) } → Placed s₁ := by
    intro i hmem htest s₁ hgeometry htlb
    have hva := (test_iff.mp htest).1
    refine h.write hfits (by rw [hva]; exact hmem) ?_ hgeometry htlb
    intro j hj hvaj hasid
    have hi := Geometry.lt_entries_of_mem_slots hmem
    exact (h.unique i hi j hj (.of_test haddr htest) hvaj.symm hasid.symm).symm
  cases href with
  | fast hins hidx htest =>
      have hmem := h.mem_slots hfits (hcap ▸ hidx) haddr htest
      exact hrestamp _ hmem htest _ rfl rfl
  | hit i hmem htest => exact hrestamp i hmem htest _ (by simp) (by simp)
  | miss mi hfound =>
      have hnone := hfound.forall_of_miss
      have holdest := Geometry.scansOldest_of_miss hfound hseated
      have hmem := (Geometry.victim_mem_slots hfound holdest).1
      refine h.write (i := mi) (e := ⟨addr, asid, stampOf (s.systs + 1)⟩) hfits hmem ?_
        (by simp) (by simp)
      · intro j hj hva hasid
        have htest : test addr asid (s.slTlb j) = true := test_iff.mpr ⟨hva, hasid⟩
        rw [hnone j (h.mem_slots hfits hj haddr htest)] at htest
        exact absurd htest Bool.false_ne_true

end Placed

/-- The operations that keep the invariant. -/
def Op.Seated : Op α → Globals α → Prop
  | .refmem addr asid _ _, s => Tracer.Seated s (pageOf addr) asid
  | .flushAll, _ | .flushEntry _, _ | .flushAsid _, _ => True

instance (op : Op α) (s : Globals α) : Decidable (op.Seated s) :=
  match op with
  | .refmem addr asid _ _ => inferInstanceAs (Decidable (Tracer.Seated s (pageOf addr) asid))
  | .flushAll | .flushEntry _ | .flushAsid _ => .isTrue trivial

theorem Op.seated_of_isFlush {op : Op α} (h : op.isFlush = true) : op.Seated s := by
  cases op with
  | refmem _ _ _ _ => cases h
  | flushAll => trivial
  | flushEntry _ => trivial
  | flushAsid _ => trivial

theorem Placed.stepped {op : Op α} (hset : 1 ≤ set) (hle : set ≤ size) (hready : Ready s size set)
    (h : Placed s) (hseated : op.Seated s) (hstep : Stepped s op s') : Placed s' := by
  cases hstep with
  | @refmem addr asid ins arg hit s₁ _ href hrec =>
      have hplaced := h.referenced (hready.fits hset hle) hready.slCap_eq_entries
        (toNat_pageOf_mod addr) hseated href
      obtain ⟨_, _, _, rfl⟩ := hrec.eq_with
      exact hplaced.of_kept rfl fun i _ => rfl
  | flush _ _ => exact h.of_kept rfl fun i hvalid => (flushMatching_of_valid hvalid).1
  | idle _ _ => exact h

/-- A reference that is not seated misses, and puts its page into entry 0, outside
its set. -/
theorem Referenced.eq_of_not_seated (hfits : s.geometry.Fits s.slCap)
    (hcap : s.slCap = s.geometry.entries) (hplaced : Placed s) {addr asid : BitVec 32}
    {ins hit : Bool} (haddr : addr.toNat % 4096 = 0) (hseated : ¬ Seated s addr asid)
    (href : Referenced s addr asid ins hit s') :
    0 ∉ s.geometry.slots (addr >>> 12) ∧
      s' = (s.use false 0 { s.slTlb 0 with va := addr, asid := asid }).fetched ins 0 := by
  cases href with
  | fast hins hidx htest =>
      exact absurd (Or.inl ⟨_, hplaced.mem_slots hfits (hcap ▸ hidx) haddr htest, htest⟩) hseated
  | hit i hmem htest => exact absurd (Or.inl ⟨i, hmem, htest⟩) hseated
  | miss mi hfound =>
      obtain ⟨rfl, hzero⟩ := Geometry.victim_eq_zero hfound fun h => hseated (Or.inr h)
      exact ⟨hzero, rfl⟩

/-! ## Runs -/

/-- The globals after an operation. -/
def Op.after (op : Op α) (s : Globals α) : Globals α :=
  match op.run.run s with
  | .ok (_, s') => s'
  | .error _ => s

/-- Every operation of the run is seated in the globals it finds. -/
def SeatedRun : List (Op α) → Globals α → Prop
  | [], _ => True
  | op :: ops, s => op.Seated s ∧ SeatedRun ops (op.after s)

instance decidableSeatedRun : (ops : List (Op α)) → (s : Globals α) → Decidable (SeatedRun ops s)
  | [], _ => .isTrue trivial
  | op :: ops, s =>
      have := decidableSeatedRun ops (op.after s)
      inferInstanceAs (Decidable (_ ∧ _))

theorem seatedRun_append_singleton {ops : List (Op α)} {op : Op α} :
    SeatedRun (ops ++ [op]) s ↔
      SeatedRun ops s ∧ op.Seated (ops.foldl (fun s op => op.after s) s) := by
  induction ops generalizing s with
  | nil => simp [SeatedRun]
  | cons first ops ih => simp [SeatedRun, ih, and_assoc]

/-- A run of seated operations keeps the table in order. -/
theorem runOps_ensures (hset : 1 ≤ set) (hle : set ≤ size) (ops : List (Op α))
    (hrunning : Running s size set) (hplaced : Placed s) (hseated : SeatedRun ops s) :
    Ensures (runOps ops) s fun _ s' =>
      Running s' size set ∧ Placed s' ∧ s' = ops.foldl (fun s op => op.after s) s ∧
        (s.lastInsIdx < size → s'.lastInsIdx < size) := by
  induction ops generalizing s with
  | nil =>
      rw [runOps, List.forM, Ensures.pure_iff]
      exact ⟨hrunning, hplaced, rfl, id⟩
  | cons op ops ih =>
      have hfits := hrunning.fits hset hle
      rw [runOps, List.forM, Ensures.bind_iff]
      intro _ s₁ hrun
      have hstep := Op.run_ensures hfits op _ s₁ hrun
      have hafter : op.after s = s₁ := by rw [Op.after, hrun]
      have hrunning₁ := hrunning.stepped hstep
      have hrest := ih hrunning₁ (hplaced.stepped hset hle hrunning.toReady hseated.1 hstep)
        (hafter ▸ hseated.2)
      refine hrest.mono fun _ s' hs' => ?_
      refine ⟨hs'.1, hs'.2.1, ?_, fun hidx => hs'.2.2.2 ?_⟩
      · rw [List.foldl_cons, hafter]
        exact hs'.2.2.1
      · rw [← hrunning₁.slCap_eq]
        exact hstep.lastInsIdx_lt hfits (hrunning.slCap_eq.symm ▸ hidx)

/-- The same for a session that `tlbtrace_start` opens. -/
theorem session_ensures (hset : 1 ≤ set) (hle : set ≤ size) (hready : Ready s size set) (tm : Tm)
    (fresh : ℕ → BitVec 32) {ops : List (Op α)} (hseated : SeatedRun ops (s.opened tm fresh)) :
    Ensures (do tlbtraceStart tm fresh; runOps ops) s fun _ s' =>
      Running s' size set ∧ Placed s' ∧
        s' = ops.foldl (fun s op => op.after s) (s.opened tm fresh) ∧
        (s.lastInsIdx < size → s'.lastInsIdx < size) := by
  rw [Ensures.known_bind_iff (tlbtraceStart_returns hready tm fresh)]
  exact runOps_ensures hset hle ops (hready.opened tm fresh) (Placed.opened tm fresh) hseated

/-- One more operation in a session of seated ones. -/
theorem session_append_ensures (hset : 1 ≤ set) (hle : set ≤ size) (hready : Ready s size set)
    (tm : Tm) (fresh : ℕ → BitVec 32) {ops : List (Op α)} {op : Op α}
    (hseated : SeatedRun ops (s.opened tm fresh))
    (hnext : ¬ SeatedRun (ops ++ [op]) (s.opened tm fresh)) :
    Ensures (do tlbtraceStart tm fresh; runOps (ops ++ [op])) s fun _ s' =>
      ∃ s₁, Running s₁ size set ∧ Placed s₁ ∧ ¬ op.Seated s₁ ∧ Stepped s₁ op s' := by
  have hsplit : (do tlbtraceStart tm fresh; runOps (ops ++ [op]) : TraceM α Unit) =
      (do tlbtraceStart tm fresh; runOps ops) >>= fun _ => op.run := by
    simp [runOps]
  rw [hsplit, Ensures.bind_iff]
  refine (session_ensures hset hle hready tm fresh hseated).mono fun _ s₁ hs₁ => ?_
  obtain ⟨hrunning₁, hplaced₁, heq, _⟩ := hs₁
  have hunseated : ¬ op.Seated s₁ := by
    rw [heq]
    exact fun h => hnext (seatedRun_append_singleton.mpr ⟨hseated, h⟩)
  refine (Op.run_ensures (hrunning₁.fits hset hle) op).mono fun _ s' hstep => ?_
  exact ⟨s₁, hrunning₁, hplaced₁, hunseated, hstep⟩

/-- In a session of seated operations every translation is in its own set, where
the search can find it, and is held once. The condition is exact: the first
reference that is not seated leaves its page in a foreign set. -/
theorem session_placed (hset : 1 ≤ set) (hle : set ≤ size) (hready : Ready s size set) (tm : Tm)
    (fresh : ℕ → BitVec 32) :
    (∀ ops, SeatedRun ops (s.opened tm fresh) →
      Ensures (do tlbtraceStart tm fresh; runOps ops) s fun _ s' =>
        (∀ i < size, (s'.slTlb i).va ≠ 0xFFFFFFFF#32 →
          i % (size / set) =
            ((s'.slTlb i).va >>> 12 &&& (BitVec.ofNat 32 (size / set) - 1#32)).toNat) ∧
        ∀ i < size, ∀ j < size, (s'.slTlb i).va ≠ 0xFFFFFFFF#32 →
          (s'.slTlb i).va = (s'.slTlb j).va → (s'.slTlb i).asid = (s'.slTlb j).asid → i = j) ∧
      ∀ ops op, SeatedRun ops (s.opened tm fresh) →
        ¬ SeatedRun (ops ++ [op]) (s.opened tm fresh) →
        Ensures (do tlbtraceStart tm fresh; runOps (ops ++ [op])) s fun _ s' =>
          ∃ i < size, (s'.slTlb i).va ≠ 0xFFFFFFFF#32 ∧
            i % (size / set) ≠
              ((s'.slTlb i).va >>> 12 &&& (BitVec.ofNat 32 (size / set) - 1#32)).toNat := by
  constructor
  · intro ops hseated
    refine (session_ensures hset hle hready tm fresh hseated).mono fun _ s' hs' => ?_
    obtain ⟨hrunning', hplaced, _, _⟩ := hs'
    have hown := hplaced.own_set
    have hunique := hplaced.unique
    rw [hrunning'.geometry_eq] at hown hunique
    exact ⟨hown, hunique⟩
  · intro ops op hseated hnext
    refine (session_append_ensures hset hle hready tm fresh hseated hnext).mono fun _ s' hs' => ?_
    obtain ⟨s₁, hrunning₁, hplaced₁, hunseated, hstep⟩ := hs'
    cases hstep with
    | @refmem addr asid ins arg hit s₂ _ href hrec =>
        have hfits := hrunning₁.fits hset hle
        obtain ⟨hzero, rfl⟩ := href.eq_of_not_seated hfits hrunning₁.slCap_eq_entries hplaced₁
          (toNat_pageOf_mod addr) hunseated
        obtain ⟨_, _, _, rfl⟩ := hrec.eq_with
        refine ⟨0, by omega, ?_⟩
        simp only [Globals.fetched_slTlb, Globals.use_slTlb, Function.update_self]
        refine ⟨ne_of_aligned (toNat_pageOf_mod addr), fun heq => hzero ?_⟩
        rw [Geometry.mem_slots_iff hfits, hrunning₁.geometry_eq]
        exact ⟨lt_of_lt_of_le hset hle, heq⟩
    | flush hop _ => exact absurd (Op.seated_of_isFlush hop) hunseated
    | idle hop _ => exact absurd (Op.seated_of_isFlush hop) hunseated

/-- Two sets of two ways. -/
theorem session_placed_sampleOps :
    Returns (do tlbtraceStart sampleTm (fun _ => 0#32); runOps sampleOps) (sampleTracer 4 2)
      fun _ s' => ∀ i < 4, (s'.slTlb i).va ≠ 0xFFFFFFFF#32 →
        i % (4 / 2) = ((s'.slTlb i).va >>> 12 &&& (BitVec.ofNat 32 (4 / 2) - 1#32)).toNat := by
  have hready : Ready (sampleTracer 4 2) 4 2 := ⟨rfl, rfl⟩
  have hplaced := (session_placed (by decide) (by decide) hready sampleTm fun _ => 0#32).1
    sampleOps (by decide)
  have hreturns : Returns (do tlbtraceStart sampleTm (fun _ => 0#32); runOps sampleOps)
      (sampleTracer 4 2) fun _ _ => True := by decide +kernel
  exact (hreturns.and_ensures hplaced).mono fun _ _ h => h.2.1

/-- Two sets of one way: the first page of set 1 goes to entry 0, a slot of
set 0. -/
theorem session_misplaced_twoByOne :
    Ready (sampleTracer 2 1) 2 1 ∧
      Returns (do
          tlbtraceStart sampleTm fun _ => 0#32
          runOps [.refmem 0x1000#32 7#32 false ()])
        (sampleTracer 2 1) fun _ s' =>
          (s'.slTlb 0).va = 0x1000#32 ∧
            0 % (2 / 1) ≠
              ((s'.slTlb 0).va >>> 12 &&& (BitVec.ofNat 32 (2 / 1) - 1#32)).toNat :=
  ⟨⟨rfl, rfl⟩, by decide +kernel⟩

end TlbAnalyzer.Tracer
