/-
# The fast path for instruction fetches

An instruction fetch first tests the slot that the last fetch used, whichever set
that slot belongs to, and only then searches its own set. Where every translation
is `Placed`, the shortcut is exact: the slot it tests is a slot of the set if it
matches at all, and no other slot matches.

An instruction fetch that is not seated breaks this at once. Its page then sits in
entry 0, where the fast path finds it and the search does not. A data reference that is
not seated misplaces its page too, but the fast path goes on testing the slot of the
last fetch, and the two need not differ.
-/

import TlbAnalyzer.Tracer.Placement

namespace TlbAnalyzer.Tracer

open Cache Math

variable {α : Type} {s s' s₁ s₂ : Globals α} {size set : ℕ}

/-- The same entries, the same clock and the same counters. -/
structure SameTlb (s₁ s₂ : Globals α) : Prop where
  slTlb_eq : s₁.slTlb = s₂.slTlb
  systs_eq : s₁.systs = s₂.systs
  slCnt_eq : s₁.slCnt = s₂.slCnt

/-- Two references answer the same and leave the same table, or both end the
process with the same table. -/
def Agrees : Except (Halt α) (Bool × Globals α) → Except (Halt α) (Bool × Globals α) → Prop
  | .ok (hit₁, s₁), .ok (hit₂, s₂) => hit₁ = hit₂ ∧ SameTlb s₁ s₂
  | .error (.exit s₁), .error (.exit s₂) => SameTlb s₁ s₂
  | _, _ => False

/-! ## Stopping at the limit -/

theorem SameTlb.closed {words₁ words₂ : ℕ → BitVec 32} (h : SameTlb s₁ s₂) :
    SameTlb (s₁.closed words₁) (s₂.closed words₂) := by
  have hframe : ∀ (s : Globals α) words, SameTlb s (s.closed words) := by
    intro s words
    rw [Globals.closed]
    split
    · obtain ⟨_, _, _, heq⟩ := (recorded_appendFile (s := s) _).eq_with
      rw [heq]
      exact ⟨rfl, rfl, rfl⟩
    · exact ⟨rfl, rfl, rfl⟩
  have h₁ := hframe s₁ words₁
  have h₂ := hframe s₂ words₂
  exact ⟨h₁.slTlb_eq ▸ h₂.slTlb_eq ▸ h.slTlb_eq, h₁.systs_eq ▸ h₂.systs_eq ▸ h.systs_eq,
    h₁.slCnt_eq ▸ h₂.slCnt_eq ▸ h.slCnt_eq⟩

/-- Where the process ends does not depend on the last instruction fetch. -/
theorem checkLimit_agrees (h : SameTlb s₁ s₂) (hlive₁ : s₁.fbuf.isLive = true)
    (hlive₂ : s₂.fbuf.isLive = true) : Agrees (checkLimit.run s₁) (checkLimit.run s₂) := by
  by_cases hlimit : s₁.systs < refLimit
  · rw [checkLimit_run hlimit, checkLimit_run (h.systs_eq ▸ hlimit)]
    exact ⟨rfl, h⟩
  · obtain ⟨words₁, hfbuf₁⟩ := Buffer.exists_of_isLive hlive₁
    obtain ⟨words₂, hfbuf₂⟩ := Buffer.exists_of_isLive hlive₂
    rw [checkLimit_exit hfbuf₁ (Nat.not_lt.mp hlimit),
      checkLimit_exit hfbuf₂ (h.systs_eq ▸ Nat.not_lt.mp hlimit)]
    exact h.closed

/-! ## One reference -/

theorem sameTlb_fetched (s : Globals α) (i : ℕ) :
    SameTlb (s.fetched true i) (s.fetched false i) := ⟨rfl, rfl, rfl⟩

/-- Where the table is in order, the shortcut is exact. -/
theorem tlbtraceRefmemSl_agrees (hset : 1 ≤ set) (hle : set ≤ size) (hrunning : Running s size set)
    (hidx : s.lastInsIdx < size) (hplaced : Placed s) {addr : BitVec 32} (asid : BitVec 32)
    (haddr : addr.toNat % 4096 = 0) :
    Agrees ((tlbtraceRefmemSl addr asid true).run s)
      ((tlbtraceRefmemSl addr asid false).run s) := by
  have hfits := hrunning.fits hset hle
  have hentries := hrunning.entries_eq
  have hcap := hrunning.slCap_eq
  obtain ⟨found, hfind, hfound⟩ := Geometry.find_spec hfits s.slTlb (test addr asid) (addr >>> 12)
  show Agrees (tlbtraceRefmemSl addr asid true s) (tlbtraceRefmemSl addr asid false s)
  have hpos : s.slCap ≠ 0 := by omega
  have hbound : ¬ s.slCap ≤ s.lastInsIdx := by omega
  simp only [tlbtraceRefmemSl, if_neg hpos, hfind, hbound, and_false, if_false, true_and,
    false_and, Bool.false_eq_true]
  by_cases hfast : test addr asid (s.slTlb s.lastInsIdx) = true
  · rw [if_pos hfast]
    have hmem := hplaced.mem_slots hfits (by omega) haddr hfast
    cases found with
    | hit i =>
        cases hfound with
        | hit i hmemi htest =>
            -- both slots hold the translation, so they are one slot
            obtain ⟨hva, hasid⟩ := test_iff.mp hfast
            obtain ⟨hvai, hasidi⟩ := test_iff.mp htest
            have hi : s.lastInsIdx = i := hplaced.unique _ (by omega) i
              (Geometry.lt_entries_of_mem_slots hmemi) (.of_test haddr hfast)
              (hva.trans hvai.symm) (hasid.trans hasidi.symm)
            rw [← hi]
            exact ⟨rfl, rfl, rfl, rfl⟩
    | miss mi =>
        rw [hfound.forall_of_miss _ hmem] at hfast
        exact absurd hfast Bool.false_ne_true
  · rw [if_neg hfast]
    cases found with
    | hit i => exact ⟨rfl, sameTlb_fetched _ i⟩
    | miss mi => exact checkLimit_agrees (sameTlb_fetched _ mi) hrunning.live hrunning.live

/-- After a fetch that was not seated, the shortcut finds the page in entry 0 and
the search does not. -/
theorem not_agrees_of_not_seated (hset : 1 ≤ set) (hle : set ≤ size)
    (hrunning : Running s size set) (hplaced : Placed s) {addr asid : BitVec 32} {hit : Bool}
    (haddr : addr.toNat % 4096 = 0) (hseated : ¬ Seated s addr asid)
    (href : Referenced s addr asid true hit s₁) (hrec : Recorded s₁ s') :
    ¬ Agrees ((tlbtraceRefmemSl addr asid true).run s')
      ((tlbtraceRefmemSl addr asid false).run s') := by
  have hfits := hrunning.fits hset hle
  obtain ⟨hzero, rfl⟩ :=
    href.eq_of_not_seated hfits hrunning.slCap_eq_entries hplaced haddr hseated
  have hafter : s'.geometry = s.geometry ∧ s'.slCap = s.slCap ∧ s'.lastInsIdx = 0 ∧
      s'.slTlb = Function.update s.slTlb 0 ⟨addr, asid, stampOf (s.systs + 1)⟩ := by
    obtain ⟨_, _, _, heq⟩ := hrec.eq_with
    rw [heq]
    exact ⟨rfl, rfl, rfl, rfl⟩
  obtain ⟨hgeometry, hslCap, hlast, htlb⟩ := hafter
  have hpos : 0 < s'.slCap := by
    rw [hslCap, hrunning.slCap_eq]
    exact lt_of_lt_of_le hset hle
  have htest : test addr asid (s'.slTlb s'.lastInsIdx) = true := by
    rw [hlast, htlb, Function.update_self]
    exact test_iff.mpr ⟨rfl, rfl⟩
  have hfast : (tlbtraceRefmemSl addr asid true).run s' =
      .ok (true, s'.use true s'.lastInsIdx (s'.slTlb s'.lastInsIdx)) := by
    show tlbtraceRefmemSl addr asid true s' = _
    rw [tlbtraceRefmemSl, if_neg hpos.ne', if_neg (by omega), if_pos ⟨rfl, htest⟩]
  rw [hfast]
  cases hslow : (tlbtraceRefmemSl addr asid false).run s' with
  | error halt => cases halt <;> exact id
  | ok result =>
      obtain ⟨hit', s''⟩ := result
      rintro ⟨rfl, _⟩
      have hfits' : s'.geometry.Fits s'.slCap := by
        rw [hgeometry, hslCap]
        exact hfits
      obtain ⟨hslowRef, _⟩ := tlbtraceRefmemSl_ensures hfits' _ _ hslow
      cases hslowRef with
      | fast hins _ _ => cases hins
      | hit i hmem htesti =>
          rw [hgeometry] at hmem
          have hi : i ≠ 0 := fun h => hzero (h ▸ hmem)
          rw [htlb, Function.update_of_ne hi] at htesti
          exact hseated (Or.inl ⟨i, hmem, htesti⟩)

/-! ## Sessions -/

/-- In a session of seated operations an instruction fetch may take the fast path
or not: the answer, the entries, the clock and the counters are the same. For
instruction fetches the condition is exact: after seated operations a fetch that is
not makes the next fetch of its page hit on the fast path and miss in the search. -/
theorem session_fastPath (hset : 1 ≤ set) (hle : set ≤ size) (hready : Ready s size set)
    (hidx : s.lastInsIdx < size) (tm : Tm) (fresh : ℕ → BitVec 32) :
    (∀ ops, SeatedRun ops (s.opened tm fresh) →
      Ensures (do tlbtraceStart tm fresh; runOps ops) s fun _ s' =>
        ∀ addr asid : BitVec 32, addr.toNat % 4096 = 0 →
          Agrees ((tlbtraceRefmemSl addr asid true).run s')
            ((tlbtraceRefmemSl addr asid false).run s')) ∧
      ∀ ops addr asid arg, SeatedRun ops (s.opened tm fresh) →
        ¬ SeatedRun (ops ++ [.refmem addr asid true arg]) (s.opened tm fresh) →
        Ensures (do tlbtraceStart tm fresh; runOps (ops ++ [.refmem addr asid true arg])) s
          fun _ s' => ¬ Agrees ((tlbtraceRefmemSl (pageOf addr) asid true).run s')
            ((tlbtraceRefmemSl (pageOf addr) asid false).run s') := by
  constructor
  · intro ops hseated
    refine (session_ensures hset hle hready tm fresh hseated).mono fun _ s' hs' => ?_
    obtain ⟨hrunning, hplaced, _, hidx'⟩ := hs'
    intro addr asid haddr
    exact tlbtraceRefmemSl_agrees hset hle hrunning (hidx' hidx) hplaced asid haddr
  · intro ops addr asid arg hseated hnext
    refine (session_append_ensures hset hle hready tm fresh hseated hnext).mono fun _ s' hs' => ?_
    obtain ⟨s₁, hrunning₁, hplaced₁, hunseated, hstep⟩ := hs'
    cases hstep with
    | refmem href hrec =>
        exact not_agrees_of_not_seated hset hle hrunning₁ hplaced₁ (toNat_pageOf_mod addr)
          hunseated href hrec
    | flush hop _ => cases hop
    | idle hop _ => cases hop

/-- Two sets of two ways, with fetches of both sets and a flush. -/
theorem session_fastPath_sampleOps :
    Returns (do tlbtraceStart sampleTm (fun _ => 0#32); runOps sampleOps) (sampleTracer 4 2)
      fun _ s' => Agrees ((tlbtraceRefmemSl 0x1000#32 7#32 true).run s')
        ((tlbtraceRefmemSl 0x1000#32 7#32 false).run s') := by
  have hready : Ready (sampleTracer 4 2) 4 2 := ⟨rfl, rfl⟩
  have hagrees := (session_fastPath (by decide) (by decide) hready (by decide) sampleTm
    fun _ => 0#32).1 sampleOps (by decide)
  have hreturns : Returns (do tlbtraceStart sampleTm (fun _ => 0#32); runOps sampleOps)
      (sampleTracer 4 2) fun _ _ => True := by decide +kernel
  exact (hreturns.and_ensures hagrees).mono fun _ _ h => h.2 0x1000#32 7#32 (by decide)

/-- Two sets of one way: a page of set 1 is fetched. A second fetch hits on the
fast path, where a data reference misses. -/
theorem session_fastPath_differs_twoByOne :
    Ready (sampleTracer 2 1) 2 1 ∧ (sampleTracer 2 1).lastInsIdx = 0 ∧
      Returns (do
          tlbtraceStart sampleTm fun _ => 0#32
          runOps [.refmem 0x1000#32 7#32 true ()])
        (sampleTracer 2 1) fun _ s' =>
          (Returns (tlbtraceRefmemSl 0x1000#32 7#32 true) s' fun hit _ => hit = true) ∧
            Returns (tlbtraceRefmemSl 0x1000#32 7#32 false) s' fun hit _ => hit = false :=
  ⟨⟨rfl, rfl⟩, rfl, by decide +kernel⟩

end TlbAnalyzer.Tracer
