/-
# Every hit is earned

A hit reports a translation that the session has referenced before and that no
flush has invalidated since. The table does not remember either, so the invariant
is about the table and the operations so far: every entry that is not flushed has
such a reference behind it.

Unlike the placement of entries this needs no condition on the references. An
entry in a foreign set, or a second copy of one, is still an entry with a
reference behind it, and a flush looks at the whole table.

One thing from before the session matters. `last_ins_idx` is never reset, and where it
is not the number of a slot the first instruction fetch reads outside the table. No
answer of that read is called a hit here: it is a fault, and the run has no end.
-/

import TlbAnalyzer.Tracer.Recording

namespace TlbAnalyzer.Tracer

open Cache Math

variable {α : Type} {s s' : Globals α} {size set : ℕ} {ops : List (Op α)}
  {page asid : BitVec 32}

/-- Among the operations there is a reference to the page under the identifier,
and none of the later ones invalidates it. -/
def Fresh (ops : List (Op α)) (page asid : BitVec 32) : Prop :=
  ∃ before addr ins arg after, ops = before ++ .refmem addr asid ins arg :: after ∧
    pageOf addr = page ∧ ∀ op ∈ after, ¬ op.Invalidates page asid

namespace Fresh

theorem append {op : Op α} (h : Fresh ops page asid) (hop : ¬ op.Invalidates page asid) :
    Fresh (ops ++ [op]) page asid := by
  obtain ⟨before, addr, ins, arg, after, rfl, hpage, hafter⟩ := h
  refine ⟨before, addr, ins, arg, after ++ [op], by simp, hpage, ?_⟩
  intro later hlater
  rcases List.mem_append.mp hlater with hmem | hmem
  · exact hafter later hmem
  · rw [List.mem_singleton.mp hmem]
    exact hop

theorem of_refmem (ops : List (Op α)) (addr asid : BitVec 32) (ins : Bool) (arg : α) :
    Fresh (ops ++ [.refmem addr asid ins arg]) (pageOf addr) asid :=
  ⟨ops, addr, ins, arg, [], rfl, rfl, by simp⟩

end Fresh

/-- Every entry that is not flushed has a reference behind it, and flushes are
effective. -/
structure AllFresh (s : Globals α) (ops : List (Op α)) : Prop where
  started : s.started = true
  fresh : ∀ i < s.geometry.entries, Valid (s.slTlb i) →
    Fresh ops (s.slTlb i).va (s.slTlb i).asid

/-- A reference changes the translation of at most one slot, to its own. -/
theorem Referenced.translation_eq {addr : BitVec 32} {ins hit : Bool}
    (h : Referenced s addr asid ins hit s') (i : ℕ) :
    ((s'.slTlb i).va = (s.slTlb i).va ∧ (s'.slTlb i).asid = (s.slTlb i).asid) ∨
      ((s'.slTlb i).va = addr ∧ (s'.slTlb i).asid = asid) := by
  have hrestamp : ∀ j, (Function.update s.slTlb j
        { s.slTlb j with ts := stampOf (s.systs + 1) } i).va = (s.slTlb i).va ∧
      (Function.update s.slTlb j
        { s.slTlb j with ts := stampOf (s.systs + 1) } i).asid = (s.slTlb i).asid := by
    intro j
    by_cases hij : i = j
    · subst hij
      simp
    · simp [hij]
  cases h with
  | fast _ _ _ => exact Or.inl (hrestamp s.lastInsIdx)
  | hit j _ _ =>
      rw [Globals.fetched_slTlb]
      exact Or.inl (hrestamp j)
  | miss mi _ =>
      rw [Globals.fetched_slTlb, Globals.use_slTlb]
      by_cases himi : i = mi
      · subst himi
        exact Or.inr (by simp)
      · exact Or.inl (by simp [himi])

namespace AllFresh

theorem opened (hstarted : s.started = true) (tm : Tm) (fresh : ℕ → BitVec 32) :
    AllFresh (s.opened tm fresh) ([] : List (Op α)) :=
  ⟨hstarted, fun _ hi hvalid => absurd hvalid (Globals.not_valid_opened tm fresh hi)⟩

theorem stepped {op : Op α} (h : AllFresh s ops) (hstep : Stepped s op s') :
    AllFresh s' (ops ++ [op]) := by
  cases hstep with
  | @refmem addr asid ins arg hit s₁ _ href hrec =>
      obtain ⟨_, _, _, rfl⟩ := hrec.eq_with
      refine ⟨href.started_eq.trans h.started, fun i hi hvalid => ?_⟩
      show Fresh _ (s₁.slTlb i).va (s₁.slTlb i).asid
      rcases href.translation_eq i with ⟨hva, hasid⟩ | ⟨hva, hasid⟩
      · rw [hva, hasid]
        refine (h.fresh i (href.geometry_eq ▸ hi) ?_).append id
        rw [Valid, ← hva]
        exact hvalid
      · rw [hva, hasid]
        exact Fresh.of_refmem ops addr asid ins arg
  | flush hop _ =>
      refine ⟨h.started, fun i hi hvalid => ?_⟩
      obtain ⟨hkept, hclears⟩ := flushMatching_of_valid hvalid
      show Fresh _ (flushMatching op.clears s.geometry.entries s.slTlb i).va
        (flushMatching op.clears s.geometry.entries s.slTlb i).asid
      rw [hkept]
      refine (h.fresh i hi (hkept ▸ hvalid)).append fun hinvalidates => hclears ⟨hi, ?_⟩
      exact Op.clears_iff.mpr hinvalidates
  | idle hop hstarted =>
      rw [h.started] at hstarted
      cases hstarted

/-- A hit is a hit on an entry. -/
theorem of_hit (hready : Ready s size set) (h : AllFresh s ops) {addr : BitVec 32}
    {ins : Bool} (haddr : addr.toNat % 4096 = 0)
    (href : Referenced s addr asid ins true s') : Fresh ops addr asid := by
  have hentry : ∀ i < s.geometry.entries, test addr asid (s.slTlb i) = true →
      Fresh ops addr asid := by
    intro i hi htest
    obtain ⟨hva, hasid⟩ := test_iff.mp htest
    have hfresh := h.fresh i hi (.of_test haddr htest)
    rw [hva, hasid] at hfresh
    exact hfresh
  cases href with
  | fast _ hidx htest =>
      exact hentry _ (hready.slCap_eq_entries ▸ hidx) htest
  | hit i hmem htest => exact hentry i (Geometry.lt_entries_of_mem_slots hmem) htest

end AllFresh

/-- No stale and no phantom hit: in a session that `tlbtrace_toggle` opened, every
hit has an earlier reference to the same page under the same identifier, and no
flush in between invalidated it. A flush leaves every entry it does not invalidate
as it was. This holds of every run that ends, and every run ends that stays below the
limit, when the last instruction fetch before the session used a slot that exists: a stale
`last_ins_idx` makes the fast path read outside the table. -/
theorem session_hit_fresh (hset : 1 ≤ set) (hle : set ≤ size) (hready : Ready s size set)
    (hstarted : s.started = false) (tm : Tm) (fresh : ℕ → BitVec 32) :
    (∀ ops : List (Op α), Ensures (do tlbtraceToggle tm fresh; runOps ops) s fun _ s' =>
      ∀ (addr asid : BitVec 32) (ins : Bool) (s'' : Globals α),
        (tlbtraceRefmemSl (pageOf addr) asid ins).run s' = .ok (true, s'') →
        ∃ before addr' ins' arg after, ops = before ++ .refmem addr' asid ins' arg :: after ∧
          pageOf addr' = pageOf addr ∧ ∀ op ∈ after, ¬ op.Invalidates (pageOf addr) asid) ∧
      (∀ (op : Op α) (s₁ : Globals α), op.isFlush = true →
        Ensures op.run s₁ fun _ s₂ =>
          ∀ i, ¬ op.Invalidates (s₁.slTlb i).va (s₁.slTlb i).asid → s₂.slTlb i = s₁.slTlb i) ∧
      ∀ ops : List (Op α), s.lastInsIdx < size → (references ops).length + 1 < refLimit →
        Returns (do tlbtraceToggle tm fresh; runOps ops) s fun _ s' =>
          ∀ addr asid ins, Returns (tlbtraceRefmemSl (pageOf addr) asid ins) s' fun hit _ =>
            hit = true → Fresh ops (pageOf addr) asid := by
  have hrun : ∀ ops : List (Op α), Ensures (do tlbtraceToggle tm fresh; runOps ops) s
      fun _ s' => Running s' size set ∧ AllFresh s' ops := by
    intro ops
    rw [Ensures.known_bind_iff (tlbtraceToggle_returns hready hstarted tm fresh)]
    exact (hready.toggled tm fresh).ensures_of_stepped hset hle
      (fun handled s' => AllFresh s' handled)
      (fun _ _ _ _ _ hfresh hstep => hfresh.stepped hstep) (AllFresh.opened rfl tm fresh) ops
  refine ⟨fun ops => ?_, fun op s₁ hop => ?_, fun ops hidx hlimit => ?_⟩
  · refine (hrun ops).mono fun _ s' hs' => ?_
    obtain ⟨hrunning, hfresh⟩ := hs'
    intro addr asid ins s'' hhit
    have href := (tlbtraceRefmemSl_ensures (hrunning.fits hset hle) _ _ hhit).1
    exact hfresh.of_hit hrunning.toReady (toNat_pageOf_mod addr) href
  · refine (Op.flush_ensures hop).mono fun _ s₂ hstep => ?_
    intro i hkept
    cases hstep with
    | refmem _ _ => cases hop
    | flush _ _ => exact if_neg fun h => hkept (Op.clears_iff.mp h.2)
    | idle _ _ => rfl
  · have hreturns := toggled_runOps_returns hset hle hready hstarted hidx tm fresh ops
      (Nat.lt_of_succ_lt hlimit)
    apply (hreturns.and_ensures (hrun ops)).mono
    rintro _ s' ⟨⟨hidx', hsysts⟩, hrunning, hfresh⟩
    intro addr asid ins
    apply (tlbtraceRefmemSl_returns (hrunning.fits hset hle) (hrunning.slCap_eq ▸ hidx')
      (by omega)).mono
    rintro hit s'' href rfl
    exact hfresh.of_hit hrunning.toReady (toNat_pageOf_mod addr) href

/-- A page that was flushed and referenced again. -/
theorem session_hit_fresh_sampleOps :
    Returns (do tlbtraceToggle sampleTm (fun _ => 0#32); runOps sampleOps)
      { sampleTracer 4 2 with started := false } fun _ s' =>
        (Returns (tlbtraceRefmemSl (pageOf 0x1ABC#32) 7#32 false) s' fun hit _ => hit = true) ∧
          ∃ before addr' ins' arg after,
            sampleOps = before ++ .refmem addr' 7#32 ins' arg :: after ∧
              pageOf addr' = pageOf 0x1ABC#32 ∧
              ∀ op ∈ after, ¬ op.Invalidates (pageOf 0x1ABC#32) 7#32 := by
  have hready : Ready { sampleTracer 4 2 with started := false } 4 2 := ⟨rfl, rfl⟩
  have hfresh := session_hit_fresh (by decide) (by decide) hready rfl sampleTm fun _ => 0#32
  have hhit : Returns (do tlbtraceToggle sampleTm (fun _ => 0#32); runOps sampleOps)
      { sampleTracer 4 2 with started := false } fun _ s' =>
        Returns (tlbtraceRefmemSl (pageOf 0x1ABC#32) 7#32 false) s' fun hit _ => hit = true := by
    decide +kernel
  apply ((hfresh.2.2 sampleOps (by decide) (by decide)).and_ensures hhit.ensures).mono
  rintro _ s' ⟨hreturns, hanswer⟩
  refine ⟨hanswer, ?_⟩
  rcases hreturns 0x1ABC#32 7#32 false with ⟨hit, s'', hrun, hearned⟩
  exact hearned (hanswer.ensures hit s'' hrun)

end TlbAnalyzer.Tracer
