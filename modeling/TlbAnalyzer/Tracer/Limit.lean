/-
# How a session ends

A session ends when `tlbtrace_stop` is called, or when it reaches its limit: a miss at
reference 150000000000 or later stops the tracer and exits. The limit is checked in the
middle of the reference, after the miss was counted and before its walk is recorded, so
that the trace then has one record less than there were misses. Hits are not stopped.
-/

import TlbAnalyzer.Tracer.FastPath
import TlbAnalyzer.Tracer.LongRuns

namespace TlbAnalyzer.Tracer

open Cache Math TraceFile

variable {α : Type} {s s' : Globals α} {size set : ℕ}

/-! ## References that hit -/

/-- The translation of a reference is in the table, where the reference looks for it: in
the slot of the last instruction fetch, if it is one, or in a slot of its set. -/
def Ref.Held (r : Ref α) (s : Globals α) : Prop :=
  (r.ins = true ∧ test (pageOf r.addr) r.asid (s.slTlb s.lastInsIdx) = true) ∨
    ∃ i ∈ s.geometry.slots (pageOf r.addr >>> 12),
      test (pageOf r.addr) r.asid (s.slTlb i) = true

instance (r : Ref α) (s : Globals α) : Decidable (r.Held s) :=
  inferInstanceAs (Decidable (_ ∨ _))

/-- The references of a run that miss, the one that exits included. -/
def missing : List (Ref α) → Globals α → List (Ref α)
  | [], _ => []
  | r :: refs, s => (if r.Held s then [] else [r]) ++
      match r.run.run s with
      | .ok (_, s') => missing refs s'
      | .error _ => []

/-- Every reference from the limit on hits. -/
def HeldFromLimit : List (Ref α) → Globals α → Prop
  | [], _ => True
  | r :: refs, s => (refLimit ≤ s.systs + 1 → r.Held s) ∧ HeldFromLimit refs (r.after s)

instance decidableHeldFromLimit : (refs : List (Ref α)) → (s : Globals α) →
    Decidable (HeldFromLimit refs s)
  | [], _ => .isTrue trivial
  | r :: refs, s =>
      have := decidableHeldFromLimit refs (r.after s)
      inferInstanceAs (Decidable (_ ∧ _))

/-- What the search of a reference comes to: a read outside the table, a hit when the
translation is held, and otherwise the check of the limit after a refill. -/
theorem Ref.search_cases (hfits : s.geometry.Fits s.slCap) (r : Ref α) :
    (s.slCap ≤ s.lastInsIdx ∧
        ∃ f, (tlbtraceRefmemSl (pageOf r.addr) r.asid r.ins).run s = .error (.fault f)) ∨
      (r.Held s ∧ ∃ s₁, (tlbtraceRefmemSl (pageOf r.addr) r.asid r.ins).run s = .ok (true, s₁)) ∨
      (¬ r.Held s ∧ ∃ i e idx, (tlbtraceRefmemSl (pageOf r.addr) r.asid r.ins).run s =
        checkLimit.run { s.use false i e with lastInsIdx := idx }) := by
  show (s.slCap ≤ s.lastInsIdx ∧ ∃ f, tlbtraceRefmemSl (pageOf r.addr) r.asid r.ins s = _) ∨
    (r.Held s ∧ ∃ s₁, tlbtraceRefmemSl (pageOf r.addr) r.asid r.ins s = _) ∨
    (¬ r.Held s ∧ ∃ i e idx, tlbtraceRefmemSl (pageOf r.addr) r.asid r.ins s = _)
  rw [tlbtraceRefmemSl]
  by_cases hcap : s.slCap = 0
  · rw [if_pos hcap]
    exact Or.inl ⟨hcap ▸ Nat.zero_le _, _, rfl⟩
  rw [if_neg hcap]
  by_cases hbound : r.ins = true ∧ s.slCap ≤ s.lastInsIdx
  · rw [if_pos hbound]
    exact Or.inl ⟨hbound.2, _, rfl⟩
  rw [if_neg hbound]
  by_cases hfast : r.ins = true ∧ test (pageOf r.addr) r.asid (s.slTlb s.lastInsIdx) = true
  · rw [if_pos hfast]
    exact Or.inr (Or.inl ⟨Or.inl hfast, _, rfl⟩)
  rw [if_neg hfast]
  rcases Geometry.find_spec hfits s.slTlb (test (pageOf r.addr) r.asid) (pageOf r.addr >>> 12) with
    ⟨found, hfind, hfound⟩
  rw [hfind]
  cases found with
  | hit i =>
      cases hfound with
      | hit i hmem htest => exact Or.inr (Or.inl ⟨Or.inr ⟨i, hmem, htest⟩, _, rfl⟩)
  | miss mi =>
      have hnot : ¬ r.Held s := by
        intro hheld
        rcases hheld with hheld | ⟨i, hmem, htest⟩
        · exact hfast hheld
        · rw [hfound.forall_of_miss i hmem] at htest
          exact absurd htest Bool.false_ne_true
      refine Or.inr (Or.inr ⟨hnot, mi, { s.slTlb mi with va := pageOf r.addr, asid := r.asid }, ?_⟩)
      cases r.ins with
      | true => exact ⟨mi, rfl⟩
      | false => exact ⟨s.lastInsIdx, rfl⟩

/-- A reference that returned: it hit, or it missed before the limit. -/
theorem Ref.held_of_ok (hfits : s.geometry.Fits s.slCap) {r : Ref α}
    (hrun : r.run.run s = .ok ((), s')) :
    (refLimit ≤ s.systs + 1 → r.Held s) ∧ (r.misses s = true ↔ ¬ r.Held s) := by
  rcases run_bind_eq_ok_iff.mp hrun with ⟨hit, s₁, hsearch, -⟩
  have hmisses : r.misses s = !hit := by rw [Ref.misses, hsearch]
  rw [hmisses]
  rcases r.search_cases hfits with ⟨-, f, hfault⟩ | ⟨hheld, s₂, hhit⟩ | ⟨hnot, i, e, idx, hmiss⟩
  · cases hfault.symm.trans hsearch
  · cases hhit.symm.trans hsearch
    exact ⟨fun _ => hheld, fun h => absurd h (by decide), fun h => absurd hheld h⟩
  · rcases checkLimit_ensures hit s₁ (hmiss.symm.trans hsearch) with ⟨rfl, -, hlimit⟩
    exact ⟨fun h => absurd hlimit (Nat.not_lt.mpr h), fun _ => hnot, fun _ => rfl⟩

/-! ## The two ends -/

/-- What the exit at the limit leaves: a trace of the misses before, and a count that has
one more. -/
structure Exited (name : FileName) (final : Globals α) : Prop where
  cut : ∃ records : List TraceRecord,
    final.files name = some ((records.flatMap TraceRecord.words).flatMap wordBytes) ∧
      final.slCnt.miss = records.length + 1

namespace Logged

variable {helper : α → BitVec 32 → PteResult} {name : FileName} {n : ℕ} {before : List (Ref α)}
  {final : Globals α}

/-- A reference that exits missed at the limit or later. -/
theorem exit (hset : 1 ≤ set) (hle : set ≤ size) (hrunning : Running s size set)
    (h : Logged s helper name n before) {r : Ref α} (hrun : r.run.run s = .error (.exit final)) :
    ¬ (refLimit ≤ s.systs + 1 → r.Held s) ∧ Exited name final := by
  have hfits := hrunning.fits hset hle
  have hfails : Fails r.run s fun halt => halt = .exit final := ⟨_, hrun, rfl⟩
  rw [Ref.run, tlbtraceRefmem, Fails.bind_iff] at hfails
  rcases hfails with ⟨halt, hsearch, rfl⟩ | hrecord
  · rcases r.search_cases hfits with ⟨-, f, hfault⟩ | ⟨hheld, s₂, hhit⟩ | ⟨hnot, i, e, idx, hmiss⟩
    · cases hfault.symm.trans hsearch
    · cases hhit.symm.trans hsearch
    rw [hmiss] at hsearch
    by_cases hlimit : s.systs + 1 < refLimit
    · rw [checkLimit_run hlimit] at hsearch
      cases hsearch
    refine ⟨fun hheld => hnot (hheld (Nat.not_lt.mp hlimit)), ?_⟩
    -- the session is closed after the miss was counted, with the records before it
    have hcarries : Carries { s.use false i e with lastInsIdx := idx } name
        ((before.map (Ref.record helper)).flatMap TraceRecord.words) :=
      ⟨h.carries.fout_eq, h.carries.content⟩
    rcases hcarries.content with ⟨words, _, hfbuf, -⟩
    rw [checkLimit_exit hfbuf (Nat.not_lt.mp hlimit)] at hsearch
    cases hsearch
    have hclosed := (hcarries.closed.and_ensures (tlbtraceStop_returns hfbuf).ensures)
    rcases hclosed with ⟨_, s₁, -, ⟨hfile, hcnt⟩, rfl⟩
    refine ⟨before.map (Ref.record helper), hfile, ?_⟩
    rw [hcnt, List.length_map]
    exact congrArg (· + 1) h.misses
  · -- after the search nothing exits
    rcases hrecord with ⟨hit, s₁, hsearch, hfails⟩
    have hreturns := h.finish hsearch (tlbtraceRefmemSl_ensures hfits _ _ hsearch).1
    exact absurd hreturns hfails.not_returns

/-- A run of references that returned. -/
theorem ok (hset : 1 ≤ set) (hle : set ≤ size) (refs : List (Ref α))
    (hrunning : Running s size set) (h : Logged s helper name n before) :
    Ensures (refs.forM Ref.run) s fun _ s' =>
      Logged s' helper name (n + refs.length) (before ++ missing refs s) ∧
        HeldFromLimit refs s := by
  induction refs generalizing s n before with
  | nil =>
      rw [List.forM, Ensures.pure_iff]
      refine ⟨?_, trivial⟩
      simpa [missing] using h
  | cons r refs ih =>
      rw [List.forM, Ensures.bind_iff]
      intro _ s₁ hrun
      have hafter : r.after s = s₁ := by rw [Ref.after, hrun]
      rcases h.step hset hle hrunning r _ s₁ hrun with ⟨hrunning₁, h₁⟩
      rcases Ref.held_of_ok (hrunning.fits hset hle) hrun with ⟨hheld, hmisses⟩
      have hmissing : missing (r :: refs) s =
          (if r.misses s then [r] else []) ++ missing refs s₁ := by
        rw [missing, hrun]
        by_cases hr : r.Held s
        · rw [if_pos hr, if_neg fun hm => hmisses.mp hm hr]
        · rw [if_neg hr, if_pos (hmisses.mpr hr)]
      refine (ih hrunning₁ h₁).mono fun _ s' hs' => ?_
      rw [hmissing, HeldFromLimit, hafter, List.length_cons, ← List.append_assoc,
        Nat.add_comm refs.length, ← Nat.add_assoc]
      exact ⟨hs'.1, hheld, hs'.2⟩

/-- A run of references that exited. -/
theorem exited (hset : 1 ≤ set) (hle : set ≤ size) (refs : List (Ref α))
    (hrunning : Running s size set) (h : Logged s helper name n before)
    (hrun : (refs.forM Ref.run).run s = .error (.exit final)) :
    ¬ HeldFromLimit refs s ∧ Exited name final := by
  induction refs generalizing s n before with
  | nil => cases hrun
  | cons r refs ih =>
      have hfails : Fails ((r :: refs).forM Ref.run) s fun halt => halt = .exit final :=
        ⟨_, hrun, rfl⟩
      rw [List.forM, Fails.bind_iff] at hfails
      rcases hfails with ⟨_, hfirst, rfl⟩ | ⟨_, s₁, hfirst, _, hrest, rfl⟩
      · rcases h.exit hset hle hrunning hfirst with ⟨hnot, hexited⟩
        exact ⟨fun hheld => hnot hheld.1, hexited⟩
      · have hafter : r.after s = s₁ := by rw [Ref.after, hfirst]
        rcases h.step hset hle hrunning r _ s₁ hfirst with ⟨hrunning₁, h₁⟩
        rcases ih hrunning₁ h₁ hrest with ⟨hnot, hexited⟩
        refine ⟨fun hheld => hnot ?_, hexited⟩
        rw [HeldFromLimit, hafter] at hheld
        exact hheld.2

end Logged

/-- The trace has one record for each miss that was counted, and the last one is that of
the last reference that missed. -/
def Complete (helper : α → BitVec 32 → PteResult) (name : FileName) (missing : List (Ref α))
    (final : Globals α) : Prop :=
  ∃ bytes, final.files name = some bytes ∧ (readRecords bytes).length = final.slCnt.miss ∧
    (readRecords bytes).getLast? = missing.getLast?.map (Ref.record helper)

theorem Exited.not_complete {name : FileName} {final : Globals α} (h : Exited name final)
    (helper : α → BitVec 32 → PteResult) (missing : List (Ref α)) :
    ¬ Complete helper name missing final := by
  rcases h.cut with ⟨records, hfile, hmiss⟩
  rintro ⟨bytes, hbytes, hlength, -⟩
  rw [hfile, Option.some.injEq] at hbytes
  rw [← hbytes, readRecords_of_words, hmiss] at hlength
  omega

/-- Whether a session of references ended with `tlbtrace_stop` or at the limit: its trace
is complete if and only if every reference from the limit on hit. -/
theorem session_complete_iff (hset : 1 ≤ set) (hle : set ≤ size) (hready : Ready s size set)
    (tm : Tm) (fresh : ℕ → BitVec 32) (refs : List (Ref α)) {final : Globals α}
    (hend : (session tm fresh refs).run s = .ok ((), final) ∨
      (session tm fresh refs).run s = .error (.exit final)) :
    Complete s.myPteHelper (traceName tm s.geometry.entries s.tlbSet)
        (missing refs (s.opened tm fresh)) final ↔
      HeldFromLimit refs (s.opened tm fresh) := by
  have hstart := tlbtraceStart_returns hready tm fresh
  have hrunning := hready.opened tm fresh
  have hlogged := Logged.opened s tm fresh
  have hrefs := hlogged.ok hset hle refs hrunning
  rw [Nat.zero_add, List.nil_append] at hrefs
  rcases hend with hok | hexit
  · have hsession : Ensures (session tm fresh refs) s fun _ s' =>
        Complete s.myPteHelper (traceName tm s.geometry.entries s.tlbSet)
          (missing refs (s.opened tm fresh)) s' ∧ HeldFromLimit refs (s.opened tm fresh) := by
      rw [session, Ensures.known_bind_iff hstart, Ensures.bind_iff]
      refine hrefs.mono fun _ s₁ h₁ => ?_
      refine h₁.1.carries.closed.ensures.mono fun _ s' hs' => ⟨⟨_, hs'.1, ?_, ?_⟩, h₁.2⟩
      · rw [readRecords_of_words, List.length_map, hs'.2]
        exact h₁.1.misses.symm
      · rw [readRecords_of_words, List.getLast?_map]
    exact iff_of_true (hsession _ _ hok).1 (hsession _ _ hok).2
  · have hfails : Fails (session tm fresh refs) s fun halt => halt = .exit final :=
      ⟨_, hexit, rfl⟩
    rw [session, Fails.bind_iff] at hfails
    rcases hfails with hfails | hfails
    · exact absurd hstart hfails.not_returns
    rcases hfails with ⟨_, s₀, hrun, hfails⟩
    have hs₀ : s₀ = s.opened tm fresh := hstart.ensures _ _ hrun
    subst hs₀
    rw [Fails.bind_iff] at hfails
    rcases hfails with ⟨_, hrun, rfl⟩ | ⟨_, s₁, hrun, hfails⟩
    · rcases hlogged.exited hset hle refs hrunning hrun with ⟨hnot, hexited⟩
      exact iff_of_false (hexited.not_complete _ _) hnot
    · exact absurd (hrefs _ _ hrun).1.carries.closed hfails.not_returns

/-- A short session. -/
theorem session_complete_iff_sampleRefs :
    ∃ final, (session sampleTm (fun _ => 0#32) sampleRefs).run (sampleTracer 4 2) =
        .ok ((), final) ∧
      Complete (sampleTracer 4 2).myPteHelper (traceName sampleTm 4 2)
        [⟨0x0123#32, 7#32, true, ()⟩, ⟨0x1000#32, 7#32, true, ()⟩] final := by
  have hready : Ready (sampleTracer 4 2) 4 2 := ⟨rfl, rfl⟩
  have hreturns : Returns (session sampleTm (fun _ => 0#32) sampleRefs) (sampleTracer 4 2)
      fun _ _ => True := by
    decide +kernel
  rcases hreturns with ⟨_, final, hrun, -⟩
  have hmissing : missing sampleRefs ((sampleTracer 4 2).opened sampleTm fun _ => 0#32) =
      [⟨0x0123#32, 7#32, true, ()⟩, ⟨0x1000#32, 7#32, true, ()⟩] := by
    decide +kernel
  have hiff := session_complete_iff (by decide) (by decide) hready sampleTm (fun _ => 0#32)
    sampleRefs (Or.inl hrun)
  rw [hmissing] at hiff
  exact ⟨final, hrun, hiff.mpr (by decide +kernel)⟩

/-- At the limit a miss exits. -/
theorem Ref.exits (hset : 1 ≤ set) (hle : set ≤ size) (hrunning : Running s size set)
    (hidx : s.lastInsIdx < size) {r : Ref α} (hnot : ¬ r.Held s)
    (hlimit : refLimit ≤ s.systs + 1) : ∃ final, r.run.run s = .error (.exit final) := by
  rcases r.search_cases (hrunning.fits hset hle) with ⟨hge, -⟩ | ⟨hheld, -⟩ | ⟨-, i, e, idx, hmiss⟩
  · rw [hrunning.slCap_eq] at hge
    exact absurd hidx (Nat.not_lt.mpr hge)
  · exact absurd hheld hnot
  · rcases Buffer.exists_of_isLive hrunning.live with ⟨words, hfbuf⟩
    have hfails : Fails r.run s fun halt => ∃ final, halt = .exit final := by
      rw [Ref.run, tlbtraceRefmem, Fails.bind_iff]
      exact Or.inl ⟨_, hmiss.trans (checkLimit_exit hfbuf hlimit), _, rfl⟩
    rcases hfails with ⟨_, hrun, final, rfl⟩
    exact ⟨final, hrun⟩

/-- The other page is not in the table. -/
theorem Repeated.not_held {s : Globals Unit} {n : ℕ} (h : Repeated s n) :
    ¬ Ref.Held ⟨0x2000#32, 7#32, false, ()⟩ s := by
  intro hheld
  rcases hheld with ⟨hins, -⟩ | ⟨i, hmem, htest⟩
  · cases hins
  · have hi := (h.running.toReady.mem_slots (by decide) _).mp hmem
    have hcases : i = 0 ∨ i = 1 := by omega
    rcases hcases with rfl | rfl
    · rw [h.first] at htest
      exact absurd htest (by simp [test, pageOf])
    · rw [h.second] at htest
      exact absurd htest (by decide)

/-- One page referenced up to the limit, then another. -/
theorem longRefs_exited {s₀ : Globals Unit} (hready : Ready s₀ 2 2) (hidx : s₀.lastInsIdx < 2)
    (tm : Tm) (fresh : ℕ → BitVec 32) {k : ℕ} (hk : k + 2 = refLimit) :
    ∃ final, (session tm fresh (longRefs (k + 1))).run s₀ = .error (.exit final) ∧
      Exited (traceName tm s₀.geometry.entries s₀.tlbSet) final := by
  have hrunning := hready.opened tm fresh
  have hlogged := Logged.opened s₀ tm fresh
  have hfits := hrunning.fits (by decide) (le_refl 2)
  set pages : List (Ref Unit) := List.replicate (k + 1) ⟨0x1000#32, 7#32, false, ()⟩ with hpages
  have hlength : pages.length = k + 1 := List.length_replicate
  have hreturns := hlogged.run_returns (by decide) (le_refl 2) pages hrunning hidx (by omega)
  have hlater := hlogged.run (by decide) (le_refl 2) pages hrunning
  have hrepeated : Ensures (pages.forM Ref.run) (s₀.opened tm fresh) fun _ s' =>
      Repeated s' (1 + k) := by
    rw [hpages, List.replicate_succ, List.forM, Ensures.bind_iff]
    refine (Op.run_ensures hfits (Ref.op ⟨0x1000#32, 7#32, false, ()⟩)).mono fun _ s₁ hstep => ?_
    exact (Repeated.of_opened hready tm fresh hstep).replicate k
  have hfails : Fails (session tm fresh (longRefs (k + 1))) s₀ fun halt =>
      ∃ final, halt = .exit final ∧
        Exited (traceName tm s₀.geometry.entries s₀.tlbSet) final := by
    rw [session, Fails.bind_iff]
    refine Or.inr ((tlbtraceStart_returns hready tm fresh).mono fun _ s₁ hs₁ => ?_)
    subst hs₁
    rw [Fails.bind_iff, longRefs_forM, Fails.bind_iff]
    refine Or.inl (Or.inr ?_)
    refine ((hreturns.and_ensures hlater).and_ensures hrepeated).mono fun _ s₁ h₁ => ?_
    rcases h₁ with ⟨⟨hidx₁, hlogged₁⟩, hrepeated₁⟩
    have hlimit : refLimit ≤ s₁.systs + 1 := by
      rw [hrepeated₁.systs_eq]
      omega
    rcases Ref.exits (by decide) (le_refl 2) hrepeated₁.running hidx₁ hrepeated₁.not_held
      hlimit with ⟨final, hrun⟩
    rw [List.forM, Fails.bind_iff]
    exact Or.inl ⟨_, hrun, final, rfl,
      (hlogged₁.exit (by decide) (le_refl 2) hrepeated₁.running hrun).2⟩
  rcases hfails with ⟨_, hrun, final, rfl, hexited⟩
  exact ⟨final, hrun, hexited⟩

/-- A page is referenced up to the limit, then another one: it is counted as a miss and not
recorded. -/
theorem session_incomplete_longRefs :
    ∃ final, (session sampleTm (fun _ => 0#32) (longRefs (refLimit - 1))).run (sampleTracer 2 2) =
        .error (.exit final) ∧
      ¬ Complete (sampleTracer 2 2).myPteHelper (traceName sampleTm 2 2)
        (missing (longRefs (refLimit - 1)) ((sampleTracer 2 2).opened sampleTm fun _ => 0#32))
        final := by
  have hready : Ready (sampleTracer 2 2) 2 2 := ⟨rfl, rfl⟩
  have hlimit : 149999999998 + 2 = refLimit := by decide
  rcases longRefs_exited hready (by decide) sampleTm (fun _ => 0#32) hlimit with
    ⟨final, hrun, hexited⟩
  rw [← hlimit]
  exact ⟨final, hrun, hexited.not_complete _ _⟩

end TlbAnalyzer.Tracer
