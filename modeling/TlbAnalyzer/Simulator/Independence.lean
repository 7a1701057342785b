/-
# What the simulations share, and what passes through it

All tables stamp their entries from one clock, and all simulations work on the
same globals. Neither lets anything through. Lookups in one cache move the clock
for the others, but a search only compares stamps of one table with each other,
and their order does not change. A simulation starts by setting every global it
will read, so nothing is left of the simulations before it.
-/

import TlbAnalyzer.Simulator.Accounting
import TlbAnalyzer.Simulator.Emulation

namespace TlbAnalyzer.Simulator

open Cache Math TraceFile
open Tracer (FileName)

/-! ## One cache among others -/

/-- The caches that a simulation looks up have a geometry that can be searched. -/
def Sizes.ValidFor (z : Sizes) (cmd : SimCmd) : Prop :=
  ∀ c, cmd.uses c = true → 1 ≤ z.way c ∧ z.way c ≤ z.size c ∧ z.size c ≤ 512

/-- A cache looks the same in both globals: the same keys in the same slots, and
stamps of the same order, none of them ahead of the clock. -/
structure SameCache (c : CacheName) (s s' : Sim) : Prop where
  geometry_eq : s'.geometry c = s.geometry c
  va_eq : ∀ i < cacheMaxEntries, (s'.tlb c i).va = (s.tlb c i).va
  asid_eq : ∀ i < cacheMaxEntries, (s'.tlb c i).asid = (s.tlb c i).asid
  ts_lt_iff : ∀ i < cacheMaxEntries, ∀ j < cacheMaxEntries,
    (s'.tlb c i).ts < (s'.tlb c j).ts ↔ (s.tlb c i).ts < (s.tlb c j).ts
  ts_le : ∀ i < cacheMaxEntries, (s.tlb c i).ts ≤ s.systs
  ts_le' : ∀ i < cacheMaxEntries, (s'.tlb c i).ts ≤ s'.systs

namespace SameCache

variable {c : CacheName} {s s' : Sim}

theorem alike (h : SameCache c s s') (addr asid : BitVec 32) :
    Alike cacheMaxEntries (c.test addr asid) (s.tlb c) (s'.tlb c) where
  test_eq i hi := by
    rw [CacheName.test, CacheName.test, h.va_eq i hi, h.asid_eq i hi]
  ts_lt_iff := h.ts_lt_iff

/-- Using the same slot in both, with whatever the clock says, makes it the most
recent one in both. -/
theorem use (h : SameCache c s s') {i : ℕ} {e e' : TlbEntry} (hva : e'.va = e.va)
    (hasid : e'.asid = e.asid) (hclock : s.systs + 1 < 2 ^ 32) (hclock' : s'.systs + 1 < 2 ^ 32)
    (addr asid : BitVec 32) (hit : Bool) :
    SameCache c (s.use c addr asid hit i e) (s'.use c addr asid hit i e') := by
  have hslot : ∀ j, j = i ∨
      ((s.use c addr asid hit i e).tlb c j = s.tlb c j ∧
        (s'.use c addr asid hit i e').tlb c j = s'.tlb c j) := by
    intro j
    by_cases hj : j = i
    · exact Or.inl hj
    · rw [Sim.use_tlb_of_slot_ne _ _ _ _ _ _ hj, Sim.use_tlb_of_slot_ne _ _ _ _ _ _ hj]
      exact Or.inr ⟨rfl, rfl⟩
  refine ⟨h.geometry_eq, ?_, ?_, ?_, ?_, ?_⟩
  · intro j hj
    rcases hslot j with rfl | ⟨heq, heq'⟩
    · rw [Sim.use_tlb_slot, Sim.use_tlb_slot]
      exact hva
    · rw [heq, heq']
      exact h.va_eq j hj
  · intro j hj
    rcases hslot j with rfl | ⟨heq, heq'⟩
    · rw [Sim.use_tlb_slot, Sim.use_tlb_slot]
      exact hasid
    · rw [heq, heq']
      exact h.asid_eq j hj
  · intro j hj k hk
    rw [s.use_ts_lt_iff c addr asid hit i e hclock h.ts_le hj hk,
      s'.use_ts_lt_iff c addr asid hit i e' hclock' h.ts_le' hj hk, h.ts_lt_iff j hj k hk]
  · exact s.use_ts_le c c addr asid hit i e h.ts_le
  · exact s'.use_ts_le c c addr asid hit i e' h.ts_le'

/-- A lookup in another cache only moves the clock. -/
theorem use_other (h : SameCache c s s') {c' : CacheName} (hne : c ≠ c') (addr asid : BitVec 32)
    (hit : Bool) (i : ℕ) (e : TlbEntry) : SameCache c (s.use c' addr asid hit i e) s' := by
  have htlb := s.use_tlb_of_ne addr asid hit i e hne
  refine ⟨h.geometry_eq, ?_, ?_, ?_, ?_, h.ts_le'⟩
  all_goals rw [htlb]
  · exact h.va_eq
  · exact h.asid_eq
  · exact h.ts_lt_iff
  · exact fun j hj => Nat.le_succ_of_le (h.ts_le j hj)

/-- The same lookup in both gives the same answer and uses the same slot. -/
theorem lookup (h : SameCache c s s') (hfits : (s.geometry c).Fits cacheMaxEntries)
    (hclock : s.systs + 1 < 2 ^ 32) (hclock' : s'.systs + 1 < 2 ^ 32) (addr asid : BitVec 32) :
    Returns (lookup c addr asid) s fun hit t => Returns (lookup c addr asid) s' fun hit' t' =>
      hit' = hit ∧ SameCache c t t' ∧ t.geometry = s.geometry ∧ t.systs = s.systs + 1 ∧
        t'.systs = s'.systs + 1 := by
  rcases Geometry.find_spec hfits (s.tlb c) (c.test addr asid) (c.index addr) with
    ⟨found, hfind, hfound⟩
  have hfind' : (s'.geometry c).find cacheMaxEntries (s'.tlb c) (c.test addr asid)
      (c.index addr) = .ok found := by
    rw [h.geometry_eq, Geometry.find_congr (h.alike addr asid), hfind]
  have hlt : ∀ {i : ℕ}, i ∈ (s.geometry c).slots (c.index addr) → i < cacheMaxEntries :=
    fun hi => lt_of_lt_of_le (Geometry.lt_entries_of_mem_slots hi) hfits.entries_le
  cases found with
  | hit i =>
      cases hfound with
      | hit i hmem htest =>
          have hi := hlt hmem
          refine ⟨true, s.use c addr asid true i (s.tlb c i), ?_, true,
            s'.use c addr asid true i (s'.tlb c i), ?_, rfl, ?_, rfl, rfl, rfl⟩
          · show Simulator.lookup c addr asid s = _
            rw [Simulator.lookup, hfind]
          · show Simulator.lookup c addr asid s' = _
            rw [Simulator.lookup, hfind']
          · exact h.use (h.va_eq i hi) (h.asid_eq i hi) hclock hclock' addr asid true
  | miss mi =>
      have hmi : mi < cacheMaxEntries := by
        cases hfound with
        | older _ _ hmem _ _ => exact hlt hmem
        | seed _ _ => exact Nat.zero_lt_succ _
      refine ⟨false, s.use c addr asid false mi (c.refill addr asid (s.tlb c mi)), ?_, false,
        s'.use c addr asid false mi (c.refill addr asid (s'.tlb c mi)), ?_, rfl, ?_, rfl, rfl, rfl⟩
      · show Simulator.lookup c addr asid s = _
        rw [Simulator.lookup, hfind]
      · show Simulator.lookup c addr asid s' = _
        rw [Simulator.lookup, hfind']
      · have hasid := h.asid_eq mi hmi
        apply h.use _ _ hclock hclock' addr asid false
        all_goals
          cases c <;> simp [CacheName.refill, CacheName.isPwc, hasid]

/-- Two caches that were just flushed look the same. -/
theorem start {z : Sizes} (s s' : Sim) : SameCache c (z.start s) (z.start s') := by
  have hflushed : ∀ (t : Sim), ∀ i < cacheMaxEntries, (z.start t).tlb c i = flushedEntry :=
    fun t i hi => if_pos hi
  refine ⟨?_, ?_, ?_, ?_, ?_, ?_⟩
  · cases c <;> rfl
  · intro i hi
    rw [hflushed s i hi, hflushed s' i hi]
  · intro i hi
    rw [hflushed s i hi, hflushed s' i hi]
  · intro i hi j hj
    rw [hflushed s i hi, hflushed s' i hi, hflushed s j hj, hflushed s' j hj]
  · intro i hi
    rw [hflushed s i hi]
    exact Nat.zero_le _
  · intro i hi
    rw [hflushed s' i hi]
    exact Nat.zero_le _

end SameCache

/-- Apart from `tlbtrace_ntlb_find2`, which counts accesses too, a call is a lookup
and nothing else. -/
theorem Call.run_eq_lookup {call : Call} (h : call.cache ≠ .ntlb2) :
    call.run = lookup call.cache call.addr call.asid := by
  cases call with
  | ntlbFind2 addr final => exact absurd rfl h
  | ntlbFind addr => rfl
  | refppaPwc addr asid => rfl
  | refppaPwc2 addr asid => rfl
  | refppaPwc3 addr asid => rfl

/-- The answers that the calls of one cache got. -/
def answersOf (c : CacheName) : List Call → List Bool → List Bool
  | call :: calls, hit :: hits =>
      if call.cache = c then hit :: answersOf c calls hits else answersOf c calls hits
  | _, _ => []

/-- One run makes all calls, the other only those of one cache, which look the same
in both. They get the same answers. -/
theorem SameCache.answers {c : CacheName} {s s' : Sim} (calls : List Call)
    (h : SameCache c s s') (hfits : ∀ call ∈ calls, (s.geometry call.cache).Fits cacheMaxEntries)
    (hplain : ∀ call ∈ calls, call.cache ≠ .ntlb2) (hclock : s.systs + calls.length < 2 ^ 32)
    (hclock' : s'.systs + calls.length < 2 ^ 32) :
    Returns (Simulator.answers calls) s fun hits _ =>
      Returns (Simulator.answers (calls.filter fun call => call.cache = c)) s' fun hits' _ =>
        hits' = answersOf c calls hits := by
  induction calls generalizing s s' with
  | nil => exact ⟨[], s, rfl, [], s', rfl, rfl⟩
  | cons call calls ih =>
      rw [List.forall_mem_cons] at hfits hplain
      rw [List.length_cons] at hclock hclock'
      have hrun := Call.run_eq_lookup hplain.1
      rw [Simulator.answers, Returns.bind_iff, hrun]
      by_cases hc : call.cache = c
      · rw [List.filter_cons_of_pos (by simpa using hc), Simulator.answers, hrun]
        subst hc
        apply (h.lookup hfits.1 (by omega) (by omega) call.addr call.asid).mono
        rintro hit t ⟨hit', t', hlookup', rfl, hsame, hgeometry, hsysts, hsysts'⟩
        have hrest := ih hsame (fun later hlater => hgeometry ▸ hfits.2 later hlater) hplain.2
          (by omega) (by omega)
        rw [Returns.bind_iff]
        apply hrest.mono
        intro hits _ hhits
        rw [Returns.pure_iff, Returns.bind_iff, Returns.iff_of_run hlookup', Returns.bind_iff]
        apply hhits.mono
        rintro hits' _ rfl
        rw [Returns.pure_iff, answersOf, if_pos rfl]
      · rw [List.filter_cons_of_neg (by simpa using hc)]
        apply (lookup_returns hfits.1 call.addr call.asid).mono
        intro hit t hlooked
        obtain ⟨i, e, rfl⟩ := hlooked.eq_use
        have hother := h.use_other (Ne.symm hc) call.addr call.asid hit i e
        have hrest := ih hother hfits.2 hplain.2 (by rw [Sim.use_systs]; omega) (by omega)
        rw [Returns.bind_iff]
        apply hrest.mono
        intro hits _ hhits
        rw [Returns.pure_iff]
        apply hhits.mono
        rintro hits' _ rfl
        rw [answersOf, if_neg hc]

/-- A geometry that can be searched is what the caches of a simulation start with. -/
theorem Sizes.ValidFor.fits {z : Sizes} {cmd : SimCmd} (h : z.ValidFor cmd) {c : CacheName}
    (huses : cmd.uses c = true) :
    (Geometry.ofSizeWay (z.size c) (z.way c)).Fits cacheMaxEntries := by
  rcases h c huses with ⟨hway, hle, hcap⟩
  exact Geometry.ofSizeWay_fits hway hle hcap

/-- The nested TLB and the page walk cache do not disturb each other: in any
interleaving of their lookups each gives the answers it gives when the lookups of
the other are left out. -/
theorem answers_independent {z : Sizes} (hvalid : z.ValidFor .scNtlbPwc) (s : Sim)
    (calls : List Call) (hlength : calls.length < 2 ^ 32)
    (hcalls : ∀ call ∈ calls, call.cache = .ntlb ∨ call.cache = .pwc) (c : CacheName) :
    Returns (answers calls) (z.start s) fun hits _ =>
      Returns (answers (calls.filter fun call => call.cache = c)) (z.start s) fun hits' _ =>
        hits' = answersOf c calls hits := by
  have hzero : (z.start s).systs = 0 := rfl
  have huses : ∀ call ∈ calls, SimCmd.scNtlbPwc.uses call.cache = true := by
    intro call hmem
    rcases hcalls call hmem with hcache | hcache
    · rw [hcache]
      rfl
    · rw [hcache]
      rfl
  have hplain : ∀ call ∈ calls, call.cache ≠ .ntlb2 := by
    intro call hmem heq
    have := huses call hmem
    rw [heq] at this
    exact absurd this (by decide)
  have hfits : ∀ call ∈ calls, ((z.start s).geometry call.cache).Fits cacheMaxEntries := by
    intro call hmem
    have hgeometry : (z.start s).geometry call.cache = _ :=
      SimCmd.configure_geometry (huses call hmem) z s
    rw [hgeometry]
    exact hvalid.fits (huses call hmem)
  exact (SameCache.start s s).answers calls hfits hplain (by omega) (by omega)

/-- A nested TLB of one entry between lookups of a page walk cache of one entry:
the page walk cache hits although the other cache was refilled since. -/
theorem answers_independent_oneEntry :
    (Returns (answers [.refppaPwc 0x4#32 1#32, .ntlbFind 0x1000#32, .refppaPwc 0x4#32 1#32,
        .ntlbFind 0x2000#32, .ntlbFind 0x2000#32]) (Sizes.start ⟨1, 1, 1, 1⟩ .initial)
      fun hits _ => hits = [false, false, true, false, true]) ∧
      Returns (answers [.refppaPwc 0x4#32 1#32, .refppaPwc 0x4#32 1#32])
        (Sizes.start ⟨1, 1, 1, 1⟩ .initial) fun hits' _ => hits' = [false, true] := by
  have hall : Returns (answers [.refppaPwc 0x4#32 1#32, .ntlbFind 0x1000#32,
      .refppaPwc 0x4#32 1#32, .ntlbFind 0x2000#32, .ntlbFind 0x2000#32])
      (Sizes.start ⟨1, 1, 1, 1⟩ .initial)
      fun hits _ => hits = [false, false, true, false, true] := ⟨_, _, rfl, rfl⟩
  have hindependent := answers_independent (z := ⟨1, 1, 1, 1⟩)
    (fun c _ => by cases c <;> decide) .initial
    [.refppaPwc 0x4#32 1#32, .ntlbFind 0x1000#32, .refppaPwc 0x4#32 1#32,
      .ntlbFind 0x2000#32, .ntlbFind 0x2000#32] (by decide) (by simp [Call.cache]) .pwc
  refine ⟨hall, ?_⟩
  obtain ⟨hits, s', hrun, rfl⟩ := hall
  exact (Returns.iff_of_run hrun).mp hindependent

/-! ## One simulation after others -/

/-- Two globals in which a simulation does the same: they agree on everything that
it reads. -/
structure SameFor (cmd : SimCmd) (s s' : Sim) : Prop where
  systs_eq : s'.systs = s.systs
  geometry_eq : ∀ c, cmd.uses c = true → s'.geometry c = s.geometry c
  tlb_eq : ∀ c, cmd.uses c = true → ∀ i < cacheMaxEntries, s'.tlb c i = s.tlb c i
  cnt_eq : s'.cnt = s.cnt
  memAccs_eq : s'.memAccs = s.memAccs

namespace SameFor

variable {cmd : SimCmd} {s s' : Sim}

/-- `flush_all` resets all of it except the geometries. -/
theorem flushAll (h : ∀ c, cmd.uses c = true → s'.geometry c = s.geometry c) :
    SameFor cmd s.flushAll s'.flushAll where
  systs_eq := rfl
  geometry_eq := h
  tlb_eq c _ i hi := by
    show flushTlb cacheMaxEntries (s'.tlb c) i = flushTlb cacheMaxEntries (s.tlb c) i
    rw [flushTlb, flushTlb, if_pos hi, if_pos hi]
  cnt_eq := rfl
  memAccs_eq := rfl

theorem access (h : SameFor cmd s s') (cmd' : SimCmd) (n : ℕ) :
    SameFor cmd (s.access cmd' n) (s'.access cmd' n) where
  systs_eq := h.systs_eq
  geometry_eq := h.geometry_eq
  tlb_eq := h.tlb_eq
  cnt_eq := h.cnt_eq
  memAccs_eq := by rw [Sim.access, Sim.access, h.memAccs_eq]

theorem use (h : SameFor cmd s s') {c : CacheName} {i : ℕ} {e e' : TlbEntry}
    (he : i < cacheMaxEntries → e' = e) (addr asid : BitVec 32) (hit : Bool) :
    SameFor cmd (s.use c addr asid hit i e) (s'.use c addr asid hit i e') where
  systs_eq := congrArg (· + 1) h.systs_eq
  geometry_eq := h.geometry_eq
  tlb_eq := by
    intro c' huses j hj
    by_cases hc : c' = c
    · subst hc
      by_cases hji : j = i
      · subst hji
        rw [Sim.use_tlb_slot, Sim.use_tlb_slot, he hj, h.systs_eq]
      · rw [Sim.use_tlb_of_slot_ne _ _ _ _ _ _ hji, Sim.use_tlb_of_slot_ne _ _ _ _ _ _ hji]
        exact h.tlb_eq c' huses j hj
    · rw [Sim.use_tlb_of_ne _ _ _ _ _ _ hc, Sim.use_tlb_of_ne _ _ _ _ _ _ hc]
      exact h.tlb_eq c' huses j hj
  cnt_eq := by
    show Function.update s'.cnt c _ = Function.update s.cnt c _
    rw [h.cnt_eq]
  memAccs_eq := h.memAccs_eq

theorem alike (h : SameFor cmd s s') {c : CacheName} (huses : cmd.uses c = true)
    (addr asid : BitVec 32) : Alike cacheMaxEntries (c.test addr asid) (s.tlb c) (s'.tlb c) where
  test_eq i hi := by rw [h.tlb_eq c huses i hi]
  ts_lt_iff i hi j hj := by rw [h.tlb_eq c huses i hi, h.tlb_eq c huses j hj]

end SameFor

/-! ### Every statement of a simulation respects the agreement -/

section

variable {cmd : SimCmd}

theorem lookup_respects {c : CacheName} (huses : cmd.uses c = true) (addr asid : BitVec 32) :
    Respects (SameFor cmd) (lookup c addr asid) := by
  intro s s' h
  have hfind := Geometry.find_congr (g := s.geometry c) (h.alike huses addr asid) (c.index addr)
  show SameOutcome _ (lookup c addr asid s) (lookup c addr asid s')
  rw [lookup, lookup, h.geometry_eq c huses, hfind]
  cases (s.geometry c).find cacheMaxEntries (s.tlb c) (c.test addr asid) (c.index addr) with
  | error fault => rfl
  | ok found =>
      cases found with
      | hit i =>
          have he := h.tlb_eq c huses i
          exact ⟨rfl, h.use he addr asid true⟩
      | miss mi =>
          have he := h.tlb_eq c huses mi
          exact ⟨rfl, h.use (fun hmi => by rw [he hmi]) addr asid false⟩

theorem access_respects (cmd' : SimCmd) (n : ℕ) :
    Respects (SameFor cmd) (modify fun s => s.access cmd' n : SimM Unit) :=
  .modify fun _ _ h => h.access cmd' n

theorem perform_respects {t : TraceRecord} {action : SimAction} (h : cmd.Performs t action) :
    Respects (SameFor cmd) action.perform := by
  cases action with
  | lookup c addr asid => exact lookup_respects h.uses addr asid
  | access cmd' n => exact (access_respects cmd' n).bind fun _ => .pure true

end

/-- A simulation does the same from any globals: it sets the geometries of its own
caches before it replays the trace. -/
theorem funcs_sameOutcome (cmd : SimCmd) (trace : List (BitVec 8))
    (ntlbSize ntlbWay pwcSize pwcWay : ℕ) (result : SimResult) (s s' : Sim) :
    SameOutcome (SameFor cmd) ((funcs cmd trace ntlbSize ntlbWay pwcSize pwcWay result).run s)
      ((funcs cmd trace ntlbSize ntlbWay pwcSize pwcWay result).run s') := by
  set z : Sizes := ⟨ntlbSize, ntlbWay, pwcSize, pwcWay⟩
  have hrun : ∀ s, (funcs cmd trace ntlbSize ntlbWay pwcSize pwcWay result).run s = _ :=
    funcs_run cmd z trace result
  have hscripts : Respects (SameFor cmd)
      ((cmd.scripts trace).forM (Script.run SimAction.perform)) := by
    apply Respects.forM
    intro script hscript
    rcases SimCmd.forall_performs_of_mem_scripts hscript with ⟨t, _, hperforms⟩
    exact Script.run_respects fun action haction => perform_respects (hperforms action haction)
  have hstart : SameFor cmd (cmd.start z s) (cmd.start z s') := by
    apply SameFor.flushAll
    intro c huses
    rw [SimCmd.configure_geometry huses, SimCmd.configure_geometry huses]
  have hreport : ∀ t t', SameFor cmd t t' → cmd.report result t = cmd.report result t' := by
    intro t t' h
    simp only [SimCmd.report, h.cnt_eq, h.memAccs_eq]
  rw [hrun, hrun]
  exact (hscripts _ _ hstart).bind fun _ t t' hsame => ⟨hreport t t' hsame, hsame⟩

theorem funcs_returns {z : Sizes} {cmd : SimCmd} (h : z.ValidFor cmd) (trace : List (BitVec 8))
    (result : SimResult) (s : Sim) :
    Returns (funcs cmd trace z.ntlbSize z.ntlbWay z.pwcSize z.pwcWay result) s
      fun _ _ => True := by
  have hfits : ∀ c, cmd.uses c = true →
      ((cmd.start z s).geometry c).Fits cacheMaxEntries := by
    intro c huses
    rw [SimCmd.start, Sim.flushAll_geometry, SimCmd.configure_geometry huses]
    exact h.fits huses
  -- the lookups leave the geometries alone
  refine (funcs_keeps (fun s => ∀ c, cmd.uses c = true → (s.geometry c).Fits cacheMaxEntries)
    (fun t _ action haction s hs => ?_) hfits result).mono fun _ _ _ => trivial
  cases action with
  | lookup c addr asid =>
      exact lookup_returns_of_use (hs c haction.uses) (fun _ _ => hs) (fun _ _ => hs)
  | access cmd' n =>
      rw [perform_access_returns_iff]
      exact hs

theorem simulateFile_run'_eq (fopen : FileName → Option (List (BitVec 8)))
    (ntlbSize pwcSize way : ℕ) (cmd : SimCmd) (file : FileName) (s s' : Sim) :
    (simulateFile fopen ntlbSize pwcSize way cmd file).run' s =
      (simulateFile fopen ntlbSize pwcSize way cmd file).run' s' := by
  rw [simulateFile]
  cases fopen file with
  | none => rfl
  | some trace =>
      exact (funcs_sameOutcome cmd trace ntlbSize way pwcSize way .zero s s').run'_eq

/-- The list that `tlbsim_sim` returns is put together from simulations that are each
the first one of a process. -/
theorem tlbsimSim_run'_eq (fopen : FileName → Option (List (BitVec 8)))
    (readdir : Option (List FileName)) (tlbSize ntlbSize pwcSize way : ℕ) (cmd : SimCmd)
    (path : List Char) (s : Sim) :
    (tlbsimSim fopen readdir tlbSize ntlbSize pwcSize way cmd path).run' s =
      (fun results => results.map some ++ [none]) <$>
        (listTraceFiles path tlbSize way readdir).mapM fun file =>
          (simulateFile fopen ntlbSize pwcSize way cmd file).run' .initial := by
  rw [← run'_mapM (simulateFile_run'_eq fopen ntlbSize pwcSize way cmd) _ s, StateT.run'_eq,
    StateT.run'_eq, tlbsimSim, StateT.run_bind]
  cases ((listTraceFiles path tlbSize way readdir).mapM
      (simulateFile fopen ntlbSize pwcSize way cmd)).run s with
  | error fault => rfl
  | ok pair => rfl

/-- A call of one of the four simulations. -/
structure SimCall where
  cmd : SimCmd
  trace : List (BitVec 8)
  sizes : Sizes
  result : SimResult

/-- Make the call. -/
def SimCall.run (call : SimCall) : SimM SimResult :=
  funcs call.cmd call.trace call.sizes.ntlbSize call.sizes.ntlbWay call.sizes.pwcSize
    call.sizes.pwcWay call.result

/-- Each simulation is independent of the ones before it. After any history of calls
a call writes the result that it writes as the first call of the process, and the
list over a folder is made of the results of its files taken separately. -/
theorem simulations_independent :
    (∀ (history : List SimCall) (call : SimCall),
        (∀ earlier ∈ history, earlier.sizes.ValidFor earlier.cmd) →
        call.sizes.ValidFor call.cmd →
        Returns (history.forM fun earlier => discard earlier.run) .initial fun _ s =>
          Returns call.run s fun r _ => Returns call.run .initial fun first _ => first = r) ∧
      ∀ (fopen : FileName → Option (List (BitVec 8))) (readdir : Option (List FileName))
        (tlbSize ntlbSize pwcSize way : ℕ) (cmd : SimCmd) (path : List Char) (s : Sim),
        (tlbsimSim fopen readdir tlbSize ntlbSize pwcSize way cmd path).run' s =
          (fun results => results.map some ++ [none]) <$>
            (listTraceFiles path tlbSize way readdir).mapM fun file =>
              (simulateFile fopen ntlbSize pwcSize way cmd file).run' .initial := by
  refine ⟨fun history call hhistory hcall => ?_, tlbsimSim_run'_eq⟩
  have hstep : ∀ (_ : List SimCall), ∀ earlier ∈ history, ∀ s : Sim, True →
      Returns (discard earlier.run) s fun _ _ => True := by
    intro _ earlier hmem s _
    rw [Returns.discard_iff]
    exact funcs_returns (hhistory earlier hmem) earlier.trace earlier.result s
  apply (Returns.forM (fun (_ : List SimCall) (_ : Sim) => True) history hstep trivial).mono
  intro _ s _
  have hsame : SameOutcome (SameFor call.cmd) (call.run.run s) (call.run.run .initial) :=
    funcs_sameOutcome _ _ _ _ _ _ _ _ _
  apply (hsame.returns (funcs_returns hcall call.trace call.result s)).mono
  rintro r _ ⟨-, hfirst⟩
  exact hfirst.mono fun first _ h => h.1

/-- A nested TLB simulation, then one of both caches with other sizes. -/
theorem simulations_independent_sampleTrace :
    Returns (List.forM [SimCall.mk .scNtlb sampleTrace ⟨1, 1, 0, 0⟩ .zero] fun earlier =>
        discard earlier.run) .initial fun _ s =>
      Returns (SimCall.mk .scNtlbPwc sampleTrace ⟨4, 2, 8, 4⟩ .zero).run s fun r _ =>
        Returns (SimCall.mk .scNtlbPwc sampleTrace ⟨4, 2, 8, 4⟩ .zero).run .initial
          fun first _ => first = r := by
  apply simulations_independent.1
  · intro earlier hmem
    rw [List.mem_singleton] at hmem
    rw [hmem]
    intro c huses
    have hc : c = .ntlb2 := of_decide_eq_true huses
    rw [hc]
    decide
  · intro c _
    cases c <;> decide

end TlbAnalyzer.Simulator
