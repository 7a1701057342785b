/-
# No page is lost

A session between two calls of `tlbtrace_toggle`, with references and flushes in any
order. Hits are not recorded, so that the trace does not have every reference. But the
table is empty at the start, and an entry comes into it only by a miss, which is
recorded: a hit is on a page that the trace has already. The pages of the trace are
therefore the pages that were referenced.
-/

import TlbAnalyzer.Tracer.Freshness
import TlbAnalyzer.Tracer.Lifecycle
import TlbAnalyzer.Tracer.LongRuns

namespace TlbAnalyzer.Tracer

open Cache Math TraceFile

variable {α : Type} {s s' : Globals α} {size set : ℕ}

namespace Logged

variable {helper : α → BitVec 32 → PteResult} {name : FileName} {n : ℕ} {missing : List (Ref α)}

/-- A reference, if it returns: the search, and the record if it missed. -/
theorem referenced (hset : 1 ≤ set) (hle : set ≤ size) (hrunning : Running s size set)
    (h : Logged s helper name n missing) (r : Ref α) :
    Ensures r.run s fun _ s' => Running s' size set ∧ ∃ hit s₁,
      Referenced s (pageOf r.addr) r.asid r.ins hit s₁ ∧ Recorded s₁ s' ∧
        Logged s' helper name (n + 1) (missing ++ if (!hit) = true then [r] else []) := by
  intro _ s' hrun
  rcases h.step hset hle hrunning r _ s' hrun with ⟨hrunning', hlogged⟩
  rcases run_bind_eq_ok_iff.mp hrun with ⟨hit, s₁, hsearch, hrest⟩
  have href := (tlbtraceRefmemSl_ensures (hrunning.fits hset hle) _ _ hsearch).1
  have hmisses : r.misses s = !hit := by rw [Ref.misses, hsearch]
  have hrec : Recorded s₁ s' := by
    cases hit with
    | true =>
        cases hrest
        exact .refl _
    | false => exact tlbtraceRefmemPwc_ensures _ _ _ _ hrest
  rw [hmisses] at hlogged
  exact ⟨hrunning', hit, s₁, href, hrec, hlogged⟩

end Logged

/-- One of the references is to the page under the identifier. -/
def Told (missing : List (Ref α)) (page asid : BitVec 32) : Prop :=
  ∃ r ∈ missing, pageOf r.addr = page ∧ r.asid = asid

theorem Told.append {missing : List (Ref α)} {page asid : BitVec 32} (h : Told missing page asid)
    (more : List (Ref α)) : Told (missing ++ more) page asid := by
  rcases h with ⟨r, hr, htold⟩
  exact ⟨r, List.mem_append_left more hr, htold⟩

/-- A session in which the operations were performed: the misses among them are recorded,
and they tell every page that was referenced and every page in the table. -/
structure Kept (s : Globals α) (helper : α → BitVec 32 → PteResult) (name : FileName) (n : ℕ)
    (handled : List (Op α)) (missing : List (Ref α)) : Prop where
  logged : Logged s helper name n missing
  started : s.started = true
  only : ∀ r ∈ missing, r.op ∈ handled
  every : ∀ r : Ref α, r.op ∈ handled → Told missing (pageOf r.addr) r.asid
  entries : ∀ i < s.geometry.entries, Valid (s.slTlb i) →
    Told missing (s.slTlb i).va (s.slTlb i).asid

namespace Kept

variable {helper : α → BitVec 32 → PteResult} {name : FileName} {n : ℕ} {handled : List (Op α)}
  {missing : List (Ref α)}

theorem opened (hstarted : s.started = true) (tm : Tm) (fresh : ℕ → BitVec 32) :
    Kept (s.opened tm fresh) s.myPteHelper (traceName tm s.geometry.entries s.tlbSet) 0 [] [] where
  logged := Logged.opened s tm fresh
  started := hstarted
  only _ hr := absurd hr List.not_mem_nil
  every _ hr := absurd hr List.not_mem_nil
  entries _ hi hvalid := absurd hvalid (Globals.not_valid_opened tm fresh hi)

/-- A hit is on a page that is told. -/
theorem told_of_hit (hready : Ready s size set) (h : Kept s helper name n handled missing)
    {addr asid : BitVec 32} {ins : Bool} (haddr : addr.toNat % 4096 = 0)
    (href : Referenced s addr asid ins true s') : Told missing addr asid := by
  have hentry : ∀ i < s.geometry.entries, test addr asid (s.slTlb i) = true →
      Told missing addr asid := by
    intro i hi htest
    have htold := h.entries i hi (.of_test haddr htest)
    rcases test_iff.mp htest with ⟨hva, hasid⟩
    rw [hva, hasid] at htold
    exact htold
  cases href with
  | fast _ hidx htest => exact hentry _ (hready.slCap_eq_entries ▸ hidx) htest
  | hit i hmem htest => exact hentry i (Geometry.lt_entries_of_mem_slots hmem) htest

/-- After a reference its own page is told, by the reference itself if it missed. -/
theorem told_of_referenced (hready : Ready s size set) (h : Kept s helper name n handled missing)
    (r : Ref α) {hit : Bool} (href : Referenced s (pageOf r.addr) r.asid r.ins hit s') :
    Told (missing ++ if (!hit) = true then [r] else []) (pageOf r.addr) r.asid := by
  cases hit with
  | true => exact (h.told_of_hit hready (toNat_pageOf_mod r.addr) href).append _
  | false => exact ⟨r, List.mem_append_right missing (List.mem_singleton_self r), rfl, rfl⟩

/-- A reference, if it returns. -/
theorem refmem (hset : 1 ≤ set) (hle : set ≤ size) (hrunning : Running s size set)
    (h : Kept s helper name n handled missing) (r : Ref α) :
    Ensures r.run s fun _ s' => Running s' size set ∧ ∃ missing', missing <+: missing' ∧
      Kept s' helper name (n + 1) (handled ++ [r.op]) missing' := by
  refine (h.logged.referenced hset hle hrunning r).mono fun _ s' hs' => ?_
  rcases hs' with ⟨hrunning', hit, s₁, href, hrec, hlogged⟩
  have htold := h.told_of_referenced hrunning.toReady r href
  rcases hrec.eq_with with ⟨_, _, _, rfl⟩
  refine ⟨hrunning', _, List.prefix_append missing _, hlogged, href.started_eq.trans h.started,
    ?_, ?_, ?_⟩
  · intro r' hr'
    rcases List.mem_append.mp hr' with hbefore | hnew
    · exact List.mem_append_left _ (h.only r' hbefore)
    · rw [List.mem_ite_nil_right, List.mem_singleton] at hnew
      rw [hnew.2]
      exact List.mem_append_right handled (List.mem_singleton_self r.op)
  · intro r' hr'
    rcases List.mem_append.mp hr' with hbefore | hnew
    · exact (h.every r' hbefore).append _
    · have hsame : r'.op = r.op := List.mem_singleton.mp hnew
      cases r'
      cases hsame
      exact htold
  · intro i hi hvalid
    change Valid (s₁.slTlb i) at hvalid
    show Told _ (s₁.slTlb i).va (s₁.slTlb i).asid
    rcases href.translation_eq i with ⟨hva, hasid⟩ | ⟨hva, hasid⟩
    · have hbefore : Valid (s.slTlb i) := by
        rw [Valid, ← hva]
        exact hvalid
      rw [hva, hasid]
      exact (h.entries i (href.geometry_eq ▸ hi) hbefore).append _
    · rw [hva, hasid]
      exact htold

/-- A flush only takes entries away. -/
theorem flush (hrunning : Running s size set) (h : Kept s helper name n handled missing) {op : Op α}
    (hop : op.isFlush = true) :
    Returns op.run s fun _ s' => Running s' size set ∧
      Kept s' helper name n (handled ++ [op]) missing := by
  apply (h.logged.flush hrunning h.started hop).mono
  rintro _ s' ⟨hrunning', hlogged, rfl⟩
  refine ⟨hrunning', hlogged, h.started, ?_, ?_, ?_⟩
  · intro r hr
    exact List.mem_append_left _ (h.only r hr)
  · intro r hr
    rcases List.mem_append.mp hr with hbefore | hnew
    · exact h.every r hbefore
    · rw [← List.mem_singleton.mp hnew] at hop
      cases hop
  · intro i hi hvalid
    rcases flushMatching_of_valid hvalid with ⟨hkept, -⟩
    show Told missing (flushMatching op.clears s.geometry.entries s.slTlb i).va
      (flushMatching op.clears s.geometry.entries s.slTlb i).asid
    rw [hkept]
    exact h.entries i hi (hkept ▸ hvalid)

/-- An operation, if it returns. -/
theorem step (hset : 1 ≤ set) (hle : set ≤ size) (hrunning : Running s size set)
    (h : Kept s helper name n handled missing) (op : Op α) :
    Ensures op.run s fun _ s' => Running s' size set ∧ ∃ missing', missing <+: missing' ∧
      Kept s' helper name (n + (references [op]).length) (handled ++ [op]) missing' := by
  cases op with
  | refmem addr asid ins arg => exact h.refmem hset hle hrunning ⟨addr, asid, ins, arg⟩
  | _ =>
      exact (h.flush hrunning rfl).ensures.mono fun _ s' hs' =>
        ⟨hs'.1, missing, List.prefix_refl missing, hs'.2⟩

/-- A run of operations, if it returns. -/
theorem run (hset : 1 ≤ set) (hle : set ≤ size) (ops : List (Op α)) (hrunning : Running s size set)
    (h : Kept s helper name n handled missing) :
    Ensures (runOps ops) s fun _ s' => Running s' size set ∧ ∃ missing', missing <+: missing' ∧
      Kept s' helper name (n + (references ops).length) (handled ++ ops) missing' := by
  induction ops generalizing s n handled missing with
  | nil =>
      rw [runOps, List.forM, Ensures.pure_iff, List.append_nil]
      exact ⟨hrunning, missing, List.prefix_refl missing, h⟩
  | cons op ops ih =>
      rw [runOps, List.forM, Ensures.bind_iff]
      refine (h.step hset hle hrunning op).mono fun _ s₁ hs₁ => ?_
      rcases hs₁ with ⟨hrunning₁, missing₁, hmore, h₁⟩
      have hrest := ih hrunning₁ h₁
      rw [List.append_assoc, Nat.add_assoc, ← List.length_append, ← references_cons] at hrest
      refine hrest.mono fun _ s₂ hs₂ => ?_
      rcases hs₂ with ⟨hrunning₂, missing₂, hmore', h₂⟩
      exact ⟨hrunning₂, missing₂, hmore.trans hmore', h₂⟩

end Kept

/-! ## Whole sessions -/

/-- Toggle the tracer on, let the guest run, and toggle it off again. -/
def toggledSession (tm : Tm) (fresh : ℕ → BitVec 32) (ops : List (Op α)) : TraceM α Unit := do
  tlbtraceToggle tm fresh
  runOps ops
  tlbtraceToggle tm fresh

/-- What the trace of a session tells: the references that missed, in the order of the calls,
and among them every page that was referenced under every identifier. -/
def TellsAll (helper : α → BitVec 32 → PteResult) (name : FileName) (ops : List (Op α))
    (s' : Globals α) : Prop :=
  ∃ bytes missing, s'.files name = some bytes ∧
    List.Forall₂ (Tells helper) (readRecords bytes) missing ∧
    (∀ r ∈ missing, r.op ∈ ops) ∧ ∀ r : Ref α, r.op ∈ ops → Told missing (pageOf r.addr) r.asid

/-- Switching a started tracer off writes out what is still in the buffer. -/
theorem Logged.closed {helper : α → BitVec 32 → PteResult} {name : FileName} {n : ℕ}
    {missing : List (Ref α)} (h : Logged s helper name n missing) (hstarted : s.started = true)
    (tm : Tm) (fresh : ℕ → BitVec 32) :
    Returns (tlbtraceToggle tm fresh) s fun _ s' =>
      ∃ bytes, s'.files name = some bytes ∧
        readRecords bytes = missing.map (Ref.record helper) := by
  have hcarries : Carries { s with started := false } name
      ((missing.map (Ref.record helper)).flatMap TraceRecord.words) :=
    ⟨h.carries.fout_eq, h.carries.content⟩
  simp only [tlbtraceToggle, Returns.bind_iff, Returns.modify_iff, Returns.get_iff, hstarted,
    Bool.not_true, Bool.false_eq_true, if_false]
  apply hcarries.closed.mono
  rintro _ s' ⟨hfile, -⟩
  exact ⟨_, hfile, readRecords_of_words _⟩

theorem Kept.closed {helper : α → BitVec 32 → PteResult} {name : FileName} {n : ℕ}
    {ops : List (Op α)} {missing : List (Ref α)}
    (hret : ∀ arg addr, (helper arg addr).ret.toNat < 16) (h : Kept s helper name n ops missing)
    (tm : Tm) (fresh : ℕ → BitVec 32) :
    Returns (tlbtraceToggle tm fresh) s fun _ s' => TellsAll helper name ops s' := by
  apply (h.logged.closed h.started tm fresh).mono
  rintro _ s' ⟨bytes, hfile, hrecords⟩
  refine ⟨bytes, missing, hfile, ?_, h.only, h.every⟩
  rw [hrecords, List.forall₂_map_left_iff]
  exact List.forall₂_same.mpr fun r _ => Ref.record_tells (hret r.arg (pageOf r.addr))

/-- What holds of a session: the tracer starts, the operations run, and what they leave is
written out. The session returns below the limit, when the last instruction fetch before it
used a slot that exists. -/
theorem toggledSession_of_run (hset : 1 ≤ set) (hle : set ≤ size) (hready : Ready s size set)
    (hstarted : s.started = false) (tm : Tm) (fresh : ℕ → BitVec 32) (ops : List (Op α))
    {post : Globals α → Prop}
    (hrun : Ensures (runOps ops) ({ s with started := true }.opened tm fresh) fun _ s' =>
      Returns (tlbtraceToggle tm fresh) s' fun _ final => post final) :
    (Ensures (toggledSession tm fresh ops) s fun _ final => post final) ∧
      (s.lastInsIdx < size → (references ops).length < refLimit →
        Returns (toggledSession tm fresh ops) s fun _ final => post final) := by
  have hstart := tlbtraceToggle_returns hready hstarted tm fresh
  have hrunning := hready.toggled tm fresh
  have hkept : Kept ({ s with started := true }.opened tm fresh) s.myPteHelper
      (traceName tm s.geometry.entries s.tlbSet) 0 [] [] := Kept.opened rfl tm fresh
  constructor
  · rw [toggledSession, Ensures.known_bind_iff hstart, Ensures.bind_iff]
    exact hrun.mono fun _ s₁ hs₁ => hs₁.ensures
  · intro hidx hlimit
    rw [toggledSession, Returns.known_bind_iff hstart, Returns.bind_iff]
    have hreturns := hkept.logged.runOps_returns hset hle ops hrunning hidx
      (by rwa [Nat.zero_add])
    exact (hreturns.and_ensures hrun).mono fun _ s₁ hs₁ => hs₁.2

/-- The pages of the records are the pages that were referenced. -/
theorem TellsAll.pages_iff {helper : α → BitVec 32 → PteResult} {name : FileName}
    {ops : List (Op α)} (h : TellsAll helper name ops s') (page : BitVec 32) :
    (∃ bytes, s'.files name = some bytes ∧
      ∃ t ∈ readRecords bytes, t.mva &&& 0xFFFFF000#32 = page) ↔
      ∃ r : Ref α, r.op ∈ ops ∧ pageOf r.addr = page := by
  rcases h with ⟨bytes, missing, hfile, htells, honly, hevery⟩
  have hpages : (readRecords bytes).map (fun t => t.mva &&& 0xFFFFF000#32) =
      missing.map fun r => pageOf r.addr := by
    rw [← List.forall₂_eq_eq_eq, List.forall₂_map_left_iff, List.forall₂_map_right_iff]
    exact htells.imp fun t r htell => htell.page_eq
  constructor
  · intro hex
    rcases hex with ⟨bytes', hfile', t, ht, hpage⟩
    cases hfile.symm.trans hfile'
    have hmem : page ∈ missing.map fun r => pageOf r.addr := by
      rw [← hpages]
      exact List.mem_map.mpr ⟨t, ht, hpage⟩
    rcases List.mem_map.mp hmem with ⟨r, hr, hsame⟩
    exact ⟨r, honly r hr, hsame⟩
  · intro hex
    rcases hex with ⟨r, hr, hpage⟩
    rcases hevery r hr with ⟨r', hr', hsame, -⟩
    have hmem : page ∈ (readRecords bytes).map fun t => t.mva &&& 0xFFFFF000#32 := by
      rw [hpages]
      exact List.mem_map.mpr ⟨r', hr', hsame.trans hpage⟩
    rcases List.mem_map.mp hmem with ⟨t, ht, htell⟩
    exact ⟨bytes, hfile, t, ht, htell⟩

/-- A trace without a record is that of a session without a reference. -/
theorem TellsAll.length_lt_iff {helper : α → BitVec 32 → PteResult} {name : FileName}
    {ops : List (Op α)} (h : TellsAll helper name ops s') {bytes : List (BitVec 8)}
    (hfile : s'.files name = some bytes) : bytes.length < 16 ↔ references ops = [] := by
  rcases h with ⟨bytes', missing, hfile', htells, hsource, hevery⟩
  cases hfile.symm.trans hfile'
  have hlength : missing.length = bytes.length / 16 := by
    rw [← htells.length_eq, length_readRecords]
  have hmissing : bytes.length < 16 ↔ missing = [] := by
    rw [← List.length_eq_zero_iff, hlength]
    omega
  rw [hmissing, references, List.filterMap_eq_nil_iff]
  constructor
  · intro hnil op hop
    cases op with
    | refmem addr asid ins arg =>
        rcases hevery ⟨addr, asid, ins, arg⟩ hop with ⟨r, hr, -⟩
        rw [hnil] at hr
        exact absurd hr List.not_mem_nil
    | flushAll => rfl
    | flushEntry va => rfl
    | flushAsid asid => rfl
  · intro hnone
    rw [List.eq_nil_iff_forall_not_mem]
    intro r hr
    exact Option.some_ne_none _ (hnone r.op (hsource r hr))

end TlbAnalyzer.Tracer
