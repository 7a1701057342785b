/-
# The life cycle of the tracer

Whether the tracer is running is kept twice: in the flag `started`, which
`tlbtrace_enabled` reports and the flushes test, and in the open trace file with
its record buffer. Only `tlbtrace_toggle` changes both. The automaton `Phase` says
which sequences of calls keep the two together, and every other call of the
interface makes them disagree.

The index of the last instruction fetch is not reset by any call. It outlives the
table it points into, and the first fetch of a later session reads the new table
there.
-/

import TlbAnalyzer.Tracer.Steps

namespace TlbAnalyzer.Tracer

open Cache Math

variable {α : Type}

/-! ## Calls of the interface -/

/-- A call that changes the state of the tracer as a whole. -/
inductive ApiCall (α : Type)
  | init (size set : ℕ) (pteHelper : α → BitVec 32 → PteResult) (fresh : ℕ → TlbEntry)
  | start (tm : Tm) (fresh : ℕ → BitVec 32)
  | stop
  | toggle (tm : Tm) (fresh : ℕ → BitVec 32)
  | destroy

/-- Make the call. -/
def ApiCall.run : ApiCall α → TraceM α Unit
  | .init size set pteHelper fresh => discard (tlbtraceInit size set pteHelper fresh)
  | .start tm fresh => tlbtraceStart tm fresh
  | .stop => tlbtraceStop
  | .toggle tm fresh => tlbtraceToggle tm fresh
  | .destroy => tlbtraceDestroy

/-- Make calls one after another. -/
def runCalls (calls : List (ApiCall α)) : TraceM α Unit := calls.forM ApiCall.run

/-- A session is open: `tlbtrace_start` opened a trace file and a record buffer, and
`tlbtrace_stop` has not closed them. -/
def Globals.isOpen (s : Globals α) : Bool := s.fout.isSome && s.fbuf.isLive

/-- What a caller has to observe: no start in an open session and no stop without
one. -/
def ApiCall.Permitted : ApiCall α → Globals α → Prop
  | .start _ _, s => s.isOpen = false
  | .stop, s => s.isOpen = true
  | .init _ _ _ _, _ | .toggle _ _, _ | .destroy, _ => True

/-! ## Phases -/

/-- The tracer has no table, has one, or has a session open. -/
inductive Phase
  | off | closed | opened
  deriving DecidableEq

namespace Phase

/-- The calls that keep the flag and the session together. -/
def step : Phase → ApiCall α → Option Phase
  | .off, .init _ _ _ _ => some .closed
  | .off, .destroy => some .off
  | .closed, .init _ _ _ _ => some .closed
  | .closed, .toggle _ _ => some .opened
  | .closed, .destroy => some .off
  | .opened, .toggle _ _ => some .closed
  | _, _ => none

/-- The phase after some calls, if they are all of that kind. -/
def run : Phase → List (ApiCall α) → Option Phase
  | phase, [] => some phase
  | phase, call :: calls => (phase.step call).bind fun phase' => phase'.run calls

end Phase

/-- The globals are in a phase. -/
structure InPhase (s : Globals α) (phase : Phase) : Prop where
  started_eq : s.started = decide (phase = .opened)
  isOpen_eq : s.isOpen = decide (phase = .opened)
  ready : phase ≠ .off → ∃ size set, Ready s size set
  slCap_eq : phase = .off → s.slCap = 0

section

variable {s : Globals α}

/-- A stop writes to the file and lets go of it and of the buffer. -/
theorem Globals.closed_eq (s : Globals α) (words : ℕ → BitVec 32) :
    ∃ files, s.closed words = { s with fbuf := .freed, fout := none, files := files } := by
  rw [Globals.closed]
  split
  · rw [Globals.appendFile]
    split
    · exact ⟨_, rfl⟩
    · exact ⟨_, rfl⟩
  · exact ⟨_, rfl⟩

/-- Switching a running tracer off is a stop, with the flushes disabled. -/
theorem tlbtraceToggle_returns_closed (hstarted : s.started = true) {words : ℕ → BitVec 32}
    (hfbuf : s.fbuf = .live words) (tm : Tm) (fresh : ℕ → BitVec 32) :
    Returns (tlbtraceToggle tm fresh) s fun _ s' =>
      s' = { s with started := false }.closed words := by
  simp only [tlbtraceToggle, Returns.bind_iff, Returns.modify_iff, Returns.get_iff, hstarted,
    Bool.not_true]
  exact tlbtraceStop_returns hfbuf

theorem flushTable_ensures_le (flush : ℕ → (ℕ → TlbEntry) → ℕ → TlbEntry) :
    Ensures (flushTable flush) s fun _ _ => s.geometry.entries ≤ s.slCap := by
  intro _ s' hrun
  by_contra hlt
  have hfault : (flushTable flush).run s = .error _ := if_pos (Nat.not_le.mp hlt)
  rw [hfault] at hrun
  cases hrun

/-- A start goes through the whole table. -/
theorem tlbtraceStart_ensures (tm : Tm) (fresh : ℕ → BitVec 32) :
    Ensures (tlbtraceStart tm fresh) s fun _ _ => s.geometry.entries ≤ s.slCap := by
  simp only [tlbtraceStart, openTrace, Ensures.bind_iff, Ensures.get_iff, Ensures.modify_iff]
  exact flushTable_ensures_le flushTlb

end

namespace InPhase

variable {s : Globals α} {phase : Phase}

theorem initial (helper : α → BitVec 32 → PteResult) : InPhase (Globals.initial helper) .off :=
  ⟨rfl, rfl, fun h => absurd rfl h, fun _ => rfl⟩

theorem exists_words (h : InPhase s .opened) : ∃ words, s.fbuf = .live words := by
  have hopen := h.isOpen_eq
  rw [decide_eq_true rfl, Globals.isOpen, Bool.and_eq_true] at hopen
  exact Buffer.exists_of_isLive hopen.2

/-- `tlbtrace_init` between sessions. -/
theorem init (hopen : s.isOpen = false) (size set : ℕ) (pteHelper : α → BitVec 32 → PteResult)
    (fresh : ℕ → TlbEntry) :
    Returns (ApiCall.init size set pteHelper fresh).run s fun _ s' => InPhase s' .closed := by
  rw [ApiCall.run, Returns.discard_iff, tlbtraceInit, Returns.bind_iff, Returns.modify_iff,
    Returns.pure_iff]
  exact ⟨rfl, hopen, fun _ => ⟨size, set, rfl, rfl⟩, fun h => absurd h (by decide)⟩

/-- `tlbtrace_destroy` between sessions. -/
theorem destroy (hopen : s.isOpen = false) :
    Returns (ApiCall.destroy : ApiCall α).run s fun _ s' => InPhase s' .off := by
  rw [ApiCall.run, tlbtraceDestroy, Returns.modify_iff]
  exact ⟨rfl, hopen, fun h => absurd rfl h, fun _ => rfl⟩

/-- `tlbtrace_toggle` opens a session. -/
theorem toggle_closed (h : InPhase s .closed) (tm : Tm) (fresh : ℕ → BitVec 32) :
    Returns (tlbtraceToggle tm fresh) s fun _ s' => InPhase s' .opened := by
  rcases h.ready (by decide) with ⟨size, set, hready⟩
  apply (tlbtraceToggle_returns hready h.started_eq tm fresh).mono
  rintro _ s' rfl
  exact ⟨rfl, rfl, fun _ => ⟨size, set, hready.geometry_eq, hready.slCap_eq⟩,
    fun h => absurd h (by decide)⟩

/-- `tlbtrace_toggle` closes a session. -/
theorem toggle_opened (h : InPhase s .opened) (tm : Tm) (fresh : ℕ → BitVec 32) :
    Returns (tlbtraceToggle tm fresh) s fun _ s' => InPhase s' .closed := by
  rcases h.ready (by decide) with ⟨size, set, hready⟩
  rcases h.exists_words with ⟨words, hwords⟩
  apply (tlbtraceToggle_returns_closed h.started_eq hwords tm fresh).mono
  rintro _ s' rfl
  rcases Globals.closed_eq { s with started := false } words with ⟨files, hclosed⟩
  rw [hclosed]
  exact ⟨rfl, rfl, fun _ => ⟨size, set, hready.geometry_eq, hready.slCap_eq⟩,
    fun h => absurd h (by decide)⟩

/-- One call of the automaton. -/
theorem call {phase' : Phase} {call : ApiCall α} (h : InPhase s phase)
    (hstep : phase.step call = some phase') :
    Returns call.run s fun _ s' => InPhase s' phase' := by
  cases phase with
  | off =>
      cases call <;> cases hstep
      · exact init h.isOpen_eq _ _ _ _
      · exact destroy h.isOpen_eq
  | closed =>
      cases call <;> cases hstep
      · exact init h.isOpen_eq _ _ _ _
      · exact h.toggle_closed _ _
      · exact destroy h.isOpen_eq
  | opened =>
      cases call <;> cases hstep
      exact h.toggle_opened _ _

/-- A run of such calls. -/
theorem run {phase' : Phase} (calls : List (ApiCall α)) (h : InPhase s phase)
    (hrun : phase.run calls = some phase') :
    Returns (runCalls calls) s fun _ s' => InPhase s' phase' := by
  induction calls generalizing s phase with
  | nil =>
      cases hrun
      exact Returns.pure_iff.mpr h
  | cons call calls ih =>
      rw [Phase.run, Option.bind_eq_some_iff] at hrun
      rcases hrun with ⟨middle, hstep, hrest⟩
      rw [runCalls, List.forM, Returns.bind_iff]
      apply (h.call hstep).mono
      intro _ s' hs'
      exact ih hs' hrest

/-- Before `tlbtrace_init` there is no table to start with. -/
theorem not_agree_of_off {call : ApiCall α} (h : InPhase s .off)
    (hstep : Phase.off.step call = none) (hpermitted : call.Permitted s)
    (hentries : 0 < s.geometry.entries) :
    ¬ Returns call.run s fun _ s' => s'.started = s'.isOpen := by
  have hcap := h.slCap_eq rfl
  cases call with
  | init => cases hstep
  | destroy => cases hstep
  | stop =>
      rw [ApiCall.Permitted, h.isOpen_eq] at hpermitted
      exact absurd hpermitted (by decide)
  | start tm fresh =>
      intro ⟨_, s', hrun, _⟩
      have hle := tlbtraceStart_ensures tm fresh _ s' hrun
      omega
  | toggle tm fresh =>
      intro ⟨_, s', hrun, _⟩
      have htoggle : Ensures (tlbtraceToggle tm fresh) s
          fun _ _ => s.geometry.entries ≤ s.slCap := by
        have hstarted : s.started = false := h.started_eq
        simp only [tlbtraceToggle, Ensures.bind_iff, Ensures.modify_iff, Ensures.get_iff,
          hstarted, Bool.not_false, if_true]
        exact tlbtraceStart_ensures tm fresh
      have hle := htoggle _ s' hrun
      omega

/-- Between sessions only a direct start does harm: it opens one and leaves the flag alone. -/
theorem not_agree_of_closed {call : ApiCall α} (h : InPhase s .closed)
    (hstep : Phase.closed.step call = none) (hpermitted : call.Permitted s) :
    ¬ Returns call.run s fun _ s' => s'.started = s'.isOpen := by
  rcases h.ready (by decide) with ⟨size, set, hready⟩
  cases call with
  | init => cases hstep
  | toggle => cases hstep
  | destroy => cases hstep
  | stop =>
      rw [ApiCall.Permitted, h.isOpen_eq] at hpermitted
      exact absurd hpermitted (by decide)
  | start tm fresh =>
      intro hagree
      rcases tlbtraceStart_returns hready tm fresh with ⟨_, s', hrun, rfl⟩
      have hstarted : s.started = true := (Returns.iff_of_run hrun).mp hagree
      rw [h.started_eq] at hstarted
      exact absurd hstarted (by decide)

/-- In a session every call but the toggle either leaves the flag set and closes the
file, or resets the flag and leaves the file open. -/
theorem not_agree_of_opened {call : ApiCall α} (h : InPhase s .opened)
    (hstep : Phase.opened.step call = none) (hpermitted : call.Permitted s) :
    ¬ Returns call.run s fun _ s' => s'.started = s'.isOpen := by
  rcases h.exists_words with ⟨words, hwords⟩
  have hopen : s.isOpen = true := h.isOpen_eq
  cases call with
  | toggle => cases hstep
  | start tm fresh =>
      rw [ApiCall.Permitted, hopen] at hpermitted
      exact absurd hpermitted (by decide)
  | stop =>
      intro hagree
      rcases tlbtraceStop_returns hwords with ⟨_, s', hrun, rfl⟩
      rcases s.closed_eq words with ⟨files, hclosed⟩
      have hstarted : (s.closed words).started = false := (Returns.iff_of_run hrun).mp hagree
      rw [hclosed, h.started_eq] at hstarted
      exact absurd hstarted (by decide)
  | init size set pteHelper fresh =>
      intro hagree
      rw [ApiCall.run, Returns.discard_iff, tlbtraceInit, Returns.bind_iff, Returns.modify_iff,
        Returns.pure_iff] at hagree
      exact Bool.false_ne_true (hagree.trans hopen)
  | destroy =>
      intro hagree
      rw [ApiCall.run, tlbtraceDestroy, Returns.modify_iff] at hagree
      exact Bool.false_ne_true (hagree.trans hopen)

/-- Any other call that a caller may make leaves the flag and the session in
disagreement, or does not return because there is no table. -/
theorem not_agree_of_step_eq_none {call : ApiCall α} (h : InPhase s phase)
    (hstep : phase.step call = none) (hpermitted : call.Permitted s)
    (htable : phase = .off → 0 < s.geometry.entries) :
    ¬ Returns call.run s fun _ s' => s'.started = s'.isOpen := by
  cases phase with
  | off => exact h.not_agree_of_off hstep hpermitted (htable rfl)
  | closed => exact h.not_agree_of_closed hstep hpermitted
  | opened => exact h.not_agree_of_opened hstep hpermitted

end InPhase

/-- Runs of the automaton, from the start of the process. `tlbtrace_enabled` reports
an open session, `tlbtrace_toggle` closes an open session and opens a closed one,
and the flushes work in every open session. Each call that the automaton leaves out
breaks the first of these, or finds no table. -/
theorem lifecycle_enabled_iff_open (helper : α → BitVec 32 → PteResult)
    (calls : List (ApiCall α)) {phase : Phase} (hcalls : Phase.off.run calls = some phase) :
    Returns (runCalls calls) (.initial helper) fun _ s =>
      (Returns tlbtraceEnabled s fun enabled _ => (enabled = true ↔ s.isOpen = true)) ∧
        (s.isOpen = true ↔ phase = .opened) ∧
        (phase ≠ .off → ∀ tm fresh, Returns (tlbtraceToggle tm fresh) s fun _ s' =>
          s'.isOpen = !s.isOpen) ∧
        (s.isOpen = true → ∀ op : Op α, op.isFlush = true → Returns op.run s fun _ s' =>
          s' = { s with slTlb := flushMatching op.clears s.geometry.entries s.slTlb }) ∧
        ∀ call : ApiCall α, phase.step call = none → call.Permitted s →
          (phase = .off → 0 < s.geometry.entries) →
          ¬ Returns call.run s fun _ s' => s'.started = s'.isOpen := by
  apply ((InPhase.initial helper).run calls hcalls).mono
  intro _ s h
  have hagree : s.started = s.isOpen := h.started_eq.trans h.isOpen_eq.symm
  have hopened : s.isOpen = true ↔ phase = .opened := by
    rw [h.isOpen_eq, decide_eq_true_iff]
  refine ⟨?_, hopened, ?_, ?_, fun call => h.not_agree_of_step_eq_none⟩
  · rw [tlbtraceEnabled, Returns.bind_iff, Returns.get_iff, Returns.pure_iff, hagree]
  · intro hphase tm fresh
    cases phase with
    | off => exact absurd rfl hphase
    | closed =>
        apply (h.toggle_closed tm fresh).mono
        intro _ s' hs'
        rw [hs'.isOpen_eq, h.isOpen_eq]
        rfl
    | opened =>
        apply (h.toggle_opened tm fresh).mono
        intro _ s' hs'
        rw [hs'.isOpen_eq, h.isOpen_eq]
        rfl
  · intro hopen op hop
    rcases h.ready (by rw [hopened.mp hopen]; decide) with ⟨size, set, hready⟩
    exact Op.flush_returns hready (hagree.trans hopen) hop

/-- What the sample tracer finds in memory and what its walks report. -/
def sampleHelper : Unit → BitVec 32 → PteResult :=
  fun _ addr => ⟨3#32, 0x02004000#32, 0x02008040#32, addr⟩

/-- Two sessions on tables of different sizes, the second one still open. -/
def sampleCalls : List (ApiCall Unit) :=
  [.init 4 2 sampleHelper fun _ => flushedEntry, .toggle sampleTm fun _ => 0#32,
    .toggle sampleTm fun _ => 0#32, .destroy, .init 8 2 sampleHelper fun _ => flushedEntry,
    .toggle sampleTm fun _ => 0#32]

theorem lifecycle_enabled_iff_open_sampleCalls :
    Returns (runCalls sampleCalls) (.initial sampleHelper) fun _ s =>
      (Returns tlbtraceEnabled s fun enabled _ => enabled = true) ∧
        Returns (tlbtraceToggle sampleTm fun _ => 0#32) s fun _ s' => s'.isOpen = false := by
  have hcalls : Phase.off.run sampleCalls = some .opened := rfl
  apply (lifecycle_enabled_iff_open sampleHelper sampleCalls hcalls).mono
  rintro _ s ⟨henabled, hopened, htoggle, -, -⟩
  have hopen := hopened.mpr rfl
  constructor
  · exact henabled.mono fun enabled _ h => h.mpr hopen
  · apply (htoggle (by decide) _ _).mono
    intro _ s' hs'
    rw [hs', hopen]
    rfl

/-- A tracer that is started as the header describes: the session is open, but
`tlbtrace_enabled` reports 0. -/
theorem enabled_differs_after_start :
    Returns (runCalls [.init 4 2 sampleHelper fun _ => flushedEntry,
        .start sampleTm fun _ => 0#32]) (.initial sampleHelper) fun _ s =>
      s.isOpen = true ∧ Returns tlbtraceEnabled s fun enabled _ => enabled = false :=
  ⟨_, _, rfl, rfl, _, _, rfl, rfl⟩

/-! ## Complete life cycles -/

/-- A complete life cycle: the arguments of `tlbtrace_init`, and what the session
does. -/
structure Cycle (α : Type) where
  size : ℕ
  set : ℕ
  pteHelper : α → BitVec 32 → PteResult
  freshTlb : ℕ → TlbEntry
  tm : Tm
  fresh : ℕ → BitVec 32
  ops : List (Op α)

/-- An instruction fetch. -/
def Op.isFetch : Op α → Bool
  | .refmem _ _ ins _ => ins
  | .flushAll | .flushEntry _ | .flushAsid _ => false

namespace Cycle

/-- `tlbtrace_init` and `tlbtrace_start`. -/
def enter (c : Cycle α) : TraceM α Unit := do
  discard (tlbtraceInit c.size c.set c.pteHelper c.freshTlb)
  tlbtraceStart c.tm c.fresh

/-- The whole cycle. -/
def run (c : Cycle α) : TraceM α Unit := do
  c.enter
  runOps c.ops
  tlbtraceStop
  tlbtraceDestroy

/-- The globals after the cycle. -/
def after (c : Cycle α) (s : Globals α) : Globals α :=
  match c.run.run s with
  | .ok (_, s') => s'
  | .error _ => s

/-- Whether the session fetches an instruction. -/
def fetches (c : Cycle α) : Bool := c.ops.any Op.isFetch

/-- The slot of the last instruction fetch, in whatever cycle it was, exists in the
table of this cycle, if this cycle fetches at all. -/
def Safe (c : Cycle α) (s : Globals α) : Prop := c.fetches = true → s.lastInsIdx < c.size

instance (c : Cycle α) (s : Globals α) : Decidable (c.Safe s) :=
  inferInstanceAs (Decidable (_ → _))

end Cycle

/-- Cycles one after another. -/
def runCycles (cycles : List (Cycle α)) : TraceM α Unit := cycles.forM Cycle.run

/-- Every cycle is safe in the globals it finds. -/
def SafeRun : List (Cycle α) → Globals α → Prop
  | [], _ => True
  | c :: cycles, s => c.Safe s ∧ SafeRun cycles (c.after s)

/-- A reference stays inside a table of `size` entries: it reads nothing else, and
the slot it uses is one of them. -/
structure InBounds (s : Globals α) (addr asid : BitVec 32) (ins : Bool) (size : ℕ) : Prop where
  slCap_eq : s.slCap = size
  reads : ∀ i, (tlbtraceRefmemSl addr asid ins).run s ≠ .error (.fault (.outOfBounds i))
  writes : Ensures (tlbtraceRefmemSl addr asid ins) s fun _ s' =>
    ∃ i < size, ∃ e, s'.slTlb = Function.update s.slTlb i e

section

variable {s s' : Globals α} {size set : ℕ}

/-- The slot that a reference uses. -/
theorem Referenced.slTlb_eq {addr asid : BitVec 32} {ins hit : Bool}
    (hfits : s.geometry.Fits s.slCap) (h : Referenced s addr asid ins hit s') :
    ∃ i < s.slCap, ∃ e, s'.slTlb = Function.update s.slTlb i e := by
  have hlt : ∀ {i : ℕ}, i ∈ s.geometry.slots (addr >>> 12) → i < s.slCap :=
    fun hmem => lt_of_lt_of_le (Geometry.lt_entries_of_mem_slots hmem) hfits.entries_le
  cases h with
  | fast _ hidx _ => exact ⟨s.lastInsIdx, hidx, _, rfl⟩
  | hit i hmem _ => exact ⟨i, hlt hmem, _, by rw [Globals.fetched_slTlb, Globals.use_slTlb]⟩
  | miss mi hfound =>
      have hmi : mi < s.slCap := by
        cases hfound with
        | older _ _ hmem _ _ => exact hlt hmem
        | seed _ _ =>
            exact lt_of_lt_of_le (lt_of_lt_of_le hfits.step_pos hfits.step_le) hfits.entries_le
      exact ⟨mi, hmi, _, by rw [Globals.fetched_slTlb, Globals.use_slTlb]⟩

/-- Reaching the limit ends the process, but reads no entry. -/
theorem checkLimit_ne_outOfBounds (hlive : s.fbuf.isLive = true) (i : ℕ) :
    checkLimit.run s ≠ .error (.fault (.outOfBounds i)) := by
  by_cases hlimit : s.systs < refLimit
  · rw [checkLimit_run hlimit]
    exact fun h => by cases h
  · rcases Buffer.exists_of_isLive hlive with ⟨words, hwords⟩
    rw [checkLimit_exit hwords (Nat.not_lt.mp hlimit)]
    exact fun h => by cases h

theorem Running.inBounds (hset : 1 ≤ set) (hle : set ≤ size) (h : Running s size set)
    {ins : Bool} (hidx : ins = true → s.lastInsIdx < size) (addr asid : BitVec 32) :
    InBounds s addr asid ins size := by
  have hfits := h.fits hset hle
  have hcap := h.slCap_eq
  refine ⟨hcap, fun i hfault => ?_, ?_⟩
  · change tlbtraceRefmemSl addr asid ins s = _ at hfault
    have hzero : s.slCap ≠ 0 := by omega
    have hbound : ¬ (ins = true ∧ s.slCap ≤ s.lastInsIdx) := fun hlarge => by
      have := hidx hlarge.1
      omega
    rw [tlbtraceRefmemSl, if_neg hzero, if_neg hbound] at hfault
    split at hfault
    · cases hfault
    · rcases Geometry.find_spec hfits s.slTlb (test addr asid) (addr >>> 12) with
        ⟨found, hfind, -⟩
      rw [hfind] at hfault
      cases found with
      | hit j => cases hfault
      | miss mi =>
          refine checkLimit_ne_outOfBounds ?_ i hfault
          cases ins <;> exact h.live
  · refine (tlbtraceRefmemSl_ensures hfits).mono fun _ s' hs' => ?_
    rw [← hcap]
    exact hs'.1.slTlb_eq hfits

/-- Only an instruction fetch moves `last_ins_idx`. -/
theorem Stepped.lastInsIdx_eq {op : Op α} (h : Stepped s op s') (hop : op.isFetch = false) :
    s'.lastInsIdx = s.lastInsIdx := by
  cases h with
  | @refmem addr asid ins arg hit s₁ _ href hrec =>
      have hins : ins = false := hop
      subst hins
      rcases hrec.eq_with with ⟨_, _, _, rfl⟩
      cases href with
      | fast hins _ _ => cases hins
      | hit i _ _ => rfl
      | miss mi _ => rfl
  | flush _ _ => rfl
  | idle _ _ => rfl

/-- The operations of a session keep `last_ins_idx` inside the table, and without
an instruction fetch they do not move it. -/
theorem Running.runOps_ensures (hset : 1 ≤ set) (hle : set ≤ size) (h : Running s size set)
    (ops : List (Op α)) :
    Ensures (runOps ops) s fun _ s' => Running s' size set ∧
      (s.lastInsIdx < size → s'.lastInsIdx < size) ∧
      ((∀ op ∈ ops, op.isFetch = false) → s'.lastInsIdx = s.lastInsIdx) := by
  apply h.ensures_of_stepped hset hle fun handled s' =>
    (s.lastInsIdx < size → s'.lastInsIdx < size) ∧
    ((∀ op ∈ handled, op.isFetch = false) → s'.lastInsIdx = s.lastInsIdx)
  · intro handled op s₁ s₂ hrunning hinv hstep
    rcases hinv with ⟨hlt, heq⟩
    refine ⟨?_, ?_⟩
    · intro hidx
      have hcap := (hrunning.stepped hstep).slCap_eq
      have hkept := hstep.lastInsIdx_lt (hrunning.fits hset hle)
        (hrunning.slCap_eq.symm ▸ hlt hidx)
      exact hcap ▸ hkept
    · intro hfetch
      rw [hstep.lastInsIdx_eq (hfetch op (by simp))]
      exact heq fun earlier hmem => hfetch earlier (List.mem_append_left _ hmem)
  · exact ⟨id, fun _ => rfl⟩

end

namespace Cycle

variable {s : Globals α} {c : Cycle α}

/-- A new table does not change `last_ins_idx`. -/
theorem enter_returns (c : Cycle α) (s : Globals α) :
    Returns c.enter s fun _ s' => Running s' c.size c.set ∧ s'.lastInsIdx = s.lastInsIdx := by
  rw [enter, Returns.bind_iff, Returns.discard_iff, tlbtraceInit, Returns.bind_iff,
    Returns.modify_iff, Returns.pure_iff]
  have hready : Ready { s with
      started := false, geometry := .ofSizeWay c.size c.set, tlbSet := c.set, slTlb := c.freshTlb,
      slCap := c.size, myPteHelper := c.pteHelper } c.size c.set := ⟨rfl, rfl⟩
  apply (tlbtraceStart_returns hready c.tm c.fresh).mono
  rintro _ s' rfl
  exact ⟨hready.opened c.tm c.fresh, rfl⟩

/-- The states inside a cycle. -/
theorem ops_ensures (hset : 1 ≤ c.set) (hle : c.set ≤ c.size) (ops : List (Op α)) :
    Ensures (do c.enter; runOps ops) s fun _ s' => Running s' c.size c.set ∧
      (s.lastInsIdx < c.size → s'.lastInsIdx < c.size) ∧
      ((∀ op ∈ ops, op.isFetch = false) → s'.lastInsIdx = s.lastInsIdx) := by
  rw [Ensures.bind_iff]
  refine (c.enter_returns s).ensures.mono fun _ s₁ hs₁ => ?_
  rw [← hs₁.2]
  exact hs₁.1.runOps_ensures hset hle ops

/-- A safe cycle stays inside its table. -/
theorem inBounds (hset : 1 ≤ c.set) (hle : c.set ≤ c.size) (hsafe : c.Safe s)
    {done rest : List (Op α)} {addr asid : BitVec 32} {ins : Bool} {arg : α}
    (hops : c.ops = done ++ .refmem addr asid ins arg :: rest) :
    Ensures (do c.enter; runOps done) s fun _ s' =>
      InBounds s' (pageOf addr) asid ins c.size := by
  refine (ops_ensures hset hle done).mono fun _ s' hs' => ?_
  refine hs'.1.inBounds hset hle (fun hins => hs'.2.1 (hsafe ?_)) _ _
  rw [fetches, hops, List.any_append, List.any_cons]
  simp [Op.isFetch, hins]

/-- In a cycle that is not safe the first instruction fetch reads outside the
table. -/
theorem outOfBounds (hset : 1 ≤ c.set) (hle : c.set ≤ c.size) (hlarge : c.size ≤ s.lastInsIdx)
    {done : List (Op α)} (hdone : ∀ op ∈ done, op.isFetch = false) (addr asid : BitVec 32) :
    Ensures (do c.enter; runOps done) s fun _ s' =>
      (tlbtraceRefmemSl addr asid true).run s' =
        .error (.fault (.outOfBounds s.lastInsIdx)) := by
  refine (ops_ensures hset hle done).mono fun _ s' hs' => ?_
  have hcap := hs'.1.slCap_eq
  have hidx := hs'.2.2 hdone
  show tlbtraceRefmemSl addr asid true s' = _
  rw [tlbtraceRefmemSl, if_neg (by omega), if_pos ⟨rfl, by omega⟩, hidx]

/-- A complete cycle leaves an index of its own table, or the one it found. -/
theorem lastInsIdx_after (hset : 1 ≤ c.set) (hle : c.set ≤ c.size) (hidx : s.lastInsIdx < c.size) :
    (c.after s).lastInsIdx < c.size := by
  have hrun : Ensures c.run s fun _ s' => s'.lastInsIdx < c.size := by
    have hsplit : c.run = (do c.enter; runOps c.ops) >>= fun _ =>
        tlbtraceStop >>= fun _ => tlbtraceDestroy := by
      simp [run]
    rw [hsplit, Ensures.bind_iff]
    refine (ops_ensures hset hle c.ops).mono fun _ s₁ hs₁ => ?_
    rcases Buffer.exists_of_isLive hs₁.1.live with ⟨words, hwords⟩
    rcases s₁.closed_eq words with ⟨files, hclosed⟩
    rw [Ensures.bind_iff]
    refine (tlbtraceStop_returns hwords).ensures.mono fun _ s₂ hs₂ => ?_
    rw [tlbtraceDestroy, Ensures.modify_iff, hs₂, hclosed]
    exact hs₁.2.1 hidx
  rw [after]
  cases hresult : c.run.run s with
  | ok pair => exact hrun pair.1 pair.2 hresult
  | error halt => exact hidx

end Cycle

/-- What a safe run says about the state in which one of its cycles begins. -/
theorem SafeRun.ensures_safe {before after : List (Cycle α)} {c : Cycle α} {s : Globals α}
    (h : SafeRun (before ++ c :: after) s) :
    Ensures (runCycles before) s fun _ s' => c.Safe s' := by
  induction before generalizing s with
  | nil =>
      rw [runCycles, List.forM, Ensures.pure_iff]
      exact h.1
  | cons first before ih =>
      rw [runCycles, List.forM, Ensures.bind_iff]
      intro _ s₁ hrun
      have hafter : first.after s = s₁ := by rw [Cycle.after, hrun]
      rw [List.cons_append, SafeRun, hafter] at h
      exact ih h.2

/-- Tables that never get smaller are safe. -/
theorem safeRun_of_pairwise_le {cycles : List (Cycle α)} {s : Globals α}
    (hsets : ∀ c ∈ cycles, 1 ≤ c.set ∧ c.set ≤ c.size)
    (hsizes : cycles.Pairwise fun c c' => c.size ≤ c'.size)
    (hidx : ∀ c ∈ cycles, s.lastInsIdx < c.size) : SafeRun cycles s := by
  induction cycles generalizing s with
  | nil => trivial
  | cons c cycles ih =>
      rw [List.forall_mem_cons] at hsets hidx
      rw [List.pairwise_cons] at hsizes
      have hafter := c.lastInsIdx_after hsets.1.1 hsets.1.2 hidx.1
      refine ⟨fun _ => hidx.1, ih hsets.2 hsizes.2 fun later hmem => ?_⟩
      exact lt_of_lt_of_le hafter (hsizes.1 later hmem)

/-- Complete life cycles, from the start of the process. In a safe run every
reference stays inside the table of its cycle. In a cycle that is not safe the first
instruction fetch reads the entry at the old index, outside the table. -/
theorem cycles_inBounds (helper : α → BitVec 32 → PteResult) (cycles : List (Cycle α))
    (hsets : ∀ c ∈ cycles, 1 ≤ c.set ∧ c.set ≤ c.size) :
    (SafeRun cycles (.initial helper) → ∀ before c after done addr asid ins arg rest,
        cycles = before ++ c :: after → c.ops = done ++ .refmem addr asid ins arg :: rest →
        Ensures (do runCycles before; c.enter; runOps done) (.initial helper) fun _ s =>
          InBounds s (pageOf addr) asid ins c.size) ∧
      ∀ before c after, cycles = before ++ c :: after →
        Ensures (runCycles before) (.initial helper) fun _ s => c.size ≤ s.lastInsIdx →
          ∀ done addr asid, (∀ op ∈ done, op.isFetch = false) →
            Ensures (do c.enter; runOps done) s fun _ s' =>
              (tlbtraceRefmemSl addr asid true).run s' =
                .error (.fault (.outOfBounds s.lastInsIdx)) := by
  constructor
  · intro hsafe before c after done addr asid ins arg rest hcycles hops
    have hset := hsets c (by rw [hcycles]; simp)
    rw [hcycles] at hsafe
    rw [Ensures.bind_iff]
    refine hsafe.ensures_safe.mono fun _ s hs => ?_
    exact Cycle.inBounds hset.1 hset.2 hs hops
  · intro before c after hcycles _ s _ hlarge done addr asid hdone
    have hset := hsets c (by rw [hcycles]; simp)
    exact Cycle.outOfBounds hset.1 hset.2 hlarge hdone addr asid

/-- A session that fetches from two pages. -/
def sampleCycle (size set : ℕ) : Cycle Unit where
  size := size
  set := set
  pteHelper := sampleHelper
  freshTlb := fun _ => flushedEntry
  tm := sampleTm
  fresh := fun _ => 0#32
  ops := [.refmem 0x1000#32 7#32 true (), .refmem 0x2000#32 7#32 true ()]

/-- A small table, then a larger one. -/
theorem cycles_inBounds_sampleCycle :
    Returns (do runCycles [sampleCycle 2 2]; (sampleCycle 4 4).enter; runOps [])
      (.initial sampleHelper) fun _ s => InBounds s 0x1000#32 7#32 true 4 := by
  have hsets : ∀ c ∈ [sampleCycle 2 2, sampleCycle 4 4], 1 ≤ c.set ∧ c.set ≤ c.size := by
    simp [sampleCycle]
  have hsafe : SafeRun [sampleCycle 2 2, sampleCycle 4 4] (.initial sampleHelper) := by
    apply safeRun_of_pairwise_le hsets
    · simp [sampleCycle]
    · simp [sampleCycle, Globals.initial]
  have hinBounds := (cycles_inBounds sampleHelper _ hsets).1 hsafe [sampleCycle 2 2]
    (sampleCycle 4 4) [] [] 0x1000#32 7#32 true () _ rfl rfl
  have hreturns : Returns (do runCycles [sampleCycle 2 2]; (sampleCycle 4 4).enter; runOps [])
      (.initial sampleHelper) fun _ _ => True := by decide +kernel
  exact (hreturns.and_ensures hinBounds).mono fun _ _ h => h.2

/-- A table of two entries, then one of a single entry: its first instruction fetch
reads entry 1. -/
theorem cycles_outOfBounds_sampleCycle :
    Returns (runCycles [sampleCycle 2 2]) (.initial sampleHelper) fun _ s =>
      Returns (sampleCycle 1 1).enter s fun _ s' => s'.slCap = 1 ∧
        (tlbtraceRefmemSl 0x1000#32 7#32 true).run s' = .error (.fault (.outOfBounds 1)) := by
  have hfirst : Returns (runCycles [sampleCycle 2 2]) (.initial sampleHelper) fun _ s =>
      s.lastInsIdx = 1 := by decide +kernel
  apply hfirst.mono
  intro _ s hidx
  apply ((sampleCycle 1 1).enter_returns s).mono
  rintro _ s' ⟨hrunning, hidx'⟩
  refine ⟨hrunning.slCap_eq, ?_⟩
  show tlbtraceRefmemSl 0x1000#32 7#32 true s' = _
  rw [tlbtraceRefmemSl, hrunning.slCap_eq, hidx', hidx]
  rfl

end TlbAnalyzer.Tracer
