/-
# A day of recordings

A user switches the tracer on and off several times, and the guest runs and flushes in
between as it likes. What one recording tells was said for a recording that is alone. Here
one follows another: each starts with an empty table, writes a file of its own and leaves the
others alone, as long as no two start in the same minute.
-/

import TlbAnalyzer.Tracer.Completeness
import TlbAnalyzer.Tracer.Sessions

namespace TlbAnalyzer.Tracer

open Cache Math TraceFile

variable {α : Type} {s s' : Globals α} {size set : ℕ}

/-- A recording: the time when it is switched on, and what happens until it is switched
off. -/
structure Recording (α : Type) where
  tm : Tm
  fresh : ℕ → BitVec 32
  ops : List (Op α)

namespace Recording

/-- Switch on, run, switch off. -/
def run (x : Recording α) : TraceM α Unit := toggledSession x.tm x.fresh x.ops

/-- The trace file of the recording. -/
def name (x : Recording α) (s : Globals α) : FileName := traceName x.tm s.geometry.entries s.tlbSet

end Recording

/-- An operation writes to no other file. -/
theorem Confined.op {s₀ : Globals α} {name : FileName} (hfits : s.geometry.Fits s.slCap)
    (h : Confined s₀ name s) (op : Op α) : Ensures op.run s fun _ s' => Confined s₀ name s' := by
  have hflush : op.isFlush = true → Ensures op.run s fun _ s' => Confined s₀ name s' := by
    intro hop
    refine (Op.flush_ensures hop).mono fun _ s' hstep => ?_
    cases hstep with
    | refmem href hrec => cases hop
    | flush _ _ => exact h.of_eq rfl rfl rfl
    | idle _ _ => exact h
  cases op with
  | refmem addr asid ins arg => exact h.ref hfits ⟨addr, asid, ins, arg⟩
  | _ => exact hflush rfl

/-- What a recording leaves: its file tells all, the other files are as they were, and the
tracer is off and as it was initialised. -/
structure Filed (x : Recording α) (s : Globals α) (size set : ℕ) (s' : Globals α) : Prop where
  ready : Ready s' size set
  started : s'.started = false
  tlbSet_eq : s'.tlbSet = s.tlbSet
  helper_eq : s'.myPteHelper = s.myPteHelper
  lastInsIdx_lt : s.lastInsIdx < size → s'.lastInsIdx < size
  tells : TellsAll s.myPteHelper (x.name s) x.ops s'
  others : ∀ other, other ≠ x.name s → s'.files other = s.files other

namespace Recording

/-- What the operations of a recording keep. -/
theorem ops_ensures (hset : 1 ≤ set) (hle : set ≤ size) (hready : Ready s size set)
    (x : Recording α) :
    Ensures (runOps x.ops) ({ s with started := true }.opened x.tm x.fresh) fun _ s' =>
      Running s' size set ∧ Confined s (x.name s) s' ∧
        (s.lastInsIdx < size → s'.lastInsIdx < size) ∧
          ∃ n missing, Kept s' s.myPteHelper (x.name s) n x.ops missing := by
  have hrunning := hready.toggled x.tm x.fresh
  have hkept : Kept ({ s with started := true }.opened x.tm x.fresh) s.myPteHelper (x.name s) 0
      [] [] := Kept.opened rfl x.tm x.fresh
  have hconfined : Confined s (x.name s) ({ s with started := true }.opened x.tm x.fresh) := by
    have hopened := Confined.opened { s with started := true } x.tm x.fresh
    exact ⟨hopened.fout_eq, hopened.tlbSet_eq, hopened.others⟩
  have hsteps : Ensures (runOps x.ops) ({ s with started := true }.opened x.tm x.fresh) fun _ s' =>
      Running s' size set ∧ Confined s (x.name s) s' ∧
        (s.lastInsIdx < size → s'.lastInsIdx < size) := by
    apply Ensures.forM fun _ s' => Running s' size set ∧ Confined s (x.name s) s' ∧
      (s.lastInsIdx < size → s'.lastInsIdx < size)
    · intro _ op s₁ h₁ _ s₂ hrun
      rcases h₁ with ⟨hrunning₁, hconfined₁, hidx₁⟩
      have hfits := hrunning₁.fits hset hle
      have hstep := Op.run_ensures hfits op _ _ hrun
      have hrunning₂ := hrunning₁.stepped hstep
      refine ⟨hrunning₂, hconfined₁.op hfits op _ _ hrun, fun hidx => ?_⟩
      have hlt := hstep.lastInsIdx_lt hfits (hrunning₁.slCap_eq ▸ hidx₁ hidx)
      exact hrunning₂.slCap_eq ▸ hlt
    · exact ⟨hrunning, hconfined, id⟩
  intro _ s' hrun
  rcases hsteps _ _ hrun with ⟨hrunning', hconfined', hidx'⟩
  rcases hkept.run hset hle x.ops hrunning _ _ hrun with ⟨-, missing, -, hkept'⟩
  exact ⟨hrunning', hconfined', hidx', _, missing, hkept'⟩

/-- A whole recording. It ends below the limit, when the last instruction fetch before it used
a slot that exists. -/
theorem run_filed (hset : 1 ≤ set) (hle : set ≤ size) (hready : Ready s size set)
    (hstarted : s.started = false) (hret : ∀ arg addr, (s.myPteHelper arg addr).ret.toNat < 16)
    (x : Recording α) :
    (Ensures x.run s fun _ s' => Filed x s size set s') ∧
      (s.lastInsIdx < size → (references x.ops).length < refLimit →
        Returns x.run s fun _ s' => Filed x s size set s') := by
  apply toggledSession_of_run hset hle hready hstarted
  refine (ops_ensures hset hle hready x).mono fun _ s₁ hs₁ => ?_
  rcases hs₁ with ⟨hrunning, hconfined, hidx, n, missing, hkept⟩
  rcases hkept.logged.carries.content with ⟨words, _, hfbuf, -⟩
  have hclosed := tlbtraceToggle_returns_closed hkept.started hfbuf x.tm x.fresh
  apply (hclosed.and_ensures (hkept.closed hret x.tm x.fresh).ensures).mono
  rintro _ s' ⟨hs', htells⟩
  have hconfined' : Confined s (x.name s) { s₁ with started := false } :=
    hconfined.of_eq rfl rfl rfl
  have hothers := hconfined'.closed words
  rcases ({ s₁ with started := false } : Globals α).closed_eq words with ⟨files, heq⟩
  rw [← hs'] at hothers heq
  rw [heq] at hothers htells ⊢
  exact ⟨⟨hrunning.geometry_eq, hrunning.slCap_eq⟩, rfl, hconfined.tlbSet_eq,
    hkept.logged.helper_eq, hidx, htells, hothers⟩

end Recording

/-! ## One after another -/

/-- Recordings one after another. -/
def runRecordings (xs : List (Recording α)) : TraceM α Unit := xs.forM Recording.run

/-- Every recording has a file that tells all, and no other file was touched. -/
structure AllFiled (xs : List (Recording α)) (s s' : Globals α) : Prop where
  tells : ∀ x ∈ xs, TellsAll s.myPteHelper (x.name s) x.ops s'
  others : ∀ other, (∀ x ∈ xs, x.name s ≠ other) → s'.files other = s.files other

/-- Later recordings have the names and the helper that they would have had before. -/
theorem Filed.name_eq {x : Recording α} (hready : Ready s size set) (h : Filed x s size set s')
    (y : Recording α) : y.name s' = y.name s := by
  rw [Recording.name, Recording.name, h.ready.entries_eq, hready.entries_eq, h.tlbSet_eq]

theorem TellsAll.of_files_eq {helper : α → BitVec 32 → PteResult} {name : FileName}
    {ops : List (Op α)} (h : TellsAll helper name ops s) (hfile : s'.files name = s.files name) :
    TellsAll helper name ops s' := by
  rcases h with ⟨bytes, missing, hbytes, htells⟩
  exact ⟨bytes, missing, hfile.trans hbytes, htells⟩

/-- The files of a folder that was empty before. -/
theorem AllFiled.mem_map_name_iff {xs : List (Recording α)} (h : AllFiled xs s s')
    (hempty : ∀ name, s.files name = none) (name : FileName) :
    name ∈ xs.map (fun x => x.name s) ↔ s'.files name ≠ none := by
  rw [List.mem_map]
  constructor
  · rintro ⟨x, hx, rfl⟩
    rcases h.tells x hx with ⟨bytes, _, hbytes, -⟩
    rw [hbytes]
    exact Option.some_ne_none _
  · intro hsome
    by_contra hnone
    have hother := h.others name fun x hx heq => hnone ⟨x, hx, heq⟩
    exact hsome (hother.trans (hempty name))

/-- One recording before the others. -/
theorem AllFiled.cons {x : Recording α} {xs : List (Recording α)} {s₁ : Globals α}
    (hready : Ready s size set) (hrange : x.tm.InRange) (hranges : ∀ y ∈ xs, y.tm.InRange)
    (hminutes : x.tm ∉ xs.map Recording.tm) (h : Filed x s size set s₁)
    (hrest : AllFiled xs s₁ s') : AllFiled (x :: xs) s s' := by
  have hname : ∀ y ∈ xs, y.name s₁ ≠ x.name s := by
    intro y hy heq
    rw [h.name_eq hready] at heq
    have htm := tm_eq_of_traceName_eq (hranges y hy) hrange heq
    exact hminutes (List.mem_map.mpr ⟨y, hy, htm⟩)
  constructor
  · rw [List.forall_mem_cons]
    refine ⟨h.tells.of_files_eq (hrest.others _ hname), fun y hy => ?_⟩
    have htells := hrest.tells y hy
    rw [h.name_eq hready, h.helper_eq] at htells
    exact htells
  · intro other hother
    rw [List.forall_mem_cons] at hother
    have hlater : ∀ y ∈ xs, y.name s₁ ≠ other := by
      intro y hy
      rw [h.name_eq hready]
      exact hother.2 y hy
    rw [hrest.others other hlater, h.others other hother.1.symm]

/-- Recordings in different minutes, if they end. -/
theorem runRecordings_ensures (hset : 1 ≤ set) (hle : set ≤ size) (xs : List (Recording α))
    (hrange : ∀ x ∈ xs, x.tm.InRange) (hminutes : (xs.map Recording.tm).Nodup)
    (hready : Ready s size set) (hstarted : s.started = false)
    (hret : ∀ arg addr, (s.myPteHelper arg addr).ret.toNat < 16) :
    Ensures (runRecordings xs) s fun _ s' => AllFiled xs s s' := by
  induction xs generalizing s with
  | nil =>
      rw [runRecordings, List.forM, Ensures.pure_iff]
      exact ⟨fun x hx => absurd hx List.not_mem_nil, fun _ _ => rfl⟩
  | cons x xs ih =>
      rw [List.forall_mem_cons] at hrange
      rw [List.map_cons, List.nodup_cons] at hminutes
      rw [runRecordings, List.forM, Ensures.bind_iff]
      refine (x.run_filed hset hle hready hstarted hret).1.mono fun _ s₁ h₁ => ?_
      have hret₁ : ∀ arg addr, (s₁.myPteHelper arg addr).ret.toNat < 16 := by
        rw [h₁.helper_eq]
        exact hret
      refine (ih hrange.2 hminutes.2 h₁.ready h₁.started hret₁).mono fun _ s' hs' => ?_
      exact .cons hready hrange.1 hrange.2 hminutes.1 h₁ hs'

/-- Recordings below the limit end. -/
theorem runRecordings_returns (hset : 1 ≤ set) (hle : set ≤ size) (xs : List (Recording α))
    (hlimit : ∀ x ∈ xs, (references x.ops).length < refLimit) (hready : Ready s size set)
    (hstarted : s.started = false) (hret : ∀ arg addr, (s.myPteHelper arg addr).ret.toNat < 16)
    (hidx : s.lastInsIdx < size) :
    Returns (runRecordings xs) s fun _ _ => True := by
  induction xs generalizing s with
  | nil =>
      rw [runRecordings, List.forM, Returns.pure_iff]
      trivial
  | cons x xs ih =>
      rw [List.forall_mem_cons] at hlimit
      rw [runRecordings, List.forM, Returns.bind_iff]
      apply ((x.run_filed hset hle hready hstarted hret).2 hidx hlimit.1).mono
      intro _ s₁ h₁
      have hret₁ : ∀ arg addr, (s₁.myPteHelper arg addr).ret.toNat < 16 := by
        rw [h₁.helper_eq]
        exact hret
      exact ih hlimit.2 h₁.ready h₁.started hret₁ (h₁.lastInsIdx_lt hidx)

end TlbAnalyzer.Tracer
