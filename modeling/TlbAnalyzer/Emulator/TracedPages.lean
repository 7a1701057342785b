/-
# From an access of the guest to a record in the trace

The emulator and the tracer together: accesses go through the translation cache, some of
them call the tracer, the tracer looks them up in a table of its own and records those that
miss, and a write of the coprocessor register `c8` drops entries from both. At each of the
three places references are left out. An access that finds its page in the translation cache
of the emulator may not call the tracer, the tracer returns at once outside of user mode, and
it records nothing for a hit.

What is left is still complete in one respect. The translation cache has entries of its own
for user mode, and both tables are empty when a session starts. So a page that user code has
accessed was first missed by both, in user mode, and it has a record. Accesses across two
pages are excepted, and so are loads and stores with user privilege by the kernel, which fill
entries of user mode without being traced.
-/

import TlbAnalyzer.Emulator.Accesses
import TlbAnalyzer.Emulator.Maintenance
import TlbAnalyzer.Emulator.WalkRecord
import TlbAnalyzer.Tracer.Completeness

namespace TlbAnalyzer.Emulator

open Cache Math TraceFile Tracer

/-! ## The emulator with the tracer -/

/-- The emulator and the tracer in a session, and the 4 KB pages that were loaded from or
stored to in user mode. -/
structure System where
  env : Cpu
  tracer : Globals Machine
  userPages : Finset (BitVec 32)

/-- What the tracer is shown of the emulator. -/
def Env.machine (env : Cpu) : Machine := ⟨env.rest.arm.toCPUState, env.rest.mem⟩

/-- The test of `tlbtrace_refmem_qemu` for user mode. -/
def UserMode (env : CPUState) : Prop := env.uncachedCpsr &&& 0x1F#32 = 0x10#32

instance (env : CPUState) : Decidable (UserMode env) := inferInstanceAs (Decidable (_ = _))

/-- The accesses and calls that an access makes, with the machine that it leaves. -/
def Access.outcome (access : Access) (host : Host Board) (fuel : ℕ) (env : Cpu) : Execution Board :=
  finalState Stop.final ((access.run host fuel).run (.start env))

/-- The operations refer to the page. -/
def Mentions (ops : List (Op Machine)) (p : BitVec 32) : Prop :=
  ∃ r : Ref Machine, r.op ∈ ops ∧ page r.addr = p

theorem Mentions.append {ops : List (Op Machine)} {p : BitVec 32} (h : Mentions ops p)
    (more : List (Op Machine)) : Mentions (ops ++ more) p := by
  rcases h with ⟨r, hr, hpage⟩
  exact ⟨r, List.mem_append_left more hr, hpage⟩

/-- The tracer in an open session, after these operations. -/
structure Traces (size set : ℕ) (name : FileName) (ops : List (Op Machine))
    (tracer : Globals Machine) : Prop where
  running : Running tracer size set
  kept : ∃ n missing, Kept tracer pteHelper name n ops missing

section

variable {size set : ℕ} {name : FileName} {ops : List (Op Machine)}
  {tracer tracer' : Globals Machine}

/-- A call of the tracer is one more operation in user mode, and none otherwise. -/
theorem Traces.refmemQemu (hset : 1 ≤ set) (hle : set ≤ size) (h : Traces size set name ops tracer)
    {machine : Machine} {addr : BitVec 32} {ins : Bool}
    (hrun : (tlbtraceRefmemQemu machine addr ins).run tracer = .ok ((), tracer')) :
    ∃ more, Traces size set name (ops ++ more) tracer' ∧
      (UserMode machine.env → Mentions (ops ++ more) (page addr)) := by
  rcases h.kept with ⟨n, missing, hkept⟩
  by_cases huser : machine.env.uncachedCpsr &&& 0x1F#32 = 0x10#32
  · have hcall : (tlbtraceRefmemQemu machine addr ins).run tracer =
        (Ref.run ⟨addr, machine.env.c13Context &&& 0xFF#32, ins, machine⟩).run tracer := by
      show StateT.run (if tracer.started = false then _ else if _ then _ else _) tracer = _
      rw [if_neg (by rw [hkept.started]; decide), if_neg (not_not.mpr huser)]
      rfl
    rw [hcall] at hrun
    rcases hkept.refmem hset hle h.running _ _ _ hrun with ⟨hrunning, missing', -, hkept'⟩
    refine ⟨_, ⟨hrunning, _, missing', hkept'⟩, fun _ => ?_⟩
    exact ⟨_, List.mem_append_right ops (List.mem_singleton_self _), rfl⟩
  · have hcall : (tlbtraceRefmemQemu machine addr ins).run tracer = .ok ((), tracer) := by
      show StateT.run (if tracer.started = false then _ else if _ then _ else _) tracer = _
      rw [if_neg (by rw [hkept.started]; decide), if_pos huser]
      rfl
    cases hcall.symm.trans hrun
    refine ⟨[], ?_, fun h => absurd h huser⟩
    rw [List.append_nil]
    exact h

/-- A write of `c8` is a flush, or nothing. -/
theorem Traces.tlbControl (h : Traces size set name ops tracer) {insn val : BitVec 32}
    (hrun : (setCp15TlbControl insn val).run tracer = .ok ((), tracer')) :
    ∃ more, Traces size set name (ops ++ more) tracer' := by
  rcases h.kept with ⟨n, missing, hkept⟩
  by_cases hop : (op2 insn).toNat ≤ 2
  · rw [setCp15TlbControl_eq hop] at hrun
    rcases (hkept.flush h.running (isFlush_controlOp insn val)).ensures _ _ hrun with
      ⟨hrunning, hkept'⟩
    exact ⟨_, hrunning, n, missing, hkept'⟩
  · refine ⟨[], ?_⟩
    rw [List.append_nil]
    unfold setCp15TlbControl at hrun
    split at hrun
    · omega
    · omega
    · omega
    · cases hrun
      exact h
    · cases hrun

end

/-! ## Pages of user mode -/

/-- After these operations of the tracer every page that user mode has accessed, or that is
answered in user mode, has been referred to. -/
structure Followed (size set : ℕ) (name : FileName) (ops : List (Op Machine)) (s : System) :
    Prop where
  mmu : HasMmu s.env
  traces : Traces size set name ops s.tracer
  answers : ∀ kind addr place, s.env.lookup mmuUserIdx kind addr = some place →
    Mentions ops (page addr)
  pages : ∀ p ∈ s.userPages, Mentions ops p

section

variable {host : Host Board} {size set : ℕ} {name : FileName} {ops : List (Op Machine)}
  {s s' : System} {event : SystemEvent}

/-- More operations of the tracer. -/
theorem Followed.traced (h : Followed size set name ops s) {more : List (Op Machine)}
    {tracer : Globals Machine} (htraces : Traces size set name (ops ++ more) tracer) :
    Followed size set name (ops ++ more) { s with tracer := tracer } where
  mmu := h.mmu
  traces := htraces
  answers kind addr place hanswer := (h.answers kind addr place hanswer).append more
  pages p hp := (h.pages p hp).append more

/-- The calls of an access: its page is referred to in user mode, if it is not answered. -/
theorem Traces.access (hset : 1 ≤ set) (hle : set ≤ size) {tracer tracer' : Globals Machine}
    (h : Traces size set name ops tracer) {machine : Machine} {addr : BitVec 32}
    {refs : List (BitVec 32)}
    (hrefs : refs = [addr] ∨ (refs = [] ∧ (UserMode machine.env → Mentions ops (page addr))))
    (hrun : (refs.forM fun addr => tlbtraceRefmemQemu machine addr false).run tracer =
      .ok ((), tracer')) :
    ∃ more, Traces size set name (ops ++ more) tracer' ∧
      (UserMode machine.env → Mentions (ops ++ more) (page addr)) := by
  rcases hrefs with rfl | ⟨rfl, hmentions⟩
  · rw [List.forM, run_bind_eq_ok_iff] at hrun
    rcases hrun with ⟨_, middle, hcall, hrest⟩
    cases hrest
    exact h.refmemQemu hset hle hcall
  · cases hrun
    refine ⟨[], ?_, fun huser => (hmentions huser).append []⟩
    rw [List.append_nil]
    exact h

end

/-! ## Records -/

/-- The result of a walk fits into the bits below a page. -/
theorem pteHelper_ret_lt (machine : Machine) (address : BitVec 32) :
    (pteHelper machine address).ret.toNat < 16 := by
  rcases pteHelper_reported machine address with ⟨_, hreported⟩
  by_cases hends : EndsWalk machine.env (l1Desc machine.env machine.mem address)
  · rw [(hreported.ends hends).1]
    decide
  · rw [(hreported.goes_on hends).1]
    split <;> decide

/-- The page of a word whose lower bits hold something else. -/
theorem shift_and_pageMask (word : BitVec 32) : (word &&& 0xFFFFF000#32) >>> 12 = page word := by
  have hmask : 0xFFFFF000#32 = ~~~0xFFF#32 := by decide
  have hones : (0xFFF#32).toNat = 2 ^ 12 - 1 := rfl
  rw [← BitVec.toNat_inj, page, BitVec.toNat_ushiftRight, BitVec.toNat_ushiftRight, hmask,
    toNat_and_not_ones hones, Nat.shiftRight_eq_div_pow, Nat.shiftRight_eq_div_pow]
  exact Nat.mul_div_cancel_left _ (Nat.two_pow_pos 12)

/-- Toggling the tracer off leaves a record for every page that was referred to. -/
theorem Traces.recorded {size set : ℕ} {name : FileName} {ops : List (Op Machine)}
    {tracer : Globals Machine} (h : Traces size set name ops tracer) (tm : Tm)
    (fresh : ℕ → BitVec 32) :
    Returns (tlbtraceToggle tm fresh) tracer fun _ tracer' =>
      ∃ bytes, tracer'.files name = some bytes ∧
        ∀ p, Mentions ops p → ∃ t ∈ readRecords bytes, page t.mva = p := by
  rcases h.kept with ⟨n, missing, hkept⟩
  apply (hkept.closed pteHelper_ret_lt tm fresh).mono
  intro _ tracer' htells
  rcases id htells with ⟨bytes, _, hfile, -⟩
  refine ⟨bytes, hfile, ?_⟩
  intro p hp
  rcases hp with ⟨r, hr, hpage⟩
  rcases (htells.pages_iff (pageOf r.addr)).mpr ⟨r, hr, rfl⟩ with ⟨bytes', hfile', t, ht, htell⟩
  cases hfile.symm.trans hfile'
  refine ⟨t, ht, ?_⟩
  rw [← hpage, ← shift_and_pageMask, htell, pageOf, shift_and_pageMask]

/-- The sample emulator right after the tracer was toggled on. -/
def sampleSystem : System :=
  ⟨sampleCpu, { sampleEmulator with started := true }.opened sampleTm fun _ => 0#32, ∅⟩

end TlbAnalyzer.Emulator
