/-
# TLB maintenance by the guest

The guest maintains its TLB by writing to register `c8`, and `set_cp15` passes the
operand of every such write on to the tracer. An address space identifier has eight
bits. It is the lower byte of the context register, of the operand that invalidates a
single entry, and of the operand that invalidates an address space. The tracer takes
the lower byte of the first two and all of the third, so that an operand with upper
bits set invalidates nothing.
-/

import TlbAnalyzer.Emulator.Program
import TlbAnalyzer.Tracer.Freshness
import TlbAnalyzer.Tracer.Lifecycle

namespace TlbAnalyzer.Emulator

open Cache Math Tracer

/-! ## What a guest does -/

/-- What a running guest does that reaches the tracer. -/
inductive Event
  | refmem (machine : Machine) (addr : BitVec 32) (ins : Bool)
  | tlbControl (insn val : BitVec 32)

/-- The call that the emulator makes. -/
def Event.run : Event → TraceM Machine Unit
  | .refmem machine addr ins => tlbtraceRefmemQemu machine addr ins
  | .tlbControl insn val => setCp15TlbControl insn val

/-- Events one after another. -/
def runEvents (events : List Event) : TraceM Machine Unit := events.forM Event.run

/-- The translations that a write to `c8` is meant to invalidate: all of them, those of
one page and address space, or those of one address space. -/
def Invalidates (insn val page asid : BitVec 32) : Prop :=
  op2 insn = 0#32 ∨
    (op2 insn = 1#32 ∧ page = val &&& 0xFFFFF000#32 ∧ asid = val &&& 0xFF#32) ∨
    (op2 insn = 2#32 ∧ asid = val &&& 0xFF#32)

instance (insn val page asid : BitVec 32) : Decidable (Invalidates insn val page asid) :=
  inferInstanceAs (Decidable (_ ∨ _))

/-- No entry of the table holds a translation that the write is meant to invalidate. -/
def Mirrored (s : Globals Machine) (insn val : BitVec 32) : Prop :=
  ∀ i < s.geometry.entries, Valid (s.slTlb i) →
    ¬ Invalidates insn val (s.slTlb i).va (s.slTlb i).asid

instance (s : Globals Machine) (insn val : BitVec 32) : Decidable (Mirrored s insn val) :=
  inferInstanceAs (Decidable (∀ i < _, _))

/-- The write invalidates the address space of some entry, and its operand has upper
bits set. -/
def Stale (s : Globals Machine) (insn val : BitVec 32) : Prop :=
  op2 insn = 2#32 ∧ 0xFF < val.toNat ∧
    ∃ i < s.geometry.entries, Valid (s.slTlb i) ∧ (s.slTlb i).asid = val &&& 0xFF#32

/-! ## Operands -/

/-- The tracer compares 64 bits, of which the upper half is 0 on both sides. -/
theorem setWidth_eq_iff {word word' : BitVec 32} :
    word.setWidth 64 = word'.setWidth 64 ↔ word = word' := by
  constructor
  · intro h
    have hnarrow := congrArg (BitVec.setWidth 32) h
    simpa using hnarrow
  · exact fun h => congrArg _ h

theorem setWidth_eq_and_iff {word val mask : BitVec 32} :
    word.setWidth 64 = val.setWidth 64 &&& mask.setWidth 64 ↔ word = val &&& mask := by
  rw [← BitVec.setWidth_and, setWidth_eq_iff]

/-- The lower byte of a word is the word when that is all there is. -/
theorem and_eq_self_iff {val : BitVec 32} : val &&& 0xFF#32 = val ↔ val.toNat ≤ 0xFF := by
  have hmask : (0xFF#32).toNat = 2 ^ 8 - 1 := rfl
  rw [← BitVec.toNat_inj, BitVec.toNat_and, hmask, Nat.and_two_pow_sub_one_eq_mod]
  omega

theorem toNat_and_le (val : BitVec 32) : (val &&& 0xFF#32).toNat ≤ 0xFF := by
  rw [BitVec.toNat_and]
  exact Nat.and_le_right

/-! ## Sessions of the emulator -/

/-- In an open session that the emulator drives, the flushes are enabled and every
identifier in the table has eight bits. -/
structure Traced (s : Globals Machine) (size set : ℕ) : Prop extends Running s size set where
  started : s.started = true
  asid_le : ∀ i < s.geometry.entries, (s.slTlb i).asid.toNat ≤ 0xFF

namespace Traced

variable {s s' : Globals Machine} {size set : ℕ}

theorem opened (hready : Ready s size set) (tm : Tm) (fresh : ℕ → BitVec 32) :
    Traced ({ s with started := true }.opened tm fresh) size set := by
  refine ⟨hready.toggled tm fresh, rfl, fun i hi => ?_⟩
  have hflushed := Globals.opened_slTlb (s := { s with started := true }) tm fresh hi
  rw [hflushed]
  exact Nat.zero_le _

/-- A flush leaves entries as they are, or the identifier 0 in them. -/
theorem flushed (h : Traced s size set) (clears : TlbEntry → Bool) :
    Traced { s with slTlb := flushMatching clears s.geometry.entries s.slTlb } size set := by
  refine ⟨⟨⟨h.geometry_eq, h.slCap_eq⟩, h.live⟩, h.started, fun i hi => ?_⟩
  show (flushMatching clears s.geometry.entries s.slTlb i).asid.toNat ≤ 0xFF
  rw [flushMatching]
  split
  · exact Nat.zero_le _
  · exact h.asid_le i hi

/-- A reference brings its own identifier at most. -/
theorem referenced (h : Traced s size set) {addr asid : BitVec 32} {ins : Bool} {arg : Machine}
    (hasid : asid.toNat ≤ 0xFF) (hstep : Stepped s (.refmem addr asid ins arg) s') :
    Traced s' size set := by
  have hrunning := h.toRunning.stepped hstep
  cases hstep with
  | @refmem _ _ _ _ hit s₁ _ href hrec =>
      rcases hrec.eq_with with ⟨_, _, _, rfl⟩
      refine ⟨hrunning, href.started_eq.trans h.started, fun i hi => ?_⟩
      show (s₁.slTlb i).asid.toNat ≤ 0xFF
      rcases href.translation_eq i with ⟨-, hkept⟩ | ⟨-, hnew⟩
      · rw [hkept]
        exact h.asid_le i (href.geometry_eq ▸ hi)
      · rw [hnew]
        exact hasid
  | flush hop _ => cases hop
  | idle hop _ => cases hop

/-- What a flush leaves behind. -/
theorem flush_returns (h : Traced s size set) {op : Op Machine} (hop : op.isFlush = true) :
    Returns op.run s fun _ s' => Traced s' size set ∧
      s' = { s with slTlb := flushMatching op.clears s.geometry.entries s.slTlb } := by
  apply (Op.flush_returns h.toReady h.started hop).mono
  rintro _ s' rfl
  exact ⟨h.flushed op.clears, rfl⟩

/-- The identifier of a traced reference is the lower byte of the context register. -/
theorem refmem_ensures (hset : 1 ≤ set) (hle : set ≤ size) (h : Traced s size set)
    (machine : Machine) (addr : BitVec 32) (ins : Bool) :
    Ensures (tlbtraceRefmemQemu machine addr ins) s fun _ s' => Traced s' size set := by
  rw [tlbtraceRefmemQemu, Ensures.bind_iff, Ensures.get_iff]
  split
  · rw [Ensures.pure_iff]
    exact h
  · split
    · rw [Ensures.pure_iff]
      exact h
    · have hstep := Op.run_ensures (h.toRunning.fits hset hle)
        (.refmem addr (machine.env.c13Context &&& 0xFF#32) ins machine)
      exact hstep.mono fun _ s' hs' => h.referenced (toNat_and_le _) hs'

theorem tlbControl_ensures (h : Traced s size set) (insn val : BitVec 32) :
    Ensures (setCp15TlbControl insn val) s fun _ s' => Traced s' size set := by
  have hflush : ∀ op : Op Machine, op.isFlush = true →
      Ensures op.run s fun _ s' => Traced s' size set := by
    intro op hop
    exact (h.flush_returns hop).ensures.mono fun _ s' hs' => hs'.1
  rw [setCp15TlbControl]
  split
  · exact hflush .flushAll rfl
  · exact hflush (.flushEntry (val.setWidth 64)) rfl
  · exact hflush (.flushAsid (val.setWidth 64)) rfl
  · rw [Ensures.pure_iff]
    exact h
  · -- an unknown operand never returns
    rw [Ensures.bind_iff, Ensures.get_iff]
    intro _ s' hrun
    cases hrun

/-- The invariant along a run. -/
theorem runEvents_ensures (hset : 1 ≤ set) (hle : set ≤ size) (h : Traced s size set)
    (events : List Event) :
    Ensures (runEvents events) s fun _ s' => Traced s' size set := by
  apply Ensures.forM fun (_ : List Event) s' => Traced s' size set
  · intro _ event s₁ hs₁
    cases event with
    | refmem machine addr ins => exact hs₁.refmem_ensures hset hle machine addr ins
    | tlbControl insn val => exact hs₁.tlbControl_ensures insn val
  · exact h

end Traced

/-! ## Writes to `c8` -/

section

variable {s : Globals Machine} {size set : ℕ} {insn val : BitVec 32}

/-- The operation of the tracer behind a write. -/
def controlOp (insn val : BitVec 32) : Op Machine :=
  if op2 insn = 0#32 then .flushAll
  else if op2 insn = 1#32 then .flushEntry (val.setWidth 64)
  else .flushAsid (val.setWidth 64)

theorem isFlush_controlOp (insn val : BitVec 32) : (controlOp insn val).isFlush = true := by
  rw [controlOp]
  split
  · rfl
  · split <;> rfl

theorem setCp15TlbControl_eq (hop2 : (op2 insn).toNat ≤ 2) :
    setCp15TlbControl insn val = (controlOp insn val).run := by
  have hcases : op2 insn = 0#32 ∨ op2 insn = 1#32 ∨ op2 insn = 2#32 := by
    simp only [← BitVec.toNat_inj, BitVec.toNat_ofNat]
    omega
  rw [setCp15TlbControl, controlOp]
  rcases hcases with hop | hop | hop
  · rw [hop]
    rfl
  · rw [hop]
    rfl
  · rw [hop]
    rfl

/-- The flush clears what the write is meant to invalidate, unless it is one of an
address space with upper bits set. -/
theorem controlOp_invalidates (hval : ¬ (op2 insn = 2#32 ∧ 0xFF < val.toNat))
    {page asid : BitVec 32} (h : Invalidates insn val page asid) :
    (controlOp insn val).Invalidates page asid := by
  rw [controlOp]
  rcases h with hop | ⟨hop, hpage, hasid⟩ | ⟨hop, hasid⟩
  · rw [hop]
    trivial
  · rw [hop]
    exact ⟨setWidth_eq_and_iff.mpr hpage, setWidth_eq_and_iff.mpr hasid⟩
  · have hle : val.toNat ≤ 0xFF := Nat.not_lt.mp fun hlt => hval ⟨hop, hlt⟩
    rw [and_eq_self_iff.mpr hle] at hasid
    rw [hop]
    exact setWidth_eq_iff.mpr hasid

/-- An operand with upper bits set is no identifier of the table. -/
theorem flushMatching_controlOp (h : Traced s size set) (hop : op2 insn = 2#32)
    (hval : 0xFF < val.toNat) :
    flushMatching (controlOp insn val).clears s.geometry.entries s.slTlb = s.slTlb := by
  funext i
  rw [flushMatching]
  apply if_neg
  rintro ⟨hi, hclears⟩
  have hinvalidates := Op.clears_iff.mp hclears
  rw [controlOp, hop] at hinvalidates
  have hasid : (s.slTlb i).asid = val := setWidth_eq_iff.mp hinvalidates
  have hle := h.asid_le i hi
  rw [hasid] at hle
  omega

/-- A flush that clears all a write is meant to invalidate. -/
theorem mirrored_flushMatching {clears : TlbEntry → Bool}
    (hclears : ∀ e, Invalidates insn val e.va e.asid → clears e = true) :
    Mirrored { s with slTlb := flushMatching clears s.geometry.entries s.slTlb } insn val := by
  intro i hi hvalid hinvalidates
  change Valid (flushMatching clears s.geometry.entries s.slTlb i) at hvalid
  change Invalidates insn val (flushMatching clears s.geometry.entries s.slTlb i).va
    (flushMatching clears s.geometry.entries s.slTlb i).asid at hinvalidates
  rcases flushMatching_of_valid hvalid with ⟨hkept, hleft⟩
  rw [hkept] at hinvalidates
  exact hleft ⟨hi, hclears _ hinvalidates⟩

/-- In a table that the write leaves alone. -/
theorem mirrored_iff_not_stale (hop : op2 insn = 2#32) (hval : 0xFF < val.toNat) :
    Mirrored s insn val ↔ ¬ Stale s insn val := by
  constructor
  · rintro hmirrored ⟨-, -, i, hi, hvalid, hasid⟩
    exact hmirrored i hi hvalid (Or.inr (Or.inr ⟨hop, hasid⟩))
  · intro hstale i hi hvalid hinvalidates
    rcases hinvalidates with hzero | ⟨hone, -⟩ | ⟨-, hasid⟩
    · rw [hop] at hzero
      exact absurd hzero (by decide)
    · rw [hop] at hone
      exact absurd hone (by decide)
    · exact hstale ⟨hop, hval, i, hi, hvalid, hasid⟩

/-- A write to `c8` in a session. -/
theorem tlbControl_returns (h : Traced s size set) (hop2 : (op2 insn).toNat ≤ 2) :
    Returns (setCp15TlbControl insn val) s fun _ s' =>
      (Mirrored s' insn val ↔ ¬ Stale s insn val) := by
  rw [setCp15TlbControl_eq hop2]
  apply (h.flush_returns (isFlush_controlOp insn val)).mono
  rintro _ s' ⟨-, rfl⟩
  by_cases hval : op2 insn = 2#32 ∧ 0xFF < val.toNat
  · rw [flushMatching_controlOp h hval.1 hval.2]
    exact mirrored_iff_not_stale hval.1 hval.2
  · have hstale : ¬ Stale s insn val := fun h => hval ⟨h.1, h.2.1⟩
    refine ⟨fun _ => hstale, fun _ => mirrored_flushMatching fun e he => ?_⟩
    exact Op.clears_iff.mpr (controlOp_invalidates hval he)

end

/-- In every state of a session that the emulator drives, a write to `c8` leaves no entry
behind that it is meant to invalidate, except when it invalidates the address space of
some entry with upper bits set in its operand. -/
theorem session_mirrored {s : Globals Machine} {size set : ℕ} (hset : 1 ≤ set) (hle : set ≤ size)
    (hready : Ready s size set) (hstarted : s.started = false) (tm : Tm) (fresh : ℕ → BitVec 32)
    (events : List Event) :
    Ensures (do tlbtraceToggle tm fresh; runEvents events) s fun _ s' =>
      ∀ insn val : BitVec 32, (op2 insn).toNat ≤ 2 →
        Returns (setCp15TlbControl insn val) s' fun _ s'' =>
          (Mirrored s'' insn val ↔ ¬ Stale s' insn val) := by
  rw [Ensures.known_bind_iff (tlbtraceToggle_returns hready hstarted tm fresh)]
  have htraced := Traced.opened hready tm fresh
  refine (htraced.runEvents_ensures hset hle events).mono fun _ s' hs' => ?_
  intro insn val hop2
  exact tlbControl_returns hs' hop2

/-! ## A small session -/

/-- A guest in user mode, in address space 7, with an empty page table. -/
def sampleMachine : Machine where
  env := ⟨0x10#32, 0#32, 0#32, 0x4000#32, 0#32, 0#32, 0xFFFFC000#32, 1#32, 0x307#32⟩
  mem := fun _ => 0#32

/-- The tracer of the emulator, with a table of two entries. -/
def sampleEmulator : Globals Machine :=
  { Globals.initial pteHelper with
    geometry := .ofSizeWay 2 2
    tlbSet := 2
    slTlb := fun _ => flushedEntry
    slCap := 2 }

/-- The entry of address space 7 is there before the write, and not after it. -/
theorem session_mirrored_sampleMachine :
    Returns (do tlbtraceToggle sampleTm (fun _ => 0#32)
                runEvents [.refmem sampleMachine 0x1234#32 false]) sampleEmulator fun _ s' =>
      ¬ Mirrored s' 0x80040#32 7#32 ∧
        Returns (setCp15TlbControl 0x80040#32 7#32) s' fun _ s'' =>
          Mirrored s'' 0x80040#32 7#32 := by
  have hready : Ready sampleEmulator 2 2 := ⟨rfl, rfl⟩
  have hmirrored := session_mirrored (by decide) (by decide) hready rfl sampleTm (fun _ => 0#32)
    [.refmem sampleMachine 0x1234#32 false]
  have hreturns : Returns (do tlbtraceToggle sampleTm (fun _ => 0#32)
                              runEvents [.refmem sampleMachine 0x1234#32 false])
      sampleEmulator fun _ s' => ¬ Mirrored s' 0x80040#32 7#32 := by
    decide +kernel
  apply (hreturns.and_ensures hmirrored).mono
  rintro _ s' ⟨hbefore, hwrite⟩
  refine ⟨hbefore, (hwrite 0x80040#32 7#32 (by decide)).mono fun _ s'' hs'' => ?_⟩
  exact hs''.mpr fun hstale => absurd hstale.2.1 (by decide)

/-- The same write with an upper bit set leaves it in the table. -/
theorem not_mirrored_sampleMachine :
    Returns (do tlbtraceToggle sampleTm (fun _ => 0#32)
                runEvents [.refmem sampleMachine 0x1234#32 false]) sampleEmulator fun _ s' =>
      op2 0x80040#32 = 2#32 ∧
        Returns (setCp15TlbControl 0x80040#32 0x107#32) s' fun _ s'' =>
          ¬ Mirrored s'' 0x80040#32 0x107#32 := by
  decide +kernel

end TlbAnalyzer.Emulator
