/-
# Fetches of translated code

The emulator does not fetch an instruction when it executes it. It translates a block of
instructions once, and the block is what calls the tracer: `disas_arm_insn` generates the
operation `qemu_trace_pc` with the address of its instruction, which becomes a call of
`qemu_trace_pc_helper`. `disas_thumb_insn` generates nothing of the kind, so that Thumb code
leaves no fetches in a trace.

What the decoder makes of an instruction is a parameter. The loop around it is modelled: it
decides how far a block goes, and with that which addresses a block can pass to the tracer.
They are words of one page. The tracer therefore has to search for the first fetch of a block
only, and finds the others in the slot of the last fetch, as long as nothing comes between.
-/

import TlbAnalyzer.Emulator.TracedPages

namespace TlbAnalyzer.Emulator

open Cache Math TraceFile Tracer

/-! ## Translation -/

/-- `is_jmp`: the next instruction can be analyzed, or the reason why it cannot. -/
inductive IsJmp
  | next
  | jump
  | update
  | tbJump
  | wfi
  | swi
  | smc
  deriving DecidableEq

/-- The fields of `DisasContext` that the loop uses. -/
structure DisasContext where
  pc : BitVec 32
  isJmp : IsJmp
  condjmp : Bool
  condexecMask : BitVec 32
  condexecCond : BitVec 32
  thumb : Bool

/-- `ARM_TBFLAG_THUMB`. -/
def TranslationBlock.thumb (tb : TranslationBlock) : Bool := tb.flags &&& 1#64 != 0#64

/-- `ARM_TBFLAG_CONDEXEC`. -/
def TranslationBlock.condexec (tb : TranslationBlock) : BitVec 32 :=
  ((tb.flags &&& 0xFF00#64) >>> 8).setWidth 32

/-- `max_insns`: the bits `CF_COUNT_MASK` of the compile flags, or the largest count. -/
def maxInsns (cflags : BitVec 16) : ℕ :=
  if cflags &&& 0x7FFF#16 = 0#16 then 0x7FFF else (cflags &&& 0x7FFF#16).toNat

/-- An operation of the intermediate code. -/
inductive TcgOp (ω : Type)
  | qemuTracePc (pc : BitVec 32)
  | setLabel
  | other (op : ω)
  deriving DecidableEq

/-- What the decoder makes of an instruction: the operations in front of and behind the one
that traces its address, the new state of the translation, and whether a Thumb instruction
has a second half. -/
structure Decoded (ω : Type) where
  watch : List ω
  ops : List ω
  isJmp : IsJmp
  condjmp : Bool
  condexecMask : BitVec 32
  condexecCond : BitVec 32
  wide : Bool

/-- The parts of the translator that are not modelled. An instruction that cannot be read
ends the translation. -/
structure Decoder (ω : Type) where
  disasArmInsn : DisasContext → Option (Decoded ω)
  disasThumbInsn : DisasContext → Option (Decoded ω)
  /-- `gen_icount_start`, and the reset of the conditional execution bits. -/
  opening : DisasContext → List ω
  /-- In front of an instruction: `gen_io_start`, and the marks for the log. -/
  marks : BitVec 16 → ℕ → DisasContext → List ω
  exceptionExit : List ω
  /-- `gen_exception_insn` for a breakpoint. -/
  exceptionDebug : DisasContext → List ω
  /-- Everything behind the loop. -/
  closing : DisasContext → List ω

/-- What the loop reads of the processor. -/
structure TranslateEnv where
  isM : Bool
  singlestepEnabled : Bool
  singlestep : Bool
  breakpoints : List (BitVec 32)

/-- `OPC_MAX_SIZE`. -/
def opcMaxSize : ℕ := 2048 - 96

/-- A translation in progress. -/
structure Gen (ω : Type) where
  dc : DisasContext
  ops : List (TcgOp ω)
  numInsns : ℕ

/-- What is left of a translation. -/
structure Block (ω : Type) where
  ops : List (TcgOp ω)
  size : BitVec 32
  icount : ℕ
  deriving DecidableEq

variable {ω : Type}

/-- The conditional execution bits after a Thumb instruction. -/
def DisasContext.advanceCondexec (dc : DisasContext) : DisasContext :=
  if dc.condexecMask ≠ 0#32 then
    let cond := (dc.condexecCond &&& 0xE#32) ||| ((dc.condexecMask >>> 4) &&& 1#32)
    let mask := (dc.condexecMask <<< 1) &&& 0x1F#32
    { dc with condexecMask := mask, condexecCond := if mask = 0#32 then 0#32 else cond }
  else dc

/-- `if (dc->condjmp && !dc->is_jmp)`: the label behind a conditional instruction. -/
def Gen.setLabel (g : Gen ω) : Gen ω :=
  if g.dc.condjmp = true ∧ g.dc.isJmp = .next then
    { g with ops := g.ops ++ [.setLabel], dc := { g.dc with condjmp := false } }
  else g

/-- The body of the loop, for an instruction that is translated. -/
def Gen.insn (d : Decoder ω) (cflags : BitVec 16) (g : Gen ω) : Option (Gen ω) :=
  let marked := g.ops ++ (d.marks cflags g.numInsns g.dc).map .other
  if g.dc.thumb = true then
    (d.disasThumbInsn g.dc).map fun insn =>
      let dc : DisasContext := ⟨g.dc.pc + if insn.wide then 4#32 else 2#32, insn.isJmp,
        insn.condjmp, insn.condexecMask, insn.condexecCond, g.dc.thumb⟩
      Gen.setLabel ⟨dc.advanceCondexec, marked ++ (insn.watch ++ insn.ops).map .other,
        g.numInsns + 1⟩
  else
    (d.disasArmInsn g.dc).map fun insn =>
      let dc : DisasContext := ⟨g.dc.pc + 4#32, insn.isJmp, insn.condjmp, g.dc.condexecMask,
        g.dc.condexecCond, g.dc.thumb⟩
      Gen.setLabel ⟨dc,
        marked ++ insn.watch.map .other ++ .qemuTracePc g.dc.pc :: insn.ops.map .other,
        g.numInsns + 1⟩

/-- `next_page_start`. -/
def TranslationBlock.nextPageStart (tb : TranslationBlock) : BitVec 32 :=
  (tb.pc &&& targetPageMask) + targetPageSize

/-- The condition of the loop. -/
def Gen.GoesOn (env : TranslateEnv) (tb : TranslationBlock) (cflags : BitVec 16) (g : Gen ω) :
    Prop :=
  g.dc.isJmp = .next ∧ g.ops.length < opcMaxSize ∧ env.singlestepEnabled = false ∧
    env.singlestep = false ∧ g.dc.pc < tb.nextPageStart ∧ g.numInsns < maxInsns cflags

instance (env : TranslateEnv) (tb : TranslationBlock) (cflags : BitVec 16) (g : Gen ω) :
    Decidable (g.GoesOn env tb cflags) :=
  inferInstanceAs (Decidable (_ ∧ _))

/-- The loop, for so many more instructions at most. `max_insns` of them are enough, as the
loop counts them. -/
def Gen.loop (d : Decoder ω) (env : TranslateEnv) (tb : TranslationBlock) (cflags : BitVec 16) :
    ℕ → Gen ω → Option (Gen ω)
  | 0, g => some g
  | n + 1, g =>
      if 0xFFFFFFF0#32 ≤ g.dc.pc ∧ env.isM = true then
        let dc := { g.dc with isJmp := .update }
        some { g with dc := dc, ops := g.ops ++ (d.exceptionExit ++ d.closing dc).map .other }
      else if g.dc.pc ∈ env.breakpoints then
        -- the address is advanced so that removing the breakpoint invalidates the block
        some { g with
          dc := { g.dc with pc := g.dc.pc + 2#32 }
          ops := g.ops ++ (d.exceptionDebug g.dc).map .other }
      else
        (g.insn d cflags).bind fun g =>
          if g.GoesOn env tb cflags then g.loop d env tb cflags n
          else some { g with ops := g.ops ++ (d.closing g.dc).map .other }

/-- `gen_intermediate_code`. -/
def genIntermediateCode (d : Decoder ω) (env : TranslateEnv) (tb : TranslationBlock)
    (cflags : BitVec 16) : Option (Block ω) :=
  let dc : DisasContext :=
    ⟨tb.pc, .next, false, (tb.condexec &&& 0xF#32) <<< 1, tb.condexec >>> 4, tb.thumb⟩
  (Gen.loop d env tb cflags (maxInsns cflags) ⟨dc, (d.opening dc).map .other, 0⟩).map fun g =>
    ⟨g.ops, (g.dc.pc - tb.pc) &&& 0xFFFF#32, g.numInsns⟩

/-! ## The addresses of a block -/

/-- The addresses that the operations pass to `qemu_trace_pc_helper`. -/
def tracedPcs (ops : List (TcgOp ω)) : List (BitVec 32) :=
  ops.filterMap fun op =>
    match op with
    | .qemuTracePc pc => some pc
    | .setLabel => none
    | .other _ => none

@[simp]
theorem tracedPcs_nil : tracedPcs ([] : List (TcgOp ω)) = [] := rfl

@[simp]
theorem tracedPcs_append (ops ops' : List (TcgOp ω)) :
    tracedPcs (ops ++ ops') = tracedPcs ops ++ tracedPcs ops' :=
  List.filterMap_append

@[simp]
theorem tracedPcs_other (ops : List ω) : tracedPcs (ops.map .other) = [] := by
  simp [tracedPcs]

@[simp]
theorem tracedPcs_qemuTracePc (pc : BitVec 32) (ops : List (TcgOp ω)) :
    tracedPcs (.qemuTracePc pc :: ops) = pc :: tracedPcs ops := rfl

@[simp]
theorem tracedPcs_setLabel (ops : List (TcgOp ω)) :
    tracedPcs (.setLabel :: ops) = tracedPcs ops := rfl

/-- The address of an instruction of a block of ARM code. -/
def insnAddr (tb : TranslationBlock) (k : ℕ) : BitVec 32 := tb.pc + BitVec.ofNat 32 (4 * k)

/-- After so many instructions, the last of which began before the end of the page. -/
structure Translates (tb : TranslationBlock) (g : Gen ω) : Prop where
  thumb_eq : g.dc.thumb = tb.thumb
  thumb : tb.thumb = true → tracedPcs g.ops = []
  arm : tb.thumb = false → tracedPcs g.ops = (List.range g.numInsns).map (insnAddr tb)
  pc_eq : tb.thumb = false → g.dc.pc = insnAddr tb g.numInsns
  within : tb.thumb = false → tb.pc.toNat % 1024 + 4 * g.numInsns < 1024 + 4

/-- The next instruction begins in the page too. -/
structure Continues (tb : TranslationBlock) (g : Gen ω) : Prop extends Translates tb g where
  inside : tb.thumb = false → tb.pc.toNat % 1024 + 4 * g.numInsns < 1024

section

variable {d : Decoder ω} {env : TranslateEnv} {tb : TranslationBlock} {cflags : BitVec 16}
  {g g' : Gen ω}

theorem insnAddr_succ (tb : TranslationBlock) (k : ℕ) :
    insnAddr tb (k + 1) = insnAddr tb k + 4#32 := by
  rw [insnAddr, insnAddr, Nat.mul_succ, BitVec.ofNat_add, ← BitVec.add_assoc]

/-- Operations of other kinds change nothing. -/
theorem Translates.other (h : Translates tb g) (ops : List ω) :
    Translates tb { g with ops := g.ops ++ ops.map .other } where
  thumb_eq := h.thumb_eq
  thumb hthumb := by simp [h.thumb hthumb]
  arm harm := by simp [h.arm harm]
  pc_eq := h.pc_eq
  within := h.within

theorem Translates.setLabel (h : Translates tb g) : Translates tb g.setLabel := by
  rw [Gen.setLabel]
  split
  · refine ⟨h.thumb_eq, ?_, ?_, h.pc_eq, h.within⟩
    · intro hthumb
      simp [h.thumb hthumb]
    · intro harm
      simp [h.arm harm]
  · exact h

theorem DisasContext.advanceCondexec_thumb (dc : DisasContext) :
    dc.advanceCondexec.thumb = dc.thumb := by
  rw [advanceCondexec]
  split <;> rfl

/-- One instruction more. -/
theorem Continues.insn (h : Continues tb g) (hinsn : g.insn d cflags = some g') :
    Translates tb g' := by
  rw [Gen.insn] at hinsn
  split at hinsn
  · rename_i hthumb
    rcases Option.map_eq_some_iff.mp hinsn with ⟨insn, -, rfl⟩
    have hthumb' : tb.thumb = true := h.thumb_eq.symm.trans hthumb
    have harm : tb.thumb ≠ false := by
      rw [hthumb']
      decide
    apply Translates.setLabel
    refine ⟨?_, fun _ => ?_, fun h => absurd h harm, fun h => absurd h harm,
      fun h => absurd h harm⟩
    · rw [DisasContext.advanceCondexec_thumb]
      exact h.thumb_eq
    · simp [h.thumb hthumb']
  · rename_i hthumb
    rcases Option.map_eq_some_iff.mp hinsn with ⟨insn, -, rfl⟩
    have harm : tb.thumb = false := h.thumb_eq.symm.trans (Bool.eq_false_iff.mpr hthumb)
    have hpc := h.pc_eq harm
    have hinside := h.inside harm
    apply Translates.setLabel
    refine ⟨h.thumb_eq, fun hthumb' => ?_, fun _ => ?_, fun _ => ?_, fun _ => ?_⟩
    · rw [harm] at hthumb'
      cases hthumb'
    · simp [h.arm harm, hpc, List.range_succ]
    · rw [insnAddr_succ, ← hpc]
    · show _ % 1024 + 4 * (g.numInsns + 1) < _
      omega

/-- The loop goes on only with an instruction that begins in the page. -/
theorem Translates.continues (h : Translates tb g) (hon : g.GoesOn env tb cflags) :
    Continues tb g := by
  refine ⟨h, fun harm => ?_⟩
  have hpc := hon.2.2.2.2.1
  have hwithin := h.within harm
  rw [h.pc_eq harm, BitVec.lt_def, insnAddr, TranslationBlock.nextPageStart, BitVec.toNat_add,
    BitVec.toNat_add, toNat_and_pageMask, BitVec.toNat_ofNat] at hpc
  have hsize : targetPageSize.toNat = 1024 := by decide
  have hlt := tb.pc.isLt
  rw [hsize] at hpc
  omega

/-- What the loop leaves: it ended behind an instruction, or at a breakpoint, where the address
was advanced. -/
structure Ended (env : TranslateEnv) (tb : TranslationBlock) (g : Gen ω) : Prop where
  thumb : tb.thumb = true → tracedPcs g.ops = []
  arm : tb.thumb = false → tracedPcs g.ops = (List.range g.numInsns).map (insnAddr tb)
  pc_eq : tb.thumb = false → g.dc.pc = insnAddr tb g.numInsns ∨
    (insnAddr tb g.numInsns ∈ env.breakpoints ∧ g.dc.pc = insnAddr tb g.numInsns + 2#32)
  within : tb.thumb = false → tb.pc.toNat % 1024 + 4 * g.numInsns < 1024 + 4

theorem Translates.ended (h : Translates tb g) : Ended env tb g :=
  ⟨h.thumb, h.arm, fun harm => Or.inl (h.pc_eq harm), h.within⟩

theorem Continues.loop {n : ℕ} (h : Continues tb g) (hloop : g.loop d env tb cflags n = some g') :
    Ended env tb g' := by
  induction n generalizing g with
  | zero =>
      cases hloop
      exact h.toTranslates.ended
  | succ n ih =>
      rw [Gen.loop] at hloop
      split at hloop
      · cases hloop
        exact ⟨(h.toTranslates.other _).thumb, (h.toTranslates.other _).arm,
          fun harm => Or.inl (h.pc_eq harm), h.within⟩
      · split at hloop
        · rename_i hbreak
          cases hloop
          refine ⟨(h.toTranslates.other _).thumb, (h.toTranslates.other _).arm, fun harm => ?_,
            h.within⟩
          have hpc := h.pc_eq harm
          rw [hpc] at hbreak
          exact Or.inr ⟨hbreak, congrArg (· + 2#32) hpc⟩
        · rcases Option.bind_eq_some_iff.mp hloop with ⟨g₁, hinsn, hrest⟩
          have h₁ := h.insn hinsn
          split at hrest
          · rename_i hon
            exact ih (h₁.continues hon) hrest
          · cases hrest
            exact (h₁.other _).ended

theorem genIntermediateCode_ended {block : Block ω}
    (h : genIntermediateCode d env tb cflags = some block) :
    ∃ g : Gen ω, Ended env tb g ∧ block.ops = g.ops ∧
      block.size = (g.dc.pc - tb.pc) &&& 0xFFFF#32 ∧ block.icount = g.numInsns := by
  rcases Option.map_eq_some_iff.mp h with ⟨g, hloop, rfl⟩
  have hstart : ∀ dc : DisasContext, dc.pc = tb.pc → dc.thumb = tb.thumb →
      Continues tb ⟨dc, (d.opening dc).map .other, 0⟩ := by
    intro dc hpc hthumb
    refine ⟨⟨hthumb, fun _ => tracedPcs_other _, fun _ => tracedPcs_other _, fun _ => ?_,
      fun _ => ?_⟩, fun _ => ?_⟩
    · rw [hpc]
      exact (BitVec.add_zero tb.pc).symm
    · show _ % 1024 + 4 * 0 < 1024 + 4
      omega
    · show _ % 1024 + 4 * 0 < 1024
      omega
  exact ⟨g, (hstart _ rfl rfl).loop hloop, rfl, rfl, rfl⟩

/-- The addresses of a block of ARM code are in its page. -/
theorem samePage_insnAddr {k : ℕ} (h : tb.pc.toNat % 1024 + 4 * k < 1024) :
    SamePage (insnAddr tb k) tb.pc := by
  have hlt := tb.pc.isLt
  rw [samePage_iff, insnAddr, BitVec.toNat_add, BitVec.toNat_ofNat]
  omega

end

/-- What a block passes to the tracer, for every decoder, processor and block. In Thumb state
that is nothing. In ARM state it is the address of each instruction, in order and once: words
of the page in which the block begins, at most 256 of them. They cover the block, up to a
breakpoint at which the translation ended. -/
theorem genIntermediateCode_traced {d : Decoder ω} {env : TranslateEnv} {tb : TranslationBlock}
    {cflags : BitVec 16} {block : Block ω}
    (h : genIntermediateCode d env tb cflags = some block) :
    (tb.thumb = true → tracedPcs block.ops = []) ∧
      (tb.thumb = false →
        tracedPcs block.ops = (List.range block.icount).map (insnAddr tb) ∧
          block.icount ≤ 256 ∧ (∀ pc ∈ tracedPcs block.ops, SamePage pc tb.pc) ∧
          (block.size.toNat = 4 * block.icount ∨
            (insnAddr tb block.icount ∈ env.breakpoints ∧
              block.size.toNat = 4 * block.icount + 2))) := by
  rcases genIntermediateCode_ended h with ⟨g, hended, hops, hsize, hicount⟩
  rw [hops, hsize, hicount]
  refine ⟨hended.thumb, fun harm => ?_⟩
  have hwithin := hended.within harm
  have hones : (0xFFFF#32).toNat = 2 ^ 16 - 1 := rfl
  refine ⟨hended.arm harm, by omega, ?_, ?_⟩
  · rw [hended.arm harm]
    intro pc hpc
    rcases List.mem_map.mp hpc with ⟨k, hk, rfl⟩
    have hlt := List.mem_range.mp hk
    exact samePage_insnAddr (by omega)
  · rw [toNat_and_ones hones]
    rcases hended.pc_eq harm with hpc | ⟨hbreak, hpc⟩
    · left
      rw [hpc, insnAddr, BitVec.add_comm, BitVec.add_sub_cancel, BitVec.toNat_ofNat]
      omega
    · refine Or.inr ⟨hbreak, ?_⟩
      rw [hpc, insnAddr, BitVec.add_assoc, BitVec.add_comm, BitVec.add_sub_cancel,
        BitVec.toNat_add, BitVec.toNat_ofNat, BitVec.toNat_ofNat]
      omega

/-- A decoder for which every instruction goes on, up to a jump at one address. -/
def sampleDecoder : Decoder Unit where
  disasArmInsn dc := some ⟨[], [()], if dc.pc = 0x8008#32 then .jump else .next, false, 0#32, 0#32,
    false⟩
  disasThumbInsn _ := some ⟨[], [()], .next, false, 0#32, 0#32, false⟩
  opening _ := []
  marks _ _ _ := []
  exceptionExit := [()]
  exceptionDebug _ := [()]
  closing _ := [()]

/-- Three instructions of ARM code. -/
def sampleBlock : Block Unit :=
  ⟨[.qemuTracePc 0x8000#32, .other (), .qemuTracePc 0x8004#32, .other (),
      .qemuTracePc 0x8008#32, .other (), .other ()], 12#32, 3⟩

theorem genIntermediateCode_sampleBlock :
    genIntermediateCode sampleDecoder ⟨false, false, false, []⟩ ⟨0x8000#32, 0#32, 0#64⟩ 0#16 =
      some sampleBlock := by
  decide +kernel

theorem genIntermediateCode_traced_sampleBlock :
    tracedPcs sampleBlock.ops =
        (List.range 3).map (insnAddr ⟨0x8000#32, 0#32, 0#64⟩) ∧
      ∀ pc ∈ tracedPcs sampleBlock.ops, SamePage pc 0x8000#32 := by
  have htraced := (genIntermediateCode_traced genIntermediateCode_sampleBlock).2 (by decide)
  exact ⟨htraced.1, htraced.2.2.1⟩

/-! ## Fetches in a row -/

/-- `qemu_trace_pc_helper`. -/
def qemuTracePcHelper (machine : Machine) (pc : BitVec 32) : TraceM Machine Unit := do
  let s ← get
  if s.started = false then
    return ()
  else
    tlbtraceRefmemQemu machine pc true

/-- So many more hits in the slot that the last fetch used. -/
def refetched (k : ℕ) (s : Globals Machine) : Globals Machine :=
  { s with
    systs := s.systs + k
    slTlb := if k = 0 then s.slTlb else
      Function.update s.slTlb s.lastInsIdx
        { s.slTlb s.lastInsIdx with ts := stampOf (s.systs + k) }
    slCnt := { s.slCnt with hit := s.slCnt.hit + k } }

/-- The slot that the last fetch used holds the page. -/
structure Warm (s : Globals Machine) (page asid : BitVec 32) : Prop where
  idx_lt : s.lastInsIdx < s.slCap
  test : test page asid (s.slTlb s.lastInsIdx) = true

section

variable {s s' : Globals Machine} {p asid : BitVec 32} {machine : Machine} {pc : BitVec 32}

theorem refetched_refetched_one (k : ℕ) (s : Globals Machine) :
    refetched k (refetched 1 s) = refetched (k + 1) s := by
  cases k with
  | zero => rfl
  | succ k => simp [refetched, Nat.add_assoc, Nat.add_comm 1]

theorem Warm.refetched_one (h : Warm s p asid) : Warm (refetched 1 s) p asid where
  idx_lt := h.idx_lt
  test := by
    show Tracer.test p asid (Function.update s.slTlb s.lastInsIdx _ s.lastInsIdx) = true
    rw [Function.update_self]
    exact h.test

/-- A fetch of the page is a hit then. -/
theorem Warm.refmem (h : Warm s (pageOf pc) asid) :
    (tlbtraceRefmem pc asid true machine).run s = .ok ((), refetched 1 s) := by
  have hsl : (tlbtraceRefmemSl (pageOf pc) asid true).run s = .ok (true, refetched 1 s) := by
    have hidx := h.idx_lt
    show tlbtraceRefmemSl (pageOf pc) asid true s = _
    rw [tlbtraceRefmemSl, if_neg (by omega), if_neg (by omega), if_pos ⟨rfl, h.test⟩]
    rfl
  rw [tlbtraceRefmem, StateT.run_bind, hsl]
  rfl

/-- And every fetch that returned makes it so. -/
theorem Warm.of_referenced (hfits : s.geometry.Fits s.slCap) (hpos : 0 < s.slCap) {hit : Bool}
    (href : Referenced s p asid true hit s') : Warm s' p asid := by
  have hused : ∀ (s₁ : Globals Machine) (i : ℕ) (e : TlbEntry), i < s₁.slCap →
      Tracer.test p asid e = true → Warm { s₁.use hit i e with lastInsIdx := i } p asid := by
    intro s₁ i e hi htest
    refine ⟨hi, ?_⟩
    show Tracer.test p asid (Function.update s₁.slTlb i _ i) = true
    rw [Function.update_self]
    exact htest
  have hslot : ∀ {i : ℕ}, i ∈ s.geometry.slots (p >>> 12) → i < s.slCap := fun hmem =>
    lt_of_lt_of_le (Geometry.lt_entries_of_mem_slots hmem) hfits.entries_le
  cases href with
  | fast _ hidx htest => exact hused s s.lastInsIdx _ hidx htest
  | hit i hmem htest => exact hused s i _ (hslot hmem) htest
  | miss mi hfound =>
      refine hused s mi _ ?_ (test_iff.mpr ⟨rfl, rfl⟩)
      cases hfound with
      | older _ _ hmem _ _ => exact hslot hmem
      | seed _ _ => exact hpos

/-- In user mode with the tracer on, the helper is a reference. -/
theorem qemuTracePcHelper_run (hstarted : s.started = true) (huser : UserMode machine.env) :
    (qemuTracePcHelper machine pc).run s =
      (tlbtraceRefmem pc (machine.env.c13Context &&& 0xFF#32) true machine).run s := by
  have hon : ¬ s.started = false := by
    rw [hstarted]
    decide
  show StateT.run (if s.started = false then pure () else tlbtraceRefmemQemu machine pc true) s = _
  rw [if_neg hon]
  show StateT.run (if s.started = false then _ else if _ then _ else _) s = _
  have hmode : ¬ machine.env.uncachedCpsr &&& 0x1F#32 ≠ 0x10#32 := not_not.mpr huser
  rw [if_neg hon, if_neg hmode]

/-- Fetches of the page that the last fetch used are hits in its slot. -/
theorem Warm.fetches (huser : UserMode machine.env) (pcs : List (BitVec 32))
    (hpages : ∀ pc ∈ pcs, pageOf pc = p) (hstarted : s.started = true)
    (h : Warm s p (machine.env.c13Context &&& 0xFF#32)) :
    (pcs.forM (qemuTracePcHelper machine)).run s = .ok ((), refetched pcs.length s) := by
  induction pcs generalizing s with
  | nil => rfl
  | cons pc pcs ih =>
      rw [List.forall_mem_cons] at hpages
      have hfirst : (qemuTracePcHelper machine pc).run s = .ok ((), refetched 1 s) := by
        rw [qemuTracePcHelper_run hstarted huser]
        apply Warm.refmem
        rw [hpages.1]
        exact h
      have hon : (refetched 1 s).started = true := hstarted
      have hrest := ih hpages.2 hon h.refetched_one
      rw [refetched_refetched_one] at hrest
      rw [List.forM, StateT.run_bind, hfirst]
      exact hrest

end

theorem pageOf_eq_of_samePage {a b : BitVec 32} (h : SamePage a b) : pageOf a = pageOf b := by
  have hmask : 0xFFFFF000#32 = targetPageMask &&& 0xFFFFF000#32 := by decide
  have hpage : ∀ x : BitVec 32, pageOf x = (x &&& targetPageMask) &&& 0xFFFFF000#32 := by
    intro x
    rw [BitVec.and_assoc, ← hmask]
    rfl
  rw [hpage a, hpage b, h]

/-- Code that runs through a block of ARM code in user mode, from its begin and without
references to data, is searched for once. The fetches do what the fetch of the first address
does, and for each other one there is a hit in the slot that this one used, a tick of the
clock, and nothing else: no miss, no record, and no end of the process. -/
theorem block_fetches {size set : ℕ} (hset : 1 ≤ set) (hle : set ≤ size)
    {tracer : Globals Machine} (hrunning : Running tracer size set)
    (hstarted : tracer.started = true) {machine : Machine} (huser : UserMode machine.env)
    {d : Decoder ω} {env : TranslateEnv} {tb : TranslationBlock} {cflags : BitVec 16}
    {block : Block ω} (hblock : genIntermediateCode d env tb cflags = some block)
    (harm : tb.thumb = false) {k : ℕ} (hk : k < block.icount) :
    (((tracedPcs block.ops).take (k + 1)).forM (qemuTracePcHelper machine)).run tracer =
      (do
        qemuTracePcHelper machine tb.pc
        modify (refetched k) : TraceM Machine Unit).run tracer := by
  rcases genIntermediateCode_ended hblock with ⟨g, hended, hops, -, hicount⟩
  have hwithin := hended.within harm
  rw [hicount] at hk
  have hpcs : (tracedPcs block.ops).take (k + 1) =
      tb.pc :: (List.range k).map fun i => insnAddr tb (i + 1) := by
    rw [hops, hended.arm harm, ← List.map_take, List.take_range, Nat.min_eq_left hk,
      List.range_succ_eq_map, List.map_cons, List.map_map]
    exact congrArg (· :: _) (BitVec.add_zero tb.pc)
  have hpages : ∀ pc ∈ (List.range k).map fun i => insnAddr tb (i + 1),
      pageOf pc = pageOf tb.pc := by
    intro pc hpc
    rcases List.mem_map.mp hpc with ⟨i, hi, rfl⟩
    have hlt := List.mem_range.mp hi
    exact pageOf_eq_of_samePage (samePage_insnAddr (by omega))
  rw [hpcs, List.forM, StateT.run_bind, StateT.run_bind]
  cases hfirst : (qemuTracePcHelper machine tb.pc).run tracer with
  | error halt => rfl
  | ok pair =>
      have hfits := hrunning.fits hset hle
      have hpos : 0 < tracer.slCap := by
        rw [hrunning.slCap_eq]
        exact lt_of_lt_of_le hset hle
      rw [qemuTracePcHelper_run hstarted huser] at hfirst
      rcases tlbtraceRefmem_ensures hfits machine pair.1 pair.2 hfirst with
        ⟨hit, s₁, href, hrec⟩
      have hwarm := Warm.of_referenced hfits hpos href
      have hon : s₁.started = true := href.started_eq.trans hstarted
      rcases hrec.eq_with with ⟨fbc, fbuf, files, hpair⟩
      have hrest := Warm.fetches huser _ hpages (s := pair.2) (by rw [hpair]; exact hon)
        (by rw [hpair]; exact ⟨hwarm.idx_lt, hwarm.test⟩)
      rw [List.length_map, List.length_range] at hrest
      exact hrest

/-- The three fetches of the sample block. -/
theorem block_fetches_sampleBlock :
    ((tracedPcs sampleBlock.ops).forM (qemuTracePcHelper sampleCpu.machine)).run
        sampleSystem.tracer =
      (do
        qemuTracePcHelper sampleCpu.machine 0x8000#32
        modify (refetched 2) : TraceM Machine Unit).run sampleSystem.tracer := by
  have hready : Ready sampleEmulator 2 2 := ⟨rfl, rfl⟩
  have hrunning : Running sampleSystem.tracer 2 2 := hready.toggled sampleTm _
  have huser : UserMode sampleCpu.machine.env := by decide
  exact block_fetches (k := 2) (by decide) (by decide) hrunning rfl huser
    genIntermediateCode_sampleBlock (by decide) (by decide)

/-! ## Code pages -/

end TlbAnalyzer.Emulator
