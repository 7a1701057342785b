/-
# What a session records

A miss becomes a record of four words, the record goes through the buffer, and
the buffer is written out whenever it is full and once more when the session
ends. `Carries` says what is invariant under all of this: the bytes of the file
and the words still in the buffer, taken together, are the records so far.

Between two references the buffer holds whole records and has room for at least
one more, so that the test for a full buffer, which is an equality, is never
stepped over.
-/

import TlbAnalyzer.Tracer.Steps

namespace TlbAnalyzer.Tracer

open Cache Math TraceFile

variable {α : Type} {s s' : Globals α} {size set : ℕ}

/-! ## The buffer -/

/-- The file `name` and the buffer together hold the words of `stream`. -/
structure Carries (s : Globals α) (name : FileName) (stream : List (BitVec 32)) : Prop where
  fout_eq : s.fout = some name
  content : ∃ words bytes, s.fbuf = .live words ∧ s.files name = some bytes ∧
    bytes ++ ((List.range s.fbc).map words).flatMap wordBytes = stream.flatMap wordBytes

theorem map_range_succ_update (words : ℕ → BitVec 32) (n : ℕ) (word : BitVec 32) :
    (List.range (n + 1)).map (Function.update words n word) =
      (List.range n).map words ++ [word] := by
  rw [List.range_succ, List.map_append, List.map_singleton, Function.update_self]
  congr 1
  apply List.map_congr_left
  intro i hi
  exact Function.update_of_ne (List.mem_range.mp hi).ne _ _

theorem pushWord_run {words : ℕ → BitVec 32} (hfbuf : s.fbuf = .live words)
    (hfbc : s.fbc < fbufWords) (word : BitVec 32) :
    (pushWord word).run s = .ok ((), { s with
      fbuf := .live (Function.update words s.fbc word)
      fbc := s.fbc + 1 }) := by
  show pushWord word s = _
  rw [pushWord, hfbuf]
  exact if_pos hfbc

namespace Carries

variable {name : FileName} {stream : List (BitVec 32)}

theorem pushWord (h : Carries s name stream) (hfbc : s.fbc < fbufWords) (word : BitVec 32) :
    Returns (pushWord word) s fun _ s' =>
      Carries s' name (stream ++ [word]) ∧ s'.fbc = s.fbc + 1 := by
  obtain ⟨hfout, words, bytes, hfbuf, hfile, hbytes⟩ := h
  rw [Returns.iff_of_run (pushWord_run hfbuf hfbc word)]
  refine ⟨⟨hfout, _, bytes, rfl, hfile, ?_⟩, rfl⟩
  rw [map_range_succ_update, List.flatMap_append, List.flatMap_append, ← List.append_assoc,
    hbytes]

theorem appendFile (h : Carries s name stream) {words : ℕ → BitVec 32}
    (hfbuf : s.fbuf = .live words) :
    (s.appendFile (((List.range s.fbc).map words).flatMap wordBytes)).files name =
      some (stream.flatMap wordBytes) := by
  obtain ⟨hfout, words', bytes, hfbuf', hfile, hbytes⟩ := h
  rw [hfbuf, Buffer.live.injEq] at hfbuf'
  subst hfbuf'
  rw [Globals.appendFile, hfout]
  simp [hfile, hbytes]

/-- Writing the buffer out moves its words to the file. -/
theorem writeBuffer (h : Carries s name stream) {n : ℕ} (hn : s.fbc = n) :
    Returns (do
      Tracer.writeBuffer n
      modify fun s => { s with fbc := 0 }) s fun _ s' => Carries s' name stream ∧ s'.fbc = 0 := by
  obtain ⟨words, bytes, hfbuf, hfile, hbytes⟩ := h.content
  rw [Returns.bind_iff, writeBuffer_returns_iff hfbuf, Returns.modify_iff, ← hn]
  refine ⟨⟨?_, words, _, ?_, h.appendFile hfbuf, ?_⟩, rfl⟩
  · simpa using h.fout_eq
  · simpa using hfbuf
  · simp

/-- A walk is recorded as four words, and the buffer keeps room for one more. -/
theorem record (h : Carries s name stream) (hmod : s.fbc % 4 = 0) (hlt : s.fbc < fbufWords)
    (addr : BitVec 32) (arg : α) :
    Returns (tlbtraceRefmemPwc addr arg) s fun _ s' =>
      (Carries s' name (stream ++ [addr ||| (s.myPteHelper arg addr).ret,
          (s.myPteHelper arg addr).l1, (s.myPteHelper arg addr).l2,
          (s.myPteHelper arg addr).gpa]) ∧
        s'.fbc % 4 = 0 ∧ s'.fbc < fbufWords) := by
  have hwords : fbufWords = 8388608 := rfl
  simp only [tlbtraceRefmemPwc, Returns.bind_iff, Returns.get_iff]
  apply (h.pushWord hlt _).mono
  rintro _ s₁ ⟨h₁, hfbc₁⟩
  apply (h₁.pushWord (by omega) _).mono
  rintro _ s₂ ⟨h₂, hfbc₂⟩
  apply (h₂.pushWord (by omega) _).mono
  rintro _ s₃ ⟨h₃, hfbc₃⟩
  apply (h₃.pushWord (by omega) _).mono
  rintro _ s₄ ⟨h₄, hfbc₄⟩
  simp only [List.append_assoc, List.cons_append, List.nil_append] at h₄
  by_cases hfull : s₄.fbc = fbufWords
  · rw [if_pos hfull]
    apply (h₄.writeBuffer hfull).mono
    rintro _ s₅ ⟨h₅, hfbc₅⟩
    exact ⟨h₅, by omega, by omega⟩
  · rw [if_neg hfull, Returns.pure_iff]
    exact ⟨h₄, by omega, by omega⟩

theorem closed (h : Carries s name stream) :
    Returns tlbtraceStop s fun _ s' =>
      s'.files name = some (stream.flatMap wordBytes) ∧ s'.slCnt = s.slCnt := by
  obtain ⟨words, bytes, hfbuf, hfile, hbytes⟩ := h.content
  apply (tlbtraceStop_returns hfbuf).mono
  rintro _ s' rfl
  rw [Globals.closed]
  by_cases hfbc : s.fbc > 0
  · rw [if_pos hfbc]
    refine ⟨h.appendFile hfbuf, ?_⟩
    obtain ⟨_, _, _, heq⟩ := (recorded_appendFile (s := s)
      (((List.range s.fbc).map words).flatMap wordBytes)).eq_with
    simp only [heq]
  · rw [if_neg hfbc]
    have hempty : s.fbc = 0 := by omega
    rw [hempty] at hbytes
    refine ⟨?_, rfl⟩
    simpa [← hbytes] using hfile

end Carries

/-! ## References and their records -/

/-- The arguments of `tlbtrace_refmem`. -/
structure Ref (α : Type) where
  addr : BitVec 32
  asid : BitVec 32
  ins : Bool
  arg : α
  deriving DecidableEq

namespace Ref

/-- Make the reference. -/
def run (r : Ref α) : TraceM α Unit := tlbtraceRefmem r.addr r.asid r.ins r.arg

/-- The globals after the reference. -/
def after (r : Ref α) (s : Globals α) : Globals α :=
  match r.run.run s with
  | .ok (_, s') => s'
  | .error _ => s

/-- Whether the reference misses. -/
def misses (r : Ref α) (s : Globals α) : Bool :=
  match (tlbtraceRefmemSl (pageOf r.addr) r.asid r.ins).run s with
  | .ok (hit, _) => !hit
  | .error _ => false

/-- What is recorded for the reference when it misses. -/
def record (helper : α → BitVec 32 → PteResult) (r : Ref α) : TraceRecord :=
  let walk := helper r.arg (pageOf r.addr)
  ⟨pageOf r.addr ||| walk.ret, walk.l1, walk.l2, walk.gpa⟩

end Ref

/-- The references of a run that miss, in call order. -/
def missed : List (Ref α) → Globals α → List (Ref α)
  | [], _ => []
  | r :: refs, s => (if r.misses s then [r] else []) ++ missed refs (r.after s)

/-- A session after `n` references, of which those in `missing` missed. -/
structure Logged (s : Globals α) (helper : α → BitVec 32 → PteResult) (name : FileName) (n : ℕ)
    (missing : List (Ref α)) : Prop where
  helper_eq : s.myPteHelper = helper
  carries : Carries s name ((missing.map (Ref.record helper)).flatMap TraceRecord.words)
  fbc_mod : s.fbc % 4 = 0
  fbc_lt : s.fbc < fbufWords
  misses : s.slCnt.miss = missing.length
  total : s.slCnt.hit + s.slCnt.miss = n
  systs_eq : s.systs = n

namespace Logged

variable {helper : α → BitVec 32 → PteResult} {name : FileName} {n : ℕ} {missing : List (Ref α)}

theorem opened (s : Globals α) (tm : Tm) (fresh : ℕ → BitVec 32) :
    Logged (s.opened tm fresh) s.myPteHelper (traceName tm s.geometry.entries s.tlbSet) 0 [] := by
  have hfile : (s.opened tm fresh).files (traceName tm s.geometry.entries s.tlbSet) = some [] := by
    simp only [Globals.opened, Function.update_self]
  refine ⟨rfl, ⟨rfl, fresh, [], rfl, hfile, rfl⟩, rfl, ?_, rfl, rfl, rfl⟩
  exact Nat.zero_lt_of_ne_zero (by decide)

/-- What follows the search: a hit is done, a miss is recorded. -/
theorem finish (h : Logged s helper name n missing) {r : Ref α} {hit : Bool} {s₁ : Globals α}
    (hrun : (tlbtraceRefmemSl (pageOf r.addr) r.asid r.ins).run s = .ok (hit, s₁))
    (href : Referenced s (pageOf r.addr) r.asid r.ins hit s₁) :
    Returns (if hit = false then tlbtraceRefmemPwc (pageOf r.addr) r.arg else pure ()) s₁
      fun _ s' => Logged s' helper name (n + 1) (missing ++ if r.misses s then [r] else []) := by
  have hmisses : r.misses s = !hit := by rw [Ref.misses, hrun]
  obtain ⟨i, e, idx, rfl⟩ := href.eq_use
  rw [hmisses]
  have hmiss := h.misses
  have htotal := h.total
  cases hit with
  | true =>
      rw [if_neg (by simp), Returns.pure_iff]
      show Logged _ helper name (n + 1) (missing ++ [])
      rw [List.append_nil]
      refine ⟨h.helper_eq, ⟨h.carries.fout_eq, h.carries.content⟩, h.fbc_mod, h.fbc_lt,
        hmiss, ?_, ?_⟩
      · show s.slCnt.hit + 1 + s.slCnt.miss = n + 1
        omega
      · show s.systs + 1 = n + 1
        rw [h.systs_eq]
  | false =>
      rw [if_pos rfl]
      have hcarries : Carries { s.use false i e with lastInsIdx := idx } name
          ((missing.map (Ref.record helper)).flatMap TraceRecord.words) :=
        ⟨h.carries.fout_eq, h.carries.content⟩
      have hrecord := hcarries.record h.fbc_mod h.fbc_lt (pageOf r.addr) r.arg
      apply (hrecord.and_ensures (tlbtraceRefmemPwc_ensures _ _)).mono
      rintro _ s' ⟨⟨hcarries', hmod, hlt⟩, hrec⟩
      have hstream : (missing.map (Ref.record helper)).flatMap TraceRecord.words ++
          (Ref.record s.myPteHelper r).words =
            ((missing ++ [r]).map (Ref.record helper)).flatMap TraceRecord.words := by
        rw [h.helper_eq, List.map_append, List.flatMap_append, List.map_singleton,
          List.flatMap_singleton]
      change Carries s' name (_ ++ (Ref.record s.myPteHelper r).words) at hcarries'
      rw [hstream] at hcarries'
      obtain ⟨_, _, _, rfl⟩ := hrec.eq_with
      refine ⟨h.helper_eq, hcarries', hmod, hlt, ?_, ?_, ?_⟩
      · show s.slCnt.miss + 1 = (missing ++ [r]).length
        rw [List.length_append, List.length_singleton, hmiss]
      · show s.slCnt.hit + (s.slCnt.miss + 1) = n + 1
        omega
      · show s.systs + 1 = n + 1
        rw [h.systs_eq]

/-- One reference, if it returns. -/
theorem step (hset : 1 ≤ set) (hle : set ≤ size) (hrunning : Running s size set)
    (h : Logged s helper name n missing) (r : Ref α) :
    Ensures r.run s fun _ s' =>
      Running s' size set ∧
        Logged s' helper name (n + 1) (missing ++ if r.misses s then [r] else []) := by
  have hfits := hrunning.fits hset hle
  have hlogged : Ensures r.run s fun _ s' =>
      Logged s' helper name (n + 1) (missing ++ if r.misses s then [r] else []) := by
    rw [Ref.run, tlbtraceRefmem, Ensures.bind_iff]
    intro hit s₁ hrun
    exact (h.finish hrun (tlbtraceRefmemSl_ensures hfits _ _ hrun).1).ensures
  intro _ s' hrun
  exact ⟨hrunning.stepped (Op.run_ensures hfits (.refmem r.addr r.asid r.ins r.arg) _ _ hrun),
    hlogged _ _ hrun⟩

/-- One reference below the limit returns. -/
theorem step_returns (hset : 1 ≤ set) (hle : set ≤ size) (hrunning : Running s size set)
    (h : Logged s helper name n missing) (hidx : s.lastInsIdx < size) (hlimit : n + 1 < refLimit)
    (r : Ref α) : Returns r.run s fun _ s' => s'.lastInsIdx < size := by
  have hfits := hrunning.fits hset hle
  have hslCap := hrunning.slCap_eq
  have hreturns : Returns r.run s fun _ _ => True := by
    rw [Ref.run, tlbtraceRefmem, Returns.bind_iff]
    have hsearched : Returns (tlbtraceRefmemSl (pageOf r.addr) r.asid r.ins) s
        (Referenced s (pageOf r.addr) r.asid r.ins) :=
      tlbtraceRefmemSl_returns hfits (by omega) (h.systs_eq ▸ hlimit)
    obtain ⟨hit, s₁, hrun, href⟩ := hsearched
    exact ⟨hit, s₁, hrun, (h.finish hrun href).mono fun _ _ _ => trivial⟩
  have hstep := Op.run_ensures hfits (.refmem r.addr r.asid r.ins r.arg)
  apply (hreturns.and_ensures hstep).mono
  rintro _ s' ⟨_, hstepped⟩
  rw [← (hrunning.stepped hstepped).slCap_eq]
  exact hstepped.lastInsIdx_lt hfits (by omega)

/-- A run of references, if it returns. -/
theorem run (hset : 1 ≤ set) (hle : set ≤ size) (refs : List (Ref α))
    (hrunning : Running s size set) (h : Logged s helper name n missing) :
    Ensures (refs.forM Ref.run) s fun _ s' =>
      Logged s' helper name (n + refs.length) (missing ++ missed refs s) := by
  induction refs generalizing s n missing with
  | nil =>
      rw [List.forM, Ensures.pure_iff]
      simpa [missed] using h
  | cons r refs ih =>
      rw [List.forM, Ensures.bind_iff]
      intro _ s₁ hrun
      have hafter : r.after s = s₁ := by rw [Ref.after, hrun]
      obtain ⟨hrunning₁, h₁⟩ := h.step hset hle hrunning r _ s₁ hrun
      refine (ih hrunning₁ h₁).mono fun _ s' hs' => ?_
      rw [missed, hafter, List.length_cons, ← List.append_assoc, Nat.add_comm refs.length,
        ← Nat.add_assoc]
      exact hs'

/-- A run of references below the limit returns. -/
theorem run_returns (hset : 1 ≤ set) (hle : set ≤ size) (refs : List (Ref α))
    (hrunning : Running s size set) (h : Logged s helper name n missing)
    (hidx : s.lastInsIdx < size) (hlimit : n + refs.length < refLimit) :
    Returns (refs.forM Ref.run) s fun _ s' => s'.lastInsIdx < size := by
  induction refs generalizing s n missing with
  | nil =>
      rw [List.forM, Returns.pure_iff]
      exact hidx
  | cons r refs ih =>
      rw [List.length_cons] at hlimit
      rw [List.forM, Returns.bind_iff]
      have hreturns := h.step_returns hset hle hrunning hidx (by omega) r
      apply (hreturns.and_ensures (h.step hset hle hrunning r)).mono
      rintro _ s₁ ⟨hidx₁, hrunning₁, h₁⟩
      exact ih hrunning₁ h₁ hidx₁ (by omega)

/-- A flush writes nothing. -/
theorem flushed (h : Logged s helper name n missing) {op : Op α} (hop : op.isFlush = true)
    (hstep : Stepped s op s') : Logged s' helper name n missing := by
  cases hstep with
  | refmem => cases hop
  | flush _ _ =>
      exact ⟨h.helper_eq, ⟨h.carries.fout_eq, h.carries.content⟩, h.fbc_mod, h.fbc_lt, h.misses,
        h.total, h.systs_eq⟩
  | idle _ _ => exact h

/-- A flush in an open session. -/
theorem flush (hrunning : Running s size set) (hstarted : s.started = true)
    (h : Logged s helper name n missing) {op : Op α} (hop : op.isFlush = true) :
    Returns op.run s fun _ s' => Running s' size set ∧ Logged s' helper name n missing ∧
      s' = { s with slTlb := flushMatching op.clears s.geometry.entries s.slTlb } := by
  apply (Op.flush_returns hrunning.toReady hstarted hop).mono
  rintro _ s' rfl
  have hstep := Stepped.flush hop hstarted
  exact ⟨hrunning.stepped hstep, h.flushed hop hstep, rfl⟩

/-- An operation returns, when it is a flush or a reference below the limit. -/
theorem op_returns (hset : 1 ≤ set) (hle : set ≤ size) (hrunning : Running s size set)
    (h : Logged s helper name n missing) (hidx : s.lastInsIdx < size) (op : Op α)
    (hlimit : n + (references [op]).length < refLimit) :
    Returns op.run s fun _ s' => Running s' size set ∧ s'.lastInsIdx < size ∧
      ∃ missing', Logged s' helper name (n + (references [op]).length) missing' := by
  have hfits := hrunning.fits hset hle
  have hflush : op.isFlush = true → Returns op.run s fun _ s' => Running s' size set ∧
      s'.lastInsIdx < size ∧ ∃ missing', Logged s' helper name n missing' := by
    intro hop
    apply (Op.flush_returns_stepped hrunning.toReady hop).mono
    intro _ s' hstep
    have hrunning' := hrunning.stepped hstep
    have hidx' := hstep.lastInsIdx_lt hfits (hrunning.slCap_eq ▸ hidx)
    exact ⟨hrunning', hrunning'.slCap_eq ▸ hidx', missing, h.flushed hop hstep⟩
  cases op with
  | refmem addr asid ins arg =>
      have hreturns := h.step_returns hset hle hrunning hidx hlimit ⟨addr, asid, ins, arg⟩
      apply (hreturns.and_ensures (h.step hset hle hrunning ⟨addr, asid, ins, arg⟩)).mono
      rintro _ s' ⟨hidx', hrunning', hlogged⟩
      exact ⟨hrunning', hidx', _, hlogged⟩
  | _ => exact hflush rfl

/-- A run of operations returns, when its references are below the limit. -/
theorem runOps_returns (hset : 1 ≤ set) (hle : set ≤ size) (ops : List (Op α))
    (hrunning : Running s size set) (h : Logged s helper name n missing)
    (hidx : s.lastInsIdx < size) (hlimit : n + (references ops).length < refLimit) :
    Returns (runOps ops) s fun _ s' => s'.lastInsIdx < size ∧
      s'.systs = n + (references ops).length := by
  induction ops generalizing s n missing with
  | nil =>
      rw [runOps, List.forM, Returns.pure_iff]
      exact ⟨hidx, h.systs_eq⟩
  | cons op ops ih =>
      rw [references_cons, List.length_append, ← Nat.add_assoc] at hlimit ⊢
      rw [runOps, List.forM, Returns.bind_iff]
      apply (h.op_returns hset hle hrunning hidx op (Nat.lt_of_add_right_lt hlimit)).mono
      rintro _ s₁ ⟨hrunning₁, hidx₁, missing₁, h₁⟩
      exact ih hrunning₁ h₁ hidx₁ hlimit

end Logged

/-- A session below the limit gets through its operations, when the last instruction fetch
before it used a slot that exists. -/
theorem toggled_runOps_returns (hset : 1 ≤ set) (hle : set ≤ size) (hready : Ready s size set)
    (hstarted : s.started = false) (hidx : s.lastInsIdx < size) (tm : Tm) (fresh : ℕ → BitVec 32)
    (ops : List (Op α)) (hlimit : (references ops).length < refLimit) :
    Returns (do tlbtraceToggle tm fresh; runOps ops) s fun _ s' =>
      s'.lastInsIdx < size ∧ s'.systs = (references ops).length := by
  rw [Returns.known_bind_iff (tlbtraceToggle_returns hready hstarted tm fresh)]
  have hlogged := Logged.opened { s with started := true } tm fresh
  have hreturns := hlogged.runOps_returns hset hle ops (hready.toggled tm fresh) hidx
    (by rwa [Nat.zero_add])
  rwa [Nat.zero_add] at hreturns

/-! ## The round trip -/

/-- The record tells the reference: its page, and what the walk reported. -/
structure Tells (helper : α → BitVec 32 → PteResult) (t : TraceRecord) (r : Ref α) : Prop where
  level_eq : t.level = (helper r.arg (pageOf r.addr)).ret.toNat
  page_eq : t.mva &&& 0xFFFFF000#32 = pageOf r.addr
  l1_eq : t.l1Pa = (helper r.arg (pageOf r.addr)).l1
  l2_eq : t.l2Pa = (helper r.arg (pageOf r.addr)).l2
  pa_eq : t.pa = (helper r.arg (pageOf r.addr)).gpa

/-- The level bits and the page share no bit. -/
theorem Ref.record_tells {helper : α → BitVec 32 → PteResult} {r : Ref α}
    (hret : (helper r.arg (pageOf r.addr)).ret.toNat < 16) : Tells helper (r.record helper) r := by
  set ret := (helper r.arg (pageOf r.addr)).ret
  have hlow : ret &&& 0xF#32 = ret := by
    apply BitVec.eq_of_toNat_eq
    rw [BitVec.toNat_and]
    exact (Nat.and_two_pow_sub_one_eq_mod _ 4).trans (Nat.mod_eq_of_lt hret)
  have hpageLow : pageOf r.addr &&& 0xF#32 = 0#32 := by
    rw [pageOf, BitVec.and_assoc]
    simp
  have hretHigh : ret &&& 0xFFFFF000#32 = 0#32 := by
    rw [← hlow, BitVec.and_assoc]
    simp
  refine ⟨?_, ?_, rfl, rfl, rfl⟩
  · show ((pageOf r.addr ||| ret) &&& 0xF#32).toNat = ret.toNat
    rw [BitVec.and_or_distrib_right, hpageLow, hlow, BitVec.zero_or]
  · show (pageOf r.addr ||| ret) &&& 0xFFFFF000#32 = pageOf r.addr
    rw [BitVec.and_or_distrib_right, hretHigh, BitVec.or_zero, pageOf, BitVec.and_assoc,
      BitVec.and_self]

/-- A whole session: start, references, stop. -/
def session (tm : Tm) (fresh : ℕ → BitVec 32) (refs : List (Ref α)) : TraceM α Unit := do
  tlbtraceStart tm fresh
  refs.forM Ref.run
  tlbtraceStop

/-- What a finished session leaves: a file that the simulator reads back as one
record for each reference that missed, in call order, and counters that agree. -/
def RoundTrip (helper : α → BitVec 32 → PteResult) (name : FileName) (refs missing : List (Ref α))
    (s' : Globals α) : Prop :=
  ∃ bytes, s'.files name = some bytes ∧
    List.Forall₂ (Tells helper) (readRecords bytes) missing ∧
    s'.slCnt.miss = (readRecords bytes).length ∧
    s'.slCnt.hit + s'.slCnt.miss = refs.length

/-- The trace of a session is read back as it was written. This holds of every
session that ends; and every session ends that stays below the limit, when the
last instruction fetch before it used a slot that exists. -/
theorem session_roundTrip (hset : 1 ≤ set) (hle : set ≤ size) (hready : Ready s size set)
    (hret : ∀ arg addr, (s.myPteHelper arg addr).ret.toNat < 16) (tm : Tm)
    (fresh : ℕ → BitVec 32) (refs : List (Ref α)) :
    (Ensures (session tm fresh refs) s fun _ s' =>
      RoundTrip s.myPteHelper (traceName tm s.geometry.entries s.tlbSet) refs
        (missed refs (s.opened tm fresh)) s') ∧
      (s.lastInsIdx < size → refs.length < refLimit →
        Returns (session tm fresh refs) s fun _ s' =>
          RoundTrip s.myPteHelper (traceName tm s.geometry.entries s.tlbSet) refs
            (missed refs (s.opened tm fresh)) s') := by
  have hstart := tlbtraceStart_returns hready tm fresh
  have hrunning := hready.opened tm fresh
  have hlogged := Logged.opened s tm fresh
  have hrefs := hlogged.run hset hle refs hrunning
  rw [Nat.zero_add, List.nil_append] at hrefs
  -- stopping writes out what is still in the buffer
  have hstop : ∀ s₁, Logged s₁ s.myPteHelper (traceName tm s.geometry.entries s.tlbSet)
      refs.length (missed refs (s.opened tm fresh)) →
      Returns tlbtraceStop s₁ fun _ s' =>
        RoundTrip s.myPteHelper (traceName tm s.geometry.entries s.tlbSet) refs
          (missed refs (s.opened tm fresh)) s' := by
    intro s₁ h₁
    apply h₁.carries.closed.mono
    rintro _ s' ⟨hfile, hcnt⟩
    refine ⟨_, hfile, ?_, ?_, ?_⟩
    · rw [readRecords_of_words, List.forall₂_map_left_iff]
      exact List.forall₂_same.mpr fun r _ => Ref.record_tells (hret r.arg (pageOf r.addr))
    · rw [readRecords_of_words, List.length_map, hcnt]
      exact h₁.misses
    · rw [hcnt]
      exact h₁.total
  constructor
  · rw [session, Ensures.known_bind_iff hstart, Ensures.bind_iff]
    exact hrefs.mono fun _ s₁ h₁ => (hstop s₁ h₁).ensures
  · intro hidx hlimit
    rw [session, Returns.known_bind_iff hstart, Returns.bind_iff]
    have hreturns := hlogged.run_returns hset hle refs hrunning hidx (by omega)
    apply (hreturns.and_ensures hrefs).mono
    rintro _ s₁ ⟨_, h₁⟩
    exact hstop s₁ h₁

/-- Two pages, the second of them referenced again. -/
def sampleRefs : List (Ref Unit) :=
  [⟨0x0123#32, 7#32, true, ()⟩, ⟨0x1000#32, 7#32, true, ()⟩, ⟨0x1FFC#32, 7#32, false, ()⟩]

/-- Two records, for the two references that miss. -/
theorem session_roundTrip_sampleRefs :
    Returns (session sampleTm (fun _ => 0#32) sampleRefs) (sampleTracer 4 2) fun _ s' =>
      RoundTrip (sampleTracer 4 2).myPteHelper (traceName sampleTm 4 2) sampleRefs
        [⟨0x0123#32, 7#32, true, ()⟩, ⟨0x1000#32, 7#32, true, ()⟩] s' := by
  have hready : Ready (sampleTracer 4 2) 4 2 := ⟨rfl, rfl⟩
  have hret : ∀ arg addr, ((sampleTracer 4 2).myPteHelper arg addr).ret.toNat < 16 :=
    fun _ _ => (by decide : (3#32).toNat < 16)
  have hmissed : missed sampleRefs ((sampleTracer 4 2).opened sampleTm fun _ => 0#32) =
      [⟨0x0123#32, 7#32, true, ()⟩, ⟨0x1000#32, 7#32, true, ()⟩] := by decide +kernel
  have hreturns := (session_roundTrip (by decide) (by decide) hready hret sampleTm
    (fun _ => 0#32) sampleRefs).2 (by decide) (by decide)
  rw [hmissed] at hreturns
  exact hreturns

end TlbAnalyzer.Tracer
