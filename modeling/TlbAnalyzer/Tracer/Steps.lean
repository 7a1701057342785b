/-
# What one operation of the tracer does

The tracer can stop anywhere: at the limit, or by leaving its tables. The rules
here therefore come in two readings, what an operation has done if it returned,
and when it returns. `Referenced` and `Stepped` say once what a reference and an
operation can do, so that an invariant is checked against their cases and never
against the code.

Recording a walk touches the record buffer and the files and nothing else.
`Recorded` is that frame; everything about the table follows from it without
looking at the buffer.
-/

import TlbAnalyzer.Math.Contracts
import TlbAnalyzer.Tracer.Program

namespace TlbAnalyzer.Tracer

open Cache Math TraceFile

variable {α : Type} {s s' : Globals α}

namespace Globals

variable (s : Globals α) (hit ins : Bool) (i : ℕ) (e : TlbEntry)

@[simp]
theorem use_geometry : (s.use hit i e).geometry = s.geometry := rfl

@[simp]
theorem use_systs : (s.use hit i e).systs = s.systs + 1 := rfl

@[simp]
theorem use_slTlb : (s.use hit i e).slTlb =
    Function.update s.slTlb i { e with ts := stampOf (s.systs + 1) } := rfl

@[simp]
theorem fetched_geometry : (s.fetched ins i).geometry = s.geometry := by cases ins <;> rfl

@[simp]
theorem fetched_slTlb : (s.fetched ins i).slTlb = s.slTlb := by cases ins <;> rfl

@[simp]
theorem fetched_systs : (s.fetched ins i).systs = s.systs := by cases ins <;> rfl

variable (bytes : List (BitVec 8))

@[simp]
theorem appendFile_fout : (s.appendFile bytes).fout = s.fout := by
  rw [appendFile]
  split <;> rfl

@[simp]
theorem appendFile_fbuf : (s.appendFile bytes).fbuf = s.fbuf := by
  rw [appendFile]
  split <;> rfl

end Globals

/-! ## References -/

/-- An entry holds a translation, unless it has the address a flush leaves. -/
def Valid (e : TlbEntry) : Prop := e.va ≠ 0xFFFFFFFF#32

instance (e : TlbEntry) : Decidable (Valid e) := inferInstanceAs (Decidable (_ ≠ _))

theorem test_iff {addr asid : BitVec 32} {e : TlbEntry} :
    test addr asid e = true ↔ e.va = addr ∧ e.asid = asid := by
  simp [test]

/-- A page-aligned address is not the one a flush leaves. -/
theorem ne_of_aligned {addr : BitVec 32} (h : addr.toNat % 4096 = 0) : addr ≠ 0xFFFFFFFF#32 := by
  intro heq
  rw [heq] at h
  exact absurd h (by decide)

theorem toNat_pageOf_mod (addr : BitVec 32) : (pageOf addr).toNat % 4096 = 0 :=
  toNat_and_page_mod addr

/-- An entry that matches a page-aligned address holds a translation. -/
theorem Valid.of_test {addr asid : BitVec 32} {e : TlbEntry} (haddr : addr.toNat % 4096 = 0)
    (htest : test addr asid e = true) : Valid e := by
  rw [Valid, (test_iff.mp htest).1]
  exact ne_of_aligned haddr

/-- What a reference has done to the globals before its walk is recorded: it
used the slot the last instruction fetch used, or a slot of its own set, or the
slot the search chose to refill. -/
inductive Referenced (s : Globals α) (addr asid : BitVec 32) (ins : Bool) :
    Bool → Globals α → Prop
  | fast (hins : ins = true) (hidx : s.lastInsIdx < s.slCap)
      (htest : test addr asid (s.slTlb s.lastInsIdx) = true) :
      Referenced s addr asid ins true (s.use true s.lastInsIdx (s.slTlb s.lastInsIdx))
  | hit (i : ℕ) (hmem : i ∈ s.geometry.slots (addr >>> 12))
      (htest : test addr asid (s.slTlb i) = true) :
      Referenced s addr asid ins true ((s.use true i (s.slTlb i)).fetched ins i)
  | miss (mi : ℕ) (hfound : Searched s.slTlb (test addr asid) (s.geometry.slots (addr >>> 12))
        (s.slTlb 0).ts 0 (.miss mi)) :
      Referenced s addr asid ins false
        ((s.use false mi { s.slTlb mi with va := addr, asid := asid }).fetched ins mi)

/-- Whichever way, one slot was used, and `last_ins_idx` may have moved. -/
theorem Referenced.eq_use {addr asid : BitVec 32} {ins hit : Bool}
    (h : Referenced s addr asid ins hit s') :
    ∃ i e idx, s' = { s.use hit i e with lastInsIdx := idx } := by
  have hfetched : ∀ (s₁ : Globals α) i,
      ∃ idx, s₁.fetched ins i = { s₁ with lastInsIdx := idx } := by
    intro s₁ i
    cases ins with
    | true => exact ⟨i, rfl⟩
    | false => exact ⟨s₁.lastInsIdx, rfl⟩
  cases h with
  | fast _ _ _ => exact ⟨_, _, _, rfl⟩
  | hit i _ _ =>
      obtain ⟨idx, hidx⟩ := hfetched (s.use true i (s.slTlb i)) i
      exact ⟨i, _, idx, hidx⟩
  | miss mi _ =>
      obtain ⟨idx, hidx⟩ :=
        hfetched (s.use false mi { s.slTlb mi with va := addr, asid := asid }) mi
      exact ⟨mi, _, idx, hidx⟩

section

variable {addr asid : BitVec 32} {ins hit : Bool}

theorem Referenced.geometry_eq (h : Referenced s addr asid ins hit s') :
    s'.geometry = s.geometry := by
  obtain ⟨_, _, _, rfl⟩ := h.eq_use
  rfl

theorem Referenced.started_eq (h : Referenced s addr asid ins hit s') :
    s'.started = s.started := by
  obtain ⟨_, _, _, rfl⟩ := h.eq_use
  rfl

/-- Every reference is one tick of the clock. -/
theorem Referenced.systs_eq (h : Referenced s addr asid ins hit s') :
    s'.systs = s.systs + 1 := by
  obtain ⟨_, _, _, rfl⟩ := h.eq_use
  rfl

end

/-- The next instruction fetch tests an existing slot. -/
theorem Referenced.lastInsIdx_lt {addr asid : BitVec 32} {ins hit : Bool}
    (hfits : s.geometry.Fits s.slCap) (h : Referenced s addr asid ins hit s')
    (hidx : s.lastInsIdx < s.slCap) : s'.lastInsIdx < s'.slCap := by
  have hfetched : ∀ (s₁ : Globals α) i, i < s₁.slCap → s₁.lastInsIdx < s₁.slCap →
      (s₁.fetched ins i).lastInsIdx < (s₁.fetched ins i).slCap := by
    intro s₁ i hi hlast
    cases ins with
    | true => exact hi
    | false => exact hlast
  cases h with
  | fast _ _ _ => exact hidx
  | hit i hmem _ =>
      have hi := Geometry.lt_entries_of_mem_slots hmem
      exact hfetched _ i (lt_of_lt_of_le hi hfits.entries_le) hidx
  | miss mi hfound =>
      refine hfetched _ mi ?_ hidx
      cases hfound with
      | older _ _ hmem _ _ =>
          exact lt_of_lt_of_le (Geometry.lt_entries_of_mem_slots hmem) hfits.entries_le
      | seed _ _ => exact lt_of_le_of_lt (Nat.zero_le _) hidx

theorem checkLimit_run (h : s.systs < refLimit) : checkLimit.run s = .ok (false, s) := by
  have hlimit : ¬ refLimit ≤ s.systs := Nat.not_le.mpr h
  simp [checkLimit, hlimit]
  rfl

theorem checkLimit_ensures :
    Ensures checkLimit s fun hit s' => hit = false ∧ s' = s ∧ s.systs < refLimit := by
  by_cases hlimit : s.systs < refLimit
  · intro hit s' hrun
    rw [checkLimit_run hlimit] at hrun
    cases hrun
    exact ⟨rfl, rfl, hlimit⟩
  · rw [checkLimit, Ensures.bind_iff, Ensures.get_iff, if_pos (Nat.not_lt.mp hlimit)]
    simp only [Ensures.bind_iff, Ensures.get_iff]
    intro _ s₁ _ hit s' hrun
    cases hrun

variable {addr asid : BitVec 32} {ins : Bool}

theorem tlbtraceRefmemSl_ensures (hfits : s.geometry.Fits s.slCap) :
    Ensures (tlbtraceRefmemSl addr asid ins) s fun hit s' =>
      Referenced s addr asid ins hit s' ∧ (hit = false → s'.systs < refLimit) := by
  intro hit s' hrun
  change tlbtraceRefmemSl addr asid ins s = _ at hrun
  rw [tlbtraceRefmemSl] at hrun
  split at hrun
  · cases hrun
  split at hrun
  · cases hrun
  split at hrun
  · rename_i hidx hfast
    cases hrun
    have hbound : s.lastInsIdx < s.slCap := Nat.not_le.mp fun h => hidx ⟨hfast.1, h⟩
    exact ⟨.fast hfast.1 hbound hfast.2, fun h => absurd h (by decide)⟩
  · obtain ⟨found, hfind, hfound⟩ :=
      Geometry.find_spec hfits s.slTlb (test addr asid) (addr >>> 12)
    rw [hfind] at hrun
    cases found with
    | hit i =>
        cases hrun
        cases hfound with
        | hit i hmem htest => exact ⟨.hit i hmem htest, fun h => absurd h (by decide)⟩
    | miss mi =>
        obtain ⟨rfl, rfl, hlimit⟩ := checkLimit_ensures hit s' hrun
        exact ⟨.miss mi hfound, fun _ => hlimit⟩

/-- A reference returns when the last instruction fetch used an existing slot and
the limit is not reached. -/
theorem tlbtraceRefmemSl_returns (hfits : s.geometry.Fits s.slCap)
    (hidx : s.lastInsIdx < s.slCap) (hlimit : s.systs + 1 < refLimit) :
    Returns (tlbtraceRefmemSl addr asid ins) s (Referenced s addr asid ins) := by
  suffices hreturns : Returns (tlbtraceRefmemSl addr asid ins) s fun _ _ => True from
    (hreturns.and_ensures (tlbtraceRefmemSl_ensures hfits)).mono fun _ _ h => h.2.1
  have hcap : s.slCap ≠ 0 := by omega
  have hbound : ¬ (ins = true ∧ s.slCap ≤ s.lastInsIdx) := by omega
  obtain ⟨found, hfind, _⟩ := Geometry.find_spec hfits s.slTlb (test addr asid) (addr >>> 12)
  have hrun : ∃ hit s', tlbtraceRefmemSl addr asid ins s = .ok (hit, s') := by
    rw [tlbtraceRefmemSl, if_neg hcap, if_neg hbound]
    split
    · exact ⟨_, _, rfl⟩
    · rw [hfind]
      cases found with
      | hit i => exact ⟨_, _, rfl⟩
      | miss mi => exact ⟨_, _, checkLimit_run (by simpa using hlimit)⟩
  obtain ⟨hit, s', hrun⟩ := hrun
  exact ⟨hit, s', hrun, trivial⟩

/-! ## Records -/

/-- Whether the record buffer is allocated. -/
def Buffer.isLive : Buffer → Bool
  | .live _ => true
  | .null | .freed => false

theorem Buffer.exists_of_isLive {buffer : Buffer} (h : buffer.isLive = true) :
    ∃ words, buffer = .live words := by
  cases buffer with
  | null => cases h
  | freed => cases h
  | live words => exact ⟨words, rfl⟩

/-- The second globals differ from the first at most in the record buffer and the
files, and the record buffer is still there. -/
structure Recorded (s s' : Globals α) : Prop where
  eq_with : ∃ fbc fbuf files, s' = { s with fbc := fbc, fbuf := fbuf, files := files }
  live : s.fbuf.isLive = true → s'.fbuf.isLive = true

theorem Recorded.refl (s : Globals α) : Recorded s s := ⟨⟨_, _, _, rfl⟩, id⟩

theorem Recorded.trans {s₁ s₂ s₃ : Globals α} (h₁ : Recorded s₁ s₂) (h₂ : Recorded s₂ s₃) :
    Recorded s₁ s₃ := by
  obtain ⟨⟨_, _, _, rfl⟩, hlive₁⟩ := h₁
  obtain ⟨⟨fbc, fbuf, files, rfl⟩, hlive₂⟩ := h₂
  exact ⟨⟨fbc, fbuf, files, rfl⟩, fun h => hlive₂ (hlive₁ h)⟩

theorem recorded_appendFile (bytes : List (BitVec 8)) : Recorded s (s.appendFile bytes) := by
  rw [Globals.appendFile]
  split
  · exact Recorded.refl s
  · exact ⟨⟨_, _, _, rfl⟩, id⟩

theorem writeBuffer_ensures (n : ℕ) :
    Ensures (writeBuffer n) s fun _ s' => Recorded s s' := by
  intro _ s' hrun
  change writeBuffer n s = _ at hrun
  rw [writeBuffer] at hrun
  split at hrun <;> cases hrun
  · exact Recorded.refl s
  · exact recorded_appendFile _

theorem pushWord_ensures (word : BitVec 32) :
    Ensures (pushWord word) s fun _ s' => Recorded s s' := by
  intro _ s' hrun
  change pushWord word s = _ at hrun
  rw [pushWord] at hrun
  split at hrun
  · split at hrun <;> cases hrun
    exact ⟨⟨_, _, _, rfl⟩, fun _ => rfl⟩
  · cases hrun
  · cases hrun

theorem tlbtraceRefmemPwc_ensures (addr : BitVec 32) (arg : α) :
    Ensures (tlbtraceRefmemPwc addr arg) s fun _ s' => Recorded s s' := by
  rw [tlbtraceRefmemPwc, Ensures.bind_iff, Ensures.get_iff]
  simp only [Ensures.bind_iff, Ensures.get_iff]
  refine (pushWord_ensures _).mono fun _ s₁ h₁ => ?_
  refine (pushWord_ensures _).mono fun _ s₂ h₂ => ?_
  refine (pushWord_ensures _).mono fun _ s₃ h₃ => ?_
  refine (pushWord_ensures _).mono fun _ s₄ h₄ => ?_
  have h := ((h₁.trans h₂).trans h₃).trans h₄
  split
  · simp only [Ensures.bind_iff, Ensures.modify_iff]
    refine (writeBuffer_ensures _).mono fun _ s₅ h₅ => ?_
    exact h.trans (h₅.trans ⟨⟨0, _, _, rfl⟩, id⟩)
  · rw [Ensures.pure_iff]
    exact h

theorem tlbtraceRefmem_ensures (hfits : s.geometry.Fits s.slCap) (arg : α) :
    Ensures (tlbtraceRefmem addr asid ins arg) s fun _ s' =>
      ∃ hit s₁, Referenced s (pageOf addr) asid ins hit s₁ ∧ Recorded s₁ s' := by
  rw [tlbtraceRefmem, Ensures.bind_iff]
  refine (tlbtraceRefmemSl_ensures hfits).mono fun hit s₁ hs₁ => ?_
  cases hit with
  | true =>
      rw [if_neg (by simp), Ensures.pure_iff]
      exact ⟨true, s₁, hs₁.1, Recorded.refl s₁⟩
  | false =>
      rw [if_pos rfl]
      refine (tlbtraceRefmemPwc_ensures _ arg).mono fun _ s' hs' => ?_
      exact ⟨false, s₁, hs₁.1, hs'⟩

/-! ## Operations -/

namespace Op

/-- The operations that flush. -/
def isFlush : Op α → Bool
  | .refmem _ _ _ _ => false
  | .flushAll | .flushEntry _ | .flushAsid _ => true

/-- The translations an operation invalidates. -/
def Invalidates : Op α → BitVec 32 → BitVec 32 → Prop
  | .refmem _ _ _ _, _, _ => False
  | .flushAll, _, _ => True
  | .flushEntry v, page, asid =>
      page.setWidth 64 = v &&& 0xFFFFF000#64 ∧ asid.setWidth 64 = v &&& 0xFF#64
  | .flushAsid a, _, asid => asid.setWidth 64 = a

instance (op : Op α) (page asid : BitVec 32) : Decidable (op.Invalidates page asid) :=
  match op with
  | .refmem _ _ _ _ => .isFalse id
  | .flushAll => .isTrue trivial
  | .flushEntry _ => inferInstanceAs (Decidable (_ ∧ _))
  | .flushAsid _ => inferInstanceAs (Decidable (_ = _))

/-- The entries an operation clears. -/
def clears (op : Op α) (e : TlbEntry) : Bool := op.Invalidates e.va e.asid

theorem clears_iff {op : Op α} {e : TlbEntry} :
    op.clears e = true ↔ op.Invalidates e.va e.asid := decide_eq_true_iff

/-- The translation that an operation refers to: a page and an identifier. -/
def translation : Op α → Option (BitVec 32 × BitVec 32)
  | .refmem addr asid _ _ => some (pageOf addr, asid)
  | .flushAll | .flushEntry _ | .flushAsid _ => none

end Op

/-- The translations that a run refers to, in call order. -/
def references (ops : List (Op α)) : List (BitVec 32 × BitVec 32) := ops.filterMap Op.translation

theorem references_cons (op : Op α) (ops : List (Op α)) :
    references (op :: ops) = references [op] ++ references ops := by
  rw [references, references, references, ← List.filterMap_append, List.singleton_append]

/-- What an operation has done to the globals. -/
inductive Stepped (s : Globals α) : Op α → Globals α → Prop
  | refmem {addr asid : BitVec 32} {ins : Bool} {arg : α} {hit : Bool} {s₁ s' : Globals α}
      (href : Referenced s (pageOf addr) asid ins hit s₁) (hrec : Recorded s₁ s') :
      Stepped s (.refmem addr asid ins arg) s'
  | flush {op : Op α} (hop : op.isFlush = true) (hstarted : s.started = true) :
      Stepped s op { s with slTlb := flushMatching op.clears s.geometry.entries s.slTlb }
  | idle {op : Op α} (hop : op.isFlush = true) (hstarted : s.started = false) :
      Stepped s op s

theorem Stepped.lastInsIdx_lt {op : Op α} (hfits : s.geometry.Fits s.slCap)
    (h : Stepped s op s') (hidx : s.lastInsIdx < s.slCap) : s'.lastInsIdx < s'.slCap := by
  cases h with
  | refmem href hrec =>
      have hlt := href.lastInsIdx_lt hfits hidx
      obtain ⟨_, _, _, rfl⟩ := hrec.eq_with
      exact hlt
  | flush _ _ => exact hidx
  | idle _ _ => exact hidx

/-- What is left of a table after a flush was there before and is not cleared. -/
theorem flushMatching_of_valid {clears : TlbEntry → Bool} {size i : ℕ} {tlb : ℕ → TlbEntry}
    (hvalid : Valid (flushMatching clears size tlb i)) :
    flushMatching clears size tlb i = tlb i ∧ ¬ (i < size ∧ clears (tlb i) = true) := by
  rw [flushMatching] at hvalid ⊢
  split at hvalid
  · exact absurd rfl hvalid
  · rename_i hclears
    exact ⟨if_neg hclears, hclears⟩

theorem flushTable_ensures {op : Op α} (hop : op.isFlush = true)
    {flush : ℕ → (ℕ → TlbEntry) → ℕ → TlbEntry} (hflush : flush = flushMatching op.clears) :
    Ensures (whenStarted (flushTable flush)) s fun _ s' => Stepped s op s' := by
  rw [whenStarted, Ensures.bind_iff, Ensures.get_iff]
  split
  · rename_i hstarted
    intro _ s' hrun
    change flushTable flush s = _ at hrun
    rw [flushTable] at hrun
    split at hrun <;> cases hrun
    rw [hflush]
    exact .flush hop hstarted
  · rename_i hstarted
    rw [Ensures.pure_iff]
    exact .idle hop (by simpa using hstarted)

theorem Op.flush_ensures {op : Op α} (hop : op.isFlush = true) :
    Ensures op.run s fun _ s' => Stepped s op s' := by
  cases op with
  | refmem _ _ _ _ => cases hop
  | flushAll =>
      apply flushTable_ensures rfl
      funext size tlb idx
      simp only [flushTlb, flushMatching, clears_iff, Invalidates, and_true]
  | flushEntry v =>
      apply flushTable_ensures rfl
      funext size tlb idx
      simp only [flushTlbEntry, flushMatching, clears_iff, Invalidates, Bool.and_eq_true,
        beq_iff_eq]
  | flushAsid a =>
      apply flushTable_ensures rfl
      funext size tlb idx
      simp only [flushTlbAsid, flushMatching, clears_iff, Invalidates, beq_iff_eq]

/-- Every operation that returned did what `Stepped` says. -/
theorem Op.run_ensures (hfits : s.geometry.Fits s.slCap) (op : Op α) :
    Ensures op.run s fun _ s' => Stepped s op s' := by
  cases op with
  | refmem addr asid ins arg =>
      refine (tlbtraceRefmem_ensures hfits arg).mono fun _ s' hs' => ?_
      obtain ⟨hit, s₁, href, hrec⟩ := hs'
      exact .refmem href hrec
  | flushAll => exact flush_ensures rfl
  | flushEntry v => exact flush_ensures rfl
  | flushAsid a => exact flush_ensures rfl

/-! ## The geometry of a session -/

/-- The tracer was initialised for this geometry and its table is allocated. -/
structure Ready (s : Globals α) (size set : ℕ) : Prop where
  geometry_eq : s.geometry = .ofSizeWay size set
  slCap_eq : s.slCap = size

namespace Ready

variable {size set : ℕ}

/-- `tlbtrace_init` leaves a tracer that is ready and not started. -/
theorem of_init (pteHelper : α → BitVec 32 → PteResult) (fresh : ℕ → TlbEntry) :
    Returns (tlbtraceInit size set pteHelper fresh) s fun _ s' =>
      Ready s' size set ∧ s'.started = false := by
  rw [tlbtraceInit, Returns.bind_iff, Returns.modify_iff, Returns.pure_iff]
  exact ⟨⟨rfl, rfl⟩, rfl⟩

theorem fits (h : Ready s size set) (hset : 1 ≤ set) (hle : set ≤ size) :
    s.geometry.Fits s.slCap := by
  rw [h.geometry_eq, h.slCap_eq]
  exact Geometry.ofSizeWay_fits hset hle (le_refl size)

theorem entries_eq (h : Ready s size set) : s.geometry.entries = size := by
  rw [h.geometry_eq]
  rfl

theorem slCap_eq_entries (h : Ready s size set) : s.slCap = s.geometry.entries :=
  h.slCap_eq.trans h.entries_eq.symm

end Ready

/-- A session is open: the table and the record buffer are allocated. -/
structure Running (s : Globals α) (size set : ℕ) : Prop extends Ready s size set where
  live : s.fbuf.isLive = true

namespace Running

variable {size set : ℕ}

theorem referenced {addr asid : BitVec 32} {ins hit : Bool} (h : Running s size set)
    (href : Referenced s addr asid ins hit s') : Running s' size set := by
  obtain ⟨i, e, idx, rfl⟩ := href.eq_use
  exact ⟨⟨h.geometry_eq, h.slCap_eq⟩, h.live⟩

theorem stepped {op : Op α} (h : Running s size set) (hstep : Stepped s op s') :
    Running s' size set := by
  cases hstep with
  | refmem href hrec =>
      have h₁ := h.referenced href
      obtain ⟨⟨_, _, _, rfl⟩, hlive⟩ := hrec
      exact ⟨⟨h₁.geometry_eq, h₁.slCap_eq⟩, hlive h₁.live⟩
  | flush _ _ => exact ⟨⟨h.geometry_eq, h.slCap_eq⟩, h.live⟩
  | idle _ _ => exact h

/-- The run rule: a property of the state and the operations so far that every
operation keeps holds after any run of operations. -/
theorem ensures_of_stepped (hset : 1 ≤ set) (hle : set ≤ size)
    (inv : List (Op α) → Globals α → Prop)
    (hstep : ∀ handled op s₁ s₂, Running s₁ size set → inv handled s₁ → Stepped s₁ op s₂ →
      inv (handled ++ [op]) s₂)
    (h : Running s size set) (hstart : inv [] s) (ops : List (Op α)) :
    Ensures (runOps ops) s fun _ s' => Running s' size set ∧ inv ops s' := by
  apply Ensures.forM fun handled s' => Running s' size set ∧ inv handled s'
  · intro handled op s₁ hinv
    refine (Op.run_ensures (hinv.1.fits hset hle) op).mono fun _ s₂ hstepped => ?_
    exact ⟨hinv.1.stepped hstepped, hstep handled op s₁ s₂ hinv.1 hinv.2 hstepped⟩
  · exact ⟨h, hstart⟩

end Running

/-! ## Starting a session -/

/-- The globals `tlbtrace_start` leaves. -/
def Globals.opened (s : Globals α) (tm : Tm) (fresh : ℕ → BitVec 32) : Globals α :=
  { s with
    fout := some (traceName tm s.geometry.entries s.tlbSet)
    files := Function.update s.files (traceName tm s.geometry.entries s.tlbSet) (some [])
    fbc := 0
    fbuf := .live fresh
    systs := 0
    slTlb := flushTlb s.geometry.entries s.slTlb
    slCnt := ⟨0, 0⟩ }

theorem Globals.opened_slTlb (tm : Tm) (fresh : ℕ → BitVec 32) {i : ℕ}
    (hi : i < s.geometry.entries) : (s.opened tm fresh).slTlb i = flushedEntry := by
  show flushTlb s.geometry.entries s.slTlb i = flushedEntry
  rw [flushTlb, if_pos hi]

/-- A session starts without translations. -/
theorem Globals.not_valid_opened (tm : Tm) (fresh : ℕ → BitVec 32) {i : ℕ}
    (hi : i < s.geometry.entries) : ¬ Valid ((s.opened tm fresh).slTlb i) := by
  intro hvalid
  apply hvalid
  rw [opened_slTlb tm fresh hi]
  rfl

theorem flushTable_returns_iff {flush : ℕ → (ℕ → TlbEntry) → ℕ → TlbEntry}
    {post : Unit → Globals α → Prop} (hcap : s.geometry.entries ≤ s.slCap) :
    Returns (flushTable flush) s post ↔
      post () { s with slTlb := flush s.geometry.entries s.slTlb } := by
  have hrun : (flushTable flush).run s =
      .ok ((), { s with slTlb := flush s.geometry.entries s.slTlb }) :=
    if_neg (Nat.not_lt.mpr hcap)
  exact Returns.iff_of_run hrun

theorem tlbtraceStart_returns {size set : ℕ} (h : Ready s size set) (tm : Tm)
    (fresh : ℕ → BitVec 32) :
    Returns (tlbtraceStart tm fresh) s fun _ s' => s' = s.opened tm fresh := by
  have hcap : s.geometry.entries ≤ s.slCap := h.slCap_eq_entries.ge
  simp only [tlbtraceStart, openTrace, Returns.bind_iff, Returns.get_iff, Returns.modify_iff]
  rw [flushTable_returns_iff (by exact hcap)]
  rfl

theorem Ready.opened {size set : ℕ} (h : Ready s size set) (tm : Tm) (fresh : ℕ → BitVec 32) :
    Running (s.opened tm fresh) size set :=
  ⟨⟨h.geometry_eq, h.slCap_eq⟩, rfl⟩

theorem Ready.switchedOn {size set : ℕ} (h : Ready s size set) :
    Ready { s with started := true } size set :=
  ⟨h.geometry_eq, h.slCap_eq⟩

theorem Ready.toggled {size set : ℕ} (h : Ready s size set) (tm : Tm) (fresh : ℕ → BitVec 32) :
    Running ({ s with started := true }.opened tm fresh) size set :=
  h.switchedOn.opened tm fresh

/-- Switching a stopped tracer on is a start, with the flushes enabled. -/
theorem tlbtraceToggle_returns {size set : ℕ} (h : Ready s size set) (hstarted : s.started = false)
    (tm : Tm) (fresh : ℕ → BitVec 32) :
    Returns (tlbtraceToggle tm fresh) s fun _ s' =>
      s' = { s with started := true }.opened tm fresh := by
  simp only [tlbtraceToggle, Returns.bind_iff, Returns.modify_iff, Returns.get_iff, hstarted,
    Bool.not_false, if_true]
  exact tlbtraceStart_returns h.switchedOn tm fresh

/-- A flush returns, whether it is ignored or not. -/
theorem Op.flush_returns_stepped {size set : ℕ} (hready : Ready s size set) {op : Op α}
    (hop : op.isFlush = true) : Returns op.run s fun _ s' => Stepped s op s' := by
  have hreturns : ∀ flush : ℕ → (ℕ → TlbEntry) → ℕ → TlbEntry,
      Returns (whenStarted (flushTable flush)) s fun _ _ => True := by
    intro flush
    rw [whenStarted, Returns.bind_iff, Returns.get_iff]
    split
    · rw [flushTable_returns_iff hready.slCap_eq_entries.ge]
      trivial
    · rw [Returns.pure_iff]
      trivial
  have hop_returns : Returns op.run s fun _ _ => True := by
    cases op with
    | refmem => cases hop
    | flushAll => exact hreturns _
    | flushEntry va => exact hreturns _
    | flushAsid asid => exact hreturns _
  exact (hop_returns.and_ensures (Op.flush_ensures hop)).mono fun _ s' hs' => hs'.2

/-- In an open session every flush does what it is for. -/
theorem Op.flush_returns {size set : ℕ} (hready : Ready s size set) (hstarted : s.started = true)
    {op : Op α} (hop : op.isFlush = true) :
    Returns op.run s fun _ s' =>
      s' = { s with slTlb := flushMatching op.clears s.geometry.entries s.slTlb } := by
  apply (Op.flush_returns_stepped hready hop).mono
  intro _ s' hstep
  cases hstep with
  | refmem => cases hop
  | flush _ _ => rfl
  | idle _ hidle =>
      rw [hstarted] at hidle
      cases hidle

/-! ## Ending a session -/

theorem writeBuffer_returns_iff {n : ℕ} {words : ℕ → BitVec 32} {post : Unit → Globals α → Prop}
    (hfbuf : s.fbuf = .live words) :
    Returns (writeBuffer n) s post ↔
      post () (s.appendFile (((List.range n).map words).flatMap wordBytes)) := by
  have hrun : (writeBuffer n).run s =
      .ok ((), s.appendFile (((List.range n).map words).flatMap wordBytes)) := by
    show writeBuffer n s = _
    rw [writeBuffer, hfbuf]
  exact Returns.iff_of_run hrun

theorem freeBuffer_returns_iff {words : ℕ → BitVec 32} {post : Unit → Globals α → Prop}
    (hfbuf : s.fbuf = .live words) :
    Returns freeBuffer s post ↔ post () { s with fbuf := .freed } := by
  have hrun : freeBuffer.run s = .ok ((), { s with fbuf := .freed }) := by
    show freeBuffer s = _
    rw [freeBuffer, hfbuf]
  exact Returns.iff_of_run hrun

/-- The globals `tlbtrace_stop` leaves. -/
def Globals.closed (s : Globals α) (words : ℕ → BitVec 32) : Globals α :=
  let s' := if s.fbc > 0 then
      s.appendFile (((List.range s.fbc).map words).flatMap wordBytes) else s
  { s' with fbuf := .freed, fout := none }

theorem tlbtraceStop_returns {words : ℕ → BitVec 32} (hfbuf : s.fbuf = .live words) :
    Returns tlbtraceStop s fun _ s' => s' = s.closed words := by
  have happend : ∀ bytes, (s.appendFile bytes).fbuf = .live words := by simpa using hfbuf
  rw [tlbtraceStop, Returns.bind_iff, Returns.get_iff, Globals.closed]
  by_cases hfbc : s.fbc > 0
  · simp only [if_pos hfbc, Returns.bind_iff, Returns.modify_iff, writeBuffer_returns_iff hfbuf,
      freeBuffer_returns_iff (happend _)]
  · simp only [if_neg hfbc, Returns.bind_iff, Returns.modify_iff,
      freeBuffer_returns_iff hfbuf]

/-- At the limit an open session is closed and the process exits. -/
theorem checkLimit_exit {words : ℕ → BitVec 32} (hfbuf : s.fbuf = .live words)
    (hlimit : refLimit ≤ s.systs) : checkLimit.run s = .error (.exit (s.closed words)) := by
  obtain ⟨_, s', hrun, rfl⟩ := tlbtraceStop_returns hfbuf
  simp only [checkLimit, StateT.run_bind, StateT.run_get, pure_bind, if_pos hlimit, hrun]
  rfl

/-! ## A small session -/

/-- A tracer that was just initialised and is being switched on, with a helper
that reports a complete walk. -/
def sampleTracer (size set : ℕ) : Globals Unit :=
  { Globals.initial fun _ addr => ⟨3#32, 0x02004000#32, 0x02008040#32, addr⟩ with
    geometry := .ofSizeWay size set
    tlbSet := set
    slTlb := fun _ => ⟨0xA5A5A5A5#32, 0xA5A5A5A5#32, 0xA5A5A5A5⟩
    slCap := size
    started := true }

/-- A morning in March. -/
def sampleTm : Tm := ⟨2, 14, 9, 26⟩

/-- A page of each set is fetched, one is flushed and fetched again. -/
def sampleOps : List (Op Unit) :=
  [.refmem 0x0123#32 7#32 true (), .refmem 0x1000#32 7#32 true (), .flushEntry 0x1007#64,
    .refmem 0x1FFC#32 7#32 false ()]

end TlbAnalyzer.Tracer
