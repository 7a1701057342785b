/-
# Which data references reach the tracer

The tracer is called in two places: at the start of the helpers `__ld` and `__st`, and
on the matching branch of the C accessors. Everything else the access path does leaves
its log alone, whether the access completes or not, so that every access through a
helper or an accessor passes exactly its own address. Two kinds of references are lost
by that. The code that the backend emits has no call on its matching branch, and a
split access passes its first page only.

Beside the calls of the tracer the lemmas on the helpers follow the 4 KB pages that an
access touches. Loads are split into two aligned loads and stores into single bytes;
either way the pages are those of the bytes of the access.
-/

import Mathlib.Data.Finset.Insert
import TlbAnalyzer.Math.Contracts
import TlbAnalyzer.Emulator.Softmmu

namespace TlbAnalyzer.Emulator

open Math

variable {D : Type}

/-! ## Pages of an access -/

/-- The 4 KB page of an address. -/
def page (addr : BitVec 32) : BitVec 32 := addr >>> 12

/-- The addresses of the bytes of an access. -/
def bytesOf (addr : BitVec 32) (size : ℕ) : List (BitVec 32) :=
  (List.range size).map fun i => addr + BitVec.ofNat 32 i

/-- The 4 KB pages of a list of addresses. -/
def pages (addrs : List (BitVec 32)) : Finset (BitVec 32) := (addrs.map page).toFinset

section Pages

variable {addr : BitVec 32} {suffix : Suffix}

theorem mem_pages_iff {addrs : List (BitVec 32)} {p : BitVec 32} :
    p ∈ pages addrs ↔ ∃ a ∈ addrs, page a = p := by
  rw [pages, List.mem_toFinset, List.mem_map]

theorem pages_append (addrs addrs' : List (BitVec 32)) :
    pages (addrs ++ addrs') = pages addrs ∪ pages addrs' := by
  rw [pages, List.map_append, List.toFinset_append]
  rfl

theorem mem_bytesOf_iff {size : ℕ} {a : BitVec 32} :
    a ∈ bytesOf addr size ↔ ∃ i < size, addr + BitVec.ofNat 32 i = a := by
  simp only [bytesOf, List.mem_map, List.mem_range]

theorem bytesOf_one (addr : BitVec 32) : bytesOf addr 1 = [addr] :=
  congrArg (fun a => [a]) (BitVec.add_zero addr)

theorem page_eq_page_iff {a a' : BitVec 32} :
    page a = page a' ↔ a.toNat / 4096 = a'.toNat / 4096 := by
  rw [← BitVec.toNat_inj, page, page, BitVec.toNat_ushiftRight, BitVec.toNat_ushiftRight,
    Nat.shiftRight_eq_div_pow, Nat.shiftRight_eq_div_pow]

theorem toNat_add_ofNat (addr : BitVec 32) (i : ℕ) :
    (addr + BitVec.ofNat 32 i).toNat = (addr.toNat + i) % 2 ^ 32 := by
  rw [BitVec.toNat_add, BitVec.toNat_ofNat, Nat.add_mod_mod]

/-- An access that is no longer than a page is on the pages of its first and its last
byte. -/
theorem pages_bytesOf {size : ℕ} (hpos : 0 < size) (hle : size ≤ 4096) :
    pages (bytesOf addr size) = {page addr, page (addr + BitVec.ofNat 32 (size - 1))} := by
  ext p
  rw [mem_pages_iff, Finset.mem_insert, Finset.mem_singleton]
  constructor
  · intro ⟨a, ha, hp⟩
    rcases mem_bytesOf_iff.mp ha with ⟨i, hi, rfl⟩
    rw [← hp, page_eq_page_iff, page_eq_page_iff, toNat_add_ofNat, toNat_add_ofNat]
    have hlt := addr.isLt
    omega
  · intro h
    rcases h with rfl | rfl
    · exact ⟨addr, mem_bytesOf_iff.mpr ⟨0, hpos, BitVec.add_zero addr⟩, rfl⟩
    · exact ⟨_, mem_bytesOf_iff.mpr ⟨size - 1, Nat.sub_one_lt_of_lt hpos, rfl⟩, rfl⟩

/-- The first page is the only one exactly when the access ends before the next. -/
theorem singleton_page_eq_iff {size : ℕ} (hpos : 0 < size) (hle : size ≤ 4096) :
    pages [addr] = pages (bytesOf addr size) ↔ addr.toNat % 4096 + size ≤ 4096 := by
  have hone : pages [addr] = {page addr} := rfl
  have hsame : page (addr + BitVec.ofNat 32 (size - 1)) = page addr ↔
      addr.toNat % 4096 + size ≤ 4096 := by
    rw [page_eq_page_iff, toNat_add_ofNat]
    have hlt := addr.isLt
    omega
  rw [hone, pages_bytesOf hpos hle, ← hsame]
  constructor
  · intro h
    have hlast : page (addr + BitVec.ofNat 32 (size - 1)) ∈ ({page addr} : Finset (BitVec 32)) := by
      rw [h]
      exact Finset.mem_insert_of_mem (Finset.mem_singleton_self _)
    exact Finset.mem_singleton.mp hlast
  · intro h
    rw [h, Finset.pair_eq_singleton]

/-! ## Aligned parts of an access -/

/-- A word is the part under a mask and the rest. -/
theorem and_not_add_and (x mask : BitVec 32) : (x &&& ~~~mask) + (x &&& mask) = x := by
  have hdisjoint : (x &&& ~~~mask) &&& (x &&& mask) = 0#32 := by
    ext i hi
    simp only [BitVec.getElem_and, BitVec.getElem_not, BitVec.getElem_zero]
    cases x[i] <;> cases mask[i] <;> rfl
  rw [BitVec.add_eq_or_of_and_eq_zero _ _ hdisjoint]
  ext i hi
  simp only [BitVec.getElem_or, BitVec.getElem_and, BitVec.getElem_not]
  cases x[i] <;> cases mask[i] <;> rfl

theorem Suffix.dataSize_cases (suffix : Suffix) :
    suffix.dataSize = 1 ∨ suffix.dataSize = 2 ∨ suffix.dataSize = 4 ∨ suffix.dataSize = 8 := by
  cases suffix <;> decide

theorem Suffix.dataSize_pos (suffix : Suffix) : 0 < suffix.dataSize := by
  cases suffix <;> decide

theorem Suffix.dataSize_le (suffix : Suffix) : suffix.dataSize ≤ 4096 := by
  cases suffix <;> decide

theorem toNat_and_sizeMask (addr : BitVec 32) (suffix : Suffix) :
    (addr &&& suffix.sizeMask).toNat = addr.toNat % suffix.dataSize := by
  have hmask : suffix.sizeMask.toNat = 2 ^ suffix.shift - 1 := by
    cases suffix <;> rfl
  rw [BitVec.toNat_and, hmask, Nat.and_two_pow_sub_one_eq_mod, Suffix.dataSize, Nat.one_shiftLeft]

theorem unaligned_iff : unaligned suffix addr = true ↔ addr.toNat % suffix.dataSize ≠ 0 := by
  rw [unaligned, decide_eq_true_iff, ← toNat_and_sizeMask, ne_eq, ← BitVec.toNat_inj]
  rfl

theorem toNat_and_not_sizeMask (addr : BitVec 32) (suffix : Suffix) :
    (addr &&& ~~~suffix.sizeMask).toNat = addr.toNat - addr.toNat % suffix.dataSize := by
  have hsum := congrArg BitVec.toNat (and_not_add_and addr suffix.sizeMask)
  rw [BitVec.toNat_add, toNat_and_sizeMask] at hsum
  have hle : (addr &&& ~~~suffix.sizeMask).toNat ≤ addr.toNat := by
    rw [BitVec.toNat_and]
    exact Nat.and_le_left
  have hmod := Nat.mod_le addr.toNat suffix.dataSize
  have hlt := addr.isLt
  omega

/-- An access that reaches into the next page is not aligned. -/
theorem unaligned_of_spansPages (h : spansPages suffix addr = true) :
    unaligned suffix addr = true := by
  have hmask : ~~~targetPageMask = BitVec.ofNat 32 (2 ^ 10 - 1) := by decide
  have hoffset : (addr &&& ~~~targetPageMask).toNat = addr.toNat % 1024 := by
    rw [hmask, BitVec.toNat_and]
    exact Nat.and_two_pow_sub_one_eq_mod addr.toNat 10
  have hsize : targetPageSize.toNat = 1024 := by decide
  rw [spansPages, decide_eq_true_iff, ge_iff_le, BitVec.le_def, BitVec.toNat_sub, BitVec.toNat_add,
    hoffset, hsize, BitVec.toNat_ofNat, BitVec.toNat_ofNat] at h
  rw [unaligned_iff]
  rcases suffix.dataSize_cases with hn | hn | hn | hn <;> rw [hn] at h ⊢ <;> omega

/-- The two loads of a split access are on the pages of the access. -/
theorem pages_split (h : unaligned suffix addr = true) :
    pages (bytesOf (addr &&& ~~~suffix.sizeMask) suffix.dataSize) ∪
        pages (bytesOf ((addr &&& ~~~suffix.sizeMask) + BitVec.ofNat 32 suffix.dataSize)
          suffix.dataSize) =
      pages (bytesOf addr suffix.dataSize) := by
  rw [unaligned_iff] at h
  have hfirst := toNat_and_not_sizeMask addr suffix
  have hlt := addr.isLt
  generalize addr &&& ~~~suffix.sizeMask = addr1 at hfirst ⊢
  have hpos := suffix.dataSize_pos
  have hle := suffix.dataSize_le
  -- an aligned load is on one page, and each of the two is on that of one end of the access
  have hpages : page (addr1 + BitVec.ofNat 32 (suffix.dataSize - 1)) = page addr1 ∧
      page (addr1 + BitVec.ofNat 32 suffix.dataSize + BitVec.ofNat 32 (suffix.dataSize - 1)) =
        page (addr1 + BitVec.ofNat 32 suffix.dataSize) ∧
      page addr1 = page addr ∧
      page (addr1 + BitVec.ofNat 32 suffix.dataSize) =
        page (addr + BitVec.ofNat 32 (suffix.dataSize - 1)) := by
    simp only [page_eq_page_iff, toNat_add_ofNat]
    rcases suffix.dataSize_cases with hn | hn | hn | hn <;> rw [hn] at h hfirst ⊢ <;> omega
  rw [pages_bytesOf hpos hle, pages_bytesOf hpos hle, pages_bytesOf hpos hle, hpages.1, hpages.2.1,
    hpages.2.2.1, hpages.2.2.2, Finset.pair_eq_singleton, Finset.pair_eq_singleton]
  rfl

/-- The single bytes of a split store, from the last to the first. -/
theorem pages_reverse_bytes (addr : BitVec 32) (size : ℕ) :
    pages ((List.range size).reverse.map fun i => addr + BitVec.ofNat 32 i) =
      pages (bytesOf addr size) := by
  rw [List.map_reverse, pages, List.map_reverse, List.toFinset_reverse]
  rfl

end Pages

/-! ## What a program touches -/

/-- The 4 KB pages of the bytes that a run has loaded or stored. -/
def Execution.accessedPages (s : Execution D) : Finset (BitVec 32) :=
  pages (s.accesses.flatMap fun access => bytesOf access.1 access.2)

/-- What a run has logged. -/
def Execution.logs (s : Execution D) : List (BitVec 32) × List (BitVec 32 × ℕ) :=
  (s.refmems, s.accesses)

/-- The program does not call the tracer, however it ends. -/
abbrev Untraced {α : Type} (program : SoftmmuM D α) : Prop :=
  Leaves Stop.final Execution.refmems program

/-- The program logs nothing, however it ends. -/
abbrev Unlogged {α : Type} (program : SoftmmuM D α) : Prop :=
  Leaves Stop.final Execution.logs program

/-- The program does not call the tracer, and when it completes it has touched these
pages. -/
structure Touches {α : Type} (program : SoftmmuM D α) (touched : Finset (BitVec 32)) : Prop where
  untraced : Untraced program
  accessed : ∀ s, Ensures program s fun _ s' => s'.accessedPages = s.accessedPages ∪ touched

theorem Unlogged.untraced {α : Type} {program : SoftmmuM D α} (h : Unlogged program) :
    Untraced program :=
  fun s => congrArg Prod.fst (h s)

namespace Touches

variable {α β : Type} {program : SoftmmuM D α} {next : α → SoftmmuM D β}
  {touched touched' : Finset (BitVec 32)}

theorem of_unlogged (h : Unlogged program) : Touches program ∅ where
  untraced := h.untraced
  accessed := by
    intro s
    refine (h.ensures s).mono fun _ s' hlogs => ?_
    have haccesses : s'.accesses = s.accesses := congrArg Prod.snd hlogs
    rw [Finset.union_empty, Execution.accessedPages, haccesses]
    rfl

theorem bind (h : Touches program touched) (hnext : ∀ value, Touches (next value) touched') :
    Touches (program >>= next) (touched ∪ touched') where
  untraced := h.untraced.bind fun value => (hnext value).untraced
  accessed := by
    intro s
    rw [Ensures.bind_iff]
    refine (h.accessed s).mono fun value middle hmiddle => ?_
    refine ((hnext value).accessed middle).mono fun _ s' hfinal => ?_
    rw [hfinal, hmiddle, Finset.union_assoc]

/-- Only the last part accesses memory. -/
theorem bind_last (h : Unlogged program) (hnext : ∀ value, Touches (next value) touched) :
    Touches (program >>= next) touched := by
  rw [← Finset.empty_union touched]
  exact (of_unlogged h).bind hnext

/-- Only the first part accesses memory. -/
theorem bind_first (h : Touches program touched) (hnext : ∀ value, Unlogged (next value)) :
    Touches (program >>= next) touched := by
  rw [← Finset.union_empty touched]
  exact h.bind fun value => of_unlogged (hnext value)

/-- A loop that touches one address in each pass. -/
theorem forM {ι : Type} {body : ι → SoftmmuM D PUnit} {touch : ι → BitVec 32}
    (h : ∀ item, Touches (body item) (pages [touch item])) (items : List ι) :
    Touches (items.forM body) (pages (items.map touch)) := by
  induction items with
  | nil => exact of_unlogged (Leaves.pure _)
  | cons item items ih =>
      have hcons :
          pages ((item :: items).map touch) = pages [touch item] ∪ pages (items.map touch) :=
        pages_append [touch item] (items.map touch)
      rw [hcons]
      exact (h item).bind fun _ => ih

end Touches

theorem stop_unlogged {α : Type} (reason : StopReason) : Unlogged (stop reason : SoftmmuM D α) :=
  fun _ => rfl

theorem stop_touches {α : Type} (reason : StopReason) (touched : Finset (BitVec 32)) :
    Touches (stop reason : SoftmmuM D α) touched where
  untraced := fun _ => rfl
  accessed := by
    intro s result s' hrun
    cases hrun

theorem call_unlogged {α : Type} (callback : Callback D α) : Unlogged (call callback) := by
  intro s
  show Execution.logs (finalState Stop.final (call callback s)) = s.logs
  unfold call
  rcases callback s.env with ⟨result, env⟩
  cases result with
  | none => rfl
  | some result => rfl

theorem accessed_touches (addr : BitVec 32) (suffix : Suffix) :
    Touches (accessed addr suffix : SoftmmuM D Unit) (pages (bytesOf addr suffix.dataSize)) where
  untraced := Leaves.modify fun _ => rfl
  accessed := by
    intro s
    show Ensures (modify _) s _
    rw [Ensures.modify_iff, Execution.accessedPages, List.flatMap_append, pages_append,
      List.flatMap_singleton]
    rfl

/-! ## Memory and devices -/

theorem ldRaw_touches (suffix : Suffix) (addr : BitVec 32) (base : BitVec 64) :
    Touches (ldRaw suffix addr base : SoftmmuM D suffix.DataType)
      (pages (bytesOf addr suffix.dataSize)) := by
  apply (accessed_touches addr suffix).bind_first
  intro _
  exact Leaves.get.bind fun _ => Leaves.pure _

theorem stRaw_touches (suffix : Suffix) (addr : BitVec 32) (base : BitVec 64)
    (val : suffix.DataType) :
    Touches (stRaw suffix addr base val : SoftmmuM D Unit)
      (pages (bytesOf addr suffix.dataSize)) := by
  apply (accessed_touches addr suffix).bind_first
  intro _
  exact Leaves.modify fun _ => rfl

variable (host : Host D)

theorem beginIo_unlogged (index : ℕ) (addr : BitVec 32) : Unlogged (beginIo host index addr) := by
  apply Leaves.bind Leaves.get
  intro s
  split
  · exact stop_unlogged _
  · exact Leaves.modify fun _ => rfl

theorem ioRead_touches (suffix : Suffix) (physaddr addr : BitVec 32) :
    Touches (ioRead host suffix physaddr addr) (pages (bytesOf addr suffix.dataSize)) := by
  apply Touches.bind_last (beginIo_unlogged host _ addr)
  intro _
  apply (accessed_touches addr suffix).bind_first
  intro _
  cases suffix with
  | q => exact (call_unlogged _).bind fun _ => (call_unlogged _).bind fun _ => Leaves.pure _
  | _ => exact (call_unlogged _).bind fun _ => Leaves.pure _

theorem ioWrite_touches (suffix : Suffix) (physaddr : BitVec 32) (val : suffix.DataType)
    (addr : BitVec 32) :
    Touches (ioWrite host suffix physaddr val addr) (pages (bytesOf addr suffix.dataSize)) := by
  apply Touches.bind_last (beginIo_unlogged host _ addr)
  intro _
  apply (accessed_touches addr suffix).bind_first
  intro _
  cases suffix with
  | q => exact (call_unlogged _).bind fun _ => call_unlogged _
  | _ => exact call_unlogged _

theorem invalidateEntries_unlogged (mmuIdx : Fin 2) (index invalidateCache : ℕ) :
    Unlogged (invalidateEntries mmuIdx index invalidateCache : SoftmmuM D Unit) := by
  have hflip : ∀ index, Unlogged
      (modify fun s => { s with env := s.env.flipEntry mmuIdx index } : SoftmmuM D PUnit) :=
    fun _ => Leaves.modify fun _ => rfl
  unfold invalidateEntries
  split
  · apply Leaves.bind (hflip index)
    intro _
    split
    · split
      · exact hflip _
      · exact stop_unlogged _
    · exact Leaves.pure _
  · exact Leaves.pure _

theorem tlbFill_unlogged (addr : BitVec 32) (accessType : AccessType) (mmuIdx : Fin 2) :
    Unlogged (tlbFill host addr accessType mmuIdx) := by
  apply Leaves.bind (call_unlogged _)
  intro ret
  split
  · exact stop_unlogged _
  · exact Leaves.pure _

/-! ## The helpers -/

variable (mmuSuffix : MmuSuffix)

/-- The two ways to the split access are for unaligned addresses. -/
theorem unaligned_of_split {suffix : Suffix} {addr tlbAddr : BitVec 32}
    (hio : ¬ (ioEntry tlbAddr && !unaligned suffix addr) = true)
    (hsplit : (ioEntry tlbAddr || spansPages suffix addr) = true) :
    unaligned suffix addr = true := by
  rcases Bool.or_eq_true_iff.mp hsplit with hentry | hspans
  · simpa [hentry] using hio
  · exact unaligned_of_spansPages hspans

theorem slowLd_touches (suffix : Suffix) (fuel : ℕ) (addr : BitVec 32) (mmuIdx : Fin 2) :
    Touches (slowLd host mmuSuffix suffix fuel addr mmuIdx)
      (pages (bytesOf addr suffix.dataSize)) := by
  induction fuel generalizing addr with
  | zero => exact stop_touches _ _
  | succ fuel ih =>
      apply Touches.bind_last Leaves.get
      intro s
      dsimp only
      split
      · split
        · exact ioRead_touches host suffix _ addr
        · split
          · next hio hsplit =>
            rw [← pages_split (unaligned_of_split hio hsplit)]
            apply (ih _).bind
            intro res1
            apply (ih _).bind_first
            intro res2
            exact Leaves.pure _
          · exact ldRaw_touches suffix addr _
      · apply Touches.bind_last (tlbFill_unlogged host addr _ mmuIdx)
        intro _
        exact ih addr

theorem ldRedo_touches (suffix : Suffix) (addr : BitVec 32) (mmuIdx : Fin 2) (fuel : ℕ) :
    Touches (ldRedo host mmuSuffix suffix addr mmuIdx fuel)
      (pages (bytesOf addr suffix.dataSize)) := by
  induction fuel with
  | zero => exact stop_touches _ _
  | succ fuel ih =>
      have hslow := slowLd_touches host mmuSuffix suffix fuel addr mmuIdx
      have hdone : ∀ (invalidateCache : ℕ) (res : suffix.DataType), Unlogged (do
          invalidateEntries mmuIdx (tlbIndex addr) invalidateCache
          return res : SoftmmuM D suffix.DataType) := by
        intro invalidateCache res
        apply Leaves.bind (invalidateEntries_unlogged mmuIdx _ invalidateCache)
        intro _
        exact Leaves.pure res
      apply Touches.bind_last Leaves.get
      intro s
      dsimp only
      split
      · split
        · split
          · exact hslow
          · exact ioRead_touches host suffix _ addr
        · split
          · exact hslow.bind_first (hdone _)
          · exact (ldRaw_touches suffix addr _).bind_first (hdone _)
      · apply Touches.bind_last (tlbFill_unlogged host addr _ mmuIdx)
        intro _
        exact ih

theorem slowSt_touches (fuel : ℕ) (suffix : Suffix) (addr : BitVec 32) (val : suffix.DataType)
    (mmuIdx : Fin 2) :
    Touches (slowSt host fuel suffix addr val mmuIdx) (pages (bytesOf addr suffix.dataSize)) := by
  induction fuel generalizing suffix addr with
  | zero => exact stop_touches _ _
  | succ fuel ih =>
      apply Touches.bind_last Leaves.get
      intro s
      dsimp only
      split
      · split
        · exact ioWrite_touches host suffix _ val addr
        · split
          · rw [← pages_reverse_bytes]
            apply Touches.forM
            intro i
            rw [← bytesOf_one]
            exact ih .b _ _
          · exact stRaw_touches suffix addr _ val
      · apply Touches.bind_last (tlbFill_unlogged host addr _ mmuIdx)
        intro _
        exact ih suffix addr val

theorem stRedo_touches (suffix : Suffix) (addr : BitVec 32) (val : suffix.DataType)
    (mmuIdx : Fin 2) (fuel : ℕ) :
    Touches (stRedo host mmuSuffix suffix addr val mmuIdx fuel)
      (pages (bytesOf addr suffix.dataSize)) := by
  induction fuel with
  | zero => exact stop_touches _ _
  | succ fuel ih =>
      have hslow := slowSt_touches host fuel suffix addr val mmuIdx
      have hdone : ∀ invalidateCache : ℕ,
          Unlogged (invalidateEntries mmuIdx (tlbIndex addr) invalidateCache : SoftmmuM D Unit) :=
        fun invalidateCache => invalidateEntries_unlogged mmuIdx _ invalidateCache
      apply Touches.bind_last Leaves.get
      intro s
      dsimp only
      split
      · split
        · split
          · exact hslow
          · exact ioWrite_touches host suffix _ val addr
        · split
          · exact hslow.bind_first fun _ => hdone _
          · exact (stRaw_touches suffix addr _ val).bind_first fun _ => hdone _
      · apply Touches.bind_last (tlbFill_unlogged host addr _ mmuIdx)
        intro _
        exact ih

/-! ## References of a whole access -/

/-- The addresses passed to `tlbtrace_refmem_qemu` by a program, however it ends. -/
def traced {α : Type} (program : SoftmmuM D α) (env : Env D) : List (BitVec 32) :=
  (finalState Stop.final (program.run (.start env))).refmems

variable {α β : Type} {program : SoftmmuM D α} {env : Env D} {addr : BitVec 32}

theorem traced_eq_nil (h : Untraced program) : traced program env = [] :=
  h (.start env)

/-- One call at the start. -/
theorem traced_refmemQemu_bind {next : Unit → SoftmmuM D α} (h : Untraced (next ())) :
    traced (refmemQemu addr >>= next) env = [addr] :=
  h ⟨env, [addr], []⟩

/-- What is done with the result of an access does not change its references. -/
theorem traced_bind {next : α → SoftmmuM D β} (h : ∀ value, Untraced (next value)) :
    traced (program >>= next) env = traced program env := by
  unfold traced
  rw [StateT.run_bind]
  cases program.run (.start env) with
  | error failure => rfl
  | ok pair => exact h pair.1 pair.2

/-- A first part that changes nothing. -/
theorem traced_bind_of_run {next : α → SoftmmuM D β} {value : α}
    (h : program.run (.start env) = .ok (value, .start env)) :
    traced (program >>= next) env = traced (next value) env := by
  unfold traced
  rw [StateT.run_bind, h]
  rfl

theorem traced_ldMmu (suffix : Suffix) (fuel : ℕ) (mmuIdx : Fin 2) :
    traced (ldMmu host mmuSuffix suffix fuel addr mmuIdx) env = [addr] :=
  traced_refmemQemu_bind (ldRedo_touches host mmuSuffix suffix addr mmuIdx fuel).untraced

theorem traced_stMmu (suffix : Suffix) (fuel : ℕ) (val : suffix.DataType) (mmuIdx : Fin 2) :
    traced (stMmu host mmuSuffix suffix fuel addr val mmuIdx) env = [addr] :=
  traced_refmemQemu_bind (stRedo_touches host mmuSuffix suffix addr val mmuIdx fuel).untraced

/-- An accessor traces its address on both of its branches. -/
theorem traced_ldData (suffix : Suffix) (fuel : ℕ) (mmuIdx : Fin 2) :
    traced (ldData host mmuSuffix suffix fuel addr mmuIdx) env = [addr] := by
  show traced (if fastPath suffix addr _ then _ else _ : SoftmmuM D suffix.DataType) env = _
  split
  · exact traced_refmemQemu_bind (ldRaw_touches suffix addr _).untraced
  · exact traced_ldMmu host mmuSuffix suffix fuel mmuIdx

theorem traced_st (suffix : Suffix) (fuel : ℕ) (v : BitVec suffix.resBits) (mmuIdx : Fin 2) :
    traced (st host mmuSuffix suffix fuel addr v mmuIdx) env = [addr] := by
  show traced (if fastPath suffix addr _ then _ else _ : SoftmmuM D Unit) env = _
  split
  · exact traced_refmemQemu_bind (stRaw_touches suffix addr _ _).untraced
  · exact traced_stMmu host mmuSuffix suffix fuel _ mmuIdx

/-- The emitted code finds the entry that the C code finds. -/
theorem tlbOffset_div (addr : BitVec 32) :
    ((addr >>> (targetPageBits - cpuTlbEntryBits)) &&&
      ((cpuTlbSize - 1#32) <<< cpuTlbEntryBits)).toNat / 2 ^ cpuTlbEntryBits = tlbIndex addr := by
  have hmask :
      ((cpuTlbSize - 1#32) <<< cpuTlbEntryBits) >>> cpuTlbEntryBits = cpuTlbSize - 1#32 := by
    decide
  rw [← Nat.shiftRight_eq_div_pow, ← BitVec.toNat_ushiftRight, BitVec.ushiftRight_and_distrib,
    ← BitVec.shiftRight_add, hmask]
  rfl

theorem fastPath_iff {suffix : Suffix} {tlbAddr : BitVec 32} :
    fastPath suffix addr tlbAddr = true ↔
      tlbAddr = addr &&& (targetPageMask ||| suffix.sizeMask) :=
  decide_eq_true_iff

/-- The compare of the emitted code. -/
theorem tlbLoad_run (env : Env D) (addr : BitVec 32) (memIndex : Fin 2) (sBits : Suffix)
    (which : AccessType) :
    (tlbLoad addr memIndex sBits which).run (.start env) =
      .ok (if fastPath sBits addr ((env.tlbTable memIndex (tlbIndex addr)).tag which) then
        some (addr.setWidth 64 + (env.tlbTable memIndex (tlbIndex addr)).addend) else none,
        .start env) := by
  rw [← tlbOffset_div addr]
  show StateT.run (if fastPath sBits addr ((env.tlbTable memIndex (_ / _)).tag which) then
    pure (some _) else pure none) _ = _
  split
  · rfl
  · rfl

/-- The emitted code has no call of the tracer of its own, so that an access is traced
where its helper is called. -/
theorem traced_tlbLoad_bind (memIndex : Fin 2) (sBits : Suffix) (which : AccessType)
    {next : Option (BitVec 64) → SoftmmuM D α} (hhit : ∀ r0, Untraced (next (some r0)))
    (hmiss : traced (next none) env = [addr]) :
    traced (tlbLoad addr memIndex sBits which >>= next) env = [addr] ↔
      (env.tlbTable memIndex (tlbIndex addr)).tag which ≠
        addr &&& (targetPageMask ||| sBits.sizeMask) := by
  rw [ne_eq, ← fastPath_iff]
  have hrun := tlbLoad_run env addr memIndex sBits which
  by_cases hfast : fastPath sBits addr ((env.tlbTable memIndex (tlbIndex addr)).tag which) = true
  · rw [if_pos hfast] at hrun
    rw [traced_bind_of_run hrun, traced_eq_nil (hhit _)]
    exact ⟨fun h => absurd h (List.cons_ne_nil addr []).symm, fun h => absurd hfast h⟩
  · rw [if_neg hfast] at hrun
    rw [traced_bind_of_run hrun, hmiss]
    exact ⟨fun _ => hfast, fun _ => rfl⟩

/-- An accessor of C traces its address exactly once in every state. The code emitted
for an access does so if and only if the entry of the address does not match. -/
theorem qemuLd_qemuSt_traced_iff (env : Env D) (fuel : ℕ) (addr : BitVec 32) (memIndex : Fin 2) :
    (∀ opc : LoadOpc, traced (qemuLd host opc fuel addr memIndex) env = [addr] ↔
      (env.tlbTable memIndex (tlbIndex addr)).addrRead ≠
        addr &&& (targetPageMask ||| opc.sBits.sizeMask)) ∧
    (∀ (opc : Suffix) (dataReg : BitVec 64),
      traced (qemuSt host opc fuel addr dataReg memIndex) env = [addr] ↔
        (env.tlbTable memIndex (tlbIndex addr)).addrWrite ≠
          addr &&& (targetPageMask ||| opc.sizeMask)) ∧
    ∀ (mmuSuffix : MmuSuffix) (suffix : Suffix),
      traced (ld host mmuSuffix suffix fuel addr memIndex) env = [addr] ∧
      traced (lds host mmuSuffix suffix fuel addr memIndex) env = [addr] ∧
      ∀ v, traced (st host mmuSuffix suffix fuel addr v memIndex) env = [addr] := by
  refine ⟨fun opc => ?_, fun opc dataReg => ?_, fun mmuSuffix suffix => ⟨?_, ?_, fun v => ?_⟩⟩
  · apply traced_tlbLoad_bind memIndex opc.sBits .read
    · intro r0
      exact (ldRaw_touches opc.sBits addr r0).untraced.bind fun _ => Leaves.pure _
    · exact (traced_bind fun _ => Leaves.pure _).trans
        (traced_ldMmu host .mmu opc.sBits fuel memIndex)
  · apply traced_tlbLoad_bind memIndex opc .write
    · intro r0
      exact (stRaw_touches opc addr r0 _).untraced
    · exact traced_stMmu host .mmu opc fuel _ memIndex
  · exact (traced_bind fun _ => Leaves.pure _).trans
      (traced_ldData host mmuSuffix suffix fuel memIndex)
  · exact (traced_bind fun _ => Leaves.pure _).trans
      (traced_ldData host mmuSuffix suffix fuel memIndex)
  · exact traced_st host mmuSuffix suffix fuel v memIndex

/-- A machine without devices, whose page tables map nothing. -/
def bareHost : Host Unit where
  cpuArmHandleMmuFault _ _ _ env := (some true, env)
  ioMemRead _ _ _ env := (none, env)
  ioMemWrite _ _ _ _ env := (none, env)
  canDoIo _ := true
  memcheckInstrumentMmu := false
  memcheckValidateLd _ _ _ := 0
  memcheckValidateSt _ _ _ _ := 0

/-- The first 256 KB of the guest are in `tlb_table`, as memory. -/
def lowMemory : Env Unit where
  tlbTable _ index :=
    let page := BitVec.ofNat 32 (index * 1024)
    ⟨page, page, page, 0x7F0000000000#64⟩
  iotlb _ _ := 0#32
  memIoVaddr := 0#32
  hostMem _ := 0#8
  rest := ()

/-- A word at `0x8000`, in user mode: neither the load nor the store is traced. -/
theorem qemuLd_qemuSt_untraced_lowMemory :
    0x8000#32 &&& Suffix.l.sizeMask = 0#32 ∧
    traced (qemuLd bareHost ⟨.l, false⟩ 1 0x8000#32 1) lowMemory ≠ [0x8000#32] ∧
    traced (qemuSt bareHost .l 1 0x8000#32 0#64 1) lowMemory ≠ [0x8000#32] := by
  decide +kernel

/-! ## Pages that are traced -/

/-- A program that starts with its one call of the tracer traces the first page of what
it touches. -/
theorem refmemQemu_bind_pages {suffix : Suffix}
    (h : Touches program (pages (bytesOf addr suffix.dataSize))) :
    Ensures (do refmemQemu addr; program) (.start env) fun _ s =>
      s.accessedPages = pages (bytesOf addr suffix.dataSize) ∧
      (pages s.refmems = pages (bytesOf addr suffix.dataSize) ↔
        addr.toNat % 4096 + suffix.dataSize ≤ 4096) := by
  intro result s hrun
  have hfinal : traced (do refmemQemu addr; program) env = s.refmems :=
    congrArg (fun outcome => (finalState Stop.final outcome).refmems) hrun
  rw [← hfinal, traced_refmemQemu_bind h.untraced]
  have haccessed := h.accessed ⟨env, [addr], []⟩ result s hrun
  exact ⟨haccessed.trans (Finset.empty_union _),
    singleton_page_eq_iff suffix.dataSize_pos suffix.dataSize_le⟩

/-- When a helper completes, it has touched the 4 KB pages of the bytes of its access, and
the pages it has traced are the same if and only if the access ends on the page it
starts on. -/
theorem ldMmu_stMmu_pages_iff (env : Env D) (suffix : Suffix) (fuel : ℕ) (addr : BitVec 32)
    (mmuIdx : Fin 2) :
    (∀ res s, (ldMmu host mmuSuffix suffix fuel addr mmuIdx).run (.start env) = .ok (res, s) →
      s.accessedPages = pages (bytesOf addr suffix.dataSize) ∧
      (pages s.refmems = pages (bytesOf addr suffix.dataSize) ↔
        addr.toNat % 4096 + suffix.dataSize ≤ 4096)) ∧
    ∀ val s, (stMmu host mmuSuffix suffix fuel addr val mmuIdx).run (.start env) = .ok ((), s) →
      s.accessedPages = pages (bytesOf addr suffix.dataSize) ∧
      (pages s.refmems = pages (bytesOf addr suffix.dataSize) ↔
        addr.toNat % 4096 + suffix.dataSize ≤ 4096) := by
  constructor
  · exact refmemQemu_bind_pages (ldRedo_touches host mmuSuffix suffix addr mmuIdx fuel)
  · intro val
    exact refmemQemu_bind_pages (stRedo_touches host mmuSuffix suffix addr val mmuIdx fuel) ()

/-- A word across two pages of the emulator's TLB and one of the guest: the load is split,
and its page is traced. -/
theorem ldMmu_stMmu_pages_iff_lowMemory :
    (Returns (ldMmu bareHost .mmu .l 3 0x83FE#32 1) (.start lowMemory) fun _ s =>
      pages s.refmems = pages (bytesOf 0x83FE#32 4)) ∧
    Returns (stMmu bareHost .mmu .l 3 0x83FE#32 0#32 1) (.start lowMemory) fun _ s =>
      pages s.refmems = pages (bytesOf 0x83FE#32 4) := by
  have hpages := ldMmu_stMmu_pages_iff bareHost .mmu lowMemory .l 3 0x83FE#32 1
  have hfits : (0x83FE#32).toNat % 4096 + Suffix.l.dataSize ≤ 4096 := by decide
  have hload : Returns (ldMmu bareHost .mmu .l 3 0x83FE#32 1) (.start lowMemory)
      fun _ _ => True := by
    decide +kernel
  have hstore : Returns (stMmu bareHost .mmu .l 3 0x83FE#32 0#32 1) (.start lowMemory)
      fun _ _ => True := by
    decide +kernel
  rcases hload with ⟨res, s, hload, -⟩
  rcases hstore with ⟨_, s', hstore, -⟩
  exact ⟨⟨res, s, hload, (hpages.1 res s hload).2.mpr hfits⟩,
    ⟨(), s', hstore, (hpages.2 0#32 s' hstore).2.mpr hfits⟩⟩

/-- A word across two pages of the guest, all of it in memory: the second page is not
traced. -/
theorem ldMmu_stMmu_pages_ne_lowMemory :
    (Returns (ldMmu bareHost .mmu .l 3 0x8FFE#32 1) (.start lowMemory) fun _ s =>
      s.accessedPages = pages (bytesOf 0x8FFE#32 4) ∧
      pages s.refmems ≠ pages (bytesOf 0x8FFE#32 4)) ∧
    Returns (stMmu bareHost .mmu .l 3 0x8FFE#32 0#32 1) (.start lowMemory) fun _ s =>
      s.accessedPages = pages (bytesOf 0x8FFE#32 4) ∧
      pages s.refmems ≠ pages (bytesOf 0x8FFE#32 4) := by
  decide +kernel

end TlbAnalyzer.Emulator
