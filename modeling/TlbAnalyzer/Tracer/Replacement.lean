/-
# One set is a least recently used cache

With one set the tracer's table should be the textbook cache: a list of the translations in
the order of their last reference, from which references push out the last one and flushes
take out the ones they name. The table has no list, and two things in the code could come
between it and the reference model. An instruction fetch that repeats the last one skips the
search. And a flush leaves holes with stamp 0, which the next misses fill, wherever they are.

As long as stamps are times, neither makes a difference. What the trace file contains can
then be said without the table.
-/

import TlbAnalyzer.Math.Invalidation
import TlbAnalyzer.Tracer.Completeness

namespace TlbAnalyzer.Tracer

open Cache Math TraceFile
open Recency (Act)

variable {α : Type} {s s' : Globals α} {size : ℕ}

/-! ## The reference model -/

/-- What an operation does to a list of translations. -/
def Op.act : Op α → Act (BitVec 32 × BitVec 32)
  | .refmem addr asid _ _ => .use (pageOf addr, asid)
  | .flushAll => .drop fun _ => true
  | .flushEntry v => .drop fun key => Op.Invalidates (.flushEntry v : Op α) key.1 key.2
  | .flushAsid a => .drop fun key => Op.Invalidates (.flushAsid a : Op α) key.1 key.2

theorem Op.act_of_isFlush {op : Op α} (hop : op.isFlush = true) :
    op.act = .drop fun key => op.Invalidates key.1 key.2 := by
  cases op with
  | refmem addr asid ins arg => cases hop
  | flushAll =>
      have htrue : (fun key : BitVec 32 × BitVec 32 =>
          decide (Op.Invalidates (.flushAll : Op α) key.1 key.2)) = fun _ => true := by
        funext key
        exact decide_eq_true trivial
      rw [htrue, Op.act]
  | flushEntry v => rfl
  | flushAsid a => rfl

/-- The translation of an entry that is not flushed. -/
def held (e : TlbEntry) : Option (BitVec 32 × BitVec 32) :=
  if e.va = 0xFFFFFFFF#32 then none else some (translation e)

theorem held_eq_some_iff {addr asid : BitVec 32} (haddr : addr.toNat % 4096 = 0) {e : TlbEntry} :
    held e = some (addr, asid) ↔ test addr asid e = true := by
  rw [test_iff, held]
  by_cases hva : e.va = 0xFFFFFFFF#32
  · simp [hva, (ne_of_aligned haddr).symm]
  · simp [hva, translation]

theorem held_stamped {addr : BitVec 32} (haddr : addr.toNat % 4096 = 0) (asid : BitVec 32)
    (ts : ℕ) : held ⟨addr, asid, ts⟩ = some (addr, asid) :=
  (held_eq_some_iff haddr).mpr (test_iff.mpr ⟨rfl, rfl⟩)

/-! ## The table stands for a list -/

/-- The table stands for the list of translations, and no stamp is ahead of the clock. -/
structure Lists (s : Globals α) (size : ℕ) (keys : List (BitVec 32 × BitVec 32)) : Prop where
  bounded : ∀ i < size, (s.slTlb i).ts ≤ s.systs
  stands : ∃ order,
    StampedSlots (Finset.range size) (fun i => held (s.slTlb i)) (fun i => (s.slTlb i).ts) order ∧
      order.filterMap (fun i => held (s.slTlb i)) = keys

namespace Lists

variable {keys : List (BitVec 32 × BitVec 32)}

theorem opened (hready : Ready s size size) (tm : Tm) (fresh : ℕ → BitVec 32) :
    Lists (s.opened tm fresh) size [] := by
  have hflushed : ∀ i < size, (s.opened tm fresh).slTlb i = flushedEntry := by
    intro i hi
    exact Globals.opened_slTlb tm fresh (hready.entries_eq ▸ hi)
  refine ⟨?_, [], StampedSlots.of_empty ?_ ?_, rfl⟩
  · intro i hi
    rw [hflushed i hi]
    exact Nat.zero_le _
  · intro i hi
    rw [hflushed i (Finset.mem_range.mp hi)]
    rfl
  · intro i hi
    rw [hflushed i (Finset.mem_range.mp hi)]
    rfl

/-- A translation is in the list exactly when an entry matches. -/
theorem mem_iff (h : Lists s size keys) {addr asid : BitVec 32} (haddr : addr.toNat % 4096 = 0) :
    (addr, asid) ∈ keys ↔ ∃ i < size, test addr asid (s.slTlb i) = true := by
  rcases h.stands with ⟨order, hslots, rfl⟩
  rw [hslots.mem_keys_iff]
  simp only [held_eq_some_iff haddr, Finset.mem_range]

/-- Stamping one slot for a translation is one `touch`, if the slot holds it or if no slot
does and this one is the oldest. -/
theorem stamped (h : Lists s size keys) {addr asid : BitVec 32} (haddr : addr.toNat % 4096 = 0)
    (hclock : s.systs + 1 < 2 ^ 32) {i : ℕ} (hi : i < size) (hsysts : s'.systs = s.systs + 1)
    (htlb : s'.slTlb = Function.update s.slTlb i ⟨addr, asid, stampOf (s.systs + 1)⟩)
    (hcase : held (s.slTlb i) = some (addr, asid) ∨
      (∀ j < size, held (s.slTlb j) ≠ some (addr, asid)) ∧
        ∀ j < size, (s.slTlb i).ts ≤ (s.slTlb j).ts) :
    Lists s' size (Recency.touch size (addr, asid) keys) := by
  rcases h.stands with ⟨order, hslots, rfl⟩
  have hmem : i ∈ Finset.range size := Finset.mem_range.mpr hi
  have hcard : (Finset.range size).card = size := Finset.card_range size
  have hcell : (fun j => held (s'.slTlb j)) =
      Function.update (fun j => held (s.slTlb j)) i (some (addr, asid)) := by
    rw [htlb, ← held_stamped haddr asid (stampOf (s.systs + 1))]
    exact Function.comp_update held s.slTlb i _
  have hstamp : (fun j => (s'.slTlb j).ts) =
      Function.update (fun j => (s.slTlb j).ts) i (s.systs + 1) := by
    rw [htlb]
    nth_rewrite 2 [← stampOf_of_lt hclock]
    exact Function.comp_update TlbEntry.ts s.slTlb i _
  have hnow : ∀ j ∈ Finset.range size, (s.slTlb j).ts < s.systs + 1 := fun j hj =>
    Nat.lt_succ_of_le (h.bounded j (Finset.mem_range.mp hj))
  have hbounded : ∀ j < size, (s'.slTlb j).ts ≤ s'.systs := by
    intro j hj
    rw [hsysts, show (s'.slTlb j).ts = _ from congrFun hstamp j]
    by_cases hji : j = i
    · rw [hji, Function.update_self]
    · rw [Function.update_of_ne hji]
      exact Nat.le_succ_of_le (h.bounded j hj)
  refine ⟨hbounded, i :: order.erase i, ?_, ?_⟩
  · rw [hcell, hstamp]
    refine hslots.write hmem (fun j hj hkey => ?_) hnow
    rcases hcase with hhit | ⟨habsent, -⟩
    · exact hslots.unique j hj i hmem _ hkey hhit
    · exact absurd hkey (habsent j (Finset.mem_range.mp hj))
  · rw [hcell]
    rcases hcase with hhit | ⟨habsent, holdest⟩
    · rw [hslots.keys_of_hit hmem hhit hnow, hcard]
    · rw [hslots.keys_of_refill hmem (fun j hj => holdest j (Finset.mem_range.mp hj))
        (fun j hj => habsent j (Finset.mem_range.mp hj)) hnow, hcard]

/-- A reference hits exactly when its translation is in the list, and uses it. -/
theorem referenced (hsize : 1 ≤ size) (hready : Ready s size size) (h : Lists s size keys)
    (hclock : s.systs + 1 < 2 ^ 32) {addr asid : BitVec 32} {ins hit : Bool}
    (haddr : addr.toNat % 4096 = 0) (href : Referenced s addr asid ins hit s') :
    (!hit) = (Act.use (addr, asid)).missesIn keys ∧
      Lists s' size (Recency.touch size (addr, asid) keys) := by
  have hcap := hready.slCap_eq
  have hsysts := href.systs_eq
  have hrestamp : ∀ i, test addr asid (s.slTlb i) = true →
      { s.slTlb i with ts := stampOf (s.systs + 1) } = ⟨addr, asid, stampOf (s.systs + 1)⟩ := by
    intro i htest
    rcases test_iff.mp htest with ⟨hva, hasid⟩
    simp only [hva, hasid]
  have hfound : ∀ i < size, test addr asid (s.slTlb i) = true →
      (!true) = (Act.use (addr, asid)).missesIn keys := by
    intro i hi htest
    have hmem : (addr, asid) ∈ keys := (h.mem_iff haddr).mpr ⟨i, hi, htest⟩
    simp [Act.missesIn, hmem]
  cases href with
  | fast hins hidx htest =>
      have hlt : s.lastInsIdx < size := hcap ▸ hidx
      refine ⟨hfound _ hlt htest, h.stamped haddr hclock hlt hsysts ?_ ?_⟩
      · rw [Globals.use_slTlb, hrestamp _ htest]
      · exact Or.inl ((held_eq_some_iff haddr).mpr htest)
  | hit i hmem htest =>
      have hlt : i < size := (hready.mem_slots hsize _).mp hmem
      refine ⟨hfound i hlt htest, h.stamped haddr hclock hlt hsysts ?_ ?_⟩
      · rw [Globals.fetched_slTlb, Globals.use_slTlb, hrestamp _ htest]
      · exact Or.inl ((held_eq_some_iff haddr).mpr htest)
  | miss mi hsearched =>
      have hnone : ∀ j < size, test addr asid (s.slTlb j) = false := fun j hj =>
        hsearched.forall_of_miss j ((hready.mem_slots hsize _).mpr hj)
      rcases Geometry.victim_mem_slots hsearched
        (Geometry.scansOldest_of_miss hsearched (hready.seated hsize addr asid)) with ⟨hmem, hleast⟩
      refine ⟨?_, h.stamped haddr hclock ((hready.mem_slots hsize _).mp hmem) hsysts ?_ ?_⟩
      · have habsent : (addr, asid) ∉ keys := by
          rw [h.mem_iff haddr]
          intro hex
          rcases hex with ⟨j, hj, htest⟩
          rw [hnone j hj] at htest
          cases htest
        simp [Act.missesIn, habsent]
      · rw [Globals.fetched_slTlb, Globals.use_slTlb]
      · refine Or.inr ⟨fun j hj hkey => ?_, fun j hj =>
          hleast j ((hready.mem_slots hsize _).mpr hj)⟩
        have htest := (held_eq_some_iff haddr).mp hkey
        rw [hnone j hj] at htest
        cases htest

/-- A flush takes the translations that it invalidates out of the list. -/
theorem flushed (hready : Ready s size size) (h : Lists s size keys) {op : Op α}
    (hop : op.isFlush = true) :
    Lists { s with slTlb := flushMatching op.clears s.geometry.entries s.slTlb } size
      (op.act.on size keys) := by
  rcases h.stands with ⟨order, hslots, rfl⟩
  have hslot : ∀ i < size, flushMatching op.clears s.geometry.entries s.slTlb i =
      if op.clears (s.slTlb i) = true then flushedEntry else s.slTlb i := by
    intro i hi
    rw [flushMatching, hready.entries_eq]
    simp [hi]
  rw [Op.act_of_isFlush hop]
  constructor
  · intro i hi
    show (flushMatching op.clears s.geometry.entries s.slTlb i).ts ≤ s.systs
    rw [hslot i hi]
    split
    · exact Nat.zero_le _
    · exact h.bounded i hi
  · refine ⟨_, hslots.clear (fun key => op.Invalidates key.1 key.2) (fun i hi => ?_) fun i hi => ?_⟩
    · show held (flushMatching op.clears s.geometry.entries s.slTlb i) = _
      rw [hslot i (Finset.mem_range.mp hi)]
      by_cases hva : (s.slTlb i).va = 0xFFFFFFFF#32
      · split <;> simp [held, hva, flushedEntry]
      · by_cases hclears : op.clears (s.slTlb i) = true
        · have hinvalidates := Op.clears_iff.mp hclears
          simp [held, hva, hclears, flushedEntry, translation, Option.filter, hinvalidates]
        · have hinvalidates : ¬ op.Invalidates (s.slTlb i).va (s.slTlb i).asid :=
            fun hinv => hclears (Op.clears_iff.mpr hinv)
          simp [held, hva, hclears, translation, Option.filter, hinvalidates]
    · show (flushMatching op.clears s.geometry.entries s.slTlb i).ts =
        if (held (flushMatching op.clears s.geometry.entries s.slTlb i)).isSome then
          (s.slTlb i).ts else 0
      rw [hslot i (Finset.mem_range.mp hi)]
      by_cases hclears : op.clears (s.slTlb i) = true
      · simp [hclears, held, flushedEntry]
      · by_cases hva : (s.slTlb i).va = 0xFFFFFFFF#32
        · have hnone : held (s.slTlb i) = none := by simp [held, hva]
          have hzero : (s.slTlb i).ts = 0 := (hslots.empty_iff i hi).mpr hnone
          simp [hclears, hnone, hzero]
        · simp [hclears, held, hva]

end Lists

/-! ## Sessions -/

/-- A session in which the operations were performed: as long as stamps are times, the table
stands for the list of the reference model and the recorded references are those that miss
there. -/
structure Follows (s : Globals α) (helper : α → BitVec 32 → PteResult) (name : FileName)
    (size : ℕ) (handled : List (Op α)) (missing : List (Ref α)) : Prop where
  logged : Logged s helper name (references handled).length missing
  started : s.started = true
  lists : (references handled).length < 2 ^ 32 → Lists s size (Recency.resident Op.act size handled)
  misses : (references handled).length < 2 ^ 32 →
    missing.map Ref.op = Recency.misses Op.act size [] handled

namespace Follows

variable {helper : α → BitVec 32 → PteResult} {name : FileName} {handled : List (Op α)}
  {missing : List (Ref α)}

theorem opened (hready : Ready s size size) (hstarted : s.started = true) (tm : Tm)
    (fresh : ℕ → BitVec 32) :
    Follows (s.opened tm fresh) s.myPteHelper (traceName tm s.geometry.entries s.tlbSet) size
      [] [] where
  logged := Logged.opened s tm fresh
  started := hstarted
  lists _ := Lists.opened hready tm fresh
  misses _ := rfl

theorem refmem (hsize : 1 ≤ size) (hrunning : Running s size size)
    (h : Follows s helper name size handled missing) (r : Ref α) :
    Ensures r.run s fun _ s' => Running s' size size ∧
      ∃ missing', Follows s' helper name size (handled ++ [r.op]) missing' := by
  refine (h.logged.referenced hsize (le_refl size) hrunning r).mono fun _ s' hs' => ?_
  rcases hs' with ⟨hrunning', hit, s₁, href, hrec, hlogged⟩
  have hlength : (references (handled ++ [r.op])).length = (references handled).length + 1 := by
    rw [Ref.op, references_append_refmem, List.length_append, List.length_singleton]
  rcases hrec.eq_with with ⟨_, _, _, rfl⟩
  have hstep : (references handled).length + 1 < 2 ^ 32 →
      (!hit) = (Act.use (pageOf r.addr, r.asid)).missesIn (Recency.resident Op.act size handled) ∧
        Lists s₁ size (Recency.touch size (pageOf r.addr, r.asid)
          (Recency.resident Op.act size handled)) := by
    intro hlt
    exact (h.lists (Nat.lt_of_succ_lt hlt)).referenced hsize hrunning.toReady
      (h.logged.systs_eq ▸ hlt) (toNat_pageOf_mod r.addr) href
  refine ⟨hrunning', _, hlength ▸ hlogged, href.started_eq.trans h.started, ?_, ?_⟩
  · intro hlt
    rw [hlength] at hlt
    rw [Recency.resident_append_singleton]
    have hlists := (hstep hlt).2
    exact ⟨hlists.bounded, hlists.stands⟩
  · intro hlt
    rw [hlength] at hlt
    rw [Recency.misses_append_singleton, List.map_append, h.misses (Nat.lt_of_succ_lt hlt),
      (hstep hlt).1, Recency.missed]
    congr 1
    show _ = if (Act.use (pageOf r.addr, r.asid)).missesIn (Recency.resident Op.act size handled)
      then [r.op] else []
    split <;> rfl

theorem flush (hrunning : Running s size size) (h : Follows s helper name size handled missing)
    {op : Op α} (hop : op.isFlush = true) :
    Ensures op.run s fun _ s' => Running s' size size ∧
      Follows s' helper name size (handled ++ [op]) missing := by
  refine (h.logged.flush hrunning h.started hop).ensures.mono fun _ s' hs' => ?_
  rcases hs' with ⟨hrunning', hlogged, rfl⟩
  have hrefs := references_append_flush handled hop
  refine ⟨hrunning', hrefs ▸ hlogged, h.started, ?_, ?_⟩
  · intro hlt
    rw [hrefs] at hlt
    rw [Recency.resident_append_singleton]
    exact (h.lists hlt).flushed hrunning.toReady hop
  · intro hlt
    rw [hrefs] at hlt
    rw [Recency.misses_append_singleton, h.misses hlt, Recency.missed, Op.act_of_isFlush hop]
    exact (List.append_nil _).symm

theorem run (hsize : 1 ≤ size) (hrunning : Running s size size)
    (h : Follows s helper name size [] []) (ops : List (Op α)) :
    Ensures (runOps ops) s fun _ s' => Running s' size size ∧
      ∃ missing', Follows s' helper name size ops missing' := by
  apply Ensures.forM fun handled s' => Running s' size size ∧
    ∃ missing', Follows s' helper name size handled missing'
  · intro handled op s₁ hinv
    rcases hinv with ⟨hrunning₁, missing, h₁⟩
    cases op with
    | refmem addr asid ins arg => exact h₁.refmem hsize hrunning₁ ⟨addr, asid, ins, arg⟩
    | _ => exact (h₁.flush hrunning₁ rfl).mono fun _ s₂ hs₂ => ⟨hs₂.1, missing, hs₂.2⟩
  · exact ⟨hrunning, [], h⟩

end Follows

theorem toggled_follows (hsize : 1 ≤ size) (hready : Ready s size size) (tm : Tm)
    (fresh : ℕ → BitVec 32) (ops : List (Op α)) :
    Ensures (runOps ops) ({ s with started := true }.opened tm fresh) fun _ s' =>
      Running s' size size ∧ ∃ missing, Follows s' s.myPteHelper
        (traceName tm s.geometry.entries s.tlbSet) size ops missing := by
  exact (Follows.opened hready.switchedOn rfl tm fresh).run hsize (hready.toggled tm fresh) ops

/-- The trace file has one record for each reference that misses in the reference model, in
the order of the calls, and no other. -/
def TellsMisses (helper : α → BitVec 32 → PteResult) (name : FileName) (size : ℕ)
    (ops : List (Op α)) (final : Globals α) : Prop :=
  ∃ (bytes : List (BitVec 8)) (missing : List (Ref α)), final.files name = some bytes ∧
    missing.map Ref.op = Recency.misses Op.act size [] ops ∧
    readRecords bytes = missing.map (Ref.record helper)

theorem runOps_tellsMisses (hsize : 1 ≤ size) (hready : Ready s size size) (tm : Tm)
    (fresh : ℕ → BitVec 32) (ops : List (Op α)) (hrefs : (references ops).length < 2 ^ 32) :
    Ensures (runOps ops) ({ s with started := true }.opened tm fresh) fun _ s' =>
      Returns (tlbtraceToggle tm fresh) s' fun _ final =>
        TellsMisses s.myPteHelper (traceName tm size s.tlbSet) size ops final := by
  refine (toggled_follows hsize hready tm fresh ops).mono fun _ s₁ hs₁ => ?_
  rcases hs₁ with ⟨_, missing, h₁⟩
  apply (h₁.logged.closed h₁.started tm fresh).mono
  rintro _ final ⟨bytes, hfile, hrecords⟩
  rw [hready.entries_eq] at hfile
  exact ⟨bytes, missing, hfile, h₁.misses hrefs, hrecords⟩

/-- The trace of a session with one set is the miss stream of a least recently used cache
from which flushes take their entries, for every order of references, instruction fetches
and flushes with fewer than `2 ^ 32` references. -/
theorem toggledSession_tellsMisses (hsize : 1 ≤ size) (hready : Ready s size size)
    (hstarted : s.started = false) (tm : Tm) (fresh : ℕ → BitVec 32) (ops : List (Op α))
    (hrefs : (references ops).length < 2 ^ 32) :
    (Ensures (toggledSession tm fresh ops) s fun _ final =>
      TellsMisses s.myPteHelper (traceName tm size s.tlbSet) size ops final) ∧
      (s.lastInsIdx < size → Returns (toggledSession tm fresh ops) s fun _ final =>
        TellsMisses s.myPteHelper (traceName tm size s.tlbSet) size ops final) := by
  have hlimit : (references ops).length < refLimit := lt_trans hrefs (by decide)
  have hrun := runOps_tellsMisses hsize hready tm fresh ops hrefs
  rcases toggledSession_of_run hsize (le_refl size) hready hstarted tm fresh ops hrun with
    ⟨hensures, hreturns⟩
  exact ⟨hensures, fun hidx => hreturns hidx hlimit⟩

/-- A flush in between: the second reference to the page misses again. -/
def flushedPageOps : List (Op Unit) :=
  [.refmem 0x1000#32 7#32 true (), .refmem 0x2000#32 7#32 false (), .refmem 0x3000#32 7#32 false (),
    .flushEntry 0x2007#64, .refmem 0x1000#32 7#32 true (), .refmem 0x2000#32 7#32 false ()]

theorem toggledSession_tellsMisses_flushedPageOps :
    Returns (toggledSession sampleTm (fun _ => 0#32) flushedPageOps)
      { sampleTracer 2 2 with started := false } fun _ final =>
        TellsMisses (sampleTracer 2 2).myPteHelper (traceName sampleTm 2 2) 2 flushedPageOps
          final := by
  have hready : Ready { sampleTracer 2 2 with started := false } 2 2 := ⟨rfl, rfl⟩
  exact (toggledSession_tellsMisses (by decide) hready rfl sampleTm (fun _ => 0#32) flushedPageOps
    (by decide)).2 (by decide)

/-! ## Two sizes -/

theorem Ref.op_injective : Function.Injective (Ref.op : Ref α → Op α) := by
  intro r r' heq
  cases r
  cases r'
  cases heq
  rfl

/-- The same operations recorded by two tracers with one set each: the trace of the larger
table is the trace of the smaller one with some records left out, whatever is flushed in
between. Both sessions end, when the last instruction fetches before them used slots that
exist. -/
theorem toggledSession_larger_sublist {s s' : Globals α} {small large : ℕ} (hsmall : 1 ≤ small)
    (hle : small ≤ large) (hready : Ready s small small) (hready' : Ready s' large large)
    (hstarted : s.started = false) (hstarted' : s'.started = false)
    (hhelper : s'.myPteHelper = s.myPteHelper) (tm tm' : Tm) (fresh fresh' : ℕ → BitVec 32)
    (ops : List (Op α)) (hrefs : (references ops).length < 2 ^ 32) :
    (Ensures (toggledSession tm fresh ops) s fun _ final =>
      Ensures (toggledSession tm' fresh' ops) s' fun _ final' =>
        ∃ bytes bytes', final.files (traceName tm small s.tlbSet) = some bytes ∧
          final'.files (traceName tm' large s'.tlbSet) = some bytes' ∧
          (readRecords bytes').Sublist (readRecords bytes)) ∧
      (s.lastInsIdx < small → s'.lastInsIdx < large →
        Returns (toggledSession tm fresh ops) s fun _ _ =>
          Returns (toggledSession tm' fresh' ops) s' fun _ _ => True) := by
  have hlarge : 1 ≤ large := hsmall.trans hle
  have hlimit : (references ops).length < refLimit := lt_trans hrefs (by decide)
  have htells := toggledSession_of_run hsmall (le_refl small) hready hstarted tm fresh ops
    (runOps_tellsMisses hsmall hready tm fresh ops hrefs)
  have htells' := toggledSession_of_run hlarge (le_refl large) hready' hstarted' tm' fresh' ops
    (runOps_tellsMisses hlarge hready' tm' fresh' ops hrefs)
  refine ⟨?_, fun hidx hidx' => (htells.2 hidx hlimit).mono fun _ _ _ =>
    (htells'.2 hidx' hlimit).mono fun _ _ _ => trivial⟩
  refine htells.1.mono fun _ final hfinal => ?_
  refine htells'.1.mono fun _ final' hfinal' => ?_
  rcases hfinal with ⟨bytes, missing, hfile, hmissing, hrecords⟩
  rcases hfinal' with ⟨bytes', missing', hfile', hmissing', hrecords'⟩
  refine ⟨bytes, bytes', hfile, hfile', ?_⟩
  have hsublist := Recency.misses_sublist Op.act hle (List.prefix_refl []) ops
  rw [← hmissing, ← hmissing', List.sublist_map_iff] at hsublist
  rcases hsublist with ⟨kept, hkept, hsame⟩
  rw [hrecords, hrecords', hhelper, Ref.op_injective.list_map hsame]
  exact hkept.map _

theorem toggledSession_larger_sublist_flushedPageOps :
    Returns (toggledSession sampleTm (fun _ => 0#32) flushedPageOps)
      { sampleTracer 2 2 with started := false } fun _ final =>
        Returns (toggledSession sampleTm (fun _ => 0#32) flushedPageOps)
          { sampleTracer 4 4 with started := false } fun _ final' =>
            ∃ bytes bytes', final.files (traceName sampleTm 2 2) = some bytes ∧
              final'.files (traceName sampleTm 4 4) = some bytes' ∧
              (readRecords bytes').Sublist (readRecords bytes) := by
  have hready : ∀ size, Ready { sampleTracer size size with started := false } size size :=
    fun _ => ⟨rfl, rfl⟩
  have hsublist := toggledSession_larger_sublist (by decide) (by decide) (hready 2) (hready 4) rfl
    rfl rfl sampleTm sampleTm (fun _ => 0#32) (fun _ => 0#32) flushedPageOps (by decide)
  apply ((hsublist.2 (by decide) (by decide)).and_ensures hsublist.1).mono
  rintro _ final ⟨hends, htells⟩
  exact (hends.and_ensures htells).mono fun _ _ h => h.2

/-! ## Which references hit -/

/-- In every state of a session with one set that has made fewer than `2 ^ 32 - 1` references,
the next reference hits exactly when there is an earlier one to the same page under the same
identifier such that since then nothing invalidated it and at no time were there as many other
translations as the table has entries that had been referenced since and not been invalidated.
The session and the next reference end, when the last instruction fetch before the session used
a slot that exists. -/
theorem session_hit_iff (hsize : 1 ≤ size) (hready : Ready s size size)
    (hstarted : s.started = false) (tm : Tm) (fresh : ℕ → BitVec 32) (ops : List (Op α))
    (hrefs : (references ops).length + 1 < 2 ^ 32) :
    (Ensures (do tlbtraceToggle tm fresh; runOps ops) s fun _ s' => ∀ addr asid ins,
      Ensures (tlbtraceRefmemSl (pageOf addr) asid ins) s' fun hit _ =>
        (hit = true ↔ ∃ before addr' ins' arg after,
          ops = before ++ .refmem addr' asid ins' arg :: after ∧ pageOf addr' = pageOf addr ∧
            (∀ later ∈ after, later.act.Spares (pageOf addr, asid)) ∧
              ∀ part, part <+: after → (Recency.liveKeys Op.act part).card < size)) ∧
      (s.lastInsIdx < size → Returns (do tlbtraceToggle tm fresh; runOps ops) s fun _ s' =>
        ∀ addr asid ins, Returns (tlbtraceRefmemSl (pageOf addr) asid ins) s' fun _ _ => True) := by
  have hrun : Ensures (do tlbtraceToggle tm fresh; runOps ops) s fun _ s' =>
      Running s' size size ∧ ∃ missing, Follows s' s.myPteHelper
        (traceName tm s.geometry.entries s.tlbSet) size ops missing := by
    rw [Ensures.known_bind_iff (tlbtraceToggle_returns hready hstarted tm fresh)]
    exact toggled_follows hsize hready tm fresh ops
  constructor
  · refine hrun.mono fun _ s' hs' => ?_
    rcases hs' with ⟨hrunning, missing, hfollows⟩
    intro addr asid ins hit s'' hsl
    have href := (tlbtraceRefmemSl_ensures (hrunning.fits hsize (le_refl size)) hit s'' hsl).1
    have hlists := hfollows.lists (Nat.lt_of_succ_lt hrefs)
    have hclock : s'.systs + 1 < 2 ^ 32 := by rwa [hfollows.logged.systs_eq]
    have hmiss := (hlists.referenced hsize hrunning.toReady hclock (toNat_pageOf_mod addr) href).1
    have hhit : hit = true ↔ (pageOf addr, asid) ∈ Recency.resident Op.act size ops := by
      rw [← Bool.not_eq_false', hmiss, Act.missesIn, decide_eq_false_iff_not, not_not]
    rw [hhit, Recency.mem_resident_iff_exists hsize]
    constructor
    · intro hex
      rcases hex with ⟨before, op, after, hops, hop, hspares, hlive⟩
      cases op with
      | refmem addr' asid' ins' arg =>
          injection hop with hkey
          rcases Prod.mk.inj hkey with ⟨hpage, hasid⟩
          exact ⟨before, addr', ins', arg, after, hasid ▸ hops, hpage, hspares, hlive⟩
      | flushAll => cases hop
      | flushEntry v => cases hop
      | flushAsid a => cases hop
    · intro hex
      rcases hex with ⟨before, addr', ins', arg, after, hops, hpage, hspares, hlive⟩
      exact ⟨before, _, after, hops, congrArg (fun page => Act.use (page, asid)) hpage, hspares,
        hlive⟩
  · intro hidx
    have hlimit : (2 : ℕ) ^ 32 < refLimit := by decide
    have hreturns := toggled_runOps_returns hsize (le_refl size) hready hstarted hidx tm fresh ops
      (by omega)
    apply (hreturns.and_ensures hrun).mono
    rintro _ s' ⟨⟨hidx', hsysts⟩, hrunning, -⟩
    intro addr asid ins
    apply (tlbtraceRefmemSl_returns (hrunning.fits hsize (le_refl size))
      (hrunning.slCap_eq ▸ hidx') (by omega)).mono
    exact fun _ _ _ => trivial

/-- The first page was referenced again after the flush, and only one other page since. -/
theorem session_hit_iff_flushedPageOps :
    Returns (do tlbtraceToggle sampleTm (fun _ => 0#32); runOps flushedPageOps)
      { sampleTracer 2 2 with started := false } fun _ s' =>
        Returns (tlbtraceRefmemSl (pageOf 0x1000#32) 7#32 false) s' fun hit _ => hit = true := by
  have hready : Ready { sampleTracer 2 2 with started := false } 2 2 := ⟨rfl, rfl⟩
  have hiff := session_hit_iff (by decide) hready rfl sampleTm (fun _ => 0#32) flushedPageOps
    (by decide)
  apply ((hiff.2 (by decide)).and_ensures hiff.1).mono
  rintro _ s' ⟨hends, hhits⟩
  apply ((hends 0x1000#32 7#32 false).and_ensures (hhits 0x1000#32 7#32 false)).mono
  rintro hit _ ⟨-, hhit⟩
  refine hhit.mpr ⟨flushedPageOps.take 4, 0x1000#32, true, (), [.refmem 0x2000#32 7#32 false ()],
    rfl, rfl, ?_, ?_⟩
  · intro later hlater
    rw [List.mem_singleton.mp hlater]
    show (pageOf 0x2000#32, 7#32) ≠ (pageOf 0x1000#32, 7#32)
    decide
  · intro part hpart
    have hcases : part = [] ∨ part = [.refmem 0x2000#32 7#32 false ()] := by
      simpa using List.mem_inits _ _ |>.mpr hpart
    rcases hcases with rfl | rfl <;> decide

end TlbAnalyzer.Tracer
