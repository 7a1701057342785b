/-
# Invariants of a whole simulation

`Makes` lists the lookups that the emulation of one trace record may make. An
invariant that each of these lookups keeps holds at the end of a simulation, for
every trace, whatever the lookups answer.

The first invariant of this kind is about hits. A flushed entry is not marked as
empty. It holds the address `0xFFFFFFFF` with the identifier 0, and a lookup that
asks for this key finds it in a table that was never asked for it. Of all the
addresses that are looked up only one can be this one: the final address of a
record, which alone is neither masked, nor a multiple of four, nor looked up with
identifier 1.
-/

import TlbAnalyzer.Simulator.Inclusion
import TlbAnalyzer.Simulator.Independence

namespace TlbAnalyzer.Simulator

open Cache Math TraceFile

/-! ## The run rule -/

/-- The lookups that the emulation of a record may make. A page walk cache is asked
for descriptors of the guest, and for the two descriptors of the extended page table
that translate an address; a nested TLB is asked for pages, and for the final address
of a complete walk. -/
inductive Makes (t : TraceRecord) (c : CacheName) : (addr asid : BitVec 32) → Prop
  | guest (addr : BitVec 32) (hpwc : c.isPwc = true) : Makes t c addr 1#32
  | l1 (gpa : BitVec 32) (hpwc : c.isPwc = true) : Makes t c (l1Mpa gpa) 0#32
  | l2 (gpa : BitVec 32) (hpwc : c.isPwc = true) : Makes t c (l2Mpa gpa) 0#32
  | page (addr : BitVec 32) (hntlb : c.isPwc = false) : Makes t c (addr &&& 0xFFFFF000#32) 0#32
  | final (hntlb : c.isPwc = false) (hlevel : t.level > 2) : Makes t c t.pa 0#32

/-- An invariant that does not depend on the access totals, and that every lookup of a
simulation keeps. -/
structure Kept (cmd : SimCmd) (records : List TraceRecord) (inv : Sim → Prop) : Prop where
  access : ∀ s cmd' n, inv s → inv (s.access cmd' n)
  lookup : ∀ t ∈ records, ∀ c addr asid, cmd.uses c = true → Makes t c addr asid →
    ∀ s, inv s → Returns (lookup c addr asid) s fun _ s' => inv s'

theorem SimCmd.Performs.makes {cmd : SimCmd} {t : TraceRecord} {c : CacheName}
    {addr asid : BitVec 32} (h : cmd.Performs t (.lookup c addr asid)) : Makes t c addr asid := by
  cases h with
  | guest _ hpwc _ => exact .guest _ hpwc
  | l1 _ hpwc _ => exact .l1 _ hpwc
  | l2 _ hpwc _ => exact .l2 _ hpwc
  | page _ hntlb _ => exact .page _ hntlb
  | final _ hntlb hlevel => exact .final hntlb hlevel

/-- A whole simulation: the invariant holds of flushed tables with the geometries of
the simulation, so it holds at the end. -/
theorem Kept.funcs {cmd : SimCmd} {inv : Sim → Prop} {z : Sizes} {trace : List (BitVec 8)}
    (h : Kept cmd (readRecords trace) inv)
    (hstart : ∀ s : Sim, (∀ c, cmd.uses c = true →
      s.geometry c = .ofSizeWay (z.size c) (z.way c)) → inv s.flushAll)
    (result : SimResult) (s : Sim) :
    Returns (funcs cmd trace z.ntlbSize z.ntlbWay z.pwcSize z.pwcWay result) s
      fun _ s' => inv s' := by
  have hflushed : inv (cmd.start z s) :=
    hstart _ fun _ huses => SimCmd.configure_geometry huses z s
  refine funcs_keeps inv (fun t ht action haction s hs => ?_) hflushed result
  cases action with
  | lookup c addr asid => exact h.lookup t ht c addr asid haction.uses haction.makes s hs
  | access cmd' n =>
      rw [perform_access_returns_iff]
      exact h.access s cmd' n hs

/-! ## Hits and earlier lookups -/

/-- Every hit in the log, whose newest entry comes first, has an earlier lookup of the
same key in the same cache. -/
def NoPhantomHit (log : List Lookup) : Prop :=
  ∀ l earlier, l :: earlier <:+ log → l.hit = true →
    ∃ l' ∈ earlier, l'.cache = l.cache ∧ l.cache.key l'.addr l'.asid = l.cache.key l.addr l.asid

theorem NoPhantomHit.cons {log : List Lookup} (h : NoPhantomHit log) {l : Lookup}
    (hl : l.hit = true → ∃ l' ∈ log, l'.cache = l.cache ∧
      l.cache.key l'.addr l'.asid = l.cache.key l.addr l.asid) : NoPhantomHit (l :: log) := by
  intro l₁ earlier htail hhit
  rcases List.suffix_cons_iff.mp htail with heq | htail
  · cases heq
    exact hl hhit
  · exact h l₁ earlier htail hhit

/-- Every entry that is not flushed was looked up, and so was every hit. -/
structure Sourced (s : Sim) : Prop where
  entries : ∀ c, ∀ i < cacheMaxEntries, c.keyOf (s.tlb c i) = emptyKey ∨
    ∃ l ∈ s.log, l.cache = c ∧ c.key l.addr l.asid = c.keyOf (s.tlb c i)
  hits : NoPhantomHit s.log

namespace Sourced

variable {s s' : Sim} {c : CacheName} {addr asid : BitVec 32} {hit : Bool}

theorem flushAll (s : Sim) : Sourced s.flushAll where
  entries c i hi := by
    left
    have hflushed : s.flushAll.tlb c i = flushedEntry := if_pos hi
    rw [hflushed]
    cases c <;> rfl
  hits := by
    intro l earlier htail
    exact absurd (List.suffix_nil.mp htail) (List.cons_ne_nil _ _)

/-- A slot is used for the key that is looked up. -/
theorem use (h : Sourced s) {i : ℕ} {e : TlbEntry} (he : c.keyOf e = c.key addr asid)
    (hhit : hit = true → ∃ l ∈ s.log, l.cache = c ∧ c.key l.addr l.asid = c.key addr asid) :
    Sourced (s.use c addr asid hit i e) where
  entries c' j hj := by
    have hkept : c'.keyOf (s.tlb c' j) = emptyKey ∨
        ∃ l ∈ (s.use c addr asid hit i e).log, l.cache = c' ∧
          c'.key l.addr l.asid = c'.keyOf (s.tlb c' j) := by
      rcases h.entries c' j hj with hempty | ⟨l, hl, hsource⟩
      · exact Or.inl hempty
      · exact Or.inr ⟨l, List.mem_cons_of_mem _ hl, hsource⟩
    rcases CacheName.keyOf_use s c addr asid hit i e c' j with heq | ⟨rfl, -, heq⟩
    · rw [heq]
      exact hkept
    · rw [heq]
      exact Or.inr ⟨⟨c', addr, asid, hit⟩, List.mem_cons_self, rfl, he.symm⟩
  hits := h.hits.cons hhit

/-- A lookup of a key that no flush leaves. -/
theorem looked (h : Sourced s) (hfits : (s.geometry c).Fits cacheMaxEntries)
    (hkey : c.key addr asid ≠ emptyKey) (hlooked : Looked s c addr asid hit s') : Sourced s' := by
  cases hlooked with
  | hit i hmem htest =>
      have hi : i < cacheMaxEntries :=
        lt_of_lt_of_le (Geometry.lt_entries_of_mem_slots hmem) hfits.entries_le
      have heq := (CacheName.test_iff c addr asid _).mp htest
      apply h.use heq
      intro _
      rcases h.entries c i hi with hempty | hsource
      · rw [heq] at hempty
        exact absurd hempty hkey
      · rw [heq] at hsource
        exact hsource
  | miss mi _ =>
      apply h.use (CacheName.keyOf_refill c addr asid _)
      intro hfalse
      exact absurd hfalse Bool.false_ne_true

end Sourced

/-- The only lookup that may ask for the key of a flushed entry is that of the final
address. -/
theorem Makes.key_ne_emptyKey {t : TraceRecord} {c : CacheName} {addr asid : BitVec 32}
    (h : Makes t c addr asid)
    (hfinal : c.isPwc = false → t.level > 2 → t.pa ≠ 0xFFFFFFFF#32) :
    c.key addr asid ≠ emptyKey := by
  cases h with
  | guest addr hpwc =>
      rw [CacheName.key, if_pos hpwc]
      exact ne_emptyKey_of_guest addr
  | l1 gpa hpwc =>
      rw [CacheName.key, if_pos hpwc]
      exact ne_emptyKey_of_word (toNat_l1Mpa_mod gpa)
  | l2 gpa hpwc =>
      rw [CacheName.key, if_pos hpwc]
      exact ne_emptyKey_of_word (toNat_l2Mpa_mod gpa)
  | page addr hntlb =>
      have hpage := toNat_and_page_mod addr
      rw [CacheName.key, hntlb]
      exact ne_emptyKey_of_word (by omega)
  | final hntlb hlevel =>
      rw [CacheName.key, hntlb]
      exact fun heq => hfinal hntlb hlevel (congrArg Prod.fst heq)

/-- No complete walk of the trace ends at the address that a flushed entry holds, or only
page walk caches are looked up. -/
def NoEmptyKey (cmd : SimCmd) (records : List TraceRecord) : Prop :=
  (cmd = .scPwcEpt ∨ cmd = .scPwcNoept) ∨ ∀ t ∈ records, t.level > 2 → t.pa ≠ 0xFFFFFFFF#32

theorem NoEmptyKey.key_ne {cmd : SimCmd} {records : List TraceRecord}
    (h : NoEmptyKey cmd records) {t : TraceRecord} (ht : t ∈ records) {c : CacheName}
    (huses : cmd.uses c = true) {addr asid : BitVec 32} (hmakes : Makes t c addr asid) :
    c.key addr asid ≠ emptyKey := by
  apply hmakes.key_ne_emptyKey
  intro hntlb hlevel
  rcases h with hpwc | hfinal
  · rcases hpwc with rfl | rfl
    · rw [of_decide_eq_true huses] at hntlb
      cases hntlb
    · rw [of_decide_eq_true huses] at hntlb
      cases hntlb
  · exact hfinal t ht hlevel

/-- In every simulation of a page walk cache alone, and in every simulation of a trace
in which no complete walk ends at the address `0xFFFFFFFF`, a hit is preceded by a
lookup of the same key in the same cache. -/
theorem funcs_noPhantomHit {z : Sizes} {cmd : SimCmd} (hvalid : z.ValidFor cmd)
    {trace : List (BitVec 8)} (hkeys : NoEmptyKey cmd (readRecords trace)) (result : SimResult)
    (s : Sim) :
    Returns (funcs cmd trace z.ntlbSize z.ntlbWay z.pwcSize z.pwcWay result) s
      fun _ s' => NoPhantomHit s'.log := by
  have hkept : Kept cmd (readRecords trace) fun s =>
      (∀ c, cmd.uses c = true → (s.geometry c).Fits cacheMaxEntries) ∧ Sourced s := by
    refine ⟨fun s cmd' n hs => ⟨hs.1, ⟨hs.2.entries, hs.2.hits⟩⟩, ?_⟩
    intro t ht c addr asid huses hmakes s hs
    have hkey : c.key addr asid ≠ emptyKey := hkeys.key_ne ht huses hmakes
    apply (lookup_returns (hs.1 c huses) addr asid).mono
    intro hit s' hlooked
    refine ⟨fun c' huses' => ?_, hs.2.looked (hs.1 c huses) hkey hlooked⟩
    rcases hlooked.eq_use with ⟨i, e, rfl⟩
    exact hs.1 c' huses'
  apply (hkept.funcs ?_ result s).mono
  · intro _ s' hs'
    exact hs'.2.hits
  · intro s hgeometry
    refine ⟨fun c huses => ?_, Sourced.flushAll s⟩
    rw [Sim.flushAll_geometry, hgeometry c huses]
    exact hvalid.fits huses

/-- The condition holds of the sample trace. -/
theorem funcs_noPhantomHit_sampleTrace :
    Returns (funcs .scNtlb sampleTrace 4 2 4 2 .zero) .initial fun _ s' =>
      NoPhantomHit s'.log ∧ (s'.cnt .ntlb2).hit > 0 := by
  have hvalid : Sizes.ValidFor ⟨4, 2, 4, 2⟩ .scNtlb := by
    intro c huses
    cases of_decide_eq_true huses
    exact ⟨by decide, by decide, by decide⟩
  have hkeys : NoEmptyKey .scNtlb (readRecords sampleTrace) := Or.inr (by decide +kernel)
  have hhit : Returns (funcs .scNtlb sampleTrace 4 2 4 2 .zero) .initial fun _ s' =>
      (s'.cnt .ntlb2).hit > 0 := by
    decide +kernel
  exact (funcs_noPhantomHit hvalid hkeys .zero .initial).and_ensures hhit.ensures

/-- A complete walk that ends at `0xFFFFFFFF`, in tables of four entries. -/
def phantomTrace : List (BitVec 8) :=
  (TraceRecord.words ⟨0x00001003#32, 0x02004000#32, 0x02008004#32, 0xFFFFFFFF#32⟩).flatMap wordBytes

/-- Its lookup hits in a table that was only ever asked for two other pages. -/
theorem phantomHit_phantomTrace :
    Returns (funcs .scNtlb phantomTrace 4 4 4 4 .zero) .initial fun result s' =>
      result.ntlb.hit = 1 ∧ ¬ NoPhantomHit s'.log := by
  have hlog : Returns (funcs .scNtlb phantomTrace 4 4 4 4 .zero) .initial fun result s' =>
      result.ntlb.hit = 1 ∧ s'.log = [⟨.ntlb2, 0xFFFFFFFF#32, 0#32, true⟩,
        ⟨.ntlb2, 0x02008000#32, 0#32, false⟩, ⟨.ntlb2, 0x02004000#32, 0#32, false⟩] := by
    decide +kernel
  apply hlog.mono
  intro result s' h
  refine ⟨h.1, fun hnone => ?_⟩
  rw [h.2] at hnone
  exact absurd (hnone _ _ (List.suffix_refl _) rfl) (by decide)

end TlbAnalyzer.Simulator
