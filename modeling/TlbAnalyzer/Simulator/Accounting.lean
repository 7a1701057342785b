/-
# Accounting of the simulations

The four simulations spread their counting over many increments: hits and
misses in the lookup functions, memory accesses in the emulation functions. This
module ties the totals of a whole run to two numbers of its trace, the guest
descriptors its records refer to and the final addresses they translate.

Each mode has an account, a relation between the globals and these two numbers.
A reference to a guest descriptor and a translation of a final address each move
the account by one, whatever the caches answer, and the loop rule carries it
through the trace. No account mentions a table, so the results hold for every
geometry that can be searched.
-/

import TlbAnalyzer.Simulator.Lookup

namespace TlbAnalyzer.Simulator

open Cache Math TraceFile

/-! ## What a trace asks for -/

/-- The guest descriptors a record refers to: the first level one, and the
second level one when the walk went past the first. -/
def descriptorRefs (t : TraceRecord) : ℕ := 1 + if t.level > 1 then 1 else 0

/-- Guest descriptor references of a trace. -/
def descriptorTotal (records : List TraceRecord) : ℕ := (records.map descriptorRefs).sum

/-- Records whose walk reached a final address. -/
def finalTotal (records : List TraceRecord) : ℕ := records.countP fun t => t.level > 2

/-- Lookups of guest descriptors (identifier 1) in a page walk cache that
missed. -/
def guestMisses (c : CacheName) (log : List Lookup) : ℕ :=
  log.countP fun l => l.cache = c ∧ l.asid = 1#32 ∧ l.hit = false

theorem descriptorTotal_append_singleton (records : List TraceRecord) (t : TraceRecord) :
    descriptorTotal (records ++ [t]) = descriptorTotal records + descriptorRefs t := by
  simp [descriptorTotal]

theorem finalTotal_append_singleton (records : List TraceRecord) (t : TraceRecord) :
    finalTotal (records ++ [t]) = finalTotal records + if t.level > 2 then 1 else 0 := by
  simp [finalTotal, List.countP_append, List.countP_singleton]

/-- Two complete records, one of them a full walk, and a stray byte. -/
def sampleTrace : List (BitVec 8) :=
  ([⟨0x00010003#32, 0x02004000#32, 0x02008040#32, 0x02009000#32⟩,
      ⟨0x00011001#32, 0x02004000#32, 0#32, 0#32⟩].flatMap TraceRecord.words).flatMap wordBytes ++
    [0x7F#8]

/-! ## The shape of a simulation -/

/-- A record is emulated by one action for each guest descriptor and one for the
final address. If they move an account by one each, the record moves it by its
own numbers. -/
theorem record_returns (account : Sim → ℕ → ℕ → Prop)
    {descriptor₁ descriptor₂ final : SimM Unit}
    (hdescriptor₁ : ∀ s d f, account s d f →
      Returns descriptor₁ s fun _ s' => account s' (d + 1) f)
    (hdescriptor₂ : ∀ s d f, account s d f →
      Returns descriptor₂ s fun _ s' => account s' (d + 1) f)
    (hfinal : ∀ s d f, account s d f → Returns final s fun _ s' => account s' d (f + 1))
    (t : TraceRecord) {s : Sim} {d f : ℕ} (haccount : account s d f) :
    Returns (do descriptor₁; whenever (t.level > 1) descriptor₂; whenever (t.level > 2) final) s
      fun _ s' => account s' (d + descriptorRefs t) (f + if t.level > 2 then 1 else 0) := by
  apply (levels_returns (hdescriptor₁ s d f haccount) (fun s' h => hdescriptor₂ s' (d + 1) f h)
    (fun s' h => hfinal s' (d + 1 + 1) f h)).mono
  intro _ s' hs'
  split_ifs at hs' with hthree htwo
  · have htwo : t.level > 1 := Nat.lt_of_succ_lt hthree
    simpa [descriptorRefs, htwo, hthree] using hs'
  · simpa [descriptorRefs, htwo, hthree] using hs'
  · simpa [descriptorRefs, htwo, hthree] using hs'

/-- The loop over the records carries an account from the flushed globals to the
totals of the trace. -/
theorem replay_returns (account : Sim → ℕ → ℕ → Prop)
    {emulate : ℕ → BitVec 32 → BitVec 32 → BitVec 32 → SimM Unit}
    (hrecord : ∀ s d f (t : TraceRecord), account s d f →
      Returns (emulate t.level t.l1Pa t.l2Pa t.pa) s fun _ s' =>
        account s' (d + descriptorRefs t) (f + if t.level > 2 then 1 else 0))
    (trace : List (BitVec 8)) {s : Sim} (hstart : account s.flushAll 0 0) :
    Returns (replay emulate trace) s fun _ s' =>
      account s' (descriptorTotal (readRecords trace)) (finalTotal (readRecords trace)) := by
  rw [replay, Returns.bind_iff, Returns.modify_iff]
  apply Returns.forM fun handled s' =>
    account s' (descriptorTotal handled) (finalTotal handled)
  · intro handled t _ s' haccount
    simp only [descriptorTotal_append_singleton, finalTotal_append_singleton]
    exact hrecord s' _ _ t haccount
  · exact hstart

/-! ## Nested TLB only -/

/-- Every reference is one lookup. A descriptor costs one access, and a miss two
more. -/
structure NtlbAccount (s : Sim) (d f : ℕ) : Prop where
  fits : (s.geometry .ntlb2).Fits cacheMaxEntries
  lookups : (s.cnt .ntlb2).hit + (s.cnt .ntlb2).miss = d + f
  accs : s.memAccs .scNtlb = d + 2 * (s.cnt .ntlb2).miss

namespace NtlbAccount

variable {s : Sim} {d f : ℕ}

/-- A lookup moves the account by the accesses it is charged in advance. -/
theorem find (h : NtlbAccount s d f) (addr : BitVec 32) (final : Bool) :
    Returns (tlbtraceNtlbFind2 addr final) s fun _ s' =>
      NtlbAccount s' (d + if final then 0 else 1) (f + if final then 1 else 0) := by
  obtain ⟨hfits, hlookups, haccs⟩ := h
  apply tlbtraceNtlbFind2_returns
  apply lookup_returns_of_use (s := s.access .scNtlb (if final then 0 else 1)) hfits
  · intro i e
    refine ⟨hfits, ?_, ?_⟩
    all_goals
      cases final <;> simp <;> omega
  · intro i e
    refine ⟨hfits, ?_, ?_⟩
    all_goals
      cases final <;> simp <;> omega

theorem record (h : NtlbAccount s d f) (t : TraceRecord) :
    Returns (emulateNtlb2 t.level t.l1Pa t.l2Pa t.pa) s fun _ s' =>
      NtlbAccount s' (d + descriptorRefs t) (f + if t.level > 2 then 1 else 0) := by
  have hdescriptor : ∀ addr s d f, NtlbAccount s d f →
      Returns (discard (tlbtraceNtlbFind2 addr false)) s fun _ s' => NtlbAccount s' (d + 1) f :=
    fun addr s d f h => Returns.discard_iff.mpr (by simpa using h.find addr false)
  apply record_returns NtlbAccount (hdescriptor _) (hdescriptor _) _ t h
  intro s d f h
  exact Returns.discard_iff.mpr (by simpa using h.find t.pa true)

theorem start (hfits : (s.geometry .ntlb2).Fits cacheMaxEntries) : NtlbAccount s.flushAll 0 0 :=
  ⟨hfits, rfl, rfl⟩

end NtlbAccount

theorem tlbsimSimNtlb_account {size way : ℕ} (hway : 1 ≤ way) (hle : way ≤ size)
    (hsize : size ≤ 512) (trace : List (BitVec 8)) (pwcSize pwcWay : ℕ) (result : SimResult)
    (s : Sim) :
    Returns (tlbsimSimNtlb trace size way pwcSize pwcWay result) s fun r s' =>
      r = { result with accs := s'.memAccs .scNtlb, ntlb := s'.cnt .ntlb2 } ∧
        NtlbAccount s' (descriptorTotal (readRecords trace)) (finalTotal (readRecords trace)) := by
  rw [tlbsimSimNtlb, Returns.bind_iff, setNtlbGeometry, Returns.modify_iff, Returns.bind_iff]
  have hfits := Geometry.ofSizeWay_fits hway hle hsize
  refine Returns.mono
    (replay_returns NtlbAccount (fun _ _ _ t h => h.record t) trace (.start ?_)) ?_
  · exact hfits
  · intro _ s' haccount
    rw [Returns.bind_iff, Returns.get_iff, Returns.pure_iff]
    exact ⟨rfl, haccount⟩

/-- The nested TLB simulation makes one lookup for each reference of the trace
and charges a descriptor one access and a miss two. Bytes after the last
complete record change nothing. -/
theorem tlbsimSimNtlb_accounting {size way : ℕ} (hway : 1 ≤ way) (hle : way ≤ size)
    (hsize : size ≤ 512) (trace : List (BitVec 8)) (pwcSize pwcWay : ℕ) (result : SimResult)
    (s : Sim) :
    (Returns (tlbsimSimNtlb trace size way pwcSize pwcWay result) s fun r _ =>
      r.ntlb.hit + r.ntlb.miss =
          descriptorTotal (readRecords trace) + finalTotal (readRecords trace) ∧
        r.accs = descriptorTotal (readRecords trace) + 2 * r.ntlb.miss ∧
        descriptorTotal (readRecords trace) ≤ r.accs ∧
        r.accs ≤ 3 * descriptorTotal (readRecords trace) + 2 * finalTotal (readRecords trace)) ∧
      tlbsimSimNtlb (trace.take (16 * (trace.length / 16))) size way pwcSize pwcWay result =
        tlbsimSimNtlb trace size way pwcSize pwcWay result := by
  constructor
  · apply (tlbsimSimNtlb_account hway hle hsize trace pwcSize pwcWay result s).mono
    rintro r s' ⟨rfl, haccount⟩
    have hlookups := haccount.lookups
    have haccs := haccount.accs
    simp only
    omega
  · simp only [tlbsimSimNtlb, replay, readRecords_take_complete]

/-- Three descriptors and one final address, in a two-way nested TLB. -/
theorem tlbsimSimNtlb_accounting_sampleTrace :
    Returns (tlbsimSimNtlb sampleTrace 4 2 0 0 ⟨0, ⟨0, 0⟩, ⟨0, 0⟩⟩) .initial fun r _ =>
      r.ntlb.hit + r.ntlb.miss = 4 ∧ r.accs = 3 + 2 * r.ntlb.miss :=
  (tlbsimSimNtlb_accounting (by decide) (by decide) (by decide) sampleTrace 0 0 _ _).1.mono
    fun _ _ h => ⟨h.1, h.2.1⟩

/-! ## Page walk cache -/

theorem guestMisses_cons_of_asid {c : CacheName} {l : Lookup} (h : l.asid ≠ 1#32)
    (log : List Lookup) : guestMisses c (l :: log) = guestMisses c log := by
  simp [guestMisses, h]

theorem guestMisses_cons_of_hit {c : CacheName} {l : Lookup} (h : l.hit = true)
    (log : List Lookup) : guestMisses c (l :: log) = guestMisses c log := by
  simp [guestMisses, h]

theorem guestMisses_cons_of_ne {c : CacheName} {l : Lookup} (h : l.cache ≠ c)
    (log : List Lookup) : guestMisses c (l :: log) = guestMisses c log := by
  simp [guestMisses, h]

theorem guestMisses_cons_of_miss (c : CacheName) (addr : BitVec 32) (log : List Lookup) :
    guestMisses c (⟨c, addr, 1#32, false⟩ :: log) = guestMisses c log + 1 := by
  simp [guestMisses]

/-- The books of one page walk cache: its lookups, its guest misses, and the
misses that have not yet been charged as accesses. -/
structure PwcLedger (cmd : SimCmd) (c : CacheName) (s : Sim) (lookups guest debt : ℕ) : Prop where
  fits : (s.geometry c).Fits cacheMaxEntries
  lookups_eq : (s.cnt c).hit + (s.cnt c).miss = lookups
  guest_eq : guestMisses c s.log = guest
  accs_eq : s.memAccs cmd + debt = (s.cnt c).miss

namespace PwcLedger

variable {cmd : SimCmd} {c : CacheName} {s : Sim} {lookups guest debt : ℕ}

theorem start (hfits : (s.geometry c).Fits cacheMaxEntries) :
    PwcLedger cmd c s.flushAll 0 0 0 :=
  ⟨hfits, rfl, rfl, rfl⟩

theorem use_hit (h : PwcLedger cmd c s lookups guest debt) (addr asid : BitVec 32) (i : ℕ)
    (e : TlbEntry) : PwcLedger cmd c (s.use c addr asid true i e) (lookups + 1) guest debt where
  fits := h.fits
  lookups_eq := by
    have := h.lookups_eq
    simp only [Sim.use_cnt_hit, Sim.use_cnt_miss_of_hit]
    omega
  guest_eq := by rw [Sim.use_log, guestMisses_cons_of_hit rfl, h.guest_eq]
  accs_eq := by simpa using h.accs_eq

theorem use_ept_miss (h : PwcLedger cmd c s lookups guest debt) (addr : BitVec 32) (i : ℕ)
    (e : TlbEntry) :
    PwcLedger cmd c (s.use c addr 0#32 false i e) (lookups + 1) guest (debt + 1) where
  fits := h.fits
  lookups_eq := by
    have := h.lookups_eq
    simp only [Sim.use_cnt_miss, Sim.use_cnt_hit_of_miss]
    omega
  guest_eq := by rw [Sim.use_log, guestMisses_cons_of_asid (by simp), h.guest_eq]
  accs_eq := by
    have := h.accs_eq
    simp only [Sim.use_memAccs, Sim.use_cnt_miss]
    omega

theorem use_guest_miss (h : PwcLedger cmd c s lookups guest debt) (addr : BitVec 32) (i : ℕ)
    (e : TlbEntry) :
    PwcLedger cmd c (s.use c addr 1#32 false i e) (lookups + 1) (guest + 1) (debt + 1) where
  fits := h.fits
  lookups_eq := by
    have := h.lookups_eq
    simp only [Sim.use_cnt_miss, Sim.use_cnt_hit_of_miss]
    omega
  guest_eq := by rw [Sim.use_log, guestMisses_cons_of_miss, h.guest_eq]
  accs_eq := by
    have := h.accs_eq
    simp only [Sim.use_memAccs, Sim.use_cnt_miss]
    omega

/-- Lookups in another cache are not in these books. -/
theorem use_other (h : PwcLedger cmd c s lookups guest debt) {c' : CacheName} (hne : c' ≠ c)
    (addr asid : BitVec 32) (hit : Bool) (i : ℕ) (e : TlbEntry) :
    PwcLedger cmd c (s.use c' addr asid hit i e) lookups guest debt where
  fits := h.fits
  lookups_eq := by simpa [Sim.use_cnt_of_ne _ _ _ _ _ _ hne.symm] using h.lookups_eq
  guest_eq := by rw [Sim.use_log, guestMisses_cons_of_ne hne, h.guest_eq]
  accs_eq := by simpa [Sim.use_cnt_of_ne _ _ _ _ _ _ hne.symm] using h.accs_eq

/-- An access settles one miss. -/
theorem charge (h : PwcLedger cmd c s lookups guest (debt + 1)) :
    PwcLedger cmd c (s.access cmd 1) lookups guest debt where
  fits := h.fits
  lookups_eq := h.lookups_eq
  guest_eq := h.guest_eq
  accs_eq := by
    have := h.accs_eq
    simp only [Sim.access_memAccs, Sim.access_cnt]
    omega

/-- A lookup of an extended page table descriptor settles its own miss. -/
theorem ept (h : PwcLedger cmd c s lookups guest debt) (addr : BitVec 32) :
    Returns (onMiss (lookup c addr 0#32) (modify fun s => s.access cmd 1)) s fun _ s' =>
      PwcLedger cmd c s' (lookups + 1) guest debt := by
  apply onMiss_returns h.fits
  · intro i e
    exact h.use_hit addr 0#32 i e
  · intro i e
    rw [Returns.modify_iff]
    exact (h.use_ept_miss addr i e).charge

end PwcLedger

/-! ### With the extended page table -/

/-- The two descriptors of the extended page table are looked up for every guest
miss and for every final address. -/
def EptAccount (s : Sim) (d f : ℕ) : Prop :=
  ∃ guest, PwcLedger .scPwcEpt .pwc2 s (d + 2 * guest + 2 * f) guest 0 ∧ guest ≤ d

namespace EptAccount

variable {s : Sim} {d f : ℕ}

/-- The walk of the extended page table for one guest address. -/
theorem walk {lookups guest debt : ℕ} (h : PwcLedger .scPwcEpt .pwc2 s lookups guest debt)
    (gpa : BitVec 32) :
    Returns (do
      onMiss (tlbtraceRefppaPwc2 (l1Mpa gpa) 0#32) countPwc2
      onMiss (tlbtraceRefppaPwc2 (l2Mpa gpa) 0#32) countPwc2) s fun _ s' =>
        PwcLedger .scPwcEpt .pwc2 s' (lookups + 2) guest debt := by
  rw [Returns.bind_iff]
  apply (h.ept (l1Mpa gpa)).mono
  intro _ s₁ h₁
  exact h₁.ept (l2Mpa gpa)

theorem descriptor (h : EptAccount s d f) (gpa : BitVec 32) :
    Returns (onMiss (tlbtraceRefppaPwc2 gpa 1#32) do
      onMiss (tlbtraceRefppaPwc2 (l1Mpa gpa) 0#32) countPwc2
      onMiss (tlbtraceRefppaPwc2 (l2Mpa gpa) 0#32) countPwc2
      countPwc2) s fun _ s' => EptAccount s' (d + 1) f := by
  obtain ⟨guest, h, hguest⟩ := h
  apply onMiss_returns h.fits
  · intro i e
    refine ⟨guest, ?_, by omega⟩
    convert h.use_hit gpa 1#32 i e using 1
    omega
  · intro i e
    rw [Returns.bind_iff]
    apply ((h.use_guest_miss gpa i e).ept (l1Mpa gpa)).mono
    intro _ s₁ h₁
    rw [Returns.bind_iff]
    apply (h₁.ept (l2Mpa gpa)).mono
    intro _ s₂ h₂
    rw [countPwc2, Returns.modify_iff]
    refine ⟨guest + 1, ?_, by omega⟩
    convert h₂.charge using 1
    omega

theorem final (h : EptAccount s d f) (gpa : BitVec 32) :
    Returns (do
      onMiss (tlbtraceRefppaPwc2 (l1Mpa gpa) 0#32) countPwc2
      onMiss (tlbtraceRefppaPwc2 (l2Mpa gpa) 0#32) countPwc2) s fun _ s' =>
        EptAccount s' d (f + 1) := by
  obtain ⟨guest, h, hguest⟩ := h
  apply (walk h gpa).mono
  intro _ s' h'
  refine ⟨guest, ?_, hguest⟩
  convert h' using 1
  omega

theorem record (h : EptAccount s d f) (t : TraceRecord) :
    Returns (emulatePwc2 t.level t.l1Pa t.l2Pa t.pa) s fun _ s' =>
      EptAccount s' (d + descriptorRefs t) (f + if t.level > 2 then 1 else 0) :=
  record_returns EptAccount (fun _ _ _ h => descriptor h t.l1Pa)
    (fun _ _ _ h => descriptor h t.l2Pa) (fun _ _ _ h => final h t.pa) t h

end EptAccount

/-! ### Without the extended page table -/

/-- Every guest descriptor reference is one lookup, and nothing else is. -/
def NoeptAccount (s : Sim) (d : ℕ) : Prop :=
  ∃ guest, PwcLedger .scPwcNoept .pwc3 s d guest 0

namespace NoeptAccount

variable {s : Sim} {d : ℕ}

theorem descriptor (h : NoeptAccount s d) (gpa : BitVec 32) :
    Returns (onMiss (tlbtraceRefppaPwc3 gpa 1#32) countPwc3) s fun _ s' =>
      NoeptAccount s' (d + 1) := by
  obtain ⟨guest, h⟩ := h
  apply onMiss_returns h.fits
  · intro i e
    exact ⟨guest, h.use_hit gpa 1#32 i e⟩
  · intro i e
    rw [countPwc3, Returns.modify_iff]
    exact ⟨guest + 1, (h.use_guest_miss gpa i e).charge⟩

theorem record (h : NoeptAccount s d) (t : TraceRecord) :
    Returns (emulatePwc3 t.level t.l1Pa t.l2Pa t.pa) s fun _ s' =>
      NoeptAccount s' (d + descriptorRefs t) := by
  rw [emulatePwc3, Returns.bind_iff]
  apply (h.descriptor t.l1Pa).mono
  intro _ s₁ h₁
  by_cases hsecond : t.level > 1
  · rw [whenever_true_iff hsecond]
    simpa [descriptorRefs, hsecond] using h₁.descriptor t.l2Pa
  · rw [whenever_false_iff hsecond]
    simpa [descriptorRefs, hsecond] using h₁

end NoeptAccount

theorem tlbsimSimPwcEpt_account {size way : ℕ} (hway : 1 ≤ way) (hle : way ≤ size)
    (hsize : size ≤ 512) (trace : List (BitVec 8)) (ntlbSize ntlbWay : ℕ) (result : SimResult)
    (s : Sim) :
    Returns (tlbsimSimPwcEpt trace ntlbSize ntlbWay size way result) s fun r s' =>
      r = { result with accs := s'.memAccs .scPwcEpt, pwc := s'.cnt .pwc2 } ∧
        EptAccount s' (descriptorTotal (readRecords trace)) (finalTotal (readRecords trace)) := by
  have hfits := Geometry.ofSizeWay_fits hway hle hsize
  rw [tlbsimSimPwcEpt, Returns.bind_iff, setPwcGeometry, Returns.modify_iff, Returns.bind_iff]
  refine Returns.mono (replay_returns EptAccount (fun _ _ _ t h => h.record t) trace
    ⟨0, .start ?_, le_refl 0⟩) ?_
  · exact hfits
  · intro _ s' haccount
    rw [Returns.bind_iff, Returns.get_iff, Returns.pure_iff]
    exact ⟨rfl, haccount⟩

theorem tlbsimSimPwcNoept_account {size way : ℕ} (hway : 1 ≤ way) (hle : way ≤ size)
    (hsize : size ≤ 512) (trace : List (BitVec 8)) (ntlbSize ntlbWay : ℕ) (result : SimResult)
    (s : Sim) :
    Returns (tlbsimSimPwcNoept trace ntlbSize ntlbWay size way result) s fun r s' =>
      r = { result with accs := s'.memAccs .scPwcNoept, pwc := s'.cnt .pwc3 } ∧
        NoeptAccount s' (descriptorTotal (readRecords trace)) := by
  have hfits := Geometry.ofSizeWay_fits hway hle hsize
  rw [tlbsimSimPwcNoept, Returns.bind_iff, setPwcGeometry, Returns.modify_iff, Returns.bind_iff]
  refine Returns.mono (replay_returns (fun s d _ => NoeptAccount s d)
    (fun _ _ _ t h => h.record t) trace ⟨0, .start ?_⟩) ?_
  · exact hfits
  · intro _ s' haccount
    rw [Returns.bind_iff, Returns.get_iff, Returns.pure_iff]
    exact ⟨rfl, haccount⟩

/-- Both page walk cache simulations charge every miss once. With the extended
page table, two more descriptors are looked up for every guest miss and every
final address; without it, the guest descriptors are all there is. -/
theorem tlbsimSimPwc_accounting {size way : ℕ} (hway : 1 ≤ way) (hle : way ≤ size)
    (hsize : size ≤ 512) (trace : List (BitVec 8)) (ntlbSize ntlbWay : ℕ) (result : SimResult)
    (s : Sim) :
    (Returns (tlbsimSimPwcEpt trace ntlbSize ntlbWay size way result) s fun r s' =>
      r.accs = r.pwc.miss ∧
        r.pwc.hit + r.pwc.miss = descriptorTotal (readRecords trace) +
          2 * guestMisses .pwc2 s'.log + 2 * finalTotal (readRecords trace) ∧
        r.accs ≤ 3 * descriptorTotal (readRecords trace) + 2 * finalTotal (readRecords trace)) ∧
      Returns (tlbsimSimPwcNoept trace ntlbSize ntlbWay size way result) s fun r _ =>
        r.accs = r.pwc.miss ∧ r.pwc.hit + r.pwc.miss = descriptorTotal (readRecords trace) := by
  constructor
  · apply (tlbsimSimPwcEpt_account hway hle hsize trace ntlbSize ntlbWay result s).mono
    rintro r s' ⟨rfl, guest, ⟨_, hlookups, hguestMisses, haccs⟩, hguest⟩
    simp only
    omega
  · apply (tlbsimSimPwcNoept_account hway hle hsize trace ntlbSize ntlbWay result s).mono
    rintro r s' ⟨rfl, guest, _, hlookups, _, haccs⟩
    simp only
    omega

/-- The second record finds its first level descriptor in either mode. -/
theorem tlbsimSimPwc_accounting_sampleTrace :
    (Returns (tlbsimSimPwcEpt sampleTrace 0 0 8 4 ⟨0, ⟨0, 0⟩, ⟨0, 0⟩⟩) .initial fun r s' =>
      r.accs = r.pwc.miss ∧ r.pwc.hit + r.pwc.miss = 3 + 2 * guestMisses .pwc2 s'.log + 2) ∧
      Returns (tlbsimSimPwcNoept sampleTrace 0 0 8 4 ⟨0, ⟨0, 0⟩, ⟨0, 0⟩⟩) .initial fun r _ =>
        r.accs = r.pwc.miss ∧ r.pwc.hit + r.pwc.miss = 3 :=
  have h := tlbsimSimPwc_accounting (by decide) (by decide) (by decide) sampleTrace 0 0 _ _
  ⟨h.1.mono fun _ _ h => ⟨h.1, h.2.1⟩, h.2.mono fun _ _ h => ⟨h.1, h.2⟩⟩

/-! ## Nested TLB and page walk cache -/

/-- The books of both caches of the combined simulation. -/
structure FullLedger (s : Sim) (lookups guest debt nested nestedMisses : ℕ) : Prop where
  pwc : PwcLedger .scNtlbPwc .pwc s lookups guest debt
  fits : (s.geometry .ntlb).Fits cacheMaxEntries
  nested_eq : (s.cnt .ntlb).hit + (s.cnt .ntlb).miss = nested
  nestedMisses_eq : (s.cnt .ntlb).miss = nestedMisses

namespace FullLedger

variable {s : Sim} {lookups guest debt nested nestedMisses : ℕ}

/-- What happens in the page walk cache stays in its own books. -/
theorem of_pwc (h : FullLedger s lookups guest debt nested nestedMisses)
    {lookups' guest' debt' : ℕ} {addr asid : BitVec 32} {hit : Bool} {i : ℕ} {e : TlbEntry}
    (hpwc : PwcLedger .scNtlbPwc .pwc (s.use .pwc addr asid hit i e) lookups' guest' debt') :
    FullLedger (s.use .pwc addr asid hit i e) lookups' guest' debt' nested nestedMisses where
  pwc := hpwc
  fits := h.fits
  nested_eq := by simpa [Sim.use_cnt_of_ne] using h.nested_eq
  nestedMisses_eq := by simpa [Sim.use_cnt_of_ne] using h.nestedMisses_eq

theorem charge (h : FullLedger s lookups guest (debt + 1) nested nestedMisses) :
    FullLedger (s.access .scNtlbPwc 1) lookups guest debt nested nestedMisses :=
  ⟨h.pwc.charge, h.fits, h.nested_eq, h.nestedMisses_eq⟩

theorem use_nested_hit (h : FullLedger s lookups guest debt nested nestedMisses)
    (addr : BitVec 32) (i : ℕ) (e : TlbEntry) :
    FullLedger (s.use .ntlb addr 0#32 true i e) lookups guest debt (nested + 1) nestedMisses where
  pwc := h.pwc.use_other (by simp) _ _ _ _ _
  fits := h.fits
  nested_eq := by
    have := h.nested_eq
    simp only [Sim.use_cnt_hit, Sim.use_cnt_miss_of_hit]
    omega
  nestedMisses_eq := by simpa using h.nestedMisses_eq

theorem use_nested_miss (h : FullLedger s lookups guest debt nested nestedMisses)
    (addr : BitVec 32) (i : ℕ) (e : TlbEntry) :
    FullLedger (s.use .ntlb addr 0#32 false i e) lookups guest debt (nested + 1)
      (nestedMisses + 1) where
  pwc := h.pwc.use_other (by simp) _ _ _ _ _
  fits := h.fits
  nested_eq := by
    have := h.nested_eq
    simp only [Sim.use_cnt_miss, Sim.use_cnt_hit_of_miss]
    omega
  nestedMisses_eq := by simpa using h.nestedMisses_eq

/-- A lookup of an extended page table descriptor settles its own miss. -/
theorem ept (h : FullLedger s lookups guest debt nested nestedMisses) (addr : BitVec 32) :
    Returns (onMiss (tlbtraceRefppaPwc addr 0#32) countFull) s fun _ s' =>
      FullLedger s' (lookups + 1) guest debt nested nestedMisses := by
  apply onMiss_returns h.pwc.fits
  · intro i e
    exact h.of_pwc (h.pwc.use_hit addr 0#32 i e)
  · intro i e
    rw [countFull, Returns.modify_iff]
    exact (h.of_pwc (h.pwc.use_ept_miss addr i e)).charge

/-- The nested translation of a guest address: one lookup in the nested TLB and,
on a miss, the two descriptors of the extended page table. -/
theorem translate (h : FullLedger s lookups guest debt nested nestedMisses)
    (page gpa : BitVec 32) :
    Returns (onMiss (tlbtraceNtlbFind page) do
      onMiss (tlbtraceRefppaPwc (l1Mpa gpa) 0#32) countFull
      onMiss (tlbtraceRefppaPwc (l2Mpa gpa) 0#32) countFull) s fun _ s' =>
        ∃ missed, FullLedger s' (lookups + 2 * missed) guest debt (nested + 1)
          (nestedMisses + missed) := by
  apply onMiss_returns h.fits
  · intro i e
    exact ⟨0, h.use_nested_hit page i e⟩
  · intro i e
    rw [Returns.bind_iff]
    apply ((h.use_nested_miss page i e).ept (l1Mpa gpa)).mono
    intro _ s₁ h₁
    apply (h₁.ept (l2Mpa gpa)).mono
    intro _ s₂ h₂
    exact ⟨1, h₂⟩

end FullLedger

/-- The nested TLB is consulted for every guest miss and every final address, the
extended page table descriptors for every nested miss. -/
def FullAccount (s : Sim) (d f : ℕ) : Prop :=
  ∃ guest nestedMisses,
    FullLedger s (d + 2 * nestedMisses) guest 0 (guest + f) nestedMisses ∧ guest ≤ d

namespace FullAccount

variable {s : Sim} {d f : ℕ}

theorem descriptor (h : FullAccount s d f) (gpa : BitVec 32) :
    Returns (onMiss (tlbtraceRefppaPwc gpa 1#32) do
      onMiss (tlbtraceNtlbFind (gpa &&& 0xFFFFF000#32)) do
        onMiss (tlbtraceRefppaPwc (l1Mpa gpa) 0#32) countFull
        onMiss (tlbtraceRefppaPwc (l2Mpa gpa) 0#32) countFull
      countFull) s fun _ s' => FullAccount s' (d + 1) f := by
  obtain ⟨guest, nestedMisses, h, hguest⟩ := h
  apply onMiss_returns h.pwc.fits
  · intro i e
    refine ⟨guest, nestedMisses, ?_, by omega⟩
    convert h.of_pwc (h.pwc.use_hit gpa 1#32 i e) using 1
    omega
  · intro i e
    rw [Returns.bind_iff]
    apply ((h.of_pwc (h.pwc.use_guest_miss gpa i e)).translate _ gpa).mono
    rintro _ s₁ ⟨missed, h₁⟩
    rw [countFull, Returns.modify_iff]
    refine ⟨guest + 1, nestedMisses + missed, ?_, by omega⟩
    convert h₁.charge using 1 <;> omega

theorem final (h : FullAccount s d f) (gpa : BitVec 32) :
    Returns (onMiss (tlbtraceNtlbFind gpa) do
      onMiss (tlbtraceRefppaPwc (l1Mpa gpa) 0#32) countFull
      onMiss (tlbtraceRefppaPwc (l2Mpa gpa) 0#32) countFull) s fun _ s' =>
        FullAccount s' d (f + 1) := by
  obtain ⟨guest, nestedMisses, h, hguest⟩ := h
  apply (h.translate gpa gpa).mono
  rintro _ s₁ ⟨missed, h₁⟩
  refine ⟨guest, nestedMisses + missed, ?_, hguest⟩
  convert h₁ using 1 <;> omega

theorem record (h : FullAccount s d f) (t : TraceRecord) :
    Returns (emulateFull t.level t.l1Pa t.l2Pa t.pa) s fun _ s' =>
      FullAccount s' (d + descriptorRefs t) (f + if t.level > 2 then 1 else 0) :=
  record_returns FullAccount (fun _ _ _ h => descriptor h t.l1Pa)
    (fun _ _ _ h => descriptor h t.l2Pa) (fun _ _ _ h => final h t.pa) t h

end FullAccount

theorem tlbsimSimNtlbPwc_account {ntlbSize ntlbWay pwcSize pwcWay : ℕ}
    (hntlbWay : 1 ≤ ntlbWay) (hntlbLe : ntlbWay ≤ ntlbSize) (hntlbSize : ntlbSize ≤ 512)
    (hpwcWay : 1 ≤ pwcWay) (hpwcLe : pwcWay ≤ pwcSize) (hpwcSize : pwcSize ≤ 512)
    (trace : List (BitVec 8)) (result : SimResult) (s : Sim) :
    Returns (tlbsimSimNtlbPwc trace ntlbSize ntlbWay pwcSize pwcWay result) s fun r s' =>
      r = { result with
          accs := s'.memAccs .scNtlbPwc, ntlb := s'.cnt .ntlb, pwc := s'.cnt .pwc } ∧
        FullAccount s' (descriptorTotal (readRecords trace))
          (finalTotal (readRecords trace)) := by
  rw [tlbsimSimNtlbPwc, Returns.bind_iff, setNtlbGeometry, Returns.modify_iff, Returns.bind_iff,
    setPwcGeometry, Returns.modify_iff, Returns.bind_iff]
  have hntlb := Geometry.ofSizeWay_fits hntlbWay hntlbLe hntlbSize
  have hpwc := Geometry.ofSizeWay_fits hpwcWay hpwcLe hpwcSize
  refine Returns.mono (replay_returns FullAccount (fun _ _ _ t h => h.record t) trace
    ⟨0, 0, ⟨.start ?_, ?_, rfl, rfl⟩, le_refl 0⟩) ?_
  · exact hpwc
  · exact hntlb
  · intro _ s' haccount
    rw [Returns.bind_iff, Returns.get_iff, Returns.pure_iff]
    exact ⟨rfl, haccount⟩

/-- The combined simulation charges every page walk cache miss once, looks up
the extended page table once for every nested miss, and never costs more than
the uncached two-dimensional walk. -/
theorem tlbsimSimNtlbPwc_accounting {ntlbSize ntlbWay pwcSize pwcWay : ℕ}
    (hntlbWay : 1 ≤ ntlbWay) (hntlbLe : ntlbWay ≤ ntlbSize) (hntlbSize : ntlbSize ≤ 512)
    (hpwcWay : 1 ≤ pwcWay) (hpwcLe : pwcWay ≤ pwcSize) (hpwcSize : pwcSize ≤ 512)
    (trace : List (BitVec 8)) (result : SimResult) (s : Sim) :
    Returns (tlbsimSimNtlbPwc trace ntlbSize ntlbWay pwcSize pwcWay result) s fun r s' =>
      r.accs = r.pwc.miss ∧
        r.pwc.hit + r.pwc.miss = descriptorTotal (readRecords trace) + 2 * r.ntlb.miss ∧
        r.ntlb.hit + r.ntlb.miss = guestMisses .pwc s'.log + finalTotal (readRecords trace) ∧
        r.accs ≤ 3 * descriptorTotal (readRecords trace) +
          2 * finalTotal (readRecords trace) := by
  apply (tlbsimSimNtlbPwc_account hntlbWay hntlbLe hntlbSize hpwcWay hpwcLe hpwcSize trace result
    s).mono
  rintro r s' ⟨rfl, guest, nestedMisses, ledger, hguest⟩
  obtain ⟨⟨_, hlookups, hguestMisses, haccs⟩, _, hnested, hnestedMisses⟩ := ledger
  simp only
  omega

/-- The same trace through both caches. -/
theorem tlbsimSimNtlbPwc_accounting_sampleTrace :
    Returns (tlbsimSimNtlbPwc sampleTrace 4 2 8 4 ⟨0, ⟨0, 0⟩, ⟨0, 0⟩⟩) .initial fun r s' =>
      r.accs = r.pwc.miss ∧ r.pwc.hit + r.pwc.miss = 3 + 2 * r.ntlb.miss ∧
        r.ntlb.hit + r.ntlb.miss = guestMisses .pwc s'.log + 1 ∧ r.accs ≤ 11 :=
  tlbsimSimNtlbPwc_accounting (by decide) (by decide) (by decide) (by decide) (by decide)
    (by decide) sampleTrace _ _

end TlbAnalyzer.Simulator
