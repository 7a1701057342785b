/-
# What an entry of the page walk cache stands for

In the two simulations with an extended page table one page walk cache holds
descriptors of both tables. What tells them apart is the identifier: 1 for the
tables of the guest, 0 for those of the host. What tells two descriptors of the host
apart is their machine address, which the simulator computes as if the table of the
first level lay at address 0 with one word for each megabyte, and behind it, from
16 KB on, a table of the second level for each megabyte with one word for each page.

The layout is stated first, in natural numbers. No two of its descriptors share a
place, and the machine addresses that the simulator computes are these places, so
that no key stands for two descriptors. The rest is about runs: in every state that
one of the two simulations passes through, its page walk cache holds nothing but keys
of descriptors.
-/

import TlbAnalyzer.Simulator.Emulation
import TlbAnalyzer.Simulator.Inclusion

namespace TlbAnalyzer.Simulator

open Cache Math TraceFile

/-! ## The extended page table -/

/-- The first region of the memory layout of `tlb_trace.c`, in bytes: the 32 MB of the
hypervisor. -/
def hypervisorSize : ℕ := 32 * 1024 * 1024

/-- A descriptor of the extended page table: of the first level for a megabyte of guest
addresses, of the second for a page of them. -/
inductive EptDescriptor
  | l1 (megabyte : BitVec 12)
  | l2 (page : BitVec 20)
  deriving DecidableEq

namespace EptDescriptor

/-- Where a descriptor lies. The first table has 4096 words, each of the others 256. -/
def place : EptDescriptor → ℕ
  | l1 megabyte => megabyte.toNat * 4
  | l2 page => 16 * 1024 + page.toNat / 256 * 1024 + page.toNat % 256 * 4

/-- The first level descriptor of a guest address. -/
def l1Of (gpa : BitVec 32) : EptDescriptor := l1 (gpa.extractLsb 31 20)

/-- The second level descriptor of a guest address. -/
def l2Of (gpa : BitVec 32) : EptDescriptor := l2 (gpa.extractLsb 31 12)

/-- The whole table lies in the memory of the hypervisor. -/
theorem place_lt (d : EptDescriptor) : d.place < hypervisorSize := by
  cases d with
  | l1 megabyte =>
      have := megabyte.isLt
      rw [place, hypervisorSize]
      omega
  | l2 page =>
      have := page.isLt
      rw [place, hypervisorSize]
      omega

theorem place_l1_ne_place_l2 (megabyte : BitVec 12) (page : BitVec 20) :
    (l1 megabyte).place ≠ (l2 page).place := by
  have := megabyte.isLt
  rw [place, place]
  omega

/-- No two descriptors lie at the same place. -/
theorem place_injective : Function.Injective place := by
  intro d d' h
  cases d with
  | l1 megabyte =>
      cases d' with
      | l1 megabyte' =>
          rw [place, place] at h
          rw [BitVec.eq_of_toNat_eq (show megabyte.toNat = megabyte'.toNat by omega)]
      | l2 page' => exact absurd h (place_l1_ne_place_l2 megabyte page')
  | l2 page =>
      cases d' with
      | l1 megabyte' => exact absurd h.symm (place_l1_ne_place_l2 megabyte' page)
      | l2 page' =>
          rw [place, place] at h
          rw [BitVec.eq_of_toNat_eq (show page.toNat = page'.toNat by omega)]

end EptDescriptor

/-- The computed machine addresses are the places of the layout. -/
theorem toNat_l1Mpa_eq_place (gpa : BitVec 32) :
    (l1Mpa gpa).toNat = (EptDescriptor.l1Of gpa).place := by
  have := gpa.isLt
  rw [toNat_l1Mpa, EptDescriptor.l1Of, EptDescriptor.place, BitVec.extractLsb_toNat,
    Nat.shiftRight_eq_div_pow]
  omega

theorem toNat_l2Mpa_eq_place (gpa : BitVec 32) :
    (l2Mpa gpa).toNat = (EptDescriptor.l2Of gpa).place := by
  have := gpa.isLt
  rw [toNat_l2Mpa, EptDescriptor.l2Of, EptDescriptor.place, BitVec.extractLsb_toNat,
    Nat.shiftRight_eq_div_pow]
  omega

theorem l1Mpa_eq_iff {a b : BitVec 32} :
    l1Mpa a = l1Mpa b ↔ a.extractLsb 31 20 = b.extractLsb 31 20 := by
  rw [← BitVec.toNat_inj, toNat_l1Mpa_eq_place, toNat_l1Mpa_eq_place,
    EptDescriptor.place_injective.eq_iff, EptDescriptor.l1Of, EptDescriptor.l1Of,
    EptDescriptor.l1.injEq]

theorem l2Mpa_eq_iff {a b : BitVec 32} :
    l2Mpa a = l2Mpa b ↔ a.extractLsb 31 12 = b.extractLsb 31 12 := by
  rw [← BitVec.toNat_inj, toNat_l2Mpa_eq_place, toNat_l2Mpa_eq_place,
    EptDescriptor.place_injective.eq_iff, EptDescriptor.l2Of, EptDescriptor.l2Of,
    EptDescriptor.l2.injEq]

theorem l1Mpa_ne_l2Mpa (a b : BitVec 32) : l1Mpa a ≠ l2Mpa b := by
  intro h
  have hplace := congrArg BitVec.toNat h
  rw [toNat_l1Mpa_eq_place, toNat_l2Mpa_eq_place] at hplace
  exact EptDescriptor.place_l1_ne_place_l2 _ _ hplace

/-! ## Descriptors of both tables -/

/-- What a page walk cache is asked for: a descriptor of the extended page table, or one
of the guest's tables, which a trace names by its guest address. -/
inductive Descriptor
  | ept (d : EptDescriptor)
  | guest (gpa : BitVec 32)
  deriving DecidableEq

namespace Descriptor

/-- The key under which a descriptor is cached. -/
def key : Descriptor → Key
  | ept d => (BitVec.ofNat 32 d.place, 0#32)
  | guest gpa => (gpa, 1#32)

theorem key_ept_l1Of (gpa : BitVec 32) : (ept (.l1Of gpa)).key = (l1Mpa gpa, 0#32) := by
  rw [key, ← toNat_l1Mpa_eq_place, BitVec.ofNat_toNat, BitVec.setWidth_eq]

theorem key_ept_l2Of (gpa : BitVec 32) : (ept (.l2Of gpa)).key = (l2Mpa gpa, 0#32) := by
  rw [key, ← toNat_l2Mpa_eq_place, BitVec.ofNat_toNat, BitVec.setWidth_eq]

/-- No key stands for two descriptors. -/
theorem key_injective : Function.Injective key := by
  intro d d' h
  have haddr := congrArg Prod.fst h
  have hasid := congrArg Prod.snd h
  cases d with
  | ept d =>
      cases d' with
      | ept d' =>
          have hlt := d.place_lt
          have hlt' := d'.place_lt
          have hplace := congrArg BitVec.toNat haddr
          rw [hypervisorSize] at hlt hlt'
          rw [key, key, BitVec.toNat_ofNat, BitVec.toNat_ofNat] at hplace
          rw [EptDescriptor.place_injective (show d.place = d'.place by omega)]
      | guest gpa' =>
          have htag : (0#32 : BitVec 32) = 1#32 := hasid
          exact absurd htag (by decide)
  | guest gpa =>
      cases d' with
      | ept d' =>
          have htag : (1#32 : BitVec 32) = 0#32 := hasid
          exact absurd htag (by decide)
      | guest gpa' => exact congrArg guest haddr

/-- The descriptors of the extended page table that translate a guest address. -/
def translating (gpa : BitVec 32) : List Descriptor := [.ept (.l1Of gpa), .ept (.l2Of gpa)]

end Descriptor

/-- The descriptors that the walk of a trace record goes through, in both tables. -/
def descriptorsOf (t : TraceRecord) : List Descriptor :=
  (guestDescriptors t).map .guest ++ (translated t).flatMap Descriptor.translating

section

variable {t : TraceRecord} {gpa : BitVec 32}

theorem guest_mem_descriptorsOf (h : gpa ∈ guestDescriptors t) : .guest gpa ∈ descriptorsOf t :=
  List.mem_append_left _ (List.mem_map_of_mem h)

theorem l1Of_mem_descriptorsOf (h : gpa ∈ translated t) :
    .ept (.l1Of gpa) ∈ descriptorsOf t :=
  List.mem_append_right _ (List.mem_flatMap.mpr ⟨gpa, h, List.mem_cons_self⟩)

theorem l2Of_mem_descriptorsOf (h : gpa ∈ translated t) :
    .ept (.l2Of gpa) ∈ descriptorsOf t :=
  List.mem_append_right _
    (List.mem_flatMap.mpr ⟨gpa, h, List.mem_cons_of_mem _ List.mem_cons_self⟩)

end

/-! ## What the cache holds -/

/-- The two simulations with an extended page table. -/
inductive EptMode
  | pwcEpt | ntlbPwc
  deriving DecidableEq

namespace EptMode

/-- The command that runs it. -/
def cmd : EptMode → SimCmd
  | pwcEpt => .scPwcEpt
  | ntlbPwc => .scNtlbPwc

/-- Its page walk cache. -/
def pwc : EptMode → CacheName
  | pwcEpt => .pwc2
  | ntlbPwc => .pwc

variable {mode : EptMode}

theorem isPwc_pwc (mode : EptMode) : mode.pwc.isPwc = true := by
  cases mode <;> rfl

variable (mode) in
/-- Every entry of the page walk cache was flushed, or holds the key of a descriptor that
the walk of some record goes through. -/
def Caches (records : List TraceRecord) (s : Sim) : Prop :=
  ∀ i < cacheMaxEntries, mode.pwc.keyOf (s.tlb mode.pwc i) = emptyKey ∨
    ∃ t ∈ records, ∃ d ∈ descriptorsOf t, mode.pwc.keyOf (s.tlb mode.pwc i) = d.key

namespace Caches

variable {records : List TraceRecord} {s : Sim}

theorem start (z : Sizes) (s : Sim) : mode.Caches records (mode.cmd.start z s) := by
  intro i hi
  left
  have hflushed : (mode.cmd.start z s).tlb mode.pwc i = flushedEntry := if_pos hi
  rw [hflushed]
  cases mode <;> rfl

/-- A lookup of a descriptor of the records, or in another cache. -/
theorem lookup (h : mode.Caches records s) {c : CacheName} {addr asid : BitVec 32}
    (hkey : c = mode.pwc → ∃ t ∈ records, ∃ d ∈ descriptorsOf t, d.key = (addr, asid)) :
    Ensures (Simulator.lookup c addr asid) s fun _ s' => mode.Caches records s' := by
  refine (lookup_ensures c addr asid s).mono fun hit s' hused => ?_
  rcases hused with ⟨i, e, rfl, he⟩
  intro j hj
  rcases CacheName.keyOf_use s c addr asid hit i e mode.pwc j with hkept | ⟨hc, rfl, hnew⟩
  · rw [hkept]
    exact h j hj
  · rw [hnew]
    subst hc
    rcases he with rfl | rfl
    · exact h j hj
    · right
      rcases hkey rfl with ⟨t, ht, d, hd, hkey⟩
      refine ⟨t, ht, d, hd, ?_⟩
      rw [CacheName.keyOf_refill, hkey, CacheName.key, if_pos (isPwc_pwc mode)]

theorem perform (h : mode.Caches records s) {t : TraceRecord} (ht : t ∈ records)
    {action : SimAction} (hperforms : mode.cmd.Performs t action) :
    Ensures action.perform s fun _ s' => mode.Caches records s' := by
  have hother : ∀ {c : CacheName}, c.isPwc = false → c ≠ mode.pwc := by
    intro c hntlb hc
    rw [hc, isPwc_pwc] at hntlb
    cases hntlb
  cases hperforms with
  | access n =>
      rw [perform_access_ensures_iff]
      exact h
  | guest _ _ hgpa =>
      exact h.lookup fun _ => ⟨t, ht, _, guest_mem_descriptorsOf hgpa, rfl⟩
  | l1 _ _ hgpa =>
      exact h.lookup fun _ => ⟨t, ht, _, l1Of_mem_descriptorsOf hgpa, Descriptor.key_ept_l1Of _⟩
  | l2 _ _ hgpa =>
      exact h.lookup fun _ => ⟨t, ht, _, l2Of_mem_descriptorsOf hgpa, Descriptor.key_ept_l2Of _⟩
  | page _ hntlb _ => exact h.lookup fun hc => absurd hc (hother hntlb)
  | final _ hntlb _ => exact h.lookup fun hc => absurd hc (hother hntlb)

end Caches

/-- The caches hold nothing else in any state that a simulation passes through. -/
theorem caches_of_reaches {z : Sizes} {trace : List (BitVec 8)} {s : Sim}
    {config : List (Script SimAction) × Sim} (h : mode.cmd.Reaches z trace s config) :
    mode.Caches (readRecords trace) config.2 :=
  h.invariant (fun _ ht _ hperforms _ hs => hs.perform ht hperforms) (Caches.start z s)

end EptMode

/-- An entry that holds another key than the one a flush leaves. -/
def EntryValid (e : TlbEntry) : Prop := (e.va, e.asid) ≠ emptyKey

instance (e : TlbEntry) : Decidable (EntryValid e) := inferInstanceAs (Decidable (_ ≠ _))

/-- An entry stands for the descriptor whose key it holds. -/
def Denotes (e : TlbEntry) (d : Descriptor) : Prop := (e.va, e.asid) = d.key

theorem Denotes.unique {e : TlbEntry} {d d' : Descriptor} (h : Denotes e d)
    (h' : Denotes e d') : d' = d :=
  Descriptor.key_injective (h'.symm.trans h)

theorem Denotes.asid_eq {e : TlbEntry} {d : Descriptor} (h : Denotes e d) :
    e.asid = d.key.2 := congrArg Prod.snd h

/-- A valid entry, in any state that a simulation passes through. -/
theorem exists_denotes_of_reaches {mode : EptMode} {z : Sizes} {trace : List (BitVec 8)} {s : Sim}
    {config : List (Script SimAction) × Sim} (h : mode.cmd.Reaches z trace s config) {i : ℕ}
    (hi : i < cacheMaxEntries) (hvalid : EntryValid (config.2.tlb mode.pwc i)) :
    ∃ t ∈ readRecords trace, ∃ d ∈ descriptorsOf t, Denotes (config.2.tlb mode.pwc i) d := by
  have hkey : ∀ e : TlbEntry, mode.pwc.keyOf e = (e.va, e.asid) := by
    intro e
    rw [CacheName.keyOf, CacheName.key, if_pos (EptMode.isPwc_pwc mode)]
  rcases EptMode.caches_of_reaches h i hi with hempty | hheld
  · rw [hkey] at hempty
    exact absurd hempty hvalid
  · rw [hkey] at hheld
    exact hheld

/-- The machine addresses of the extended page table never collide, so that in every
state of the two simulations every valid entry of the page walk cache stands for one
descriptor, of the table that its identifier says. -/
theorem eptDescriptors_never_alias :
    (∀ a b : BitVec 32,
      (l1Mpa a).toNat = a.toNat / 2 ^ 20 * 4 ∧
      (l2Mpa a).toNat =
        16 * 1024 + a.toNat / 2 ^ 20 * 1024 + a.toNat / 2 ^ 12 % 2 ^ 8 * 4 ∧
      (l1Mpa a = l1Mpa b ↔ a.extractLsb 31 20 = b.extractLsb 31 20) ∧
      (l2Mpa a = l2Mpa b ↔ a.extractLsb 31 12 = b.extractLsb 31 12) ∧
      l1Mpa a ≠ l2Mpa b ∧
      (l1Mpa a).toNat < hypervisorSize ∧ (l2Mpa a).toNat < hypervisorSize) ∧
    ∀ (mode : EptMode) (z : Sizes) (trace : List (BitVec 8)) (s : Sim)
      (config : List (Script SimAction) × Sim), mode.cmd.Reaches z trace s config →
      ∀ i < cacheMaxEntries, EntryValid (config.2.tlb mode.pwc i) →
        (∃! d : Descriptor, Denotes (config.2.tlb mode.pwc i) d) ∧
        ((config.2.tlb mode.pwc i).asid = 0#32 ∧
            (∃ t ∈ readRecords trace, ∃ d : EptDescriptor, .ept d ∈ descriptorsOf t ∧
              Denotes (config.2.tlb mode.pwc i) (.ept d)) ∨
          (config.2.tlb mode.pwc i).asid = 1#32 ∧
            (∃ t ∈ readRecords trace, ∃ gpa : BitVec 32, .guest gpa ∈ descriptorsOf t ∧
              Denotes (config.2.tlb mode.pwc i) (.guest gpa))) := by
  constructor
  · intro a b
    refine ⟨toNat_l1Mpa a, toNat_l2Mpa a, l1Mpa_eq_iff, l2Mpa_eq_iff, l1Mpa_ne_l2Mpa a b, ?_, ?_⟩
    · rw [toNat_l1Mpa_eq_place]
      exact EptDescriptor.place_lt _
    · rw [toNat_l2Mpa_eq_place]
      exact EptDescriptor.place_lt _
  · intro mode z trace s config hreaches i hi hvalid
    rcases exists_denotes_of_reaches hreaches hi hvalid with ⟨t, ht, d, hd, hdenotes⟩
    refine ⟨⟨d, hdenotes, fun d' hd' => hdenotes.unique hd'⟩, ?_⟩
    cases d with
    | ept d => exact Or.inl ⟨hdenotes.asid_eq, t, ht, d, hd, hdenotes⟩
    | guest gpa => exact Or.inr ⟨hdenotes.asid_eq, t, ht, gpa, hd, hdenotes⟩

/-- After the sample trace the page walk cache holds descriptors of both tables. -/
theorem eptDescriptors_never_alias_sampleTrace :
    Returns (funcs .scNtlbPwc sampleTrace 4 2 4 2 .zero) .initial fun _ s' =>
      (EntryValid (s'.tlb .pwc 0) ∧ (s'.tlb .pwc 0).asid = 0#32 ∧
        ∃! d : Descriptor, Denotes (s'.tlb .pwc 0) d) ∧
      EntryValid (s'.tlb .pwc 2) ∧ (s'.tlb .pwc 2).asid = 1#32 ∧
        ∃! d : Descriptor, Denotes (s'.tlb .pwc 2) d := by
  have hheld : Returns (funcs .scNtlbPwc sampleTrace 4 2 4 2 .zero) .initial fun _ s' =>
      (EntryValid (s'.tlb .pwc 0) ∧ (s'.tlb .pwc 0).asid = 0#32) ∧
        EntryValid (s'.tlb .pwc 2) ∧ (s'.tlb .pwc 2).asid = 1#32 := by
    decide +kernel
  rcases hheld with ⟨result, s', hrun, hept, hguest⟩
  have hreaches : SimCmd.scNtlbPwc.Reaches ⟨4, 2, 4, 2⟩ sampleTrace .initial ([], s') :=
    (funcs_returns_iff_reaches .scNtlbPwc ⟨4, 2, 4, 2⟩ sampleTrace .zero .initial s').mp
      ⟨result, s', hrun, rfl⟩
  have hone := eptDescriptors_never_alias.2 .ntlbPwc ⟨4, 2, 4, 2⟩ sampleTrace .initial _ hreaches
  refine ⟨result, s', hrun, ⟨hept.1, hept.2, ?_⟩, hguest.1, hguest.2, ?_⟩
  · exact (hone 0 (by decide) hept.1).1
  · exact (hone 2 (by decide) hguest.1).1

end TlbAnalyzer.Simulator
