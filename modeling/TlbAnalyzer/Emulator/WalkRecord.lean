/-
# What the record of a walk says

The tracer records a miss with the helper `get_ptes`: the page address joined with the
result of the walk, the addresses of the descriptors, and the physical page. This
module compares two of these words with what the emulator's own walk found for the
same address: the physical page, and the bit that the trace format reserves for page
faults.
-/

import TlbAnalyzer.Emulator.TableWalk
import TlbAnalyzer.Emulator.Maintenance
import TlbAnalyzer.Tracer.Recording

namespace TlbAnalyzer.Emulator

open Math Tracer

section

variable {env : CPUState} {mem : BitVec 32 → BitVec 32} {address : BitVec 32}

/-! ## The physical page -/

/-- When the access is permitted, the address is the one the descriptor gave. -/
theorem Checked.physPtr_eq {domain phys : BitVec 32} {result : PhysResult}
    (h : Checked 15#32 domain phys result) (hret : result.ret = 0#32) : result.physPtr = phys := by
  cases h with
  | permitted _ hphys => exact hphys
  | fault out code' hcode hresult =>
      rw [hresult] at hret
      rcases hcode with rfl | rfl
      · exact absurd hret (ret_doFault_ne_zero out (by decide) domain)
      · exact absurd hret (ret_doFault_ne_zero out (by decide) domain)

/-- The tracer takes the page from the descriptor alone. -/
theorem PteExit.gpa_eq {l2 gpa : BitVec 32} {recorded : PteResult} {reads : List (BitVec 32)}
    (h : PteExit env mem address l2 gpa recorded reads)
    (hgoes : ¬ EndsWalk env (l1Desc env mem address))
    (hvalid : mem (l2Table env mem address) &&& 3#32 ≠ 0#32) :
    recorded.gpa = mem (l2Table env mem address) &&& 0xFFFFF000#32 := by
  cases h with
  | ends hends => exact absurd hends hgoes
  | fault _ hfault => exact absurd hfault hvalid
  | page _ _ => rfl

/-- The page of a small page is in the descriptor. Of a large page the descriptor has
16 bits, and the other four are those of the address. -/
theorem page_eq_iff (desc address : BitVec 32) :
    desc &&& 0xFFFFF000#32 = pageAddress desc address &&& 0xFFFFF000#32 ↔
      (desc &&& 3#32 = 1#32 → desc &&& 0xF000#32 = address &&& 0xF000#32) := by
  by_cases hlarge : desc &&& 3#32 = 1#32
  · have hpage : pageAddress desc address &&& 0xFFFFF000#32 =
        (desc &&& 0xFFFF0000#32) ||| (address &&& 0xF000#32) := by
      rw [pageAddress, if_pos hlarge, BitVec.and_or_distrib_right, BitVec.and_assoc,
        BitVec.and_assoc]
      rfl
    have hdesc : desc &&& 0xFFFFF000#32 = (desc &&& 0xFFFF0000#32) ||| (desc &&& 0xF000#32) := by
      rw [← BitVec.and_or_distrib_left]
      rfl
    -- the low four bits of the page number are not in the part the two share
    have hlow : ∀ word : BitVec 32,
        ((desc &&& 0xFFFF0000#32) ||| (word &&& 0xF000#32)) &&& 0xF000#32 = word &&& 0xF000#32 := by
      intro word
      rw [BitVec.and_or_distrib_right, BitVec.and_assoc, BitVec.and_assoc]
      show (desc &&& 0#32) ||| (word &&& 0xF000#32) = _
      rw [BitVec.and_zero, BitVec.zero_or]
    rw [hpage, hdesc]
    constructor
    · intro heq _
      rw [← hlow desc, heq, hlow address]
    · intro heq
      rw [heq hlarge]
  · have hpage : pageAddress desc address &&& 0xFFFFF000#32 = desc &&& 0xFFFFF000#32 := by
      rw [pageAddress, if_neg hlarge, BitVec.and_or_distrib_right, BitVec.and_assoc,
        BitVec.and_assoc]
      show (desc &&& 0xFFFFF000#32) ||| (address &&& 0#32) = _
      rw [BitVec.and_zero, BitVec.or_zero]
    rw [hpage]
    exact ⟨fun _ h => absurd h hlarge, fun _ => rfl⟩

end

/-- In a walk that succeeds through a second level descriptor, the tracer records the
page of the emulator's physical address if and only if the descriptor is one of a
small page, or bits 15 to 12 of the descriptor are those of the address. -/
theorem getPtes_gpa_iff (env : CPUState) (mem : BitVec 32 → BitVec 32)
    (address l2 gpa : BitVec 32) (accessType : Int) (isUser : Bool) (out : PhysResult) :
    Returns (getPtes env mem address l2 gpa) [] fun recorded _ =>
      Returns (getPhysAddrV6 env mem address accessType isUser out) [] fun result reads =>
        result.ret = 0#32 → reads.length = 2 →
          (recorded.gpa = result.physPtr &&& 0xFFFFF000#32 ↔
            (mem (l2Table env mem address) &&& 3#32 = 1#32 →
              mem (l2Table env mem address) &&& 0xF000#32 = address &&& 0xF000#32)) := by
  apply (getPtes_exits l2 gpa).mono
  intro recorded _ hrecorded
  apply (getPhysAddrV6_exits out).mono
  intro result reads hwalk hret hlength
  -- only a valid second level descriptor gives two reads and no fault
  cases hwalk with
  | invalid _ => cases hlength
  | noAccess _ => cases hlength
  | ofSection _ _ _ => cases hlength
  | fault _ _ => exact absurd hret (ret_doFault_ne_zero out (by decide) _)
  | ofPage hgoes hvalid hchecked =>
      rw [hrecorded.gpa_eq hgoes hvalid, hchecked.physPtr_eq hret]
      exact page_eq_iff _ _

/-- Tables that map the second page through one second level descriptor. -/
def sampleTables (desc : BitVec 32) (addr : BitVec 32) : BitVec 32 :=
  if addr = 0x4000#32 then 0x8001#32 else if addr = 0x8004#32 then desc else 0#32

/-- A small page: both walks give the same page. -/
theorem getPtes_gpa_iff_smallPage :
    Returns (getPtes sampleMachine.env (sampleTables 0x200032#32) 0x1000#32 0#32 0#32) []
      fun recorded _ =>
        Returns (getPhysAddrV6 sampleMachine.env (sampleTables 0x200032#32) 0x1000#32 0 true
          ⟨0#32, 0#32, 0#32, 0#32⟩) [] fun result reads =>
            result.ret = 0#32 ∧ reads.length = 2 ∧
              recorded.gpa = result.physPtr &&& 0xFFFFF000#32 := by
  have hagree := getPtes_gpa_iff sampleMachine.env (sampleTables 0x200032#32) 0x1000#32 0#32 0#32 0
    true ⟨0#32, 0#32, 0#32, 0#32⟩
  have hsucceeds : Returns (getPhysAddrV6 sampleMachine.env (sampleTables 0x200032#32) 0x1000#32 0
      true ⟨0#32, 0#32, 0#32, 0#32⟩) [] fun result reads =>
        result.ret = 0#32 ∧ reads.length = 2 := by
    decide +kernel
  apply hagree.mono
  intro recorded _ hwalk
  apply (hsucceeds.and_ensures hwalk.ensures).mono
  rintro result reads ⟨⟨hret, hlength⟩, hiff⟩
  exact ⟨hret, hlength, (hiff hret hlength).mpr fun hlarge => absurd hlarge (by decide +kernel)⟩

/-- A large page: the address is in its second 4 KB, the page that is recorded is its
first. -/
theorem getPtes_gpa_largePage :
    Returns (getPtes sampleMachine.env (sampleTables 0x200031#32) 0x1000#32 0#32 0#32) []
      fun recorded _ =>
        Returns (getPhysAddrV6 sampleMachine.env (sampleTables 0x200031#32) 0x1000#32 0 true
          ⟨0#32, 0#32, 0#32, 0#32⟩) [] fun result reads =>
            result.ret = 0#32 ∧ reads.length = 2 ∧
              recorded.gpa = 0x200000#32 ∧ result.physPtr &&& 0xFFFFF000#32 = 0x201000#32 := by
  decide +kernel

/-! ## The fault bit -/

/-- A page fault of the emulator's walk: a translation fault of either level, or a
domain fault. -/
def PhysResult.PageFault (result : PhysResult) : Prop :=
  result.code = 5#32 ∨ result.code = 7#32 ∨ result.code = 9#32 ∨ result.code = 11#32

instance (result : PhysResult) : Decidable result.PageFault :=
  inferInstanceAs (Decidable (_ ∨ _))

/-- A first level descriptor that faults: it is not valid, or its domain is not
accessible. -/
def FirstLevelFault (env : CPUState) (desc : BitVec 32) : Prop :=
  (desc &&& 3#32 = 0#32 ∨ desc &&& 3#32 = 3#32) ∨
    domainOf env desc = 0#32 ∨ domainOf env desc = 2#32

section

variable {env : CPUState} {mem : BitVec 32 → BitVec 32} {address : BitVec 32}

/-- A walk that ends at the first level has a page fault unless it found a section. -/
theorem WalkExit.pageFault_iff {out result : PhysResult} {reads : List (BitVec 32)}
    (h : WalkExit env mem address out result reads)
    (hends : EndsWalk env (l1Desc env mem address)) :
    result.PageFault ↔ FirstLevelFault env (l1Desc env mem address) := by
  cases h with
  | invalid h => exact ⟨fun _ => Or.inl h, fun _ => Or.inl (code_doFault out _ _)⟩
  | noAccess h =>
      refine ⟨fun _ => Or.inr h, fun _ => Or.inr (Or.inr ?_)⟩
      rw [code_doFault]
      split
      · exact Or.inl rfl
      · exact Or.inr rfl
  | ofSection hdomain htype hchecked =>
      rcases hchecked.code_ne (Or.inl rfl) with ⟨hfive, hseven, hnine, heleven⟩
      constructor
      · intro hfault
        rcases hfault with hcode | hcode | hcode | hcode
        · exact absurd hcode hfive
        · exact absurd hcode hseven
        · exact absurd hcode hnine
        · exact absurd hcode heleven
      · intro hfault
        rcases hfault with hinvalid | hnoAccess
        · rw [htype] at hinvalid
          exact absurd hinvalid (by decide)
        · exact absurd hnoAccess hdomain
  | fault hgoes _ => exact absurd hends hgoes
  | ofPage hgoes _ _ => exact absurd hends hgoes

/-- The helper of the tracer reports a walk. -/
theorem pteHelper_reported (machine : Machine) (address : BitVec 32) :
    ∃ reads, Reported machine.env machine.mem address (pteHelper machine address) reads := by
  have hreturns : Returns (getPtes machine.env machine.mem address 0#32 0#32) []
      (Reported machine.env machine.mem address) := getPtes_returns 0#32 0#32
  rcases hreturns with ⟨result, reads, hrun, hreported⟩
  exists reads
  rw [pteHelper, hrun]
  exact hreported

/-- A word in the buffer stays there when the next ones are added behind it. -/
theorem pushWord_behind {α : Type} {s : Globals α} {i : ℕ} {word : BitVec 32}
    (h : ∃ words, s.fbuf = .live words ∧ words i = word) (hi : i < s.fbc)
    (hroom : s.fbc < fbufWords) (next : BitVec 32) :
    Returns (pushWord next) s fun _ s' =>
      (∃ words, s'.fbuf = .live words ∧ words i = word) ∧ s'.fbc = s.fbc + 1 := by
  rcases h with ⟨words, hfbuf, hword⟩
  rw [Returns.iff_of_run (pushWord_run hfbuf hroom next)]
  refine ⟨⟨_, rfl, ?_⟩, rfl⟩
  rw [Function.update_of_ne hi.ne, hword]

/-- The first word of a record stays in the buffer, also when the record fills it. -/
theorem tlbtraceRefmemPwc_first_word {α : Type} {s : Globals α} {words : ℕ → BitVec 32}
    (hfbuf : s.fbuf = .live words) (hroom : s.fbc + 4 ≤ fbufWords) (addr : BitVec 32) (arg : α) :
    Returns (tlbtraceRefmemPwc addr arg) s fun _ s' =>
      ∃ words', s'.fbuf = .live words' ∧ words' s.fbc = addr ||| (s.myPteHelper arg addr).ret := by
  simp only [tlbtraceRefmemPwc, Returns.bind_iff, Returns.get_iff]
  have hpush := pushWord_run hfbuf (by omega) (addr ||| (s.myPteHelper arg addr).ret)
  rw [Returns.iff_of_run hpush]
  have hfirst : Function.update words s.fbc (addr ||| (s.myPteHelper arg addr).ret) s.fbc =
      addr ||| (s.myPteHelper arg addr).ret := Function.update_self _ _ _
  apply (pushWord_behind ⟨_, rfl, hfirst⟩ (Nat.lt_succ_self _)
    (by show s.fbc + 1 < _; omega) _).mono
  rintro _ s₂ ⟨h₂, hfbc₂⟩
  change s₂.fbc = s.fbc + 1 + 1 at hfbc₂
  apply (pushWord_behind h₂ (by omega) (by omega) _).mono
  rintro _ s₃ ⟨h₃, hfbc₃⟩
  apply (pushWord_behind h₃ (by omega) (by omega) _).mono
  rintro _ s₄ ⟨h₄, _⟩
  split
  · rcases h₄ with ⟨words', hfbuf', hword⟩
    rw [Returns.bind_iff, writeBuffer_returns_iff hfbuf', Returns.modify_iff]
    refine ⟨words', ?_, hword⟩
    rw [Globals.appendFile_fbuf]
    exact hfbuf'
  · rw [Returns.pure_iff]
    exact h₄

/-- The page address has no bit in common with the result of the walk. -/
theorem pageOf_or_and_one (addr ret : BitVec 32) :
    (pageOf addr ||| ret) &&& 1#32 = ret &&& 1#32 := by
  have hpage : pageOf addr &&& 1#32 = 0#32 := by
    rw [pageOf, BitVec.and_assoc]
    exact BitVec.and_zero
  rw [BitVec.and_or_distrib_right, hpage, BitVec.zero_or]

end

/-- In the record of a walk the lowest bit of the first word tells whether the walk
ended in a page fault if and only if the first level descriptor faults. In the other
cases it says the opposite: it is set for a section and for a walk that is complete,
and not set for a fault of the second level. -/
theorem tlbtraceRefmemPwc_lsb_iff (machine : Machine) (addr : BitVec 32) (accessType : Int)
    (isUser : Bool) (out : PhysResult) {s : Globals Machine} {words : ℕ → BitVec 32}
    (hhelper : s.myPteHelper = pteHelper) (hfbuf : s.fbuf = .live words)
    (hroom : s.fbc + 4 ≤ fbufWords) :
    Returns (tlbtraceRefmemPwc (pageOf addr) machine) s fun _ s' =>
      ∃ words', s'.fbuf = .live words' ∧
        Returns (getPhysAddrV6 machine.env machine.mem (pageOf addr) accessType isUser out) []
          fun result _ => ((words' s.fbc &&& 1#32 = 1#32 ↔ result.PageFault) ↔
            FirstLevelFault machine.env (l1Desc machine.env machine.mem (pageOf addr))) := by
  rcases pteHelper_reported machine (pageOf addr) with ⟨_, hreported⟩
  apply (tlbtraceRefmemPwc_first_word hfbuf hroom (pageOf addr) machine).mono
  rintro _ s' ⟨words', hfbuf', hword⟩
  refine ⟨words', hfbuf', ?_⟩
  rw [hword, hhelper, pageOf_or_and_one]
  by_cases hends : EndsWalk machine.env (l1Desc machine.env machine.mem (pageOf addr))
  · have hbit : (pteHelper machine (pageOf addr)).ret &&& 1#32 = 1#32 := by
      rw [(hreported.ends hends).1]
      rfl
    apply (getPhysAddrV6_exits out).mono
    intro result _ hresult
    rw [← hresult.pageFault_iff hends]
    exact ⟨fun h => h.mp hbit, fun hfault => ⟨fun _ => hfault, fun _ => hbit⟩⟩
  · have hnone : ¬ FirstLevelFault machine.env (l1Desc machine.env machine.mem (pageOf addr)) :=
      fun h => hends (h.imp_right Or.inl)
    have hret := (hreported.goes_on hends).1
    have hwalked : Returns
        (getPhysAddrV6 machine.env machine.mem (pageOf addr) accessType isUser out) []
        (Walked machine.env machine.mem (pageOf addr)) := getPhysAddrV6_returns out
    apply hwalked.mono
    intro result _ hresult
    rcases hresult.goes_on hends with ⟨-, hseven, hfive, hnine, heleven⟩
    refine ⟨fun hagree => absurd hagree ?_, fun h => absurd h hnone⟩
    by_cases hfault : machine.mem (l2Table machine.env machine.mem (pageOf addr)) &&& 3#32 = 0#32
    · rw [hret, if_pos hfault]
      exact fun hagree => absurd (hagree.mpr (Or.inr (Or.inl (hseven.mpr hfault)))) (by decide)
    · rw [hret, if_neg hfault]
      intro hagree
      rcases hagree.mp (by decide) with hcode | hcode | hcode | hcode
      · exact hfive hcode
      · exact hfault (hseven.mp hcode)
      · exact hnine hcode
      · exact heleven hcode

/-- A tracer of the emulator with an empty record buffer. -/
def sampleRecorder : Globals Machine :=
  { sampleEmulator with fbuf := .live fun _ => 0#32 }

/-- A first level descriptor that is not valid: the bit is set. -/
theorem tlbtraceRefmemPwc_lsb_iff_sampleMachine :
    Returns (tlbtraceRefmemPwc (pageOf 0x1234#32) sampleMachine) sampleRecorder fun _ s' =>
      ∃ words', s'.fbuf = .live words' ∧
        Returns (getPhysAddrV6 sampleMachine.env sampleMachine.mem (pageOf 0x1234#32) 0 true
          ⟨0#32, 0#32, 0#32, 0#32⟩) [] fun result _ =>
            (words' 0 &&& 1#32 = 1#32 ↔ result.PageFault) := by
  have hfaults : FirstLevelFault sampleMachine.env
      (l1Desc sampleMachine.env sampleMachine.mem (pageOf 0x1234#32)) :=
    Or.inl (Or.inl (by decide +kernel))
  apply (tlbtraceRefmemPwc_lsb_iff (s := sampleRecorder) sampleMachine 0x1234#32 0 true
    ⟨0#32, 0#32, 0#32, 0#32⟩ rfl rfl (by decide)).mono
  rintro _ s' ⟨words', hfbuf', hwalk⟩
  refine ⟨words', hfbuf', hwalk.mono fun result _ hiff => ?_⟩
  exact hiff.mpr hfaults

/-- The first word of a buffer. -/
def Buffer.first : Buffer → Option (BitVec 32)
  | .live words => some (words 0)
  | .null | .freed => none

/-- A complete walk of a small page: there is no fault, and the bit is set. -/
theorem lsb_smallPage :
    Returns (tlbtraceRefmemPwc (pageOf 0x1234#32)
        { sampleMachine with mem := sampleTables 0x200032#32 }) sampleRecorder fun _ s' =>
      Buffer.first s'.fbuf = some 0x1003#32 ∧
        Returns (getPhysAddrV6 sampleMachine.env (sampleTables 0x200032#32) (pageOf 0x1234#32) 0
          true ⟨0#32, 0#32, 0#32, 0#32⟩) [] fun result _ => ¬ result.PageFault := by
  decide +kernel

end TlbAnalyzer.Emulator
