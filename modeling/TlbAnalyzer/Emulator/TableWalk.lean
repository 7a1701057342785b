/-
# The tracer's table walk against the emulator's

`get_ptes` is a copy of the first half of `get_phys_addr_v6`, with the checks of the
access permissions left out and the exit for a section moved up. It reads the same
descriptors, in the same order, and its result tells how far the emulator's walk got:
to the first level only, to a second level descriptor that is not valid, or to one
that is.
-/

import TlbAnalyzer.Emulator.Program
import TlbAnalyzer.Math.Contracts

namespace TlbAnalyzer.Emulator

open Math Tracer

/-! ## The two levels -/

/-- The domain of a first level descriptor, as the access control register has it. -/
def domainOf (env : CPUState) (desc : BitVec 32) : BitVec 32 :=
  (env.c3 >>> (if desc &&& 3#32 = 2#32 ∧ desc &&& (1#32 <<< 18) ≠ 0#32 then 0#32
    else (desc >>> 4) &&& 0x1E#32)) &&& 3#32

/-- A first level descriptor ends the walk: it is not valid, its domain is not
accessible, or it maps a section. -/
def EndsWalk (env : CPUState) (desc : BitVec 32) : Prop :=
  (desc &&& 3#32 = 0#32 ∨ desc &&& 3#32 = 3#32) ∨
    (domainOf env desc = 0#32 ∨ domainOf env desc = 2#32) ∨ desc &&& 3#32 = 2#32

/-- The second level descriptor that a first level descriptor leads to. -/
def l2TableAddress (desc address : BitVec 32) : BitVec 32 :=
  (desc &&& 0xFFFFFC00#32) ||| ((address >>> 10) &&& 0x3FC#32)

/-- The fault code in the result of `get_phys_addr_v6`, 0 for an access that is
permitted. -/
def PhysResult.code (result : PhysResult) : BitVec 32 := result.ret &&& 0xF#32

theorem ldlPhys_returns_iff {mem : BitVec 32 → BitVec 32} {addr : BitVec 32}
    {reads : List (BitVec 32)} {post : BitVec 32 → List (BitVec 32) → Prop} :
    Returns (ldlPhys mem addr) reads post ↔ post (mem addr) (reads ++ [addr]) := by
  rw [ldlPhys, Returns.bind_iff, Returns.modify_iff, Returns.pure_iff]

/-- The domain stands beside the code, not in it. -/
theorem code_doFault (out : PhysResult) (code domain : BitVec 32) :
    (doFault out code domain).code = code &&& 0xF#32 := by
  have hdomain : (domain <<< 4) &&& 0xF#32 = 0#32 := by
    have hmask : (0xF#32).toNat = 2 ^ 4 - 1 := rfl
    apply BitVec.eq_of_toNat_eq
    rw [BitVec.toNat_and, BitVec.toNat_shiftLeft, hmask, Nat.and_two_pow_sub_one_eq_mod,
      Nat.shiftLeft_eq]
    show _ = 0
    omega
  show (code ||| domain <<< 4) &&& 0xF#32 = _
  rw [BitVec.and_or_distrib_right, hdomain, BitVec.or_zero]

/-- Every fault has a code. -/
theorem ret_doFault_ne_zero (out : PhysResult) {code : BitVec 32} (hcode : code &&& 0xF#32 ≠ 0#32)
    (domain : BitVec 32) : (doFault out code domain).ret ≠ 0#32 := by
  intro hret
  apply hcode
  rw [← code_doFault out code domain, PhysResult.code, hret]
  exact BitVec.zero_and

/-! ## The emulator's walk -/

/-- Three bits of access permissions are always one of the cases. -/
theorem toNat_ap_le (low high : BitVec 32) : ((low &&& 3#32) ||| (high &&& 4#32)).toNat < 8 := by
  rw [BitVec.toNat_or, BitVec.toNat_and, BitVec.toNat_and]
  apply Nat.or_lt_two_pow (n := 3)
  · exact lt_of_le_of_lt Nat.and_le_right (by decide)
  · exact lt_of_le_of_lt Nat.and_le_right (by decide)

section

variable {env : CPUState} {mem : BitVec 32 → BitVec 32} {address : BitVec 32} {accessType : Int}
  {isUser : Bool} {reads : List (BitVec 32)}

/-- Permissions are read off the descriptor alone. -/
theorem checkAp_returns {ap : BitVec 32} (hap : ap.toNat < 8) (domain : BitVec 32) :
    Returns (checkAp env ap domain accessType isUser) reads fun _ reads' => reads' = reads := by
  have hreturn : ∀ prot : BitVec 32,
      Returns (pure prot : WalkM (BitVec 32)) reads fun _ reads' => reads' = reads :=
    fun prot => Returns.pure_iff.mpr rfl
  rw [checkAp]
  split
  · exact hreturn _
  · split
    · split
      · exact hreturn _
      · split <;> exact hreturn _
    · exact hreturn _
    · exact hreturn _
    · exact hreturn _
    · exact hreturn _
    · exact hreturn _
    · exact hreturn _
    · exact hreturn _
    · rename_i h₀ h₁ h₂ h₃ h₄ h₅ h₆ h₇
      have hcases : ap.toNat ≠ 0 ∧ ap.toNat ≠ 1 ∧ ap.toNat ≠ 2 ∧ ap.toNat ≠ 3 ∧ ap.toNat ≠ 4 ∧
        ap.toNat ≠ 5 ∧ ap.toNat ≠ 6 ∧ ap.toNat ≠ 7 := ⟨h₀, h₁, h₂, h₃, h₄, h₅, h₆, h₇⟩
      omega

/-- How the end of the walk comes out: the access is permitted, at the address that the
descriptor gave, or it is an access flag fault or a permission fault. -/
inductive Checked (code domain phys : BitVec 32) (result : PhysResult) : Prop
  | permitted (hret : result.ret = 0#32) (hphys : result.physPtr = phys)
  | fault (out : PhysResult) (code' : BitVec 32)
      (hcode : code' = (if code = 15#32 then 6#32 else 3#32) ∨ code' = code)
      (hresult : result = doFault out code' domain)

/-- The end of the walk reads nothing. -/
theorem checkAccess_returns {ap : BitVec 32} (hap : ap.toNat < 8) (xn code domain phys : BitVec 32)
    (out : PhysResult) :
    Returns (checkAccess env accessType isUser ap xn code domain phys out) reads
      fun result reads' => reads' = reads ∧ Checked code domain phys result := by
  rw [checkAccess]
  by_cases hmanager : domain = 3#32
  · rw [if_pos hmanager, Returns.pure_iff]
    exact ⟨rfl, .permitted rfl rfl⟩
  rw [if_neg hmanager]
  by_cases hxn : xn ≠ 0#32 ∧ accessType = 2
  · rw [if_pos hxn, Returns.pure_iff]
    exact ⟨rfl, .fault out code (Or.inr rfl) rfl⟩
  rw [if_neg hxn]
  by_cases hflag : env.c1Sys &&& (1#32 <<< 29) ≠ 0#32 ∧ ap &&& 1#32 = 0#32
  · rw [if_pos hflag, Returns.pure_iff]
    exact ⟨rfl, .fault out _ (Or.inl rfl) rfl⟩
  rw [if_neg hflag, Returns.bind_iff]
  apply (checkAp_returns hap domain).mono
  intro prot reads' hreads
  rw [hreads]
  by_cases hprot : prot = 0#32
  · rw [if_pos hprot, Returns.pure_iff]
    exact ⟨rfl, .fault _ code (Or.inr rfl) rfl⟩
  · rw [if_neg hprot, Returns.pure_iff]
    exact ⟨rfl, .permitted rfl rfl⟩

/-- The end of the walk has none of the codes of the walk itself. -/
theorem Checked.code_ne {code domain phys : BitVec 32} {result : PhysResult}
    (h : Checked code domain phys result) (hcode : code = 13#32 ∨ code = 15#32) :
    result.code ≠ 5#32 ∧ result.code ≠ 7#32 ∧ result.code ≠ 9#32 ∧ result.code ≠ 11#32 := by
  cases h with
  | permitted hret hphys =>
      rw [PhysResult.code, hret]
      decide
  | fault out code' hcode' hresult =>
      rw [hresult, code_doFault]
      rcases hcode with rfl | rfl
      · rcases hcode' with rfl | rfl <;> decide
      · rcases hcode' with rfl | rfl <;> decide

variable (env mem address)

/-- The first level descriptor of an address. -/
def l1Desc : BitVec 32 := mem (getLevel1TableAddress env address)

/-- The address of the second level descriptor. -/
def l2Table : BitVec 32 := l2TableAddress (l1Desc env mem address) address

/-- What the emulator's walk reads, and which codes it ends with. -/
structure Walked (result : PhysResult) (reads : List (BitVec 32)) : Prop where
  ends : EndsWalk env (l1Desc env mem address) →
    reads = [getLevel1TableAddress env address] ∧ result.code ≠ 7#32 ∧
      (result.code = 5#32 ∨ result.code = 9#32 ∨ result.code = 11#32 ∨
        l1Desc env mem address &&& 3#32 = 2#32)
  goes_on : ¬ EndsWalk env (l1Desc env mem address) →
    reads = [getLevel1TableAddress env address, l2Table env mem address] ∧
      (result.code = 7#32 ↔ mem (l2Table env mem address) &&& 3#32 = 0#32) ∧
      result.code ≠ 5#32 ∧ result.code ≠ 9#32 ∧ result.code ≠ 11#32

variable {env mem address}

/-- The physical address that a valid second level descriptor gives an address: in a
large page it takes 16 bits from the address, in a small page 12. -/
def pageAddress (desc address : BitVec 32) : BitVec 32 :=
  if desc &&& 3#32 = 1#32 then (desc &&& 0xFFFF0000#32) ||| (address &&& 0xFFFF#32)
  else (desc &&& 0xFFFFF000#32) ||| (address &&& 0xFFF#32)

variable (env mem address) in
/-- The exits of the emulator's walk, in the order of the source. -/
inductive WalkExit (out : PhysResult) : PhysResult → List (BitVec 32) → Prop
  | invalid (h : l1Desc env mem address &&& 3#32 = 0#32 ∨ l1Desc env mem address &&& 3#32 = 3#32) :
      WalkExit out (doFault out 5#32 0#32) [getLevel1TableAddress env address]
  | noAccess
      (h : domainOf env (l1Desc env mem address) = 0#32 ∨
        domainOf env (l1Desc env mem address) = 2#32) :
      WalkExit out
        (doFault out (if l1Desc env mem address &&& 3#32 = 2#32 then 9#32 else 11#32)
          (domainOf env (l1Desc env mem address)))
        [getLevel1TableAddress env address]
  | ofSection {phys : BitVec 32} {result : PhysResult}
      (hdomain : ¬ (domainOf env (l1Desc env mem address) = 0#32 ∨
        domainOf env (l1Desc env mem address) = 2#32))
      (h : l1Desc env mem address &&& 3#32 = 2#32)
      (hchecked : Checked 13#32 (domainOf env (l1Desc env mem address)) phys result) :
      WalkExit out result [getLevel1TableAddress env address]
  | fault (hgoes : ¬ EndsWalk env (l1Desc env mem address))
      (h : mem (l2Table env mem address) &&& 3#32 = 0#32) :
      WalkExit out (doFault out 7#32 (domainOf env (l1Desc env mem address)))
        [getLevel1TableAddress env address, l2Table env mem address]
  | ofPage {result : PhysResult} (hgoes : ¬ EndsWalk env (l1Desc env mem address))
      (h : mem (l2Table env mem address) &&& 3#32 ≠ 0#32)
      (hchecked : Checked 15#32 (domainOf env (l1Desc env mem address))
        (pageAddress (mem (l2Table env mem address)) address) result) :
      WalkExit out result [getLevel1TableAddress env address, l2Table env mem address]

/-- The emulator's walk never aborts. -/
theorem getPhysAddrV6_exits (out : PhysResult) :
    Returns (getPhysAddrV6 env mem address accessType isUser out) []
      (WalkExit env mem address out) := by
  rw [getPhysAddrV6, Returns.bind_iff, ldlPhys_returns_iff, List.nil_append]
  change Returns (if l1Desc env mem address &&& 3#32 = 0#32 ∨ l1Desc env mem address &&& 3#32 = 3#32
    then _ else if domainOf env (l1Desc env mem address) = 0#32 ∨
      domainOf env (l1Desc env mem address) = 2#32 then _
    else if l1Desc env mem address &&& 3#32 = 2#32 then _ else _) _ _
  by_cases hinvalid :
      l1Desc env mem address &&& 3#32 = 0#32 ∨ l1Desc env mem address &&& 3#32 = 3#32
  · rw [if_pos hinvalid, Returns.pure_iff]
    exact .invalid hinvalid
  rw [if_neg hinvalid]
  by_cases hdomain : domainOf env (l1Desc env mem address) = 0#32 ∨
      domainOf env (l1Desc env mem address) = 2#32
  · rw [if_pos hdomain, Returns.pure_iff]
    exact .noAccess hdomain
  rw [if_neg hdomain]
  by_cases htype : l1Desc env mem address &&& 3#32 = 2#32
  · rw [if_pos htype]
    -- a section and a supersection differ in the address they give
    split
    all_goals
      apply (checkAccess_returns (toNat_ap_le _ _) _ _ _ _ _).mono
      intro result reads h
      rw [h.1]
      exact .ofSection hdomain htype h.2
  rw [if_neg htype, Returns.bind_iff, ldlPhys_returns_iff]
  have hgoes : ¬ EndsWalk env (l1Desc env mem address) := fun h =>
    h.elim hinvalid fun h => h.elim hdomain htype
  change Returns (if mem (l2Table env mem address) &&& 3#32 = 0#32 then _
    else if mem (l2Table env mem address) &&& 3#32 = 1#32 then _ else _) _ _
  by_cases hfault : mem (l2Table env mem address) &&& 3#32 = 0#32
  · rw [if_pos hfault, Returns.pure_iff]
    exact .fault hgoes hfault
  rw [if_neg hfault]
  have hpage : ∀ {phys xn : BitVec 32} {out' : PhysResult},
      phys = pageAddress (mem (l2Table env mem address)) address →
      Returns (checkAccess env accessType isUser
          (((mem (l2Table env mem address) >>> 4) &&& 3#32) |||
            ((mem (l2Table env mem address) >>> 7) &&& 4#32))
          xn 15#32 (domainOf env (l1Desc env mem address)) phys out')
        [getLevel1TableAddress env address, l2Table env mem address]
        (WalkExit env mem address out) := by
    intro phys xn out' hphys
    apply (checkAccess_returns (toNat_ap_le _ _) _ _ _ _ _).mono
    intro result reads h
    rw [h.1]
    exact .ofPage hgoes hfault (hphys ▸ h.2)
  by_cases hlarge : mem (l2Table env mem address) &&& 3#32 = 1#32
  · rw [if_pos hlarge]
    exact hpage (if_pos hlarge).symm
  · rw [if_neg hlarge]
    exact hpage (if_neg hlarge).symm

/-- A fault at the first level. -/
theorem Walked.of_fault (hends : EndsWalk env (l1Desc env mem address)) {result : PhysResult}
    (hcode : result.code = 5#32 ∨ result.code = 9#32 ∨ result.code = 11#32) :
    Walked env mem address result [getLevel1TableAddress env address] := by
  refine ⟨fun _ => ⟨rfl, ?_, ?_⟩, fun h => absurd hends h⟩
  · rcases hcode with hcode | hcode | hcode
    · rw [hcode]
      decide
    · rw [hcode]
      decide
    · rw [hcode]
      decide
  · rcases hcode with hcode | hcode | hcode
    · exact Or.inl hcode
    · exact Or.inr (Or.inl hcode)
    · exact Or.inr (Or.inr (Or.inl hcode))

theorem WalkExit.walked {out result : PhysResult} (h : WalkExit env mem address out result reads) :
    Walked env mem address result reads := by
  cases h with
  | invalid h => exact Walked.of_fault (Or.inl h) (Or.inl (code_doFault out _ _))
  | noAccess h =>
      apply Walked.of_fault (Or.inr (Or.inl h))
      rw [code_doFault]
      split
      · exact Or.inr (Or.inl rfl)
      · exact Or.inr (Or.inr rfl)
  | ofSection hdomain h hchecked =>
      have hne := hchecked.code_ne (Or.inl rfl)
      exact ⟨fun _ => ⟨rfl, hne.2.1, Or.inr (Or.inr (Or.inr h))⟩,
        fun hgoes => absurd (Or.inr (Or.inr h)) hgoes⟩
  | fault hgoes h =>
      refine ⟨fun hends => absurd hends hgoes, fun _ => ⟨rfl, ⟨fun _ => h, fun _ => ?_⟩, ?_⟩⟩
      · exact code_doFault out _ _
      · rw [code_doFault]
        decide
  | ofPage hgoes h hchecked =>
      rcases hchecked.code_ne (Or.inr rfl) with ⟨hfive, hseven, hnine, heleven⟩
      exact ⟨fun hends => absurd hends hgoes,
        fun _ => ⟨rfl, ⟨fun hcode => absurd hcode hseven, fun hcode => absurd hcode h⟩,
          hfive, hnine, heleven⟩⟩

theorem getPhysAddrV6_returns (out : PhysResult) :
    Returns (getPhysAddrV6 env mem address accessType isUser out) [] (Walked env mem address) :=
  (getPhysAddrV6_exits out).mono fun _ _ h => h.walked

/-! ## The tracer's walk -/

variable (env mem address) in
/-- What the tracer's walk reads, and the result and addresses it reports. -/
structure Reported (result : PteResult) (reads : List (BitVec 32)) : Prop where
  l1_eq : result.l1 = getLevel1TableAddress env address
  ends : EndsWalk env (l1Desc env mem address) →
    result.ret = 1#32 ∧ reads = [getLevel1TableAddress env address]
  goes_on : ¬ EndsWalk env (l1Desc env mem address) →
    result.ret = (if mem (l2Table env mem address) &&& 3#32 = 0#32 then 2#32 else 3#32) ∧
      result.l2 = l2Table env mem address ∧
      reads = [getLevel1TableAddress env address, l2Table env mem address]

variable (env mem address) in
/-- The exits of the tracer's walk. It ends at the first level in the same three cases,
with one result for all of them. -/
inductive PteExit (l2 gpa : BitVec 32) : PteResult → List (BitVec 32) → Prop
  | ends (h : EndsWalk env (l1Desc env mem address)) :
      PteExit l2 gpa ⟨1#32, getLevel1TableAddress env address, l2, gpa⟩
        [getLevel1TableAddress env address]
  | fault (hgoes : ¬ EndsWalk env (l1Desc env mem address))
      (h : mem (l2Table env mem address) &&& 3#32 = 0#32) :
      PteExit l2 gpa ⟨2#32, getLevel1TableAddress env address, l2Table env mem address, gpa⟩
        [getLevel1TableAddress env address, l2Table env mem address]
  | page (hgoes : ¬ EndsWalk env (l1Desc env mem address))
      (h : mem (l2Table env mem address) &&& 3#32 ≠ 0#32) :
      PteExit l2 gpa
        ⟨3#32, getLevel1TableAddress env address, l2Table env mem address,
          mem (l2Table env mem address) &&& 0xFFFFF000#32⟩
        [getLevel1TableAddress env address, l2Table env mem address]

/-- The tracer's walk never aborts. -/
theorem getPtes_exits (l2 gpa : BitVec 32) :
    Returns (getPtes env mem address l2 gpa) [] (PteExit env mem address l2 gpa) := by
  rw [getPtes, Returns.bind_iff, ldlPhys_returns_iff, List.nil_append]
  change Returns (if l1Desc env mem address &&& 3#32 = 0#32 ∨ l1Desc env mem address &&& 3#32 = 3#32
    then _ else if domainOf env (l1Desc env mem address) = 0#32 ∨
      domainOf env (l1Desc env mem address) = 2#32 then _
    else if l1Desc env mem address &&& 3#32 = 2#32 then _ else _) _ _
  by_cases hinvalid :
      l1Desc env mem address &&& 3#32 = 0#32 ∨ l1Desc env mem address &&& 3#32 = 3#32
  · rw [if_pos hinvalid, Returns.pure_iff]
    exact .ends (Or.inl hinvalid)
  rw [if_neg hinvalid]
  by_cases hdomain : domainOf env (l1Desc env mem address) = 0#32 ∨
      domainOf env (l1Desc env mem address) = 2#32
  · rw [if_pos hdomain, Returns.pure_iff]
    exact .ends (Or.inr (Or.inl hdomain))
  rw [if_neg hdomain]
  by_cases htype : l1Desc env mem address &&& 3#32 = 2#32
  · rw [if_pos htype, Returns.pure_iff]
    exact .ends (Or.inr (Or.inr htype))
  rw [if_neg htype, Returns.bind_iff, ldlPhys_returns_iff]
  have hgoes : ¬ EndsWalk env (l1Desc env mem address) := fun h =>
    h.elim hinvalid fun h => h.elim hdomain htype
  change Returns (if mem (l2Table env mem address) &&& 3#32 = 0#32 then _ else _) _ _
  by_cases hfault : mem (l2Table env mem address) &&& 3#32 = 0#32
  · rw [if_pos hfault, Returns.pure_iff]
    exact .fault hgoes hfault
  · rw [if_neg hfault, Returns.pure_iff]
    exact .page hgoes hfault

theorem PteExit.reported {l2 gpa : BitVec 32} {result : PteResult}
    (h : PteExit env mem address l2 gpa result reads) : Reported env mem address result reads := by
  cases h with
  | ends h => exact ⟨rfl, fun _ => ⟨rfl, rfl⟩, fun hgoes => absurd h hgoes⟩
  | fault hgoes h =>
      exact ⟨rfl, fun hends => absurd hends hgoes, fun _ => ⟨(if_pos h).symm, rfl, rfl⟩⟩
  | page hgoes h =>
      exact ⟨rfl, fun hends => absurd hends hgoes, fun _ => ⟨(if_neg h).symm, rfl, rfl⟩⟩

theorem getPtes_returns (l2 gpa : BitVec 32) :
    Returns (getPtes env mem address l2 gpa) [] (Reported env mem address) :=
  (getPtes_exits l2 gpa).mono fun _ _ h => h.reported

/-! ## The two walks together -/

variable (mem) in
/-- The tracer's result tells how far the emulator's walk got, and its addresses are the
ones the emulator read, in that order. -/
structure Follows (recorded : PteResult) (result : PhysResult) (reads : List (BitVec 32)) :
    Prop where
  /-- 1: only the first level descriptor was read. -/
  ret_eq_one : recorded.ret = 1#32 ↔ ∃ first, reads = [first]
  /-- Then the walk ended in a translation or domain fault, or in a section. -/
  first_level : (∃ first, reads = [first]) ↔
    result.code = 5#32 ∨ result.code = 9#32 ∨ result.code = 11#32 ∨ mem recorded.l1 &&& 3#32 = 2#32
  /-- 2: the walk ended in a page translation fault. -/
  ret_eq_two : recorded.ret = 2#32 ↔ result.code = 7#32
  /-- 3: a valid second level descriptor was read. -/
  ret_eq_three : recorded.ret = 3#32 ↔
    ∃ first second, reads = [first, second] ∧ mem second &&& 3#32 ≠ 0#32
  reads_eq : reads = if recorded.ret = 1#32 then [recorded.l1] else [recorded.l1, recorded.l2]

/-- Two walks of one address agree. -/
theorem Follows.of_reported {recorded : PteResult} {result : PhysResult}
    {reads' : List (BitVec 32)} (h : Reported env mem address recorded reads')
    (h' : Walked env mem address result reads) : Follows mem recorded result reads := by
  by_cases hends : EndsWalk env (l1Desc env mem address)
  · rcases h.ends hends with ⟨hret, -⟩
    rcases h'.ends hends with ⟨hreads, hcode, hfault⟩
    have hone : ∃ first, reads = [first] := ⟨_, hreads⟩
    rw [l1Desc, ← h.l1_eq] at hfault
    refine ⟨⟨fun _ => hone, fun _ => hret⟩, ⟨fun _ => hfault, fun _ => hone⟩, ⟨?_, ?_⟩, ⟨?_, ?_⟩,
      ?_⟩
    · intro htwo
      rw [hret] at htwo
      exact absurd htwo (by decide)
    · intro hseven
      exact absurd hseven hcode
    · intro hthree
      rw [hret] at hthree
      exact absurd hthree (by decide)
    · rintro ⟨first, second, hsecond, -⟩
      rw [hreads] at hsecond
      cases hsecond
    · rw [if_pos hret, hreads, h.l1_eq]
  · rcases h.goes_on hends with ⟨hret, hl2, -⟩
    rcases h'.goes_on hends with ⟨hreads, hseven, hfive, hnine, heleven⟩
    have hmore : ¬ ∃ first, reads = [first] := by
      rintro ⟨first, hfirst⟩
      rw [hreads] at hfirst
      cases hfirst
    have hne : recorded.ret ≠ 1#32 := by
      rw [hret]
      split <;> decide
    have htable : ¬ mem recorded.l1 &&& 3#32 = 2#32 := by
      rw [h.l1_eq]
      exact fun htype => hends (Or.inr (Or.inr htype))
    refine ⟨⟨fun hone => absurd hone hne, fun hone => absurd hone hmore⟩,
      ⟨fun hone => absurd hone hmore, fun hcode => ?_⟩, ?_, ?_, ?_⟩
    · rcases hcode with hcode | hcode | hcode | htype
      · exact absurd hcode hfive
      · exact absurd hcode hnine
      · exact absurd hcode heleven
      · exact absurd htype htable
    · rw [hseven, hret]
      by_cases hfault : mem (l2Table env mem address) &&& 3#32 = 0#32
      · simp [hfault]
      · simp [hfault]
    · rw [hret, hreads]
      by_cases hfault : mem (l2Table env mem address) &&& 3#32 = 0#32
      · simp [hfault]
      · simp [hfault]
    · rw [if_neg hne, hreads, h.l1_eq, hl2]

end

/-- For every content of the guest's memory, state of the processor, address and kind
of access, `get_ptes` follows the table walk of the emulator. Neither walk aborts. -/
theorem getPtes_follows (env : CPUState) (mem : BitVec 32 → BitVec 32)
    (address l2 gpa : BitVec 32) (accessType : Int) (isUser : Bool) (out : PhysResult) :
    Returns (getPtes env mem address l2 gpa) [] fun recorded _ =>
      Returns (getPhysAddrV6 env mem address accessType isUser out) [] fun result reads =>
        Follows mem recorded result reads := by
  apply (getPtes_returns l2 gpa).mono
  intro recorded reads' hrecorded
  apply (getPhysAddrV6_returns out).mono
  intro result reads hwalked
  exact Follows.of_reported hrecorded hwalked

end TlbAnalyzer.Emulator
