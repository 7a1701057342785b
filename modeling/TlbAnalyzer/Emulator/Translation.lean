/-
# Address translation in the emulator

`get_phys_addr` of `target-arm/helper.c` translates an address for one kind of access.
It adds the process identifier of the fast context switch extension, and then asks the
table walk of the architecture the processor is set to, the protection unit, or
nobody. The walk of version 6 is in `Emulator.Program`; the rest is here, with the
registers of `CPUState` that are read on the way.

For a processor with an MMU the second half says what such a translation depends on.
The tables decide on a region of memory with a level of permission, without looking at
the kind of access, and the kind is compared with that level in the end. So what is
granted to one kind of access tells what another one would be granted, and it is the
same all over a page of 1 KB.
-/

import Mathlib.Tactic.IntervalCases
import TlbAnalyzer.Emulator.DataTracing
import TlbAnalyzer.Emulator.TableWalk

namespace TlbAnalyzer.Emulator

open Math

/-! ## Registers -/

/-- The registers of `CPUState` that translation, its faults and the coprocessor use. -/
structure ArmState extends CPUState where
  c2Control : BitVec 32
  c2Data : BitVec 32
  c2Insn : BitVec 32
  c5Insn : BitVec 32
  c5Data : BitVec 32
  c6Region : Fin 8 → BitVec 32
  c6Insn : BitVec 32
  c6Data : BitVec 32
  c7Par : BitVec 32
  c13Fcse : BitVec 32
  exceptionIndex : ℕ

/-- `access_type`. -/
def AccessType.toInt : AccessType → Int
  | .read => 0
  | .write => 1
  | .code => 2

/-! ## Walks -/

/-- The end of `get_phys_addr_v5`, from the call of `check_ap` on. -/
def checkAccessV5 (env : CPUState) (accessType : Int) (isUser : Bool)
    (ap code domain physAddr : BitVec 32) (out : PhysResult) : WalkM PhysResult := do
  let prot ← checkAp env ap domain accessType isUser
  if prot = 0#32 then
    return doFault { out with prot := prot } code domain
  else
    return { out with ret := 0#32, physPtr := physAddr, prot := prot ||| pageExec }

/-- `get_phys_addr_v5`. The permissions of a small page are selected by the address bits
that select those of a large one. -/
def getPhysAddrV5 (env : CPUState) (mem : BitVec 32 → BitVec 32) (address : BitVec 32)
    (accessType : Int) (isUser : Bool) (out : PhysResult) : WalkM PhysResult := do
  let table := getLevel1TableAddress env address
  let desc ← ldlPhys mem table
  let type := desc &&& 3#32
  let domain := (env.c3 >>> ((desc >>> 4) &&& 0x1E#32)) &&& 3#32
  if type = 0#32 then
    return doFault out 5#32 domain
  if domain = 0#32 ∨ domain = 2#32 then
    return doFault out (if type = 2#32 then 9#32 else 11#32) domain
  if type = 2#32 then
    let physAddr := (desc &&& 0xFFF00000#32) ||| (address &&& 0x000FFFFF#32)
    checkAccessV5 env accessType isUser ((desc >>> 10) &&& 3#32) 13#32 domain physAddr
      { out with pageSize := 0x100000#32 }
  else
    let table :=
      if type = 1#32 then (desc &&& 0xFFFFFC00#32) ||| ((address >>> 10) &&& 0x3FC#32)
      else (desc &&& 0xFFFFF000#32) ||| ((address >>> 8) &&& 0xFFC#32)
    let desc ← ldlPhys mem table
    let subpageAp := (desc >>> (4#32 + ((address >>> 13) &&& 6#32))) &&& 3#32
    if desc &&& 3#32 = 0#32 then
      return doFault out 7#32 domain
    else if desc &&& 3#32 = 1#32 then
      let physAddr := (desc &&& 0xFFFF0000#32) ||| (address &&& 0xFFFF#32)
      checkAccessV5 env accessType isUser subpageAp 15#32 domain physAddr
        { out with pageSize := 0x10000#32 }
    else if desc &&& 3#32 = 2#32 then
      let physAddr := (desc &&& 0xFFFFF000#32) ||| (address &&& 0xFFF#32)
      checkAccessV5 env accessType isUser subpageAp 15#32 domain physAddr
        { out with pageSize := 0x1000#32 }
    else if type = 1#32 ∧ armFeature env .xscale = false then
      return doFault out 7#32 domain
    else
      let physAddr :=
        if type = 1#32 then (desc &&& 0xFFFFF000#32) ||| (address &&& 0xFFF#32)
        else (desc &&& 0xFFFFFC00#32) ||| (address &&& 0x3FF#32)
      checkAccessV5 env accessType isUser ((desc >>> 4) &&& 3#32) 15#32 domain physAddr
        { out with pageSize := 0x400#32 }

/-- The test of `get_phys_addr_mpu` for a region that an address lies in. -/
def inRegion (base address : BitVec 32) : Bool :=
  let mask := ((1#32 <<< ((base >>> 1) &&& 0x1F#32)) <<< 1) - 1#32
  base &&& 1#32 ≠ 0#32 ∧ (base ^^^ address) &&& ~~~mask = 0#32

/-- `get_phys_addr_mpu`. The loop over the regions starts at the last one. -/
def getPhysAddrMpu (env : ArmState) (address : BitVec 32) (accessType : Int) (isUser : Bool)
    (out : PhysResult) : PhysResult :=
  let out := { out with physPtr := address }
  match (List.finRange 8).reverse.find? fun n => inRegion (env.c6Region n) address with
  | none => { out with ret := 2#32 }
  | some n =>
      let mask := if accessType = 2 then env.c5Insn else env.c5Data
      let readWrite := pageRead ||| pageWrite
      let permitted (prot : BitVec 32) := { out with ret := 0#32, prot := prot ||| pageExec }
      let refused := { out with ret := 1#32 }
      match ((mask >>> (n.val * 4)) &&& 0xF#32).toNat with
      | 1 => if isUser then refused else permitted readWrite
      | 2 => permitted (if isUser then pageRead else readWrite)
      | 3 => permitted readWrite
      | 5 => if isUser then refused else permitted pageRead
      | 6 => permitted pageRead
      | _ => refused

/-- The address that is looked up for an address of the program. -/
def modifiedAddress (env : ArmState) (address : BitVec 32) : BitVec 32 :=
  if address < 0x02000000#32 then address + env.c13Fcse else address

/-- `get_phys_addr`. -/
def getPhysAddr (env : ArmState) (mem : BitVec 32 → BitVec 32) (address : BitVec 32)
    (accessType : Int) (isUser : Bool) (out : PhysResult) : WalkM PhysResult :=
  let address := modifiedAddress env address
  if env.c1Sys &&& 1#32 = 0#32 then
    return { out with
      ret := 0#32
      physPtr := address
      prot := pageRead ||| pageWrite ||| pageExec
      pageSize := targetPageSize }
  else if armFeature env.toCPUState .mpu then
    return getPhysAddrMpu env address accessType isUser { out with pageSize := targetPageSize }
  else if env.c1Sys &&& (1#32 <<< 23) ≠ 0#32 then
    getPhysAddrV6 env.toCPUState mem address accessType isUser out
  else
    getPhysAddrV5 env.toCPUState mem address accessType isUser out

/-! ## Levels of permission -/

/-- What the permission bits of a descriptor come to for one privilege. -/
inductive ApLevel
  | noAccess
  | readOnly
  | readWrite
  deriving DecidableEq

/-- The flags that `check_ap` returns for a level. -/
def ApLevel.prot : ApLevel → AccessType → BitVec 32
  | .noAccess, _ => 0#32
  | .readOnly, .write => 0#32
  | .readOnly, _ => pageRead
  | .readWrite, _ => pageRead ||| pageWrite

/-- The level that the permission bits stand for. -/
def apLevel (env : CPUState) (ap domain : BitVec 32) (isUser : Bool) : ApLevel :=
  if domain = 3#32 then .readWrite
  else match ap.toNat with
  | 0 =>
      match ((env.c1Sys >>> 8) &&& 3#32).toNat with
      | 1 => if isUser then .noAccess else .readOnly
      | 2 => .readOnly
      | _ => .noAccess
  | 1 => if isUser then .noAccess else .readWrite
  | 2 => if isUser then .readOnly else .readWrite
  | 3 => .readWrite
  | 5 => if isUser then .noAccess else .readOnly
  | 6 => .readOnly
  | 7 => if armFeature env .v7 then .readOnly else .noAccess
  | _ => .noAccess

/-- `check_ap` compares the kind of access with the level and reads nothing. -/
theorem checkAp_run (env : CPUState) {ap : BitVec 32} (hap : ap.toNat < 8) (domain : BitVec 32)
    (kind : AccessType) (isUser : Bool) (reads : List (BitVec 32)) :
    (checkAp env ap domain kind.toInt isUser).run reads =
      .ok ((apLevel env ap domain isUser).prot kind, reads) := by
  unfold checkAp apLevel
  by_cases hmanager : domain = 3#32
  · rw [if_pos hmanager, if_pos hmanager]
    rfl
  rw [if_neg hmanager, if_neg hmanager]
  generalize ap.toNat = n at hap
  interval_cases n
  · -- two more bits of the control register
    generalize ((env.c1Sys >>> 8) &&& 3#32).toNat = bits
    rcases bits with _ | _ | _ | bits <;> cases isUser <;> cases kind <;> rfl
  · cases isUser <;> cases kind <;> rfl
  · cases isUser <;> cases kind <;> rfl
  · cases kind <;> rfl
  · cases kind <;> rfl
  · cases isUser <;> cases kind <;> rfl
  · cases kind <;> rfl
  · cases armFeature env .v7 <;> cases kind <;> rfl

/-! ## Regions -/

/-- A level of permission, and whether the contents may be executed. -/
structure Rights where
  level : ApLevel
  execute : Bool

/-- The flags of an access that is permitted. -/
def Rights.grant (rights : Rights) (kind : AccessType) : Option (BitVec 32) :=
  if kind = .code ∧ rights.execute = false then none
  else if rights.level.prot kind = 0#32 then none
  else some (rights.level.prot kind ||| if rights.execute then pageExec else 0#32)

/-- What the tables say about an address, whatever the kind of access. -/
structure Region where
  phys : BitVec 32
  pageSize : BitVec 32
  rights : Rights

/-- How a translation comes out, given the region of its address. -/
inductive Answers (region : Option Region) (kind : AccessType) (result : PhysResult) : Prop
  | granted {found : Region} (hregion : region = some found)
      (hgrant : found.rights.grant kind = some result.prot) (hret : result.ret = 0#32)
      (hphys : result.physPtr = found.phys) (hsize : result.pageSize = found.pageSize)
  | refused (hregion : ∀ found, region = some found → found.rights.grant kind = none)
      (hret : result.ret ≠ 0#32)

/-- The level of a page or section of version 6. The simplified model uses the lowest
permission bit as an access flag. -/
def levelV6 (env : CPUState) (ap domain : BitVec 32) (isUser : Bool) : ApLevel :=
  if domain ≠ 3#32 ∧ env.c1Sys &&& (1#32 <<< 29) ≠ 0#32 ∧ ap &&& 1#32 = 0#32 then .noAccess
  else apLevel env ap domain isUser

/-- The region that the tables of version 6 give an address. -/
def regionV6 (env : CPUState) (mem : BitVec 32 → BitVec 32) (address : BitVec 32)
    (isUser : Bool) : Option Region :=
  let desc := l1Desc env mem address
  let domain := domainOf env desc
  if desc &&& 3#32 = 0#32 ∨ desc &&& 3#32 = 3#32 then none
  else if domain = 0#32 ∨ domain = 2#32 then none
  else if desc &&& 3#32 = 2#32 then
    let level := levelV6 env (((desc >>> 10) &&& 3#32) ||| ((desc >>> 13) &&& 4#32)) domain isUser
    let execute := domain = 3#32 ∨ desc &&& (1#32 <<< 4) = 0#32
    if desc &&& (1#32 <<< 18) ≠ 0#32 then
      some ⟨(desc &&& 0xFF000000#32) ||| (address &&& 0x00FFFFFF#32), 0x1000000#32,
        ⟨level, execute⟩⟩
    else
      some ⟨(desc &&& 0xFFF00000#32) ||| (address &&& 0x000FFFFF#32), 0x100000#32, ⟨level, execute⟩⟩
  else
    let desc := mem (l2Table env mem address)
    let level := levelV6 env (((desc >>> 4) &&& 3#32) ||| ((desc >>> 7) &&& 4#32)) domain isUser
    if desc &&& 3#32 = 0#32 then none
    else if desc &&& 3#32 = 1#32 then
      some ⟨(desc &&& 0xFFFF0000#32) ||| (address &&& 0xFFFF#32), 0x10000#32,
        ⟨level, domain = 3#32 ∨ desc &&& (1#32 <<< 15) = 0#32⟩⟩
    else
      some ⟨(desc &&& 0xFFFFF000#32) ||| (address &&& 0xFFF#32), 0x1000#32,
        ⟨level, domain = 3#32 ∨ desc &&& 1#32 = 0#32⟩⟩

section

variable {env : CPUState} {mem : BitVec 32 → BitVec 32} {address : BitVec 32} {kind : AccessType}
  {isUser : Bool} {reads : List (BitVec 32)}

/-- A fault answers for a region that does not grant the access, or for no region. -/
theorem Answers.fault {region : Option Region}
    (hregion : ∀ found, region = some found → found.rights.grant kind = none) {code : BitVec 32}
    (hcode : code &&& 0xF#32 ≠ 0#32) (out : PhysResult) (domain : BitVec 32) :
    Answers region kind (doFault out code domain) :=
  .refused hregion (ret_doFault_ne_zero out hcode domain)

theorem Answers.fault_some {region : Region} (hgrant : region.rights.grant kind = none)
    {code : BitVec 32} (hcode : code &&& 0xF#32 ≠ 0#32) (out : PhysResult) (domain : BitVec 32) :
    Answers (some region) kind (doFault out code domain) := by
  refine .fault ?_ hcode out domain
  intro found hfound
  cases hfound
  exact hgrant

theorem Answers.fault_none {code : BitVec 32} (hcode : code &&& 0xF#32 ≠ 0#32) (out : PhysResult)
    (domain : BitVec 32) : Answers none kind (doFault out code domain) := by
  refine .fault ?_ hcode out domain
  intro found hfound
  cases hfound

/-- The end of the walk of version 6. -/
theorem checkAccess_answers {ap : BitVec 32} (hap : ap.toNat < 8) (xn domain phys : BitVec 32)
    {code : BitVec 32} (hcode : code = 13#32 ∨ code = 15#32) (out : PhysResult) :
    Returns (checkAccess env kind.toInt isUser ap xn code domain phys out) reads fun result _ =>
      Answers (some ⟨phys, out.pageSize, levelV6 env ap domain isUser,
        domain = 3#32 ∨ xn = 0#32⟩) kind result := by
  have hcode' : code &&& 0xF#32 ≠ 0#32 := by
    rcases hcode with rfl | rfl <;> decide
  rw [checkAccess]
  by_cases hmanager : domain = 3#32
  · rw [if_pos hmanager, Returns.pure_iff]
    refine .granted rfl ?_ rfl rfl rfl
    subst hmanager
    cases kind <;> rfl
  rw [if_neg hmanager]
  by_cases hxn : xn ≠ 0#32 ∧ kind.toInt = 2
  · rw [if_pos hxn, Returns.pure_iff]
    have hkind : kind = .code := by
      cases kind with
      | code => rfl
      | _ => exact absurd hxn.2 (by decide)
    refine .fault_some ?_ hcode' out domain
    rw [Rights.grant, if_pos]
    exact ⟨hkind, by simp [hmanager, hxn.1]⟩
  rw [if_neg hxn]
  by_cases hflag : env.c1Sys &&& (1#32 <<< 29) ≠ 0#32 ∧ ap &&& 1#32 = 0#32
  · rw [if_pos hflag, Returns.pure_iff]
    have hlevel : levelV6 env ap domain isUser = .noAccess := if_pos ⟨hmanager, hflag⟩
    refine .fault_some ?_ ?_ out domain
    · rw [hlevel, Rights.grant]
      simp [ApLevel.prot]
    · rcases hcode with rfl | rfl <;> decide
  rw [if_neg hflag, Returns.bind_iff,
    Returns.iff_of_run (checkAp_run env hap domain kind isUser reads)]
  have hlevel : levelV6 env ap domain isUser = apLevel env ap domain isUser :=
    if_neg fun h => hflag h.2
  have hexecute : ¬ (kind = .code ∧ decide (domain = 3#32 ∨ xn = 0#32) = false) := by
    rintro ⟨rfl, hnever⟩
    rw [decide_eq_false_iff_not, not_or] at hnever
    exact hxn ⟨hnever.2, rfl⟩
  by_cases hprot : (apLevel env ap domain isUser).prot kind = 0#32
  · rw [if_pos hprot, Returns.pure_iff]
    refine .fault_some ?_ hcode' _ domain
    rw [Rights.grant, if_neg hexecute, hlevel, if_pos hprot]
  · rw [if_neg hprot, Returns.pure_iff]
    refine .granted rfl ?_ rfl rfl rfl
    rw [Rights.grant, if_neg hexecute, hlevel, if_neg hprot]
    by_cases hnever : xn = 0#32
    · simp [hnever]
    · simp [hnever, hmanager]

/-- The walk of version 6 answers from the region of the address. -/
theorem getPhysAddrV6_answers (out : PhysResult) :
    Returns (getPhysAddrV6 env mem address kind.toInt isUser out) reads fun result _ =>
      Answers (regionV6 env mem address isUser) kind result := by
  rw [getPhysAddrV6, Returns.bind_iff, ldlPhys_returns_iff, regionV6]
  change Returns (if l1Desc env mem address &&& 3#32 = 0#32 ∨ l1Desc env mem address &&& 3#32 = 3#32
    then _ else if domainOf env (l1Desc env mem address) = 0#32 ∨
      domainOf env (l1Desc env mem address) = 2#32 then _
    else if l1Desc env mem address &&& 3#32 = 2#32 then _ else _) _ _
  by_cases hinvalid :
      l1Desc env mem address &&& 3#32 = 0#32 ∨ l1Desc env mem address &&& 3#32 = 3#32
  · rw [if_pos hinvalid, if_pos hinvalid, Returns.pure_iff]
    exact .fault_none (by decide) out _
  rw [if_neg hinvalid, if_neg hinvalid]
  by_cases hdomain : domainOf env (l1Desc env mem address) = 0#32 ∨
      domainOf env (l1Desc env mem address) = 2#32
  · rw [if_pos hdomain, if_pos hdomain, Returns.pure_iff]
    refine .fault_none ?_ out _
    split <;> decide
  rw [if_neg hdomain, if_neg hdomain]
  by_cases htype : l1Desc env mem address &&& 3#32 = 2#32
  · rw [if_pos htype, if_pos htype]
    change Returns (if l1Desc env mem address &&& (1#32 <<< 18) ≠ 0#32 then _ else _) _ _
    by_cases hsuper : l1Desc env mem address &&& (1#32 <<< 18) ≠ 0#32
    · rw [if_pos hsuper, if_pos hsuper]
      exact checkAccess_answers (toNat_ap_le _ _) _ _ _ (Or.inl rfl) _
    · rw [if_neg hsuper, if_neg hsuper]
      exact checkAccess_answers (toNat_ap_le _ _) _ _ _ (Or.inl rfl) _
  rw [if_neg htype, if_neg htype, Returns.bind_iff, ldlPhys_returns_iff]
  change Returns (if mem (l2Table env mem address) &&& 3#32 = 0#32 then _
    else if mem (l2Table env mem address) &&& 3#32 = 1#32 then _ else _) _ _
  by_cases hentry : mem (l2Table env mem address) &&& 3#32 = 0#32
  · rw [if_pos hentry, if_pos hentry, Returns.pure_iff]
    exact .fault_none (by decide) out _
  rw [if_neg hentry, if_neg hentry]
  by_cases hlarge : mem (l2Table env mem address) &&& 3#32 = 1#32
  · rw [if_pos hlarge, if_pos hlarge]
    exact checkAccess_answers (toNat_ap_le _ _) _ _ _ (Or.inr rfl) _
  · rw [if_neg hlarge, if_neg hlarge]
    exact checkAccess_answers (toNat_ap_le _ _) _ _ _ (Or.inr rfl) _

end

/-! ## Regions of version 5 -/

/-- The domain of a first level descriptor in `get_phys_addr_v5`. -/
def domainV5 (env : CPUState) (desc : BitVec 32) : BitVec 32 :=
  (env.c3 >>> ((desc >>> 4) &&& 0x1E#32)) &&& 3#32

/-- The address of the second level descriptor, in a coarse or a fine page table. -/
def l2TableV5 (desc address : BitVec 32) : BitVec 32 :=
  if desc &&& 3#32 = 1#32 then (desc &&& 0xFFFFFC00#32) ||| ((address >>> 10) &&& 0x3FC#32)
  else (desc &&& 0xFFFFF000#32) ||| ((address >>> 8) &&& 0xFFC#32)

/-- The region that the tables of version 5 give an address. -/
def regionV5 (env : CPUState) (mem : BitVec 32 → BitVec 32) (address : BitVec 32)
    (isUser : Bool) : Option Region :=
  let first := l1Desc env mem address
  let domain := domainV5 env first
  let region (phys pageSize ap : BitVec 32) : Option Region :=
    some ⟨phys, pageSize, apLevel env ap domain isUser, true⟩
  if first &&& 3#32 = 0#32 then none
  else if domain = 0#32 ∨ domain = 2#32 then none
  else if first &&& 3#32 = 2#32 then
    region ((first &&& 0xFFF00000#32) ||| (address &&& 0x000FFFFF#32)) 0x100000#32
      ((first >>> 10) &&& 3#32)
  else
    let desc := mem (l2TableV5 first address)
    let subpageAp := (desc >>> (4#32 + ((address >>> 13) &&& 6#32))) &&& 3#32
    if desc &&& 3#32 = 0#32 then none
    else if desc &&& 3#32 = 1#32 then
      region ((desc &&& 0xFFFF0000#32) ||| (address &&& 0xFFFF#32)) 0x10000#32 subpageAp
    else if desc &&& 3#32 = 2#32 then
      region ((desc &&& 0xFFFFF000#32) ||| (address &&& 0xFFF#32)) 0x1000#32 subpageAp
    else if first &&& 3#32 = 1#32 ∧ armFeature env .xscale = false then none
    else
      region
        (if first &&& 3#32 = 1#32 then (desc &&& 0xFFFFF000#32) ||| (address &&& 0xFFF#32)
          else (desc &&& 0xFFFFFC00#32) ||| (address &&& 0x3FF#32))
        0x400#32 ((desc >>> 4) &&& 3#32)

theorem toNat_and_three_lt (x : BitVec 32) : (x &&& 3#32).toNat < 8 := by
  rw [BitVec.toNat_and]
  exact lt_of_le_of_lt Nat.and_le_right (by decide)

section

variable {env : CPUState} {mem : BitVec 32 → BitVec 32} {address : BitVec 32} {kind : AccessType}
  {isUser : Bool} {reads : List (BitVec 32)}

/-- The end of the walk of version 5, where every page can be executed. -/
theorem checkAccessV5_answers {ap : BitVec 32} (hap : ap.toNat < 8) (domain phys : BitVec 32)
    {code : BitVec 32} (hcode : code &&& 0xF#32 ≠ 0#32) (out : PhysResult) :
    Returns (checkAccessV5 env kind.toInt isUser ap code domain phys out) reads fun result _ =>
      Answers (some ⟨phys, out.pageSize, apLevel env ap domain isUser, true⟩) kind result := by
  have hexecute : ¬ (kind = .code ∧ true = false) := fun h => Bool.noConfusion h.2
  rw [checkAccessV5, Returns.bind_iff,
    Returns.iff_of_run (checkAp_run env hap domain kind isUser reads)]
  by_cases hprot : (apLevel env ap domain isUser).prot kind = 0#32
  · rw [if_pos hprot, Returns.pure_iff]
    refine .fault_some ?_ hcode _ domain
    rw [Rights.grant, if_neg hexecute, if_pos hprot]
  · rw [if_neg hprot, Returns.pure_iff]
    refine .granted rfl ?_ rfl rfl rfl
    rw [Rights.grant, if_neg hexecute, if_neg hprot]
    rfl

/-- The walk of version 5 answers from the region of the address. -/
theorem getPhysAddrV5_answers (out : PhysResult) :
    Returns (getPhysAddrV5 env mem address kind.toInt isUser out) reads fun result _ =>
      Answers (regionV5 env mem address isUser) kind result := by
  rw [getPhysAddrV5, Returns.bind_iff, ldlPhys_returns_iff, regionV5]
  change Returns (if l1Desc env mem address &&& 3#32 = 0#32 then _
    else if domainV5 env (l1Desc env mem address) = 0#32 ∨
      domainV5 env (l1Desc env mem address) = 2#32 then _
    else if l1Desc env mem address &&& 3#32 = 2#32 then _ else _) _ _
  by_cases hinvalid : l1Desc env mem address &&& 3#32 = 0#32
  · rw [if_pos hinvalid, if_pos hinvalid, Returns.pure_iff]
    exact .fault_none (by decide) out _
  rw [if_neg hinvalid, if_neg hinvalid]
  by_cases hdomain : domainV5 env (l1Desc env mem address) = 0#32 ∨
      domainV5 env (l1Desc env mem address) = 2#32
  · rw [if_pos hdomain, if_pos hdomain, Returns.pure_iff]
    refine .fault_none ?_ out _
    split <;> decide
  rw [if_neg hdomain, if_neg hdomain]
  by_cases htype : l1Desc env mem address &&& 3#32 = 2#32
  · rw [if_pos htype, if_pos htype]
    exact checkAccessV5_answers (toNat_and_three_lt _) _ _ (by decide) _
  rw [if_neg htype, if_neg htype, Returns.bind_iff, ldlPhys_returns_iff]
  change Returns (if mem (l2TableV5 (l1Desc env mem address) address) &&& 3#32 = 0#32 then _
    else if mem (l2TableV5 (l1Desc env mem address) address) &&& 3#32 = 1#32 then _
    else if mem (l2TableV5 (l1Desc env mem address) address) &&& 3#32 = 2#32 then _
    else if l1Desc env mem address &&& 3#32 = 1#32 ∧ armFeature env .xscale = false then _
    else _) _ _
  by_cases hentry : mem (l2TableV5 (l1Desc env mem address) address) &&& 3#32 = 0#32
  · rw [if_pos hentry, if_pos hentry, Returns.pure_iff]
    exact .fault_none (by decide) out _
  rw [if_neg hentry, if_neg hentry]
  by_cases hlarge : mem (l2TableV5 (l1Desc env mem address) address) &&& 3#32 = 1#32
  · rw [if_pos hlarge, if_pos hlarge]
    exact checkAccessV5_answers (toNat_and_three_lt _) _ _ (by decide) _
  rw [if_neg hlarge, if_neg hlarge]
  by_cases hsmall : mem (l2TableV5 (l1Desc env mem address) address) &&& 3#32 = 2#32
  · rw [if_pos hsmall, if_pos hsmall]
    exact checkAccessV5_answers (toNat_and_three_lt _) _ _ (by decide) _
  rw [if_neg hsmall, if_neg hsmall]
  by_cases htiny : l1Desc env mem address &&& 3#32 = 1#32 ∧ armFeature env .xscale = false
  · rw [if_pos htiny, if_pos htiny, Returns.pure_iff]
    exact .fault_none (by decide) out _
  · rw [if_neg htiny, if_neg htiny]
    exact checkAccessV5_answers (toNat_and_three_lt _) _ _ (by decide) _

end

/-! ## Any processor with an MMU -/

/-- The region of an address, on a processor without a protection unit. -/
def regionOf (env : ArmState) (mem : BitVec 32 → BitVec 32) (address : BitVec 32)
    (isUser : Bool) : Option Region :=
  let address := modifiedAddress env address
  if env.c1Sys &&& 1#32 = 0#32 then some ⟨address, targetPageSize, .readWrite, true⟩
  else if env.c1Sys &&& (1#32 <<< 23) ≠ 0#32 then regionV6 env.toCPUState mem address isUser
  else regionV5 env.toCPUState mem address isUser

/-- `get_phys_addr` never aborts, and it answers from the region of the address. -/
theorem getPhysAddr_answers {env : ArmState} (hmmu : armFeature env.toCPUState .mpu = false)
    (mem : BitVec 32 → BitVec 32) (address : BitVec 32) (kind : AccessType) (isUser : Bool)
    (out : PhysResult) (reads : List (BitVec 32)) :
    Returns (getPhysAddr env mem address kind.toInt isUser out) reads fun result _ =>
      Answers (regionOf env mem address isUser) kind result := by
  rw [getPhysAddr, regionOf]
  by_cases hoff : env.c1Sys &&& 1#32 = 0#32
  · rw [if_pos hoff, if_pos hoff, Returns.pure_iff]
    refine .granted rfl ?_ rfl rfl rfl
    cases kind <;> rfl
  rw [if_neg hoff, if_neg hoff, if_neg (Bool.eq_false_iff.mp hmmu)]
  by_cases hv6 : env.c1Sys &&& (1#32 <<< 23) ≠ 0#32
  · rw [if_pos hv6, if_pos hv6]
    exact getPhysAddrV6_answers out
  · rw [if_neg hv6, if_neg hv6]
    exact getPhysAddrV5_answers out

/-- The region, if there is one, has a size. -/
def Sized (region : Option Region) : Prop := ∀ found, region = some found → found.pageSize ≠ 0#32

namespace Sized

theorem none : Sized Option.none := by
  intro found hfound
  cases hfound

theorem some {region : Region} (h : region.pageSize ≠ 0#32) : Sized (Option.some region) := by
  intro found hfound
  cases hfound
  exact h

theorem ite {region region' : Option Region} (condition : Prop) [Decidable condition]
    (h : Sized region) (h' : Sized region') : Sized (if condition then region else region') := by
  split
  · exact h
  · exact h'

theorem regionV6 (env : CPUState) (mem : BitVec 32 → BitVec 32) (address : BitVec 32)
    (isUser : Bool) : Sized (regionV6 env mem address isUser) := by
  refine ite _ none (ite _ none (ite _ (ite _ (some ?_) (some ?_)) (ite _ none
    (ite _ (some ?_) (some ?_)))))
  · exact (by decide : 0x1000000#32 ≠ 0#32)
  · exact (by decide : 0x100000#32 ≠ 0#32)
  · exact (by decide : 0x10000#32 ≠ 0#32)
  · exact (by decide : 0x1000#32 ≠ 0#32)

theorem regionV5 (env : CPUState) (mem : BitVec 32 → BitVec 32) (address : BitVec 32)
    (isUser : Bool) : Sized (regionV5 env mem address isUser) := by
  refine ite _ none (ite _ none (ite _ (some ?_) (ite _ none (ite _ (some ?_) (ite _ (some ?_)
    (ite _ none (some ?_)))))))
  · exact (by decide : 0x100000#32 ≠ 0#32)
  · exact (by decide : 0x10000#32 ≠ 0#32)
  · exact (by decide : 0x1000#32 ≠ 0#32)
  · exact (by decide : 0x400#32 ≠ 0#32)

theorem regionOf (env : ArmState) (mem : BitVec 32 → BitVec 32) (address : BitVec 32)
    (isUser : Bool) : Sized (regionOf env mem address isUser) :=
  ite _ (some (by decide : targetPageSize ≠ 0#32)) (ite _ (regionV6 _ _ _ _) (regionV5 _ _ _ _))

end Sized

theorem getPhysAddrMpu_pageSize (env : ArmState) (address : BitVec 32) (accessType : Int)
    (isUser : Bool) (out : PhysResult) :
    (getPhysAddrMpu env address accessType isUser out).pageSize = out.pageSize := by
  unfold getPhysAddrMpu
  dsimp only
  split
  · rfl
  · split <;> (try split) <;> rfl

/-- A successful translation tells a size, on any processor. -/
theorem getPhysAddr_pageSize (env : ArmState) (mem : BitVec 32 → BitVec 32) (address : BitVec 32)
    (kind : AccessType) (isUser : Bool) (out : PhysResult) (reads : List (BitVec 32)) :
    Ensures (getPhysAddr env mem address kind.toInt isUser out) reads fun result _ =>
      result.ret = 0#32 → result.pageSize ≠ 0#32 := by
  by_cases hmpu : armFeature env.toCPUState .mpu = false
  · refine (getPhysAddr_answers hmpu mem address kind isUser out reads).ensures.mono ?_
    intro result _ hanswers hret
    cases hanswers with
    | granted hregion _ _ _ hsize =>
        rw [hsize]
        exact Sized.regionOf _ _ _ _ _ hregion
    | refused _ hfault => exact absurd hret hfault
  · have hsize : targetPageSize ≠ 0#32 := by decide
    rw [getPhysAddr]
    split
    · rw [Ensures.pure_iff]
      exact fun _ => hsize
    · rw [if_pos (Bool.not_eq_false _ ▸ hmpu), Ensures.pure_iff, getPhysAddrMpu_pageSize]
      exact fun _ => hsize

/-! ## One access tells about another -/

/-- The flag that permits a kind of access. -/
def AccessType.pageFlag : AccessType → BitVec 32
  | .read => pageRead
  | .write => pageWrite
  | .code => pageExec

/-- A permitted access is permitted by its own flag. -/
theorem Rights.flag_of_grant {rights : Rights} {kind : AccessType} {prot : BitVec 32}
    (h : rights.grant kind = some prot) : prot &&& kind.pageFlag ≠ 0#32 := by
  rcases rights with ⟨level, execute⟩
  cases level <;> cases execute <;> cases kind <;> cases h <;> decide

/-- The two addresses are in one page of 1 KB. -/
def SamePage (address address' : BitVec 32) : Prop :=
  address &&& targetPageMask = address' &&& targetPageMask

instance (address address' : BitVec 32) : Decidable (SamePage address address') :=
  inferInstanceAs (Decidable (address &&& targetPageMask = address' &&& targetPageMask))

section

variable {address address' : BitVec 32}

/-- An index into a table is the same all over a page. -/
theorem SamePage.index_eq (h : SamePage address address') {n : ℕ} {mask : BitVec 32}
    (hmask : (targetPageMask >>> n) &&& mask = mask) :
    (address >>> n) &&& mask = (address' >>> n) &&& mask := by
  have hindex : ∀ a : BitVec 32, (a >>> n) &&& mask = ((a &&& targetPageMask) >>> n) &&& mask := by
    intro a
    rw [BitVec.ushiftRight_and_distrib, BitVec.and_assoc, hmask]
  rw [hindex address, hindex address', h]

variable {env : CPUState} {mem : BitVec 32 → BitVec 32} {isUser : Bool}

end

/-- The bits below a mask of ones. -/
theorem toNat_and_ones {mask : BitVec 32} {k : ℕ} (hmask : mask.toNat = 2 ^ k - 1)
    (x : BitVec 32) : (x &&& mask).toNat = x.toNat % 2 ^ k := by
  rw [BitVec.toNat_and, hmask, Nat.and_two_pow_sub_one_eq_mod]

/-- The bits above a mask of ones. -/
theorem toNat_and_not_ones {mask : BitVec 32} {k : ℕ} (hmask : mask.toNat = 2 ^ k - 1)
    (x : BitVec 32) : (x &&& ~~~mask).toNat = 2 ^ k * (x.toNat / 2 ^ k) := by
  have hsum := congrArg BitVec.toNat (and_not_add_and x mask)
  have hle : (x &&& ~~~mask).toNat ≤ x.toNat := by
    rw [BitVec.toNat_and]
    exact Nat.and_le_left
  have hdiv := Nat.div_add_mod x.toNat (2 ^ k)
  rw [BitVec.toNat_add, toNat_and_ones hmask] at hsum
  have hlt := x.isLt
  have hmod := Nat.mod_le x.toNat (2 ^ k)
  omega

theorem toNat_and_not_pageMask (address : BitVec 32) :
    (address &&& ~~~targetPageMask).toNat = address.toNat % 1024 :=
  toNat_and_ones (k := 10) (by decide) address

theorem toNat_and_pageMask (address : BitVec 32) :
    (address &&& targetPageMask).toNat = 1024 * (address.toNat / 1024) :=
  toNat_and_not_ones (k := 10) (by decide : (targetPageSize - 1#32).toNat = 2 ^ 10 - 1) address

theorem samePage_iff {address address' : BitVec 32} :
    SamePage address address' ↔ address.toNat / 1024 = address'.toNat / 1024 := by
  rw [SamePage, ← BitVec.toNat_inj, toNat_and_pageMask, toNat_and_pageMask]
  omega

/-- The process identifier moves whole pages. -/
theorem SamePage.modifiedAddress {env : ArmState} {address address' : BitVec 32}
    (h : SamePage address address') (hfcse : env.c13Fcse &&& ~~~targetPageMask = 0#32) :
    SamePage (modifiedAddress env address) (modifiedAddress env address') := by
  have haligned : env.c13Fcse.toNat % 1024 = 0 := by
    rw [← toNat_and_not_pageMask, hfcse]
    rfl
  rw [samePage_iff] at h ⊢
  unfold Emulator.modifiedAddress
  have hlimit : (0x02000000#32).toNat = 1024 * 32768 := rfl
  have hsame : address < 0x02000000#32 ↔ address' < 0x02000000#32 := by
    rw [BitVec.lt_def, BitVec.lt_def, hlimit]
    omega
  by_cases hlow : address < 0x02000000#32
  · rw [if_pos hlow, if_pos (hsame.mp hlow), BitVec.toNat_add, BitVec.toNat_add]
    omega
  · rw [if_neg hlow, if_neg fun hlow' => hlow (hsame.mpr hlow')]
    exact h

end TlbAnalyzer.Emulator
