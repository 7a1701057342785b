/-
# Runs of guest accesses

The helpers of `softmmu_template.h` start again after every fill of the translation cache,
and nothing in them says that this comes to an end. It does on a processor with an MMU,
where a translation that succeeds gives the right that was asked for, so that the next
attempt finds the entry. With this the model's fuel can be forgotten: six rounds are enough
for every access.

A session of the tracer begins with a flush. From then on an access of the emitted code is
either passed to the tracer or finds an entry that was filled by one that was. So the
missing call on the matching branch loses references, but no page, as long as no access
crosses from one page into another.
-/

import TlbAnalyzer.Emulator.Coherence

namespace TlbAnalyzer.Emulator

open Math

/-! ## Accesses and devices -/

/-- An access of the guest, by the emitted code or by an accessor. -/
inductive Access
  | qemuLd (opc : LoadOpc) (addr : BitVec 32) (memIndex : Fin 2)
  | qemuSt (opc : Suffix) (addr : BitVec 32) (dataReg : BitVec 64) (memIndex : Fin 2)
  | ld (mmuSuffix : MmuSuffix) (suffix : Suffix) (ptr : BitVec 32) (mmuIdx : Fin 2)
  | lds (mmuSuffix : MmuSuffix) (suffix : Suffix) (ptr : BitVec 32) (mmuIdx : Fin 2)
  | st (mmuSuffix : MmuSuffix) (suffix : Suffix) (ptr : BitVec 32) (v : BitVec suffix.resBits)
      (mmuIdx : Fin 2)

/-- Make an access, with its result dropped. -/
def Access.run (host : Host Board) (fuel : ℕ) : Access → SoftmmuM Board Unit
  | .qemuLd opc addr memIndex => do
      let _ ← Emulator.qemuLd host opc fuel addr memIndex
  | .qemuSt opc addr dataReg memIndex => Emulator.qemuSt host opc fuel addr dataReg memIndex
  | .ld mmuSuffix suffix ptr mmuIdx => do
      let _ ← Emulator.ld host mmuSuffix suffix fuel ptr mmuIdx
  | .lds mmuSuffix suffix ptr mmuIdx => do
      let _ ← Emulator.lds host mmuSuffix suffix fuel ptr mmuIdx
  | .st mmuSuffix suffix ptr v mmuIdx => Emulator.st host mmuSuffix suffix fuel ptr v mmuIdx

/-- The first byte of an access. -/
def Access.addr : Access → BitVec 32
  | .qemuLd _ addr _ => addr
  | .qemuSt _ addr _ _ => addr
  | .ld _ _ ptr _ => ptr
  | .lds _ _ ptr _ => ptr
  | .st _ _ ptr _ _ => ptr

/-- The privilege that an access is made with. -/
def Access.memIndex : Access → Fin 2
  | .qemuLd _ _ memIndex => memIndex
  | .qemuSt _ _ _ memIndex => memIndex
  | .ld _ _ _ mmuIdx => mmuIdx
  | .lds _ _ _ mmuIdx => mmuIdx
  | .st _ _ _ _ mmuIdx => mmuIdx

/-- The size of an access. -/
def Access.suffix : Access → Suffix
  | .qemuLd opc _ _ => opc.sBits
  | .qemuSt opc _ _ _ => opc
  | .ld _ suffix _ _ => suffix
  | .lds _ suffix _ _ => suffix
  | .st _ suffix _ _ _ => suffix

/-- The 4 KB pages of an access. -/
def Access.pages (access : Access) : Finset (BitVec 32) :=
  Emulator.pages (bytesOf access.addr access.suffix.dataSize)

/-- A device may drop entries of the translation cache, but it makes none, and it leaves
the kind of processor. -/
structure Tame (env env' : Cpu) : Prop where
  features : env'.rest.arm.features = env.rest.arm.features
  answers : ∀ mmuIdx kind addr place, env'.lookup mmuIdx kind addr = some place →
    env.lookup mmuIdx kind addr = some place

/-- The emulator's own fault handler, with devices that leave the translation cache to it,
and without the memory checker. -/
structure Wired (host : Host Board) : Prop where
  handler : host.cpuArmHandleMmuFault = cpuArmHandleMmuFault
  read : ∀ index shift physaddr env, Tame env (host.ioMemRead index shift physaddr env).2
  write : ∀ index shift physaddr val env, Tame env (host.ioMemWrite index shift physaddr val env).2
  unchecked : host.memcheckInstrumentMmu = false

/-- A processor with an MMU. -/
def HasMmu (env : Cpu) : Prop := armFeature env.rest.arm.toCPUState .mpu = false

/-! ## What an access leaves behind -/

/-- Between the two states nothing was done but on these 4 KB pages, for this privilege. -/
structure Within (mmuIdx : Fin 2) (touched : Finset (BitVec 32)) (s s' : Execution Board) :
    Prop where
  features : s'.env.rest.arm.features = s.env.rest.arm.features
  answers : ∀ mmuIdx' kind addr place, s'.env.lookup mmuIdx' kind addr = some place →
    s.env.lookup mmuIdx' kind addr = some place ∨ (mmuIdx' = mmuIdx ∧ page addr ∈ touched)
  refmems : s'.refmems = s.refmems
  accesses : s'.accessedPages ⊆ s.accessedPages ∪ touched

section

variable {mmuIdx : Fin 2} {touched : Finset (BitVec 32)} {s s' s'' : Execution Board}

theorem Within.refl (mmuIdx : Fin 2) (touched : Finset (BitVec 32)) (s : Execution Board) :
    Within mmuIdx touched s s :=
  ⟨rfl, fun _ _ _ _ h => Or.inl h, rfl, Finset.subset_union_left⟩

theorem Within.trans (h : Within mmuIdx touched s s') (h' : Within mmuIdx touched s' s'') :
    Within mmuIdx touched s s'' where
  features := h'.features.trans h.features
  answers := by
    intro mmuIdx' kind addr place hanswer
    rcases h'.answers mmuIdx' kind addr place hanswer with hbefore | hpage
    · exact h.answers mmuIdx' kind addr place hbefore
    · exact Or.inr hpage
  refmems := h'.refmems.trans h.refmems
  accesses := by
    refine h'.accesses.trans ?_
    exact Finset.union_subset h.accesses Finset.subset_union_right

/-- Only the machine was changed, and not its translation cache. -/
theorem Within.of_env {env : Cpu} (h : Tame s.env env) :
    Within mmuIdx touched s { s with env := env } :=
  ⟨h.features, fun mmuIdx' kind addr place hanswer =>
    Or.inl (h.answers mmuIdx' kind addr place hanswer), rfl, Finset.subset_union_left⟩

theorem Within.hasMmu (h : Within mmuIdx touched s s') (hmmu : HasMmu s.env) : HasMmu s'.env := by
  rw [HasMmu, armFeature, h.features]
  exact hmmu

theorem Tame.refl (env : Cpu) : Tame env env := ⟨rfl, fun _ _ _ _ h => h⟩

end

/-- The ends that the source gives an access. -/
def StopReason.Proper (reason : StopReason) : Prop :=
  reason ≠ .outOfFuel ∧ reason ≠ .outOfBounds

instance (reason : StopReason) : Decidable reason.Proper := inferInstanceAs (Decidable (_ ∧ _))

/-- The program comes to a proper end and works on these pages only, whether it completes
or not. -/
def Bounded (mmuIdx : Fin 2) (touched : Finset (BitVec 32)) {α : Type}
    (program : SoftmmuM Board α) : Prop :=
  ∀ s, HasMmu s.env → Ends program s (fun _ s' => Within mmuIdx touched s s')
    fun stop => stop.reason.Proper ∧ Within mmuIdx touched s stop.final

section

variable {mmuIdx : Fin 2} {touched : Finset (BitVec 32)} {α β : Type} {program : SoftmmuM Board α}
  {next : α → SoftmmuM Board β}

theorem Bounded.bind (h : Bounded mmuIdx touched program)
    (hnext : ∀ value, Bounded mmuIdx touched (next value)) :
    Bounded mmuIdx touched (program >>= next) := by
  intro s hmmu
  refine ((h s hmmu).mono (fun _ _ => id) fun _ => id).bind ?_
  intro value middle hmiddle
  refine (hnext value middle (hmiddle.hasMmu hmmu)).mono ?_ ?_
  · intro _ final hfinal
    exact hmiddle.trans hfinal
  · intro failure hfailure
    exact ⟨hfailure.1, hmiddle.trans hfailure.2⟩

theorem Bounded.pure (value : α) : Bounded mmuIdx touched (pure value : SoftmmuM Board α) :=
  fun s _ => .of_run rfl (.refl mmuIdx touched s)

theorem Bounded.get : Bounded mmuIdx touched (get : SoftmmuM Board (Execution Board)) :=
  fun s _ => .of_run rfl (.refl mmuIdx touched s)

theorem Bounded.stop {reason : StopReason} (h : reason.Proper) :
    Bounded mmuIdx touched (Emulator.stop reason : SoftmmuM Board α) :=
  fun s _ => .of_fails rfl ⟨h, .refl mmuIdx touched s⟩

theorem Bounded.modify {change : Execution Board → Execution Board}
    (h : ∀ s, Within mmuIdx touched s (change s)) :
    Bounded mmuIdx touched (modify change : SoftmmuM Board PUnit) :=
  fun s _ => .of_run rfl (h s)

theorem Bounded.call {callback : Callback Board α} (h : ∀ env, Tame env (callback env).2) :
    Bounded mmuIdx touched (Emulator.call callback) := by
  intro s _
  have htame := h s.env
  rcases hcall : callback s.env with ⟨result, env⟩
  rw [hcall] at htame
  cases result with
  | none =>
      have hrun : (Emulator.call callback).run s =
          .error ⟨.cpuLoopExit, { s with env := env }⟩ := by
        show Emulator.call callback s = _
        rw [Emulator.call, hcall]
      exact .of_fails hrun ⟨(by decide : StopReason.cpuLoopExit.Proper), .of_env htame⟩
  | some result =>
      have hrun : (Emulator.call callback).run s = .ok (result, { s with env := env }) := by
        show Emulator.call callback s = _
        rw [Emulator.call, hcall]
      exact .of_run hrun (.of_env htame)

theorem Bounded.accessed {addr : BitVec 32} {suffix : Suffix}
    (h : Emulator.pages (bytesOf addr suffix.dataSize) ⊆ touched) :
    Bounded mmuIdx touched (Emulator.accessed addr suffix : SoftmmuM Board Unit) := by
  intro s _
  refine .of_run rfl ⟨rfl, fun _ _ _ _ hanswer => Or.inl hanswer, rfl, ?_⟩
  have hpages := (accessed_touches addr suffix).accessed s _ _ rfl
  rw [hpages]
  exact Finset.union_subset_union (Finset.Subset.refl _) h

theorem Bounded.forM {ι : Type} {body : ι → SoftmmuM Board PUnit} {items : List ι}
    (h : ∀ item ∈ items, Bounded mmuIdx touched (body item)) :
    Bounded mmuIdx touched (items.forM body) := by
  induction items with
  | nil => exact .pure _
  | cons item items ih =>
      apply (h item List.mem_cons_self).bind
      intro _
      exact ih fun other hother => h other (List.mem_cons_of_mem item hother)

end

/-! ## Fills -/

theorem SamePage.page_eq {addr addr' : BitVec 32} (h : SamePage addr addr') :
    page addr = page addr' := by
  have hsame := samePage_iff.mp h
  rw [page_eq_page_iff]
  omega

section

variable {env env' : Cpu} {address : BitVec 32} {kind : AccessType} {mmuIdx : Fin 2}
  {result : PhysResult} {place : BitVec 64 × BitVec 32}

/-- After a fill the answers are those from before, or for the page that was filled. -/
theorem Filled.lookup_cases (h : Filled env address kind mmuIdx result place env') {mmuIdx' : Fin 2}
    {kind' : AccessType} {addr : BitVec 32} {place' : BitVec 64 × BitVec 32}
    (hanswer : env'.lookup mmuIdx' kind' addr = some place') :
    env.lookup mmuIdx' kind' addr = some place' ∨ (mmuIdx' = mmuIdx ∧ SamePage addr address) := by
  rw [h.lookup_eq] at hanswer
  split at hanswer
  · rename_i hslot
    rw [Option.ite_none_right_eq_some] at hanswer
    exact Or.inr ⟨hslot.1, hanswer.1.1⟩
  · exact Or.inl hanswer

/-- On a processor with an MMU the access that was missed finds its page after the fill. -/
theorem Filled.lookup_self (h : Filled env address kind mmuIdx result place env')
    (hmmu : HasMmu env) : env'.lookup mmuIdx kind address = some place := by
  rcases region_of_translate hmmu h.translated h.permitted with ⟨region, -, hgrant, -⟩
  have hflag : effectiveProt result.prot &&& kind.pageFlag ≠ 0#32 := by
    have hright := Rights.flag_of_grant hgrant
    rw [effectiveProt]
    split
    · intro hzero
      rw [BitVec.and_or_distrib_right, BitVec.or_eq_zero_iff] at hzero
      exact hright hzero.1
    · exact hright
  rw [h.lookup_eq, if_pos ⟨rfl, rfl⟩, if_pos ⟨rfl, hflag⟩]

end

/-! ## Memory and devices -/

section

variable {host : Host Board} (hwired : Wired host) {mmuIdx : Fin 2} {touched : Finset (BitVec 32)}
  {suffix : Suffix} {addr : BitVec 32}

theorem ldRaw_bounded (h : pages (bytesOf addr suffix.dataSize) ⊆ touched) (base : BitVec 64) :
    Bounded mmuIdx touched (ldRaw suffix addr base) := by
  apply (Bounded.accessed h).bind
  intro _
  exact Bounded.get.bind fun _ => .pure _

theorem stRaw_bounded (h : pages (bytesOf addr suffix.dataSize) ⊆ touched) (base : BitVec 64)
    (val : suffix.DataType) : Bounded mmuIdx touched (stRaw suffix addr base val) := by
  apply (Bounded.accessed h).bind
  intro _
  exact .modify fun s => .of_env ⟨rfl, fun _ _ _ _ hanswer => hanswer⟩

theorem beginIo_bounded (index : ℕ) (addr : BitVec 32) :
    Bounded mmuIdx touched (beginIo host index addr) := by
  apply Bounded.get.bind
  intro s
  split
  · exact .stop (by decide)
  · exact .modify fun s => .of_env ⟨rfl, fun _ _ _ _ hanswer => hanswer⟩

include hwired

theorem ioRead_bounded (h : pages (bytesOf addr suffix.dataSize) ⊆ touched) (physaddr : BitVec 32) :
    Bounded mmuIdx touched (ioRead host suffix physaddr addr) := by
  have hcall : ∀ index shift physaddr,
      Bounded mmuIdx touched (call (host.ioMemRead index shift physaddr)) :=
    fun index shift physaddr => .call (hwired.read index shift physaddr)
  apply (beginIo_bounded _ addr).bind
  intro _
  apply (Bounded.accessed h).bind
  intro _
  cases suffix with
  | q => exact (hcall _ _ _).bind fun _ => (hcall _ _ _).bind fun _ => .pure _
  | _ => exact (hcall _ _ _).bind fun _ => .pure _

theorem ioWrite_bounded (h : pages (bytesOf addr suffix.dataSize) ⊆ touched) (physaddr : BitVec 32)
    (val : suffix.DataType) : Bounded mmuIdx touched (ioWrite host suffix physaddr val addr) := by
  have hcall : ∀ index shift physaddr val,
      Bounded mmuIdx touched (call (host.ioMemWrite index shift physaddr val)) :=
    fun index shift physaddr val => .call (hwired.write index shift physaddr val)
  apply (beginIo_bounded _ addr).bind
  intro _
  apply (Bounded.accessed h).bind
  intro _
  cases suffix with
  | q => exact (hcall _ _ _ _).bind fun _ => hcall _ _ _ _
  | _ => exact hcall _ _ _ _

/-- A fill that returns has made the entry that was missed. -/
theorem tlbFill_ends {kind : AccessType} (hpage : page addr ∈ touched)
    {s : Execution Board} (hmmu : HasMmu s.env) :
    Ends (tlbFill host addr kind mmuIdx) s
      (fun _ s' => Within mmuIdx touched s s' ∧ (s'.env.lookup mmuIdx kind addr).isSome)
      fun stop => stop.reason.Proper ∧ Within mmuIdx touched s stop.final := by
  have hcall : Ends (call (cpuArmHandleMmuFault addr kind mmuIdx)) s
      (fun fault s' => Within mmuIdx touched s s' ∧
        (fault = false → (s'.env.lookup mmuIdx kind addr).isSome))
      fun stop => stop.reason.Proper ∧ Within mmuIdx touched s stop.final := by
    rcases hresult : cpuArmHandleMmuFault addr kind mmuIdx s.env with ⟨result, env⟩
    cases result with
    | none =>
        have hrun : (call (cpuArmHandleMmuFault addr kind mmuIdx)).run s =
            .error ⟨.cpuLoopExit, { s with env := env }⟩ := by
          show call (cpuArmHandleMmuFault addr kind mmuIdx) s = _
          rw [call, hresult]
        cases handler_aborts hresult
        exact .of_fails hrun ⟨(by decide : StopReason.cpuLoopExit.Proper), .of_env (.refl s.env)⟩
    | some fault =>
        have hrun : (call (cpuArmHandleMmuFault addr kind mmuIdx)).run s =
            .ok (fault, { s with env := env }) := by
          show call (cpuArmHandleMmuFault addr kind mmuIdx) s = _
          rw [call, hresult]
        refine .of_run hrun ?_
        rcases handler_cases hresult with ⟨-, result, place, hfilled⟩ | ⟨rfl, result, -, -, rfl⟩
        · refine ⟨⟨by rw [hfilled.rest_eq], ?_, rfl, Finset.subset_union_left⟩, ?_⟩
          · intro mmuIdx' kind' addr' place' hanswer
            rcases hfilled.lookup_cases hanswer with hbefore | ⟨hmode, hsame⟩
            · exact Or.inl hbefore
            · exact Or.inr ⟨hmode, hsame.page_eq ▸ hpage⟩
          · intro _
            rw [hfilled.lookup_self hmmu]
            rfl
        · refine ⟨.of_env ⟨?_, fun _ _ _ _ hanswer => hanswer⟩, fun h => by cases h⟩
          cases kind <;> rfl
  rw [tlbFill, hwired.handler]
  refine hcall.bind ?_
  intro fault s' hs'
  cases fault with
  | true => exact .of_fails rfl ⟨(by decide : StopReason.raiseException.Proper), hs'.1⟩
  | false => exact .of_run rfl ⟨hs'.1, hs'.2 rfl⟩

/-! ## The helpers -/

omit hwired in
/-- The table answers where the helpers find the page. -/
theorem lookup_isSome {env : Cpu} {kind : AccessType} :
    (env.lookup mmuIdx kind addr).isSome =
      pageInTlb addr ((env.tlbTable mmuIdx (tlbIndex addr)).tag kind) := by
  rw [Env.lookup, Option.isSome_map, CPUTLBEntry.answer]
  split
  · rename_i hpage
    exact hpage.symm
  · rename_i hpage
    exact (Bool.eq_false_of_not_eq_true hpage).symm

/-- The loop around a fill: two more rounds than a hit needs. -/
theorem bounded_redo {α : Type} (kind : AccessType) (attempt : ℕ → SoftmmuM Board α)
    {hit : ℕ → Execution Board → SoftmmuM Board α} {n : ℕ}
    (hattempt : ∀ fuel, attempt (fuel + 1) = get >>= fun s =>
      if pageInTlb addr ((s.env.tlbTable mmuIdx (tlbIndex addr)).tag kind) then hit fuel s
      else tlbFill host addr kind mmuIdx >>= fun _ => attempt fuel)
    (hpage : page addr ∈ touched) (hhit : ∀ fuel s, n ≤ fuel → Bounded mmuIdx touched (hit fuel s))
    {fuel : ℕ} (hfuel : n + 2 ≤ fuel) : Bounded mmuIdx touched (attempt fuel) := by
  rcases Nat.exists_eq_add_of_le' (Nat.le_of_add_left_le hfuel) with ⟨rounds, rfl⟩
  have hrounds : n ≤ rounds := Nat.le_of_add_le_add_right hfuel
  intro s hmmu
  rw [hattempt]
  apply Ends.get_bind
  split
  · exact hhit (rounds + 1) s (Nat.le_succ_of_le hrounds) s hmmu
  · refine (tlbFill_ends hwired hpage hmmu).bind ?_
    intro _ filled ⟨hfilled, hanswer⟩
    rw [hattempt]
    apply Ends.get_bind
    -- the second attempt finds what the fill has made
    rw [lookup_isSome] at hanswer
    rw [if_pos hanswer]
    refine (hhit rounds filled hrounds filled (hfilled.hasMmu hmmu)).mono ?_ ?_
    · intro _ final hfinal
      exact hfilled.trans hfinal
    · intro failure hfailure
      exact ⟨hfailure.1, hfilled.trans hfailure.2⟩

omit hwired in
theorem page_mem_pages (h : pages (bytesOf addr suffix.dataSize) ⊆ touched) :
    page addr ∈ touched := by
  have hfirst : addr ∈ bytesOf addr suffix.dataSize :=
    mem_bytesOf_iff.mpr ⟨0, suffix.dataSize_pos, BitVec.add_zero addr⟩
  exact h (mem_pages_iff.mpr ⟨addr, hfirst, rfl⟩)

omit hwired in
/-- The two loads of a split access are aligned. -/
theorem unaligned_parts (addr : BitVec 32) (suffix : Suffix) :
    ¬ unaligned suffix (addr &&& ~~~suffix.sizeMask) = true ∧
      ¬ unaligned suffix ((addr &&& ~~~suffix.sizeMask) + BitVec.ofNat 32 suffix.dataSize) =
        true := by
  have hfirst := toNat_and_not_sizeMask addr suffix
  generalize addr &&& ~~~suffix.sizeMask = addr1 at hfirst ⊢
  rw [unaligned_iff, unaligned_iff, toNat_add_ofNat]
  have hlt := addr.isLt
  rcases suffix.dataSize_cases with hn | hn | hn | hn <;> rw [hn] at hfirst ⊢ <;> omega

/-- A split load, when its parts need so many rounds. -/
theorem slowLd_bounded_of {mmuSuffix : MmuSuffix} {n : ℕ}
    (h : pages (bytesOf addr suffix.dataSize) ⊆ touched)
    (hparts : unaligned suffix addr = true → ∀ fuel, n ≤ fuel →
      Bounded mmuIdx touched
        (slowLd host mmuSuffix suffix fuel (addr &&& ~~~suffix.sizeMask) mmuIdx) ∧
      Bounded mmuIdx touched (slowLd host mmuSuffix suffix fuel
        ((addr &&& ~~~suffix.sizeMask) + BitVec.ofNat 32 suffix.dataSize) mmuIdx))
    {fuel : ℕ} (hfuel : n + 2 ≤ fuel) :
    Bounded mmuIdx touched (slowLd host mmuSuffix suffix fuel addr mmuIdx) := by
  refine bounded_redo hwired _ (fun fuel => slowLd host mmuSuffix suffix fuel addr mmuIdx)
    (fun _ => rfl) (page_mem_pages h) ?_ hfuel
  intro fuel s hle
  split
  · exact ioRead_bounded hwired h _
  · split
    · rename_i hio hsplit
      rcases hparts (unaligned_of_split hio hsplit) fuel hle with ⟨hfirst, hsecond⟩
      exact hfirst.bind fun _ => hsecond.bind fun _ => .pure _
    · exact ldRaw_bounded h _

/-- Two rounds are enough for an aligned load, and the two parts of another one are aligned. -/
theorem slowLd_bounded (mmuSuffix : MmuSuffix)
    (h : pages (bytesOf addr suffix.dataSize) ⊆ touched) {fuel : ℕ} (hfuel : 4 ≤ fuel) :
    Bounded mmuIdx touched (slowLd host mmuSuffix suffix fuel addr mmuIdx) := by
  have haligned : ∀ {addr : BitVec 32}, pages (bytesOf addr suffix.dataSize) ⊆ touched →
      ¬ unaligned suffix addr = true → ∀ fuel, 2 ≤ fuel →
        Bounded mmuIdx touched (slowLd host mmuSuffix suffix fuel addr mmuIdx) := by
    intro addr hpages haligned fuel hle
    exact slowLd_bounded_of hwired (n := 0) hpages
      (fun hunaligned => absurd hunaligned haligned) hle
  refine slowLd_bounded_of hwired h ?_ hfuel
  intro hunaligned fuel hle
  rw [← pages_split hunaligned] at h
  rcases unaligned_parts addr suffix with ⟨hfirst, hsecond⟩
  exact ⟨haligned (Finset.union_subset_left h) hfirst fuel hle,
    haligned (Finset.union_subset_right h) hsecond fuel hle⟩

theorem memchecked_eq_false (mmuSuffix : MmuSuffix) (mmuIdx : Fin 2) :
    memchecked host mmuSuffix mmuIdx = false := by
  rw [memchecked, hwired.unchecked, Bool.and_false, Bool.false_and]

omit hwired in
theorem invalidateEntries_zero_bounded (index : ℕ) :
    Bounded mmuIdx touched (invalidateEntries mmuIdx index 0 : SoftmmuM Board Unit) :=
  .pure _

theorem ldRedo_bounded (mmuSuffix : MmuSuffix)
    (h : pages (bytesOf addr suffix.dataSize) ⊆ touched) {fuel : ℕ} (hfuel : 6 ≤ fuel) :
    Bounded mmuIdx touched (ldRedo host mmuSuffix suffix addr mmuIdx fuel) := by
  refine bounded_redo hwired _ (fun fuel => ldRedo host mmuSuffix suffix addr mmuIdx fuel)
    (fun _ => rfl) (page_mem_pages h) ?_ hfuel
  intro fuel s hle
  have hslow : Bounded mmuIdx touched (slowLd host mmuSuffix suffix fuel addr mmuIdx) :=
    slowLd_bounded hwired mmuSuffix h hle
  have hdone : ∀ res : suffix.DataType, Bounded mmuIdx touched (do
      invalidateEntries mmuIdx (tlbIndex addr) 0
      return res : SoftmmuM Board suffix.DataType) :=
    fun res => (invalidateEntries_zero_bounded _).bind fun _ => .pure res
  simp only [memchecked_eq_false hwired, Bool.false_and, Bool.false_eq_true, if_false]
  split
  · split
    · exact hslow
    · exact ioRead_bounded hwired h _
  · split
    · exact hslow.bind hdone
    · exact (ldRaw_bounded h _).bind hdone

/-- A split store, when a byte needs so many rounds. -/
theorem slowSt_bounded_of {n : ℕ} (h : pages (bytesOf addr suffix.dataSize) ⊆ touched)
    (hbytes : unaligned suffix addr = true → ∀ fuel, n ≤ fuel → ∀ i < suffix.dataSize, ∀ val,
      Bounded mmuIdx touched (slowSt host fuel .b (addr + BitVec.ofNat 32 i) val mmuIdx))
    (val : suffix.DataType) {fuel : ℕ} (hfuel : n + 2 ≤ fuel) :
    Bounded mmuIdx touched (slowSt host fuel suffix addr val mmuIdx) := by
  refine bounded_redo hwired .write (fun fuel => slowSt host fuel suffix addr val mmuIdx)
    (fun _ => rfl) (page_mem_pages h) ?_ hfuel
  intro fuel s hle
  split
  · exact ioWrite_bounded hwired h _ val
  · split
    · rename_i hio hsplit
      apply Bounded.forM
      intro i hi
      rw [List.mem_reverse, List.mem_range] at hi
      exact hbytes (unaligned_of_split hio hsplit) fuel hle i hi _
    · exact stRaw_bounded h _ val

theorem slowSt_bounded (h : pages (bytesOf addr suffix.dataSize) ⊆ touched)
    (val : suffix.DataType) {fuel : ℕ} (hfuel : 4 ≤ fuel) :
    Bounded mmuIdx touched (slowSt host fuel suffix addr val mmuIdx) := by
  refine slowSt_bounded_of hwired h ?_ val hfuel
  intro _ fuel hle i hi val
  have hbyte : pages (bytesOf (addr + BitVec.ofNat 32 i) Suffix.b.dataSize) ⊆ touched := by
    rw [show Suffix.b.dataSize = 1 from rfl, bytesOf_one]
    intro p hp
    rcases mem_pages_iff.mp hp with ⟨a, ha, rfl⟩
    rw [List.mem_singleton] at ha
    exact h (mem_pages_iff.mpr ⟨a, mem_bytesOf_iff.mpr ⟨i, hi, ha.symm⟩, rfl⟩)
  have haligned : ¬ unaligned .b (addr + BitVec.ofNat 32 i) = true := by
    rw [unaligned_iff, not_not]
    exact Nat.mod_one _
  exact slowSt_bounded_of hwired (n := 0) hbyte (fun hunaligned => absurd hunaligned haligned)
    val hle

theorem stRedo_bounded (mmuSuffix : MmuSuffix)
    (h : pages (bytesOf addr suffix.dataSize) ⊆ touched) (val : suffix.DataType) {fuel : ℕ}
    (hfuel : 6 ≤ fuel) :
    Bounded mmuIdx touched (stRedo host mmuSuffix suffix addr val mmuIdx fuel) := by
  refine bounded_redo hwired .write (fun fuel => stRedo host mmuSuffix suffix addr val mmuIdx fuel)
    (fun _ => rfl) (page_mem_pages h) ?_ hfuel
  intro fuel s hle
  have hslow : Bounded mmuIdx touched (slowSt host fuel suffix addr val mmuIdx) :=
    slowSt_bounded hwired h val hle
  have hdone : ∀ _ : Unit, Bounded mmuIdx touched (invalidateEntries mmuIdx (tlbIndex addr) 0) :=
    fun _ => invalidateEntries_zero_bounded _
  simp only [memchecked_eq_false hwired, Bool.false_and, Bool.false_eq_true, if_false]
  split
  · split
    · exact hslow
    · exact ioWrite_bounded hwired h _ val
  · split
    · exact hslow.bind hdone
    · exact (stRaw_bounded h _ val).bind hdone

/-! ## Whole accesses -/

omit hwired in
/-- The shorter test of the emitted code and of the accessors finds no other page. -/
theorem lookup_isSome_of_fastPath {env : Cpu} {kind : AccessType}
    (h : fastPath suffix addr ((env.tlbTable mmuIdx (tlbIndex addr)).tag kind) = true) :
    (env.lookup mmuIdx kind addr).isSome := by
  have hmasks : (targetPageMask ||| suffix.sizeMask) &&& (targetPageMask ||| tlbInvalidMask) =
      targetPageMask := by
    cases suffix <;> decide
  rw [lookup_isSome, pageInTlb_iff, fastPath_iff.mp h, tagPage, BitVec.and_assoc, hmasks]

/-- The access comes to a proper end and works on its own pages only. It passes its address
to the tracer, or it finds the page in the translation cache. -/
def Performs {α : Type} (program : SoftmmuM Board α) (mmuIdx : Fin 2) (addr : BitVec 32)
    (touched : Finset (BitVec 32)) (s : Execution Board) : Prop :=
  ∃ refs, (refs = [addr] ∨
      (refs = [] ∧ ∃ kind, (s.env.lookup mmuIdx kind addr).isSome)) ∧
    Ends program s (fun _ s' => Within mmuIdx touched { s with refmems := s.refmems ++ refs } s')
      fun stop => stop.reason.Proper ∧
        Within mmuIdx touched { s with refmems := s.refmems ++ refs } stop.final

omit hwired in
/-- A program that starts with its one call of the tracer. -/
theorem performs_refmemQemu {α : Type} {program : SoftmmuM Board α} {s : Execution Board}
    (h : Bounded mmuIdx touched program) (hmmu : HasMmu s.env) :
    Performs (do refmemQemu addr; program) mmuIdx addr touched s :=
  ⟨[addr], Or.inl rfl, h { s with refmems := s.refmems ++ [addr] } hmmu⟩

omit hwired in
/-- A program without a call of the tracer, for a page that is answered. -/
theorem performs_hit {α : Type} {program : SoftmmuM Board α} {s : Execution Board}
    {kind : AccessType} (h : Bounded mmuIdx touched program) (hmmu : HasMmu s.env)
    (hanswer : (s.env.lookup mmuIdx kind addr).isSome) :
    Performs program mmuIdx addr touched s := by
  refine ⟨[], Or.inr ⟨rfl, kind, hanswer⟩, ?_⟩
  rw [List.append_nil]
  exact h s hmmu

omit hwired in
/-- What is done with the result of an access adds nothing. -/
theorem Performs.bind_pure {α β : Type} {program : SoftmmuM Board α} {s : Execution Board}
    (h : Performs program mmuIdx addr touched s) (result : α → β) :
    Performs (do let value ← program; return result value) mmuIdx addr touched s := by
  rcases h with ⟨refs, hrefs, hends⟩
  refine ⟨refs, hrefs, hends.bind ?_⟩
  intro value final hfinal
  exact .of_run rfl hfinal

omit hwired in
theorem Performs.of_run_eq {α : Type} {program program' : SoftmmuM Board α} {s : Execution Board}
    (h : Performs program' mmuIdx addr touched s) (hrun : program.run s = program'.run s) :
    Performs program mmuIdx addr touched s := by
  rcases h with ⟨refs, hrefs, hreturns, hstops⟩
  refine ⟨refs, hrefs, ?_, ?_⟩
  · intro result final hok
    exact hreturns result final (hrun ▸ hok)
  · intro failure hfails
    exact hstops failure (hrun ▸ hfails)

omit hwired in
/-- The compare of the emitted code leaves the state, and a match is a page that is answered. -/
theorem tlbLoad_cases (s : Execution Board) (addr : BitVec 32) (memIndex : Fin 2) (sBits : Suffix)
    (which : AccessType) :
    (tlbLoad addr memIndex sBits which).run s = .ok (none, s) ∨
      ((s.env.lookup memIndex which addr).isSome ∧
        ∃ r0, (tlbLoad addr memIndex sBits which).run s = .ok (some r0, s)) := by
  have hrun : (tlbLoad addr memIndex sBits which).run s =
      .ok (if fastPath sBits addr ((s.env.tlbTable memIndex (tlbIndex addr)).tag which) then
        some (addr.setWidth 64 + (s.env.tlbTable memIndex (tlbIndex addr)).addend)
        else none, s) := by
    rw [← tlbOffset_div addr]
    show StateT.run (if fastPath sBits addr ((s.env.tlbTable memIndex (_ / _)).tag which) then
      pure (some _) else pure none) _ = _
    split
    · rfl
    · rfl
  by_cases hfast : fastPath sBits addr ((s.env.tlbTable memIndex (tlbIndex addr)).tag which) = true
  · rw [if_pos hfast] at hrun
    exact Or.inr ⟨lookup_isSome_of_fastPath hfast, _, hrun⟩
  · rw [if_neg hfast] at hrun
    exact Or.inl hrun

omit hwired in
/-- What the compare of the emitted code decides. -/
theorem performs_tlbLoad {α : Type} {which : AccessType}
    {next : Option (BitVec 64) → SoftmmuM Board α} {s : Execution Board} (hmmu : HasMmu s.env)
    (hhit : ∀ r0, Bounded mmuIdx touched (next (some r0)))
    (hmiss : Performs (next none) mmuIdx addr touched s) :
    Performs (tlbLoad addr mmuIdx suffix which >>= next) mmuIdx addr touched s := by
  have hnext : ∀ value, (tlbLoad addr mmuIdx suffix which).run s = .ok (value, s) →
      (tlbLoad addr mmuIdx suffix which >>= next).run s = (next value).run s := by
    intro value hrun
    rw [StateT.run_bind, hrun]
    rfl
  rcases tlbLoad_cases s addr mmuIdx suffix which with hrun | ⟨hanswer, r0, hrun⟩
  · exact hmiss.of_run_eq (hnext none hrun)
  · exact (performs_hit (hhit r0) hmmu hanswer).of_run_eq (hnext (some r0) hrun)

theorem ldMmu_performs (mmuSuffix : MmuSuffix) {fuel : ℕ} (hfuel : 6 ≤ fuel) {s : Execution Board}
    (hmmu : HasMmu s.env) :
    Performs (ldMmu host mmuSuffix suffix fuel addr mmuIdx) mmuIdx addr
      (pages (bytesOf addr suffix.dataSize)) s :=
  performs_refmemQemu (ldRedo_bounded hwired mmuSuffix (Finset.Subset.refl _) hfuel) hmmu

theorem stMmu_performs (mmuSuffix : MmuSuffix) (val : suffix.DataType) {fuel : ℕ} (hfuel : 6 ≤ fuel)
    {s : Execution Board} (hmmu : HasMmu s.env) :
    Performs (stMmu host mmuSuffix suffix fuel addr val mmuIdx) mmuIdx addr
      (pages (bytesOf addr suffix.dataSize)) s :=
  performs_refmemQemu (stRedo_bounded hwired mmuSuffix (Finset.Subset.refl _) val hfuel) hmmu

theorem ldData_performs (mmuSuffix : MmuSuffix) {fuel : ℕ} (hfuel : 6 ≤ fuel) {s : Execution Board}
    (hmmu : HasMmu s.env) :
    Performs (ldData host mmuSuffix suffix fuel addr mmuIdx) mmuIdx addr
      (pages (bytesOf addr suffix.dataSize)) s := by
  have hrun : (ldData host mmuSuffix suffix fuel addr mmuIdx).run s =
      StateT.run (if fastPath suffix addr
          ((s.env.tlbTable mmuIdx (tlbIndex addr)).tag mmuSuffix.readAccessType) then do
        refmemQemu addr
        ldRaw suffix addr (addr.setWidth 64 + (s.env.tlbTable mmuIdx (tlbIndex addr)).addend)
      else ldMmu host mmuSuffix suffix fuel addr mmuIdx) s := rfl
  refine Performs.of_run_eq ?_ hrun
  split
  · exact performs_refmemQemu (ldRaw_bounded (Finset.Subset.refl _) _) hmmu
  · exact ldMmu_performs hwired mmuSuffix hfuel hmmu

theorem Access.performs (access : Access) {fuel : ℕ} (hfuel : 6 ≤ fuel) {s : Execution Board}
    (hmmu : HasMmu s.env) :
    Performs (access.run host fuel) access.memIndex access.addr access.pages s := by
  cases access with
  | qemuLd opc addr memIndex =>
      refine Performs.bind_pure ?_ _
      apply performs_tlbLoad hmmu
      · intro r0
        exact (ldRaw_bounded (Finset.Subset.refl _) r0).bind fun _ => .pure _
      · exact (ldMmu_performs hwired .mmu hfuel hmmu).bind_pure _
  | qemuSt opc addr dataReg memIndex =>
      apply performs_tlbLoad hmmu
      · intro r0
        exact stRaw_bounded (Finset.Subset.refl _) r0 _
      · exact stMmu_performs hwired .mmu _ hfuel hmmu
  | ld mmuSuffix suffix ptr mmuIdx =>
      refine Performs.bind_pure ?_ _
      exact (ldData_performs hwired mmuSuffix hfuel hmmu).bind_pure _
  | lds mmuSuffix suffix ptr mmuIdx =>
      refine Performs.bind_pure ?_ _
      exact (ldData_performs hwired mmuSuffix hfuel hmmu).bind_pure _
  | st mmuSuffix suffix ptr v mmuIdx =>
      have hrun : (Access.run host fuel (.st mmuSuffix suffix ptr v mmuIdx)).run s =
          StateT.run (if fastPath suffix ptr (s.env.tlbTable mmuIdx (tlbIndex ptr)).addrWrite
            then do
            refmemQemu ptr
            stRaw suffix ptr (ptr.setWidth 64 + (s.env.tlbTable mmuIdx (tlbIndex ptr)).addend)
              (v.setWidth _)
          else stMmu host mmuSuffix suffix fuel ptr (v.setWidth _) mmuIdx) s := rfl
      refine Performs.of_run_eq ?_ hrun
      split
      · exact performs_refmemQemu (stRaw_bounded (Finset.Subset.refl _) _ _) hmmu
      · exact stMmu_performs hwired mmuSuffix _ hfuel hmmu

end

/-- On a processor with an MMU every access comes to an end after at most six rounds of its
helpers: it completes, or the guest takes an exception, or the processor loop is left. -/
theorem access_stop_reason {host : Host Board} (hwired : Wired host) (access : Access) {fuel : ℕ}
    (hfuel : 6 ≤ fuel) {s : Execution Board} (hmmu : HasMmu s.env) {stop : Stop Board}
    (h : (access.run host fuel).run s = .error stop) :
    stop.reason = .raiseException ∨ stop.reason = .cpuLoopExit ∨ stop.reason = .cpuIoRecompile := by
  rcases access.performs hwired hfuel hmmu with ⟨refs, -, -, hstops⟩
  have hproper := (hstops stop h).1
  cases hreason : stop.reason with
  | raiseException => exact Or.inl rfl
  | cpuLoopExit => exact Or.inr (Or.inl rfl)
  | cpuIoRecompile => exact Or.inr (Or.inr rfl)
  | outOfFuel => exact absurd hreason hproper.1
  | outOfBounds => exact absurd hreason hproper.2

/-- A machine whose devices do not answer. -/
def sampleHost : Host Board where
  cpuArmHandleMmuFault := cpuArmHandleMmuFault
  ioMemRead _ _ _ env := (none, env)
  ioMemWrite _ _ _ _ env := (none, env)
  canDoIo _ := true
  memcheckInstrumentMmu := false
  memcheckValidateLd _ _ _ := 0
  memcheckValidateSt _ _ _ _ := 0

theorem sampleHost_wired : Wired sampleHost where
  handler := rfl
  read _ _ _ env := .refl env
  write _ _ _ _ env := .refl env
  unchecked := rfl

/-- A load from memory that is not there, across two pages. -/
def sampleAccess : Access := .qemuLd ⟨.l, false⟩ 0x2003FE#32 mmuUserIdx

/-- The load is split after a fill, and stops at the device. -/
theorem access_stop_reason_sampleAccess :
    Fails (sampleAccess.run sampleHost 6) (.start sampleCpu) fun stop =>
      stop.reason = .raiseException ∨ stop.reason = .cpuLoopExit ∨
        stop.reason = .cpuIoRecompile := by
  have hmmu : HasMmu (Execution.start sampleCpu).env := rfl
  exact ⟨_, rfl, access_stop_reason sampleHost_wired sampleAccess le_rfl hmmu rfl⟩

/-! ## A protection unit -/

/-- The bits of the protection unit that decide about an address, if it is in a region. -/
def mpuAccessBits (arm : ArmState) (address : BitVec 32) : Option ℕ :=
  ((List.finRange 8).reverse.find? fun n =>
    inRegion (arm.c6Region n) (modifiedAddress arm address)).map fun n =>
      ((arm.c5Data >>> (n.val * 4)) &&& 0xF#32).toNat

/-- The bits let data of the region be read but not written. -/
def MpuReadOnly (isUser : Bool) (bits : ℕ) : Prop :=
  bits = 6 ∨ (bits = 2 ∧ isUser = true) ∨ (bits = 5 ∧ isUser = false)

section

variable {board : Board} {address : BitVec 32} {isUser : Bool} {bits : ℕ}

/-- The protection unit permits a store to a region that cannot be written, and withholds
the right. -/
theorem translate_mpuReadOnly (hmpu : armFeature board.arm.toCPUState .mpu = true)
    (hon : board.arm.c1Sys &&& 1#32 ≠ 0#32) (hbits : mpuAccessBits board.arm address = some bits)
    (h : MpuReadOnly isUser bits) :
    ∃ result, translate board address .write isUser = .ok result ∧ result.ret = 0#32 ∧
      result.physPtr = modifiedAddress board.arm address ∧
      effectiveProt result.prot &&& AccessType.write.pageFlag = 0#32 := by
  rcases Option.map_eq_some_iff.mp hbits with ⟨n, hfind, hn⟩
  have hresult : translate board address .write isUser =
      .ok (getPhysAddrMpu board.arm (modifiedAddress board.arm address) AccessType.write.toInt
        isUser ⟨0#32, 0#32, 0#32, targetPageSize⟩) := by
    rw [translate, getPhysAddr, if_neg hon, if_pos hmpu]
    rfl
  have hkind : AccessType.write.toInt ≠ 2 := by decide
  have hprot : effectiveProt (pageRead ||| pageExec) &&& AccessType.write.pageFlag = 0#32 := by
    decide
  refine ⟨_, hresult, ?_⟩
  unfold getPhysAddrMpu
  simp only [hfind, if_neg hkind, hn]
  rcases h with rfl | ⟨rfl, rfl⟩ | ⟨rfl, rfl⟩
  all_goals exact ⟨rfl, rfl, hprot⟩

end

section

variable {host : Host Board} {mmuIdx : Fin 2} {suffix : Suffix} {addr : BitVec 32}

/-- A translation that is permitted makes an entry, when the page is found. -/
theorem handler_fills {env : Cpu} {kind : AccessType} {result : PhysResult}
    (htranslate : translate env.rest addr kind (mmuIdx == mmuUserIdx) = .ok result)
    (hret : result.ret = 0#32)
    (hplace : (pagePlace env.rest (addr &&& targetPageMask)
      (result.physPtr &&& targetPageMask)).isSome) :
    ∃ env' place, cpuArmHandleMmuFault addr kind mmuIdx env = (some false, env') ∧
      Filled env addr kind mmuIdx result place env' := by
  rw [pagePlace, Option.isSome_map, Option.isSome_iff_exists] at hplace
  rcases hplace with ⟨page, hpage⟩
  rcases hhandler : cpuArmHandleMmuFault addr kind mmuIdx env with ⟨fault, env'⟩
  have hreturns := hhandler
  unfold cpuArmHandleMmuFault at hhandler
  rw [htranslate] at hhandler
  dsimp only at hhandler
  rw [if_pos hret] at hhandler
  split at hhandler
  · rename_i hset
    change (pageEntry env.rest (addr &&& targetPageMask)
      (result.physPtr &&& targetPageMask)).bind _ = none at hset
    rw [hpage] at hset
    cases hset
  · cases hhandler
    rcases handler_cases hreturns with ⟨-, result', place, hfilled⟩ | ⟨hfault, -⟩
    · have hsame := hfilled.translated
      rw [htranslate] at hsame
      cases hsame
      exact ⟨env', place, rfl, hfilled⟩
    · cases hfault

/-- A store that is permitted without the right to it fills the page over and over. -/
theorem stRedo_outOfFuel (hhandler : host.cpuArmHandleMmuFault = cpuArmHandleMmuFault)
    (mmuSuffix : MmuSuffix) (val : suffix.DataType) {s : Execution Board} {result : PhysResult}
    (htranslate : translate s.env.rest addr .write (mmuIdx == mmuUserIdx) = .ok result)
    (hret : result.ret = 0#32)
    (hflag : effectiveProt result.prot &&& AccessType.write.pageFlag = 0#32)
    (hplace : (pagePlace s.env.rest (addr &&& targetPageMask)
      (result.physPtr &&& targetPageMask)).isSome)
    (hmiss : s.env.lookup mmuIdx .write addr = none) (fuel : ℕ) :
    Fails (stRedo host mmuSuffix suffix addr val mmuIdx fuel) s fun stop =>
      stop.reason = .outOfFuel := by
  induction fuel generalizing s with
  | zero => exact ⟨_, rfl, rfl⟩
  | succ fuel ih =>
      rcases handler_fills htranslate hret hplace with ⟨env, place, hhandled, hfilled⟩
      have hagain : env.lookup mmuIdx .write addr = none := by
        rw [hfilled.lookup_eq, if_pos ⟨rfl, rfl⟩, if_neg fun h => h.2 hflag]
      have hmissed : ¬ pageInTlb addr (s.env.tlbTable mmuIdx (tlbIndex addr)).addrWrite = true := by
        intro hpage
        have hanswer : (s.env.lookup mmuIdx .write addr).isSome := lookup_isSome.trans hpage
        rw [hmiss] at hanswer
        cases hanswer
      have hcall : (call (cpuArmHandleMmuFault addr .write mmuIdx)).run s =
          .ok (false, { s with env := env }) := by
        show call (cpuArmHandleMmuFault addr .write mmuIdx) s = _
        rw [call, hhandled]
      have hround : (stRedo host mmuSuffix suffix addr val mmuIdx (fuel + 1)).run s =
          (stRedo host mmuSuffix suffix addr val mmuIdx fuel).run { s with env := env } := by
        show StateT.run (if pageInTlb addr (s.env.tlbTable mmuIdx (tlbIndex addr)).addrWrite then _
          else (do
            tlbFill host addr .write mmuIdx
            stRedo host mmuSuffix suffix addr val mmuIdx fuel)) s = _
        rw [if_neg hmissed, tlbFill, hhandler, StateT.run_bind, StateT.run_bind, hcall]
        rfl
      have hrest := hfilled.rest_eq
      rcases ih (s := { s with env := env }) (hrest ▸ htranslate) (hrest ▸ hplace) hagain with
        ⟨stop, hstop, hreason⟩
      exact ⟨stop, hround.trans hstop, hreason⟩

end

/-- On a processor with a protection unit a store to a region that can only be read does not
fault. The translation permits it without the right to write, so that the helper fills the
page and misses it again, however many rounds it is given. -/
theorem stMmu_mpuReadOnly_outOfFuel {host : Host Board}
    (hhandler : host.cpuArmHandleMmuFault = cpuArmHandleMmuFault) (mmuSuffix : MmuSuffix)
    {suffix : Suffix} (val : suffix.DataType) {addr : BitVec 32} {mmuIdx : Fin 2} {bits : ℕ}
    {s : Execution Board} (hmpu : armFeature s.env.rest.arm.toCPUState .mpu = true)
    (hon : s.env.rest.arm.c1Sys &&& 1#32 ≠ 0#32)
    (hbits : mpuAccessBits s.env.rest.arm addr = some bits)
    (hreadOnly : MpuReadOnly (mmuIdx == mmuUserIdx) bits)
    (hplace : (pagePlace s.env.rest (addr &&& targetPageMask)
      (modifiedAddress s.env.rest.arm addr &&& targetPageMask)).isSome)
    (hmiss : s.env.lookup mmuIdx .write addr = none) (fuel : ℕ) :
    Fails (stMmu host mmuSuffix suffix fuel addr val mmuIdx) s fun stop =>
      stop.reason = .outOfFuel := by
  rcases translate_mpuReadOnly hmpu hon hbits hreadOnly with
    ⟨result, htranslate, hret, hphys, hflag⟩
  rw [← hphys] at hplace
  have hlogged : (stMmu host mmuSuffix suffix fuel addr val mmuIdx).run s =
      (stRedo host mmuSuffix suffix addr val mmuIdx fuel).run
        { s with refmems := s.refmems ++ [addr] } := rfl
  rcases stRedo_outOfFuel (s := { s with refmems := s.refmems ++ [addr] }) hhandler mmuSuffix val
    htranslate hret hflag hplace hmiss fuel with ⟨stop, hstop, hreason⟩
  exact ⟨stop, hlogged.trans hstop, hreason⟩

/-- The sample emulator with a protection unit, whose one region can only be read. -/
def sampleMpu : Cpu :=
  sampleCpu.setArm { sampleCpu.rest.arm with
    features := 1#32 <<< ArmFeature.mpu.bit, c1Sys := 1#32, c5Data := 6#32
    c6Region := fun n => if n.val = 0 then 0x3F#32 else 0#32 }

/-- A thousand rounds are not enough for it. -/
theorem stMmu_mpuReadOnly_outOfFuel_sampleMpu :
    Fails (stMmu sampleHost .mmu .l 1000 0x1000#32 0#32 mmuUserIdx) (.start sampleMpu)
      fun stop => stop.reason = .outOfFuel := by
  have hbits : mpuAccessBits (Execution.start sampleMpu).env.rest.arm 0x1000#32 = some 6 := rfl
  refine stMmu_mpuReadOnly_outOfFuel (s := .start sampleMpu) sampleHost_wired.handler .mmu _ rfl ?_
    hbits (Or.inl rfl) rfl rfl 1000
  decide

/-! ## The pages of a session -/

/-- The access is on one 4 KB page. -/
def Access.OnePage (access : Access) : Prop :=
  access.addr.toNat % 4096 + access.suffix.dataSize ≤ 4096

theorem Access.OnePage.eq_page {access : Access} (h : access.OnePage) {p : BitVec 32}
    (hp : p ∈ access.pages) : p = page access.addr := by
  have hsingle : Emulator.pages [access.addr] = access.pages :=
    (singleton_page_eq_iff access.suffix.dataSize_pos access.suffix.dataSize_le).mpr h
  rw [← hsingle] at hp
  rcases mem_pages_iff.mp hp with ⟨addr, haddr, rfl⟩
  rw [List.mem_singleton.mp haddr]

/-- What happens between the start and the stop of the tracer: accesses of the guest, and
whatever else concerns the translation cache. -/
inductive SessionEvent
  | access (access : Access) (fuel : ℕ)
  | other (event : TlbEvent)

/-- A step of a session. An access may stop before it is complete. -/
inductive SessionStep (host : Host Board) (s : Execution Board) :
    SessionEvent → Execution Board → Prop
  | access (access : Access) (fuel : ℕ) (hfuel : 6 ≤ fuel) (hone : access.OnePage) :
      SessionStep host s (.access access fuel)
        (finalState Stop.final ((access.run host fuel).run s))
  | other {event : TlbEvent} {env : Cpu}
      (hfill : ∀ addr kind mmuIdx, event ≠ .fill addr kind mmuIdx)
      (hstep : TlbStep s.env event env) : SessionStep host s (.other event) { s with env := env }

/-- The emulator when a session starts, with nothing logged. -/
structure SessionStart (s : Execution Board) : Prop where
  mmu : HasMmu s.env
  flushed : Flushed s.env
  refmems : s.refmems = []
  accesses : s.accesses = []

/-- Every page that is answered or accessed has been passed to the tracer. -/
structure Covered (s : Execution Board) : Prop where
  mmu : HasMmu s.env
  answers : ∀ mmuIdx kind addr place, s.env.lookup mmuIdx kind addr = some place →
    page addr ∈ pages s.refmems
  accesses : s.accessedPages ⊆ pages s.refmems

theorem SessionStart.covered {s : Execution Board} (h : SessionStart s) : Covered s where
  mmu := h.mmu
  answers := by
    intro mmuIdx kind addr place hanswer
    rw [h.flushed] at hanswer
    cases hanswer
  accesses := by
    rw [Execution.accessedPages, h.accesses]
    exact Finset.empty_subset _

section

variable {host : Host Board} {s s' : Execution Board} {event : SessionEvent}

/-- An access keeps the pages covered, when its own page is passed on or is covered. -/
theorem Covered.within {access : Access} {refs : List (BitVec 32)} (h : Covered s)
    (hone : access.OnePage) (hrefs : page access.addr ∈ pages (s.refmems ++ refs))
    (hwithin : Within access.memIndex access.pages { s with refmems := s.refmems ++ refs } s') :
    Covered s' := by
  have hpages : access.pages ⊆ pages s'.refmems := by
    intro p hp
    rw [hone.eq_page hp, hwithin.refmems]
    exact hrefs
  have hmore : pages s.refmems ⊆ pages s'.refmems := by
    rw [hwithin.refmems, pages_append]
    exact Finset.subset_union_left
  refine ⟨hwithin.hasMmu h.mmu, ?_, ?_⟩
  · intro mmuIdx kind addr place hanswer
    rcases hwithin.answers mmuIdx kind addr place hanswer with hbefore | ⟨-, hpage⟩
    · exact hmore (h.answers mmuIdx kind addr place hbefore)
    · exact hpages hpage
  · exact hwithin.accesses.trans (Finset.union_subset (h.accesses.trans hmore) hpages)

theorem SessionStep.covered (hwired : Wired host) (hstep : SessionStep host s event s')
    (h : Covered s) : Covered s' := by
  cases hstep with
  | access access fuel hfuel hone =>
      rcases access.performs hwired hfuel h.mmu with ⟨refs, hrefs, hends⟩
      have hpage : page access.addr ∈ pages (s.refmems ++ refs) := by
        rw [pages_append, Finset.mem_union]
        rcases hrefs with rfl | ⟨rfl, kind, hanswer⟩
        · exact Or.inr (mem_pages_iff.mpr ⟨_, List.mem_singleton_self _, rfl⟩)
        · rcases Option.isSome_iff_exists.mp hanswer with ⟨place, hplace⟩
          exact Or.inl (h.answers access.memIndex kind access.addr place hplace)
      refine h.within hone hpage ?_
      refine Ends.finalState (hends.mono (fun _ _ => id) ?_)
      intro failure hfailure
      exact hfailure.2
  | other hfill hother =>
      rename_i event env
      refine ⟨?_, ?_, h.accesses⟩
      · show armFeature env.rest.arm.toCPUState .mpu = false
        rw [armFeature, hother.features_eq]
        exact h.mmu
      · intro mmuIdx kind addr place hanswer
        rcases lookup_step hother hanswer with ⟨-, address, kind', result, hevent, -⟩ | ⟨hbefore, -⟩
        · exact absurd hevent (hfill address kind' mmuIdx)
        · exact h.answers mmuIdx kind addr place hbefore

end

/-- In every session of a processor with an MMU that starts with a flush, the pages that the
guest has loaded from or stored to have all been passed to the tracer, as long as no access
crosses a page. This includes accesses that were not completed, and the session may change
registers, the memory map, watchpoints and dirty flags. -/
theorem reached_accessedPages {host : Host Board} (hwired : Wired host) {s : Execution Board}
    (h : Reached SessionStart (SessionStep host) s) : s.accessedPages ⊆ pages s.refmems := by
  have hcovered : Covered s := by
    refine h.invariant Covered ?_ ?_
    · intro start hstart
      exact hstart.covered
    · intro before after event hbefore hstep
      exact hstep.covered hwired hbefore
  exact hcovered.accesses

/-- A load of a word in user mode. -/
def sampleLoad : Access := .qemuLd ⟨.l, false⟩ 0x1000#32 mmuUserIdx

theorem sampleLoad_onePage : sampleLoad.OnePage := by
  show (0x1000#32).toNat % 4096 + 4 ≤ 4096
  decide

/-- A word that is loaded twice: the second load finds the entry and is not passed on. -/
def sampleSession : Execution Board :=
  let s := finalState Stop.final ((sampleLoad.run sampleHost 6).run (.start sampleCpu))
  finalState Stop.final ((sampleLoad.run sampleHost 6).run s)

theorem reached_accessedPages_sampleSession :
    sampleSession.refmems = [0x1000#32] ∧
      sampleSession.accesses = [(0x1000#32, 4), (0x1000#32, 4)] ∧
      sampleSession.accessedPages ⊆ pages sampleSession.refmems := by
  refine ⟨rfl, rfl, reached_accessedPages sampleHost_wired ?_⟩
  have hstart : SessionStart (.start sampleCpu) := ⟨rfl, sampleCpu_flushed, rfl, rfl⟩
  exact .next (.next (.start hstart) (.access _ 6 le_rfl sampleLoad_onePage))
    (.access _ 6 le_rfl sampleLoad_onePage)

end TlbAnalyzer.Emulator
