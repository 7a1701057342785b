/-
# Contracts of the simulator's lookups

A lookup of a searchable geometry always returns. `Looked` says what it has
then done to the globals: it used one slot, either the one that matched or the
one the search chose to refill. Everything else about a lookup is read off
`Sim.use`, whose effect on each global is a simp lemma, so that later modules
never unfold the search.
-/

import TlbAnalyzer.Math.Contracts
import TlbAnalyzer.Simulator.Program

namespace TlbAnalyzer.Simulator

open Cache Math

namespace Sim

variable (s : Sim) (c c' : CacheName) (addr asid : BitVec 32) (hit : Bool) (i : ℕ)
  (e : TlbEntry)

@[simp]
theorem use_systs : (s.use c addr asid hit i e).systs = s.systs + 1 := rfl

@[simp]
theorem use_geometry : (s.use c addr asid hit i e).geometry c' = s.geometry c' := rfl

@[simp]
theorem use_log : (s.use c addr asid hit i e).log = ⟨c, addr, asid, hit⟩ :: s.log := rfl

@[simp]
theorem use_cnt_hit : ((s.use c addr asid true i e).cnt c).hit = (s.cnt c).hit + 1 := by
  simp [use]

@[simp]
theorem use_cnt_miss : ((s.use c addr asid false i e).cnt c).miss = (s.cnt c).miss + 1 := by
  simp [use]

@[simp]
theorem use_cnt_hit_of_miss : ((s.use c addr asid false i e).cnt c).hit = (s.cnt c).hit := by
  simp [use]

@[simp]
theorem use_cnt_miss_of_hit : ((s.use c addr asid true i e).cnt c).miss = (s.cnt c).miss := by
  simp [use]

@[simp]
theorem use_memAccs : (s.use c addr asid hit i e).memAccs = s.memAccs := rfl

variable {c c'} in
theorem use_tlb_of_ne (h : c' ≠ c) : (s.use c addr asid hit i e).tlb c' = s.tlb c' :=
  Function.update_of_ne h _ _

@[simp]
theorem use_tlb_slot :
    (s.use c addr asid hit i e).tlb c i = { e with ts := stampOf (s.systs + 1) } := by
  simp [use]

variable {i} in
theorem use_tlb_of_slot_ne {j : ℕ} (h : j ≠ i) :
    (s.use c addr asid hit i e).tlb c j = s.tlb c j := by
  simp [use, h]

/-- Using a slot changes this slot and no other one, of this cache and no other one. -/
theorem use_tlb_cases (j : ℕ) :
    (s.use c addr asid hit i e).tlb c' j = s.tlb c' j ∨
      c' = c ∧ j = i ∧
        (s.use c addr asid hit i e).tlb c' j = { e with ts := stampOf (s.systs + 1) } := by
  by_cases hc : c' = c
  · subst hc
    by_cases hj : j = i
    · subst hj
      exact Or.inr ⟨rfl, rfl, use_tlb_slot s c' addr asid hit j e⟩
    · exact Or.inl (use_tlb_of_slot_ne s c' addr asid hit e hj)
  · exact Or.inl (congrFun (use_tlb_of_ne s addr asid hit i e hc) j)

/-- The stamps stay behind the clock. -/
theorem use_ts_le {n : ℕ} (h : ∀ j < n, (s.tlb c' j).ts ≤ s.systs) :
    ∀ j < n, ((s.use c addr asid hit i e).tlb c' j).ts ≤ s.systs + 1 := by
  intro j hj
  rcases use_tlb_cases s c c' addr asid hit i e j with heq | ⟨-, -, heq⟩
  · rw [heq]
    exact Nat.le_succ_of_le (h j hj)
  · rw [heq]
    exact Nat.mod_le _ _

/-- The used slot is the most recent one, and the order of the others is kept. -/
theorem use_ts_lt_iff (hclock : s.systs + 1 < 2 ^ 32) {n : ℕ}
    (h : ∀ j < n, (s.tlb c j).ts ≤ s.systs) {j k : ℕ} (hj : j < n) (hk : k < n) :
    ((s.use c addr asid hit i e).tlb c j).ts < ((s.use c addr asid hit i e).tlb c k).ts ↔
      j ≠ i ∧ (k = i ∨ (s.tlb c j).ts < (s.tlb c k).ts) := by
  have hself : ((s.use c addr asid hit i e).tlb c i).ts = s.systs + 1 := by
    rw [use_tlb_slot]
    exact stampOf_of_lt hclock
  by_cases hji : j = i
  · have hle := use_ts_le s c c addr asid hit i e h k hk
    rw [hji, hself]
    exact ⟨fun hlt => absurd hlt (Nat.not_lt_of_le hle), fun hne => absurd rfl hne.1⟩
  · rw [use_tlb_of_slot_ne _ _ _ _ _ _ hji]
    by_cases hki : k = i
    · rw [hki, hself]
      exact ⟨fun _ => ⟨hji, Or.inl rfl⟩, fun _ => Nat.lt_succ_of_le (h j hj)⟩
    · rw [use_tlb_of_slot_ne _ _ _ _ _ _ hki]
      exact ⟨fun hlt => ⟨hji, Or.inr hlt⟩, fun hor => hor.2.resolve_left hki⟩

/-- Until the clock reaches `2 ^ 32` a stamp is the time itself. -/
theorem use_tlb_self (h : s.systs + 1 < 2 ^ 32) :
    (s.use c addr asid hit i e).tlb c =
      Function.update (s.tlb c) i { e with ts := s.systs + 1 } := by
  rw [← stampOf_of_lt h]
  exact Function.update_self _ _ _

variable {c c'} in
theorem use_cnt_of_ne (h : c' ≠ c) : (s.use c addr asid hit i e).cnt c' = s.cnt c' := by
  simp [use, h]

variable (cmd : SimCmd) (n : ℕ)

@[simp]
theorem access_geometry : (s.access cmd n).geometry c = s.geometry c := rfl

@[simp]
theorem access_tlb : (s.access cmd n).tlb = s.tlb := rfl

@[simp]
theorem access_cnt : (s.access cmd n).cnt = s.cnt := rfl

@[simp]
theorem access_memAccs : (s.access cmd n).memAccs cmd = s.memAccs cmd + n := by
  simp [access]

theorem access_zero : s.access cmd 0 = s := by
  simp [access]

@[simp]
theorem flushAll_geometry : s.flushAll.geometry c = s.geometry c := rfl

/-- The slots of the set that a key belongs to. -/
def slots : Finset ℕ := (s.geometry c).slots (c.index addr)

end Sim

/-- What a returning lookup has answered and done. -/
inductive Looked (s : Sim) (c : CacheName) (addr asid : BitVec 32) : Bool → Sim → Prop
  | hit (i : ℕ) (hmem : i ∈ s.slots c addr) (htest : c.test addr asid (s.tlb c i) = true) :
      Looked s c addr asid true (s.use c addr asid true i (s.tlb c i))
  | miss (mi : ℕ) (hfound : Searched (s.tlb c) (c.test addr asid) (s.slots c addr)
        (s.tlb c 0).ts 0 (.miss mi)) :
      Looked s c addr asid false
        (s.use c addr asid false mi (c.refill addr asid (s.tlb c mi)))

/-- Either way one slot was used. -/
theorem Looked.eq_use {s s' : Sim} {c : CacheName} {addr asid : BitVec 32} {hit : Bool}
    (h : Looked s c addr asid hit s') : ∃ i e, s' = s.use c addr asid hit i e := by
  cases h with
  | hit i _ _ => exact ⟨i, _, rfl⟩
  | miss mi _ => exact ⟨mi, _, rfl⟩

/-- If a lookup returns, it has used a slot of its own cache, with the entry that was
there or with a refilled one. -/
theorem lookup_ensures (c : CacheName) (addr asid : BitVec 32) (s : Sim) :
    Ensures (lookup c addr asid) s fun hit s' => ∃ i e, s' = s.use c addr asid hit i e ∧
      (e = s.tlb c i ∨ e = c.refill addr asid (s.tlb c i)) := by
  intro hit s' hrun
  change lookup c addr asid s = _ at hrun
  rw [lookup] at hrun
  split at hrun
  · cases hrun
  · cases hrun
    exact ⟨_, _, rfl, Or.inl rfl⟩
  · cases hrun
    exact ⟨_, _, rfl, Or.inr rfl⟩

/-- A lookup that stays inside the table returns. -/
theorem lookup_returns_of_lt {s : Sim} {c : CacheName} (hstep : 0 < (s.geometry c).step)
    {addr : BitVec 32} (hinside : ∀ i ∈ s.slots c addr, i < cacheMaxEntries) (asid : BitVec 32) :
    Returns (lookup c addr asid) s (Looked s c addr asid) := by
  have hpos : 0 < cacheMaxEntries := by decide
  obtain ⟨found, hfind, hfound⟩ :=
    Geometry.find_spec_of_lt hpos hstep hinside (s.tlb c) (c.test addr asid)
  cases found with
  | hit i =>
      refine ⟨true, s.use c addr asid true i (s.tlb c i), ?_, ?_⟩
      · show lookup c addr asid s = _
        rw [lookup, hfind]
      · cases hfound with
        | hit i hmem htest => exact .hit i hmem htest
  | miss mi =>
      refine ⟨false, s.use c addr asid false mi (c.refill addr asid (s.tlb c mi)), ?_, ?_⟩
      · show lookup c addr asid s = _
        rw [lookup, hfind]
      · exact .miss mi hfound

/-- Every lookup of a searchable geometry returns. -/
theorem lookup_returns {s : Sim} {c : CacheName} (hfits : (s.geometry c).Fits cacheMaxEntries)
    (addr asid : BitVec 32) : Returns (lookup c addr asid) s (Looked s c addr asid) := by
  apply lookup_returns_of_lt hfits.step_pos
  intro i hi
  exact lt_of_lt_of_le (Geometry.lt_entries_of_mem_slots hi) hfits.entries_le

/-- The rule for arguments in which the slot does not matter: it is enough to
consider a hit and a miss that use some slot. -/
theorem lookup_returns_of_use {s : Sim} {c : CacheName}
    (hfits : (s.geometry c).Fits cacheMaxEntries) {addr asid : BitVec 32}
    {post : Bool → Sim → Prop}
    (hhit : ∀ i e, post true (s.use c addr asid true i e))
    (hmiss : ∀ i e, post false (s.use c addr asid false i e)) :
    Returns (lookup c addr asid) s post := by
  apply (lookup_returns hfits addr asid).mono
  intro hit final hlooked
  obtain ⟨i, e, rfl⟩ := hlooked.eq_use
  cases hit with
  | true => exact hhit i e
  | false => exact hmiss i e

/-! ## Rules for the control flow -/

variable {s : Sim} {post : Unit → Sim → Prop}

@[simp]
theorem whenever_true_iff {body : SimM Unit} {cond : Prop} [Decidable cond] (h : cond) :
    Returns (whenever cond body) s post ↔ Returns body s post := by
  rw [whenever, if_pos h]

@[simp]
theorem whenever_false_iff {body : SimM Unit} {cond : Prop} [Decidable cond] (h : ¬ cond) :
    Returns (whenever cond body) s post ↔ post () s := by
  rw [whenever, if_neg h, Returns.pure_iff]

/-- `if(call == 0) body`: a hit skips the body, a miss runs it. -/
theorem onMiss_returns {c : CacheName} (hfits : (s.geometry c).Fits cacheMaxEntries)
    {addr asid : BitVec 32} {body : SimM Unit}
    (hhit : ∀ i e, post () (s.use c addr asid true i e))
    (hmiss : ∀ i e, Returns body (s.use c addr asid false i e) post) :
    Returns (onMiss (lookup c addr asid) body) s post := by
  rw [onMiss, Returns.bind_iff]
  apply lookup_returns_of_use hfits
  · intro i e
    rw [whenever_false_iff (by simp)]
    exact hhit i e
  · intro i e
    rw [whenever_true_iff rfl]
    exact hmiss i e

/-- `tlbtrace_ntlb_find2` is one lookup between two additions to the access
total: one access in advance unless it is `final`, two more after a miss. -/
theorem tlbtraceNtlbFind2_returns {addr : BitVec 32} {final : Bool} {post : Bool → Sim → Prop}
    (h : Returns (lookup .ntlb2 addr 0#32) (s.access .scNtlb (if final then 0 else 1))
      fun hit s' => post hit (s'.access .scNtlb (if hit then 0 else 2))) :
    Returns (tlbtraceNtlbFind2 addr final) s post := by
  have hcharged : Returns (whenever (final = false) (modify fun s => s.access .scNtlb 1)) s
      fun _ s' => s' = s.access .scNtlb (if final then 0 else 1) := by
    cases final with
    | true =>
        rw [whenever_false_iff (by simp)]
        exact (s.access_zero .scNtlb).symm
    | false =>
        rw [whenever_true_iff rfl, Returns.modify_iff]
        rfl
  rw [tlbtraceNtlbFind2, Returns.bind_iff]
  apply hcharged.mono
  rintro _ s₁ rfl
  rw [Returns.bind_iff]
  apply h.mono
  intro hit s₂ hpost
  rw [Returns.bind_iff]
  cases hit with
  | true =>
      rw [whenever_false_iff (by simp), Returns.pure_iff]
      simpa [Sim.access_zero] using hpost
  | false =>
      rw [whenever_true_iff rfl, Returns.modify_iff, Returns.pure_iff]
      exact hpost

/-- The shape of three emulation functions: one action for the first level
descriptor, one for the second level when the walk went past the first, one for
the final address when it got there. -/
theorem levels_returns {level : ℕ} {first second final : SimM Unit} {post₁ post₂ post₃ : Sim → Prop}
    (hfirst : Returns first s fun _ s' => post₁ s')
    (hsecond : ∀ s', post₁ s' → Returns second s' fun _ s'' => post₂ s'')
    (hfinal : ∀ s', post₂ s' → Returns final s' fun _ s'' => post₃ s'') :
    Returns (do first; whenever (level > 1) second; whenever (level > 2) final) s fun _ s' =>
      if level > 2 then post₃ s' else if level > 1 then post₂ s' else post₁ s' := by
  rw [Returns.bind_iff]
  apply hfirst.mono
  intro _ s₁ h₁
  rw [Returns.bind_iff]
  by_cases htwo : level > 1
  · rw [whenever_true_iff htwo]
    apply (hsecond s₁ h₁).mono
    intro _ s₂ h₂
    by_cases hthree : level > 2
    · rw [whenever_true_iff hthree]
      simpa only [if_pos hthree] using hfinal s₂ h₂
    · rw [whenever_false_iff hthree, if_neg hthree, if_pos htwo]
      exact h₂
  · have hthree : ¬ level > 2 := fun h => htwo (Nat.lt_of_succ_lt h)
    rw [whenever_false_iff htwo, whenever_false_iff hthree, if_neg hthree, if_neg htwo]
    exact h₁

end TlbAnalyzer.Simulator
