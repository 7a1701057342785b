/-
# Comparing fully associative runs

With as many ways as entries there is one set, entry 0 belongs to it, and every
lookup is seated. A run of one table is then the recency list of everything it
has looked up so far, cut to the table's size. `LruRun` ties the globals to that
history.

Two runs are compared through their histories, never through their tables. A
larger table cuts the same list later. A run without the extended page table has
the history of a run with it, less the lookups the extended page table caused.
Neither can turn a hit into a miss.
-/

import TlbAnalyzer.Simulator.Accounting
import TlbAnalyzer.Simulator.Refinement

namespace TlbAnalyzer.Simulator

open Cache Math TraceFile

/-! ## A run of one fully associative table -/

namespace Lookup

/-- The key a lookup asked for. -/
def key (l : Lookup) : Key := (l.addr, l.asid)

/-- The key a lookup asked for, and its answer. -/
def answer (l : Lookup) : Key × Bool := (l.key, l.hit)

/-- The second lookup asks for the same key, and hits if the first one does. -/
def NoWorse (first second : Lookup) : Prop :=
  first.addr = second.addr ∧ first.asid = second.asid ∧
    (first.hit = true → second.hit = true)

theorem noWorse_iff {first second : Lookup} :
    Recency.NoWorse first.answer second.answer ↔ first.NoWorse second := by
  simp [Recency.NoWorse, NoWorse, answer, key, and_assoc]

end Lookup

/-- The globals after looking up the keys of `history`, newest first, in a table
of `n` entries with one set. The table knows what it should as long as the stamps
have not wrapped around. -/
structure LruRun (s : Sim) (c : CacheName) (n : ℕ) (history : List Key) : Prop where
  fits : (s.geometry c).Fits cacheMaxEntries
  step_eq : (s.geometry c).step = 1
  systs_eq : s.systs = history.length
  length_eq : s.log.length = history.length
  hits : (s.cnt c).hit = s.log.countP fun l => l.hit
  misses : (s.cnt c).miss = s.log.countP fun l => !l.hit
  answers : history.length < 2 ^ 32 → s.log.map Lookup.answer = Recency.answers n history
  refines : history.length < 2 ^ 32 →
    RefinesCache s c n fun _ => (Recency.recency history).take n

theorem RefinesCache.congr {s : Sim} {c : CacheName} {way : ℕ} {lists lists' : ℕ → List Key}
    (h : RefinesCache s c way lists)
    (hlists : ∀ set < (s.geometry c).step, lists set = lists' set) :
    RefinesCache s c way lists' := by
  refine ⟨h.fits, h.entries_eq, h.bounded, fun set hset => ?_⟩
  rw [← hlists set hset]
  exact h.stands set hset

namespace LruRun

variable {s : Sim} {c : CacheName} {n : ℕ} {history : List Key}

theorem start (hn : 1 ≤ n) (hle : n ≤ 512) (hgeometry : s.geometry c = .ofSizeWay n n) :
    LruRun s.flushAll c n [] := by
  have hfits : (s.geometry c).Fits cacheMaxEntries := by
    rw [hgeometry]
    exact Geometry.ofSizeWay_fits hn (le_refl n) hle
  have hstep : (s.geometry c).step = 1 := by
    rw [hgeometry]
    exact Nat.div_self hn
  have hentries : (s.geometry c).entries = n * (s.geometry c).step := by
    rw [hstep, hgeometry, Nat.mul_one]
    rfl
  refine ⟨hfits, hstep, rfl, rfl, rfl, rfl, fun _ => rfl, fun _ => ?_⟩
  exact (RefinesCache.start hfits hentries).congr fun _ _ => List.take_nil.symm

theorem access (h : LruRun s c n history) (cmd : SimCmd) (k : ℕ) :
    LruRun (s.access cmd k) c n history :=
  ⟨h.fits, h.step_eq, h.systs_eq, h.length_eq, h.hits, h.misses, h.answers,
    fun hlt => (h.refines hlt).access cmd k⟩

/-- A lookup answers whether its key is among the most recent ones, and puts the
key in front of the history. -/
theorem lookup_answer (h : LruRun s c n history) {addr asid : BitVec 32}
    (hkey : c.key addr asid = (addr, asid)) (hne : (addr, asid) ≠ emptyKey) :
    Returns (lookup c addr asid) s fun hit s' =>
      (history.length + 1 < 2 ^ 32 →
        hit = decide ((addr, asid) ∈ (Recency.recency history).take n)) ∧
      LruRun s' c n ((addr, asid) :: history) := by
  apply (lookup_returns h.fits addr asid).mono
  intro hit s' hlooked
  have hstart : (s.geometry c).start (c.index addr) = 0 := by
    have := Geometry.start_lt_step h.fits (c.index addr)
    rw [h.step_eq] at this
    omega
  have hlru : history.length + 1 < 2 ^ 32 →
      hit = decide ((addr, asid) ∈ (Recency.recency history).take n) ∧
      RefinesCache s' c n fun _ => (Recency.recency ((addr, asid) :: history)).take n := by
    intro hlt
    have hseated : Seated s c addr asid :=
      Or.inr (Geometry.scansOldest_of_step_eq_one h.fits h.step_eq (s.tlb c) (c.index addr))
    have hsysts := h.systs_eq
    obtain ⟨hanswer, hrefines⟩ :=
      (h.refines (by omega)).looked (hkey ▸ hne) (by omega) hseated hlooked
    rw [hkey] at hanswer hrefines
    refine ⟨hanswer, hrefines.congr fun set hset => ?_⟩
    obtain ⟨i, e, rfl⟩ := hlooked.eq_use
    rw [Sim.use_geometry, h.step_eq, Nat.lt_one_iff] at hset
    rw [hstart, hset, Function.update_self, Recency.take_recency_cons]
  refine ⟨fun hlt => (hlru hlt).1, ?_⟩
  obtain ⟨i, e, rfl⟩ := hlooked.eq_use
  refine ⟨h.fits, h.step_eq, ?_, ?_, ?_, ?_, fun hlt => ?_, fun hlt => (hlru hlt).2⟩
  · rw [Sim.use_systs, h.systs_eq, List.length_cons]
  · rw [Sim.use_log, List.length_cons, h.length_eq, List.length_cons]
  · cases hit <;> simp [h.hits]
  · cases hit <;> simp [h.misses]
  · rw [Sim.use_log, List.map_cons, Recency.answers_cons, h.answers (Nat.lt_of_succ_lt hlt)]
    congr 1
    exact Prod.ext rfl ((hlru hlt).1.trans (decide_eq_decide.mpr Iff.rfl))

theorem lookup (h : LruRun s c n history) {addr asid : BitVec 32}
    (hkey : c.key addr asid = (addr, asid)) (hne : (addr, asid) ≠ emptyKey) :
    Returns (lookup c addr asid) s fun _ s' => LruRun s' c n ((addr, asid) :: history) :=
  (h.lookup_answer hkey hne).mono fun _ _ hs' => hs'.2

/-- `if(call == 0) body`, when the body keeps a run in the same table going. -/
theorem onMiss {post : Unit → Sim → Prop} (h : LruRun s c n history) {addr asid : BitVec 32}
    (hkey : c.key addr asid = (addr, asid)) (hne : (addr, asid) ≠ emptyKey) {body : SimM Unit}
    (hhit : ∀ s', LruRun s' c n ((addr, asid) :: history) → post () s')
    (hmiss : ∀ s', LruRun s' c n ((addr, asid) :: history) → Returns body s' post) :
    Returns (onMiss (Simulator.lookup c addr asid) body) s post := by
  rw [Simulator.onMiss, Returns.bind_iff]
  apply (h.lookup hkey hne).mono
  intro hit s' hs'
  cases hit with
  | true =>
      rw [whenever_false_iff (by simp)]
      exact hhit s' hs'
  | false =>
      rw [whenever_true_iff rfl]
      exact hmiss s' hs'

end LruRun

/-! ## What a trace looks up -/

/-- The keys a record asks the nested TLB for. -/
def ntlbKeys (t : TraceRecord) : List Key :=
  (t.l1Pa &&& 0xFFFFF000#32, 0#32) ::
    ((if t.level > 1 then [(t.l2Pa &&& 0xFFFFF000#32, 0#32)] else []) ++
      if t.level > 2 then [(t.pa, 0#32)] else [])

/-- The guest descriptors a record asks a page walk cache for. -/
def guestKeys (t : TraceRecord) : List Key :=
  (t.l1Pa, 1#32) :: if t.level > 1 then [(t.l2Pa, 1#32)] else []

/-- If every record puts its keys in front of the history, the trace ends with
the history of all its records. -/
theorem replay_history (run : Sim → List Key → Prop) (keys : TraceRecord → List Key)
    {emulate : ℕ → BitVec 32 → BitVec 32 → BitVec 32 → SimM Unit} {trace : List (BitVec 8)}
    (hrecord : ∀ t ∈ readRecords trace, ∀ s history, run s history →
      Returns (emulate t.level t.l1Pa t.l2Pa t.pa) s fun _ s' =>
        run s' ((keys t).reverse ++ history))
    {s : Sim} (hstart : run s.flushAll []) :
    Returns (replay emulate trace) s fun _ s' =>
      run s' ((readRecords trace).flatMap keys).reverse := by
  rw [replay, Returns.bind_iff, Returns.modify_iff]
  apply Returns.forM fun handled s' => run s' (handled.flatMap keys).reverse
  · intro handled t hmem s' hrun
    rw [List.flatMap_append, List.reverse_append, List.flatMap_singleton]
    exact hrecord t hmem s' _ hrun
  · exact hstart

/-! ## The nested TLB -/

namespace LruRun

variable {s : Sim} {n : ℕ} {history : List Key}

theorem find (h : LruRun s .ntlb2 n history) {addr : BitVec 32} (haddr : addr.toNat % 4096 = 0)
    (final : Bool) :
    Returns (discard (tlbtraceNtlbFind2 addr final)) s fun _ s' =>
      LruRun s' .ntlb2 n ((addr, 0#32) :: history) := by
  rw [Returns.discard_iff]
  apply tlbtraceNtlbFind2_returns
  have hrun := h.access .scNtlb (if final then 0 else 1)
  apply (hrun.lookup rfl (ne_emptyKey_of_word (by omega))).mono
  intro hit s' h'
  exact h'.access .scNtlb _

theorem ntlbRecord (h : LruRun s .ntlb2 n history) {t : TraceRecord}
    (hpa : t.pa.toNat % 4096 = 0) :
    Returns (emulateNtlb2 t.level t.l1Pa t.l2Pa t.pa) s fun _ s' =>
      LruRun s' .ntlb2 n ((ntlbKeys t).reverse ++ history) := by
  apply (levels_returns (h.find (toNat_and_page_mod t.l1Pa) false)
    (fun _ h₁ => h₁.find (toNat_and_page_mod t.l2Pa) false) (fun _ h₂ => h₂.find hpa true)).mono
  intro _ s' hs'
  split_ifs at hs' with hthree htwo
  · have htwo : t.level > 1 := Nat.lt_of_succ_lt hthree
    simpa [ntlbKeys, htwo, hthree] using hs'
  · simpa [ntlbKeys, htwo, hthree] using hs'
  · simpa [ntlbKeys, htwo, hthree] using hs'

end LruRun

/-! ## The page walk caches -/

theorem ne_emptyKey_of_guest (addr : BitVec 32) : (addr, 1#32) ≠ emptyKey := by
  intro heq
  have hasid : (1#32 : BitVec 32) = 0#32 := congrArg Prod.snd heq
  exact absurd hasid (by decide)

/-- The computation of `l1_mpa` does not overflow. -/
theorem toNat_l1Mpa (gpa : BitVec 32) : (l1Mpa gpa).toNat = gpa.toNat / 2 ^ 20 * 4 := by
  have := gpa.isLt
  rw [l1Mpa, BitVec.toNat_mul, BitVec.toNat_ushiftRight, BitVec.toNat_ofNat,
    Nat.shiftRight_eq_div_pow]
  omega

/-- Nor does that of `l2_mpa`. -/
theorem toNat_l2Mpa (gpa : BitVec 32) :
    (l2Mpa gpa).toNat =
      16 * 1024 + gpa.toNat / 2 ^ 20 * 1024 + gpa.toNat / 2 ^ 12 % 2 ^ 8 * 4 := by
  have := gpa.isLt
  have hmask : (0xFF : ℕ) = 2 ^ 8 - 1 := rfl
  rw [l2Mpa, BitVec.toNat_add, BitVec.toNat_add, BitVec.toNat_mul, BitVec.toNat_mul,
    BitVec.toNat_and, BitVec.toNat_ushiftRight, BitVec.toNat_ushiftRight,
    Nat.shiftRight_eq_div_pow, Nat.shiftRight_eq_div_pow]
  simp only [BitVec.toNat_ofNat, Nat.reducePow, Nat.reduceMod]
  rw [hmask, Nat.and_two_pow_sub_one_eq_mod]
  omega

theorem toNat_l1Mpa_mod (gpa : BitVec 32) : (l1Mpa gpa).toNat % 4 = 0 := by
  rw [toNat_l1Mpa]
  omega

theorem toNat_l2Mpa_mod (gpa : BitVec 32) : (l2Mpa gpa).toNat % 4 = 0 := by
  rw [toNat_l2Mpa]
  omega

/-- Whether a key is a guest descriptor. -/
def isGuest (key : Key) : Bool := key.2 == 1#32

namespace LruRun

variable {s : Sim} {c : CacheName} {n : ℕ} {history : List Key}

/-- A lookup whose miss costs one access. -/
theorem charged (h : LruRun s c n history) {addr asid : BitVec 32}
    (hkey : c.key addr asid = (addr, asid)) (hne : (addr, asid) ≠ emptyKey) (cmd : SimCmd) :
    Returns (Simulator.onMiss (Simulator.lookup c addr asid) (modify fun s => s.access cmd 1)) s
      fun _ s' => LruRun s' c n ((addr, asid) :: history) := by
  apply h.onMiss hkey hne
  · exact fun s' h' => h'
  · intro s' h'
    rw [Returns.modify_iff]
    exact h'.access cmd 1

theorem noeptRecord (h : LruRun s .pwc3 n history) (t : TraceRecord) :
    Returns (emulatePwc3 t.level t.l1Pa t.l2Pa t.pa) s fun _ s' =>
      LruRun s' .pwc3 n ((guestKeys t).reverse ++ history) := by
  rw [emulatePwc3, Returns.bind_iff]
  apply (h.charged rfl (ne_emptyKey_of_guest t.l1Pa) .scPwcNoept).mono
  intro _ s₁ h₁
  by_cases hsecond : t.level > 1
  · rw [whenever_true_iff hsecond]
    simpa [guestKeys, hsecond, tlbtraceRefppaPwc3, countPwc3] using
      h₁.charged rfl (ne_emptyKey_of_guest t.l2Pa) .scPwcNoept
  · rw [whenever_false_iff hsecond]
    simpa [guestKeys, hsecond] using h₁

end LruRun

/-- A run with the extended page table, of which only the guest descriptors are
said. -/
def EptRun (n : ℕ) (s : Sim) (guests : List Key) : Prop :=
  ∃ history, LruRun s .pwc2 n history ∧ history.filter isGuest = guests

namespace EptRun

variable {s : Sim} {n : ℕ} {guests : List Key}

/-- The walk of the extended page table adds no guest descriptor. -/
theorem walk (h : EptRun n s guests) (gpa : BitVec 32) :
    Returns (do
      onMiss (tlbtraceRefppaPwc2 (l1Mpa gpa) 0#32) countPwc2
      onMiss (tlbtraceRefppaPwc2 (l2Mpa gpa) 0#32) countPwc2) s fun _ s' =>
        EptRun n s' guests := by
  obtain ⟨history, hrun, hguests⟩ := h
  rw [Returns.bind_iff]
  apply (hrun.charged rfl (ne_emptyKey_of_word (toNat_l1Mpa_mod gpa)) .scPwcEpt).mono
  intro _ s₁ h₁
  apply (h₁.charged rfl (ne_emptyKey_of_word (toNat_l2Mpa_mod gpa)) .scPwcEpt).mono
  intro _ s₂ h₂
  exact ⟨_, h₂, by simpa [isGuest] using hguests⟩

theorem descriptor (h : EptRun n s guests) (gpa : BitVec 32) :
    Returns (onMiss (tlbtraceRefppaPwc2 gpa 1#32) do
      onMiss (tlbtraceRefppaPwc2 (l1Mpa gpa) 0#32) countPwc2
      onMiss (tlbtraceRefppaPwc2 (l2Mpa gpa) 0#32) countPwc2
      countPwc2) s fun _ s' => EptRun n s' ((gpa, 1#32) :: guests) := by
  obtain ⟨history, hrun, hguests⟩ := h
  have hlooked : ∀ s', LruRun s' .pwc2 n ((gpa, 1#32) :: history) →
      EptRun n s' ((gpa, 1#32) :: guests) :=
    fun s' h' => ⟨_, h', by simp [isGuest, hguests]⟩
  apply hrun.onMiss rfl (ne_emptyKey_of_guest gpa) hlooked
  intro s₁ h₁
  have hwalk := walk (hlooked s₁ h₁) gpa
  rw [Returns.bind_iff] at hwalk ⊢
  apply hwalk.mono
  intro _ s₂ h₂
  rw [Returns.bind_iff]
  apply h₂.mono
  rintro _ s₃ ⟨history₃, h₃, hguests₃⟩
  rw [countPwc2, Returns.modify_iff]
  exact ⟨history₃, h₃.access .scPwcEpt 1, hguests₃⟩

theorem record (h : EptRun n s guests) (t : TraceRecord) :
    Returns (emulatePwc2 t.level t.l1Pa t.l2Pa t.pa) s fun _ s' =>
      EptRun n s' ((guestKeys t).reverse ++ guests) := by
  apply (levels_returns (h.descriptor t.l1Pa) (fun _ h₁ => descriptor h₁ t.l2Pa)
    (fun _ h₂ => walk h₂ t.pa)).mono
  intro _ s' hs'
  split_ifs at hs' with hthree htwo
  · have htwo : t.level > 1 := Nat.lt_of_succ_lt hthree
    simpa [guestKeys, htwo, hthree] using hs'
  · simpa [guestKeys, htwo, hthree] using hs'
  · simpa [guestKeys, htwo, hthree] using hs'

end EptRun

/-! ## Comparing two runs -/

/-- No worse use by use is no worse in total. -/
theorem countP_of_noWorse {log₁ log₂ : List Lookup}
    (h : List.Forall₂ Lookup.NoWorse log₁ log₂) :
    (log₁.countP fun l => l.hit) ≤ (log₂.countP fun l => l.hit) ∧
      (log₂.countP fun l => !l.hit) ≤ log₁.countP fun l => !l.hit := by
  induction h with
  | nil => exact ⟨le_refl _, le_refl _⟩
  | @cons first second log₁ log₂ hfirst _ ih =>
      obtain ⟨hhits, hmisses⟩ := ih
      simp only [List.countP_cons]
      cases hhit : first.hit with
      | true =>
          rw [hfirst.2.2 hhit]
          simpa using ⟨hhits, hmisses⟩
      | false =>
          cases second.hit with
          | true => exact ⟨Nat.le_succ_of_le hhits, Nat.le_succ_of_le hmisses⟩
          | false => simpa using ⟨hhits, hmisses⟩

namespace LruRun

variable {s₁ s₂ : Sim} {c₁ c₂ : CacheName} {n m : ℕ} {history : List Key}

/-- Hits and misses of the run are lookups of the run. -/
theorem lookups (h : LruRun s₁ c₁ n history) :
    (s₁.cnt c₁).hit + (s₁.cnt c₁).miss = history.length := by
  rw [h.hits, h.misses, ← h.length_eq, List.length_eq_countP_add_countP fun l => l.hit]
  simp

/-- The same history in a larger table. -/
theorem noWorse_of_le (h₁ : LruRun s₁ c₁ n history) (h₂ : LruRun s₂ c₂ m history) (hle : n ≤ m)
    (hlt : history.length < 2 ^ 32) : List.Forall₂ Lookup.NoWorse s₁.log s₂.log := by
  have hanswers := Recency.answers_noWorse_of_le hle history
  rw [← h₁.answers hlt, ← h₂.answers hlt, List.forall₂_map_left_iff,
    List.forall₂_map_right_iff] at hanswers
  exact hanswers.imp fun _ _ => Lookup.noWorse_iff.mp

/-- Lookup by lookup, and therefore in total. -/
theorem totals_of_le (h₁ : LruRun s₁ c₁ n history) (h₂ : LruRun s₂ c₂ m history) (hle : n ≤ m)
    (hlt : (s₁.cnt c₁).hit + (s₁.cnt c₁).miss < 2 ^ 32) :
    List.Forall₂ Lookup.NoWorse s₁.log s₂.log ∧ (s₁.cnt c₁).hit ≤ (s₂.cnt c₂).hit ∧
      (s₂.cnt c₂).miss ≤ (s₁.cnt c₁).miss := by
  rw [h₁.lookups] at hlt
  have hlog := h₁.noWorse_of_le h₂ hle hlt
  rw [h₁.hits, h₂.hits, h₁.misses, h₂.misses]
  exact ⟨hlog, countP_of_noWorse hlog⟩

/-- Part of the history in a table of the same size. -/
theorem filter_noWorse {kept : Key → Bool} (h₁ : LruRun s₁ c₁ n history)
    (h₂ : LruRun s₂ c₂ n (history.filter kept)) (hlt : history.length < 2 ^ 32) :
    List.Forall₂ Lookup.NoWorse (s₁.log.filter fun l => kept l.key) s₂.log := by
  have hanswers := Recency.answers_filter_noWorse n kept history
  have hlt₂ := lt_of_le_of_lt (List.length_filter_le kept history) hlt
  rw [← h₁.answers hlt, ← h₂.answers hlt₂, List.filter_map, List.forall₂_map_left_iff,
    List.forall₂_map_right_iff] at hanswers
  exact hanswers.imp fun _ _ => Lookup.noWorse_iff.mp

end LruRun

/-! ## The simulations -/

section

variable {n : ℕ} (hn : 1 ≤ n) (hle : n ≤ 512) (trace : List (BitVec 8)) (size way : ℕ)
  (result : SimResult) (s : Sim)

include hn hle

/-- A nested TLB simulation is a run of the trace's keys. -/
theorem tlbsimSimNtlb_lruRun (haligned : ∀ t ∈ readRecords trace, t.pa.toNat % 4096 = 0) :
    Returns (tlbsimSimNtlb trace n n size way result) s fun r s' =>
      LruRun s' .ntlb2 n ((readRecords trace).flatMap ntlbKeys).reverse ∧
        r.ntlb = s'.cnt .ntlb2 ∧
        r.accs = descriptorTotal (readRecords trace) + 2 * r.ntlb.miss := by
  rw [tlbsimSimNtlb, Returns.bind_iff, setNtlbGeometry, Returns.modify_iff, Returns.bind_iff]
  set s₀ : Sim := { s with ntlbGeometry := .ofSizeWay n n }
  have hrun : Returns (replay emulateNtlb2 trace) s₀ fun _ s' =>
      LruRun s' .ntlb2 n ((readRecords trace).flatMap ntlbKeys).reverse :=
    replay_history (fun s' history => LruRun s' .ntlb2 n history) ntlbKeys
      (fun t hmem _ _ h => h.ntlbRecord (haligned t hmem)) (.start hn hle rfl)
  have haccount : Returns (replay emulateNtlb2 trace) s₀ fun _ s' =>
      NtlbAccount s' (descriptorTotal (readRecords trace)) (finalTotal (readRecords trace)) :=
    replay_returns NtlbAccount (fun _ _ _ t h => h.record t) trace
      (.start (Geometry.ofSizeWay_fits hn (le_refl n) hle))
  apply (hrun.and_ensures haccount.ensures).mono
  rintro _ s' ⟨hlru, hfinal⟩
  rw [Returns.bind_iff, Returns.get_iff, Returns.pure_iff]
  exact ⟨hlru, rfl, hfinal.accs⟩

/-- A page walk cache simulation without the extended page table is a run of the
trace's guest descriptors. -/
theorem tlbsimSimPwcNoept_lruRun :
    Returns (tlbsimSimPwcNoept trace size way n n result) s fun r s' =>
      LruRun s' .pwc3 n ((readRecords trace).flatMap guestKeys).reverse ∧
        r.pwc = s'.cnt .pwc3 ∧ r.accs = r.pwc.miss := by
  rw [tlbsimSimPwcNoept, Returns.bind_iff, setPwcGeometry, Returns.modify_iff, Returns.bind_iff]
  set s₀ : Sim := { s with pwcGeometry := .ofSizeWay n n }
  have hrun : Returns (replay emulatePwc3 trace) s₀ fun _ s' =>
      LruRun s' .pwc3 n ((readRecords trace).flatMap guestKeys).reverse :=
    replay_history (fun s' history => LruRun s' .pwc3 n history) guestKeys
      (fun t _ _ _ h => h.noeptRecord t) (.start hn hle rfl)
  have haccount : Returns (replay emulatePwc3 trace) s₀ fun _ s' =>
      NoeptAccount s' (descriptorTotal (readRecords trace)) :=
    replay_returns (fun s' d _ => NoeptAccount s' d) (fun _ _ _ t h => h.record t) trace
      ⟨0, .start (Geometry.ofSizeWay_fits hn (le_refl n) hle)⟩
  apply (hrun.and_ensures haccount.ensures).mono
  rintro _ s' ⟨hlru, guest, hledger⟩
  rw [Returns.bind_iff, Returns.get_iff, Returns.pure_iff]
  exact ⟨hlru, rfl, hledger.accs_eq⟩

/-- With the extended page table the guest descriptors of the run are those of
the trace, and no descriptor is looked up more often than in the uncached walk. -/
theorem tlbsimSimPwcEpt_eptRun :
    Returns (tlbsimSimPwcEpt trace size way n n result) s fun r s' =>
      EptRun n s' ((readRecords trace).flatMap guestKeys).reverse ∧
        r.pwc = s'.cnt .pwc2 ∧ r.accs = r.pwc.miss ∧
        r.pwc.hit + r.pwc.miss ≤
          3 * descriptorTotal (readRecords trace) + 2 * finalTotal (readRecords trace) := by
  rw [tlbsimSimPwcEpt, Returns.bind_iff, setPwcGeometry, Returns.modify_iff, Returns.bind_iff]
  set s₀ : Sim := { s with pwcGeometry := .ofSizeWay n n }
  have hrun : Returns (replay emulatePwc2 trace) s₀ fun _ s' =>
      EptRun n s' ((readRecords trace).flatMap guestKeys).reverse :=
    replay_history (EptRun n) guestKeys (fun t _ _ _ h => h.record t)
      ⟨[], .start hn hle rfl, rfl⟩
  have haccount : Returns (replay emulatePwc2 trace) s₀ fun _ s' =>
      EptAccount s' (descriptorTotal (readRecords trace)) (finalTotal (readRecords trace)) :=
    replay_returns EptAccount (fun _ _ _ t h => h.record t) trace
      ⟨0, .start (Geometry.ofSizeWay_fits hn (le_refl n) hle), le_refl 0⟩
  apply (hrun.and_ensures haccount.ensures).mono
  rintro _ s' ⟨hept, guest, hledger, hguest⟩
  rw [Returns.bind_iff, Returns.get_iff, Returns.pure_iff]
  refine ⟨hept, rfl, hledger.accs_eq, ?_⟩
  have hlookups := hledger.lookups_eq
  simp only
  omega

end

/-- A larger fully associative cache never does worse on the same trace: lookup
by lookup it hits where the smaller one does, so it has no fewer hits and no more
memory accesses. -/
theorem tlbsimSim_noWorse_of_le {n m : ℕ} (hn : 1 ≤ n) (hle : n ≤ m) (hm : m ≤ 512)
    (trace : List (BitVec 8)) (haligned : ∀ t ∈ readRecords trace, t.pa.toNat % 4096 = 0)
    (size way : ℕ) (result : SimResult) (s s' : Sim) :
    (Returns (tlbsimSimNtlb trace n n size way result) s fun small s₁ =>
      Returns (tlbsimSimNtlb trace m m size way result) s' fun large s₂ =>
        small.ntlb.hit + small.ntlb.miss < 2 ^ 32 →
          List.Forall₂ Lookup.NoWorse s₁.log s₂.log ∧
            small.ntlb.hit ≤ large.ntlb.hit ∧ large.accs ≤ small.accs) ∧
      Returns (tlbsimSimPwcNoept trace size way n n result) s fun small s₁ =>
        Returns (tlbsimSimPwcNoept trace size way m m result) s' fun large s₂ =>
          small.pwc.hit + small.pwc.miss < 2 ^ 32 →
            List.Forall₂ Lookup.NoWorse s₁.log s₂.log ∧
              small.pwc.hit ≤ large.pwc.hit ∧ large.accs ≤ small.accs := by
  have hm₁ : 1 ≤ m := hn.trans hle
  have hn₁ : n ≤ 512 := hle.trans hm
  constructor
  · apply (tlbsimSimNtlb_lruRun hn hn₁ trace size way result s haligned).mono
    rintro small s₁ ⟨hrun₁, hcnt₁, haccs₁⟩
    apply (tlbsimSimNtlb_lruRun hm₁ hm trace size way result s' haligned).mono
    rintro large s₂ ⟨hrun₂, hcnt₂, haccs₂⟩ hlookups
    rw [hcnt₁] at hlookups
    obtain ⟨hlog, hhits, hmisses⟩ := hrun₁.totals_of_le hrun₂ hle hlookups
    rw [← hcnt₁, ← hcnt₂] at hhits hmisses
    exact ⟨hlog, hhits, by omega⟩
  · apply (tlbsimSimPwcNoept_lruRun hn hn₁ trace size way result s).mono
    rintro small s₁ ⟨hrun₁, hcnt₁, haccs₁⟩
    apply (tlbsimSimPwcNoept_lruRun hm₁ hm trace size way result s').mono
    rintro large s₂ ⟨hrun₂, hcnt₂, haccs₂⟩ hlookups
    rw [hcnt₁] at hlookups
    obtain ⟨hlog, hhits, hmisses⟩ := hrun₁.totals_of_le hrun₂ hle hlookups
    rw [← hcnt₁, ← hcnt₂] at hhits hmisses
    exact ⟨hlog, hhits, by omega⟩

/-- One entry against two, over the sample trace. -/
theorem tlbsimSim_noWorse_of_le_sampleTrace :
    Returns (tlbsimSimNtlb sampleTrace 1 1 0 0 ⟨0, ⟨0, 0⟩, ⟨0, 0⟩⟩) .initial fun small s₁ =>
      Returns (tlbsimSimNtlb sampleTrace 2 2 0 0 ⟨0, ⟨0, 0⟩, ⟨0, 0⟩⟩) .initial fun large s₂ =>
        List.Forall₂ Lookup.NoWorse s₁.log s₂.log ∧
          small.ntlb.hit ≤ large.ntlb.hit ∧ large.accs ≤ small.accs := by
  have haligned : ∀ t ∈ readRecords sampleTrace, t.pa.toNat % 4096 = 0 := by decide
  have hcompare := (tlbsimSim_noWorse_of_le (n := 1) (m := 2) (by decide) (by decide) (by decide)
    sampleTrace haligned 0 0 ⟨0, ⟨0, 0⟩, ⟨0, 0⟩⟩ .initial .initial).1
  have hsmall := tlbsimSimNtlb_lruRun (n := 1) (by decide) (by decide) sampleTrace 0 0
    ⟨0, ⟨0, 0⟩, ⟨0, 0⟩⟩ .initial haligned
  apply (hcompare.and_ensures hsmall.ensures).mono
  rintro small s₁ ⟨hlarge, hrun, hcnt, _⟩
  apply hlarge.mono
  intro large s₂ hpost
  apply hpost
  rw [hcnt, hrun.lookups]
  decide

/-- Without the extended page table a fully associative page walk cache never
does worse: every guest descriptor that hits among the descriptors of both page
tables hits among the guest's own, and fewer accesses are made. -/
theorem tlbsimSimPwcNoept_noWorse {n : ℕ} (hn : 1 ≤ n) (hle : n ≤ 512)
    (trace : List (BitVec 8)) (size way : ℕ) (result : SimResult) (s s' : Sim) :
    Returns (tlbsimSimPwcEpt trace size way n n result) s fun ept s₁ =>
      Returns (tlbsimSimPwcNoept trace size way n n result) s' fun noept s₂ =>
        ept.pwc.hit + ept.pwc.miss < 2 ^ 32 → noept.pwc.hit + noept.pwc.miss < 2 ^ 32 →
          List.Forall₂ Lookup.NoWorse (s₁.log.filter fun l => l.asid == 1#32) s₂.log ∧
            noept.accs ≤ ept.accs := by
  apply (tlbsimSimPwcEpt_eptRun hn hle trace size way result s).mono
  rintro ept s₁ ⟨⟨history, hrun₁, hguests⟩, hcnt₁, haccs₁, _⟩
  apply (tlbsimSimPwcNoept_lruRun hn hle trace size way result s').mono
  rintro noept s₂ ⟨hrun₂, hcnt₂, haccs₂⟩ hlookups _
  rw [hcnt₁, hrun₁.lookups] at hlookups
  rw [← hguests] at hrun₂
  have hlog := hrun₁.filter_noWorse hrun₂ hlookups
  refine ⟨hlog, ?_⟩
  calc noept.accs = s₂.log.countP fun l => !l.hit := by rw [haccs₂, hcnt₂, hrun₂.misses]
    _ ≤ (s₁.log.filter fun l => isGuest l.key).countP fun l => !l.hit := (countP_of_noWorse hlog).2
    _ ≤ s₁.log.countP fun l => !l.hit := List.Sublist.countP_le List.filter_sublist
    _ = ept.accs := by rw [haccs₁, hcnt₁, hrun₁.misses]

/-- Two entries, over the sample trace. -/
theorem tlbsimSimPwcNoept_noWorse_sampleTrace :
    Returns (tlbsimSimPwcEpt sampleTrace 0 0 2 2 ⟨0, ⟨0, 0⟩, ⟨0, 0⟩⟩) .initial fun ept s₁ =>
      Returns (tlbsimSimPwcNoept sampleTrace 0 0 2 2 ⟨0, ⟨0, 0⟩, ⟨0, 0⟩⟩) .initial fun noept s₂ =>
        List.Forall₂ Lookup.NoWorse (s₁.log.filter fun l => l.asid == 1#32) s₂.log ∧
          noept.accs ≤ ept.accs := by
  have hcompare := tlbsimSimPwcNoept_noWorse (n := 2) (by decide) (by decide) sampleTrace 0 0
    ⟨0, ⟨0, 0⟩, ⟨0, 0⟩⟩ .initial .initial
  have hept := tlbsimSimPwcEpt_eptRun (n := 2) (by decide) (by decide) sampleTrace 0 0
    ⟨0, ⟨0, 0⟩, ⟨0, 0⟩⟩ .initial
  have hnoept := tlbsimSimPwcNoept_lruRun (n := 2) (by decide) (by decide) sampleTrace 0 0
    ⟨0, ⟨0, 0⟩, ⟨0, 0⟩⟩ .initial
  apply (hcompare.and_ensures hept.ensures).mono
  rintro ept s₁ ⟨hsecond, _, _, _, hbound⟩
  apply (hsecond.and_ensures hnoept.ensures).mono
  rintro noept s₂ ⟨hpost, hrun, hcnt, _⟩
  apply hpost
  · exact lt_of_le_of_lt hbound (by decide)
  · rw [hcnt, hrun.lookups]
    decide

end TlbAnalyzer.Simulator
