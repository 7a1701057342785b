/-
# The simulations as scripts

An emulation function looks up addresses and adds to the access total of its
simulation, and what a lookup answers decides what comes next. Each of the four
functions is a script of these two kinds of action, and a simulation is the scripts
of its records, between the assignments that set it up and its report.

The functions are gone through once, here. `Performs` says which actions the script
of a record is made of; what is shown of each of these actions holds of a whole
simulation, at its end or in every state that it passes through.
-/

import TlbAnalyzer.Math.Scripts
import TlbAnalyzer.Simulator.Folder
import TlbAnalyzer.Simulator.Refinement

namespace TlbAnalyzer.Simulator

open Cache Math TraceFile

/-- What an emulation function is made of. -/
inductive SimAction
  | lookup (c : CacheName) (addr asid : BitVec 32)
  /-- `accs += n`, for the total of a simulation. -/
  | access (cmd : SimCmd) (n : ℕ)

/-- An access is nothing to ask about; its answer is always `true`. -/
def SimAction.perform : SimAction → SimM Bool
  | lookup c addr asid => Simulator.lookup c addr asid
  | access cmd n => do
      modify fun s => s.access cmd n
      return true

@[simp]
theorem perform_access_returns_iff {cmd : SimCmd} {n : ℕ} {s : Sim} {post : Bool → Sim → Prop} :
    Returns (SimAction.access cmd n).perform s post ↔ post true (s.access cmd n) :=
  Returns.iff_of_run rfl

@[simp]
theorem perform_access_ensures_iff {cmd : SimCmd} {n : ℕ} {s : Sim} {post : Bool → Sim → Prop} :
    Ensures (SimAction.access cmd n).perform s post ↔ post true (s.access cmd n) :=
  Ensures.iff_of_run rfl

/-! ## The four emulations -/

/-- The parts of an emulation: one for every walk, one for a walk that has a second
level, and one for a walk that ended at a page. -/
def levels (level : ℕ) (first second third : Script SimAction) : Script SimAction :=
  .seq first (.seq (if level > 1 then second else .skip) (if level > 2 then third else .skip))

namespace SimCmd

variable (cmd : SimCmd)

def count (n : ℕ) : Script SimAction := .ask (.access cmd n) .skip

/-- A lookup with an access on a miss. -/
def charge (c : CacheName) (addr asid : BitVec 32) : Script SimAction :=
  .ask (.lookup c addr asid) (cmd.count 1)

/-- The lookups of the two descriptors that translate an address. -/
def translate (c : CacheName) (gpa : BitVec 32) : Script SimAction :=
  .seq (cmd.charge c (l1Mpa gpa) 0#32) (cmd.charge c (l2Mpa gpa) 0#32)

/-- The lookup of a descriptor of the guest, whose miss costs its translation and an
access. -/
def guest (c : CacheName) (gpa : BitVec 32) (translation : Script SimAction) :
    Script SimAction :=
  .ask (.lookup c gpa 1#32) (.seq translation (cmd.count 1))

/-- `tlbtrace_ntlb_find2`. -/
def find2 (addr : BitVec 32) (final : Bool) : Script SimAction :=
  .seq (if final = false then count .scNtlb 1 else .skip)
    (.ask (.lookup .ntlb2 addr 0#32) (count .scNtlb 2))

/-- The part of `emulate_full` behind a lookup in the nested TLB. -/
def nested (addr gpa : BitVec 32) : Script SimAction :=
  .ask (.lookup .ntlb addr 0#32) (translate .scNtlbPwc .pwc gpa)

/-- The emulation of a record by `emulate_ntlb2`, `emulate_pwc2`, `emulate_pwc3` and
`emulate_full`. -/
def record (t : TraceRecord) : Script SimAction :=
  match cmd with
  | .scNtlb =>
      levels t.level (find2 (t.l1Pa &&& 0xFFFFF000#32) false)
        (find2 (t.l2Pa &&& 0xFFFFF000#32) false) (find2 t.pa true)
  | .scPwcEpt =>
      levels t.level (guest .scPwcEpt .pwc2 t.l1Pa (translate .scPwcEpt .pwc2 t.l1Pa))
        (guest .scPwcEpt .pwc2 t.l2Pa (translate .scPwcEpt .pwc2 t.l2Pa))
        (translate .scPwcEpt .pwc2 t.pa)
  | .scPwcNoept =>
      .seq (charge .scPwcNoept .pwc3 t.l1Pa 1#32)
        (if t.level > 1 then charge .scPwcNoept .pwc3 t.l2Pa 1#32 else .skip)
  | .scNtlbPwc =>
      levels t.level (guest .scNtlbPwc .pwc t.l1Pa (nested (t.l1Pa &&& 0xFFFFF000#32) t.l1Pa))
        (guest .scNtlbPwc .pwc t.l2Pa (nested (t.l2Pa &&& 0xFFFFF000#32) t.l2Pa))
        (nested t.pa t.pa)

/-- The emulation function of a simulation. -/
def emulate : ℕ → BitVec 32 → BitVec 32 → BitVec 32 → SimM Unit :=
  match cmd with
  | .scNtlb => emulateNtlb2
  | .scPwcEpt => emulatePwc2
  | .scPwcNoept => emulatePwc3
  | .scNtlbPwc => emulateFull

end SimCmd

section

open Script

/-- A lookup followed by a script is the statement `if(call == 0) body`. -/
theorem run_ask_lookup (c : CacheName) (addr asid : BitVec 32) (body : Script SimAction) :
    (ask (.lookup c addr asid) body).run SimAction.perform =
      onMiss (lookup c addr asid) (body.run SimAction.perform) := rfl

theorem run_count (cmd : SimCmd) (n : ℕ) :
    (cmd.count n).run SimAction.perform = modify fun s => s.access cmd n := rfl

theorem run_seq (first second : Script SimAction) :
    (seq first second).run SimAction.perform =
      (do first.run SimAction.perform; second.run SimAction.perform) := rfl

theorem run_ite (cond : Prop) [Decidable cond] (body : Script SimAction) :
    (if cond then body else .skip).run SimAction.perform =
      whenever cond (body.run SimAction.perform) := by
  by_cases hcond : cond
  · rw [whenever, if_pos hcond, if_pos hcond]
  · rw [whenever, if_neg hcond, if_neg hcond]
    rfl

theorem run_find2 (addr : BitVec 32) (final : Bool) :
    (SimCmd.find2 addr final).run SimAction.perform =
      discard (tlbtraceNtlbFind2 addr final) := by
  have hdiscard : discard (tlbtraceNtlbFind2 addr final) =
    tlbtraceNtlbFind2 addr final >>= fun _ => pure () := rfl
  rw [hdiscard, tlbtraceNtlbFind2, SimCmd.find2]
  simp only [run_seq, run_ite, run_ask_lookup, run_count, onMiss, bind_assoc, pure_bind]
  simp only [bind_pure_unit]

/-- The script is the emulation function. -/
theorem run_record (cmd : SimCmd) (t : TraceRecord) :
    (cmd.record t).run SimAction.perform = cmd.emulate t.level t.l1Pa t.l2Pa t.pa := by
  cases cmd with
  | scNtlb =>
      simp only [SimCmd.record, levels, run_seq, run_ite, run_find2]
      rfl
  | scPwcEpt =>
      simp only [SimCmd.record, levels, SimCmd.guest, SimCmd.translate, SimCmd.charge, run_seq,
        run_ite, run_ask_lookup, run_count, bind_assoc]
      rfl
  | scPwcNoept =>
      simp only [SimCmd.record, SimCmd.charge, run_seq, run_ite, run_ask_lookup, run_count]
      rfl
  | scNtlbPwc =>
      simp only [SimCmd.record, levels, SimCmd.guest, SimCmd.nested, SimCmd.translate,
        SimCmd.charge, run_seq, run_ite, run_ask_lookup, run_count]
      rfl

end

/-! ## The four simulations -/

namespace SimCmd

variable (cmd : SimCmd)

/-- Whether a simulation looks up a cache. -/
def uses : SimCmd → CacheName → Bool
  | .scNtlb, c => c = .ntlb2
  | .scPwcEpt, c => c = .pwc2
  | .scPwcNoept, c => c = .pwc3
  | .scNtlbPwc, c => c = .ntlb || c = .pwc

/-- The geometries that a simulation sets. -/
def configure (z : Sizes) (s : Sim) : Sim :=
  match cmd with
  | .scNtlb => { s with ntlbGeometry := .ofSizeWay z.ntlbSize z.ntlbWay }
  | .scPwcEpt | .scPwcNoept => { s with pwcGeometry := .ofSizeWay z.pwcSize z.pwcWay }
  | .scNtlbPwc =>
      { s with
        ntlbGeometry := .ofSizeWay z.ntlbSize z.ntlbWay
        pwcGeometry := .ofSizeWay z.pwcSize z.pwcWay }

/-- The globals with which the loop over the records starts. -/
def start (z : Sizes) (s : Sim) : Sim := (cmd.configure z s).flushAll

/-- What a simulation stores in its result. -/
def report (result : SimResult) (s : Sim) : SimResult :=
  match cmd with
  | .scNtlb => { result with accs := s.memAccs .scNtlb, ntlb := s.cnt .ntlb2 }
  | .scPwcEpt => { result with accs := s.memAccs .scPwcEpt, pwc := s.cnt .pwc2 }
  | .scPwcNoept => { result with accs := s.memAccs .scPwcNoept, pwc := s.cnt .pwc3 }
  | .scNtlbPwc =>
      { result with accs := s.memAccs .scNtlbPwc, ntlb := s.cnt .ntlb, pwc := s.cnt .pwc }

/-- The scripts of a trace. -/
def scripts (trace : List (BitVec 8)) : List (Script SimAction) :=
  (readRecords trace).map cmd.record

/-- What a simulation passes through: from its start, with all scripts to be done, to
the scripts that are left and the globals. -/
def Reaches (z : Sizes) (trace : List (BitVec 8)) (s : Sim)
    (config : List (Script SimAction) × Sim) : Prop :=
  Script.Reaches SimAction.perform (cmd.scripts trace, cmd.start z s) config

variable {cmd} in
/-- A simulation sets the geometry of every cache that it uses. -/
theorem configure_geometry {c : CacheName} (huses : cmd.uses c = true) (z : Sizes) (s : Sim) :
    (cmd.configure z s).geometry c = .ofSizeWay (z.size c) (z.way c) := by
  cases cmd with
  | scNtlb =>
      cases of_decide_eq_true huses
      rfl
  | scPwcEpt =>
      cases of_decide_eq_true huses
      rfl
  | scPwcNoept =>
      cases of_decide_eq_true huses
      rfl
  | scNtlbPwc => cases c <;> rfl

end SimCmd

/-- Every simulation is the scripts of its records, between its start and its report. -/
theorem funcs_run (cmd : SimCmd) (z : Sizes) (trace : List (BitVec 8)) (result : SimResult)
    (s : Sim) :
    (funcs cmd trace z.ntlbSize z.ntlbWay z.pwcSize z.pwcWay result).run s =
      (do (cmd.scripts trace).forM (Script.run SimAction.perform)
          let s' ← get
          return cmd.report result s' : SimM SimResult).run (cmd.start z s) := by
  have hloop : (cmd.scripts trace).forM (Script.run SimAction.perform) =
      (readRecords trace).forM fun t => cmd.emulate t.level t.l1Pa t.l2Pa t.pa := by
    simp only [← run_record]
    exact List.forM_map
  rw [hloop]
  cases cmd <;> rfl

/-- What a simulation returns with is what its scripts return with. -/
theorem funcs_returns_iff {cmd : SimCmd} {z : Sizes} {trace : List (BitVec 8)}
    {result : SimResult} {s : Sim} {post : SimResult → Sim → Prop} :
    Returns (funcs cmd trace z.ntlbSize z.ntlbWay z.pwcSize z.pwcWay result) s post ↔
      Returns ((cmd.scripts trace).forM (Script.run SimAction.perform)) (cmd.start z s)
        fun _ s' => post (cmd.report result s') s' := by
  rw [Returns, funcs_run, ← Returns]
  simp only [Returns.bind_iff, Returns.get_iff, Returns.pure_iff]

/-- A simulation returns with certain globals exactly if its machine ends with them. -/
theorem funcs_returns_iff_reaches (cmd : SimCmd) (z : Sizes) (trace : List (BitVec 8))
    (result : SimResult) (s s' : Sim) :
    (Returns (funcs cmd trace z.ntlbSize z.ntlbWay z.pwcSize z.pwcWay result) s
      fun _ final => final = s') ↔ cmd.Reaches z trace s ([], s') := by
  rw [funcs_returns_iff, SimCmd.Reaches, ← Script.forM_run_eq_ok_iff_reaches]
  constructor
  · rintro ⟨_, final, hrun, rfl⟩
    exact hrun
  · exact fun hrun => ⟨(), s', hrun, rfl⟩

/-! ## The actions of a record -/

/-- The guest addresses of the guest's descriptors that a walk went through. -/
def guestDescriptors (t : TraceRecord) : List (BitVec 32) :=
  t.l1Pa :: if t.level > 1 then [t.l2Pa] else []

/-- The guest addresses that have to be translated in a walk: those of the descriptors,
and the final one. -/
def translated (t : TraceRecord) : List (BitVec 32) :=
  guestDescriptors t ++ if t.level > 2 then [t.pa] else []

section

variable {t : TraceRecord} {gpa : BitVec 32}

theorem l1Pa_mem_guestDescriptors (t : TraceRecord) : t.l1Pa ∈ guestDescriptors t :=
  List.mem_cons_self

theorem l2Pa_mem_guestDescriptors (hlevel : t.level > 1) : t.l2Pa ∈ guestDescriptors t := by
  simp [guestDescriptors, hlevel]

theorem mem_translated_of_guest (h : gpa ∈ guestDescriptors t) : gpa ∈ translated t :=
  List.mem_append_left _ h

theorem pa_mem_translated (hlevel : t.level > 2) : t.pa ∈ translated t := by
  simp [translated, hlevel]

end

namespace SimCmd

/-- The actions that the emulation of a record may perform: accesses of its own total, and
lookups in its own caches of addresses that come from the record. -/
inductive Performs (cmd : SimCmd) (t : TraceRecord) : SimAction → Prop
  | access (n : ℕ) : Performs cmd t (.access cmd n)
  | guest {c : CacheName} (huses : cmd.uses c = true) (hpwc : c.isPwc = true) {gpa : BitVec 32}
      (hgpa : gpa ∈ guestDescriptors t) : Performs cmd t (.lookup c gpa 1#32)
  | l1 {c : CacheName} (huses : cmd.uses c = true) (hpwc : c.isPwc = true) {gpa : BitVec 32}
      (hgpa : gpa ∈ translated t) : Performs cmd t (.lookup c (l1Mpa gpa) 0#32)
  | l2 {c : CacheName} (huses : cmd.uses c = true) (hpwc : c.isPwc = true) {gpa : BitVec 32}
      (hgpa : gpa ∈ translated t) : Performs cmd t (.lookup c (l2Mpa gpa) 0#32)
  | page {c : CacheName} (huses : cmd.uses c = true) (hntlb : c.isPwc = false) {gpa : BitVec 32}
      (hgpa : gpa ∈ guestDescriptors t) : Performs cmd t (.lookup c (gpa &&& 0xFFFFF000#32) 0#32)
  | final {c : CacheName} (huses : cmd.uses c = true) (hntlb : c.isPwc = false)
      (hlevel : t.level > 2) : Performs cmd t (.lookup c t.pa 0#32)

variable {cmd : SimCmd} {t : TraceRecord} {c : CacheName} {gpa : BitVec 32}

theorem performs_count {n : ℕ} : ∀ action ∈ (cmd.count n).actions, cmd.Performs t action := by
  intro action h
  rw [List.mem_singleton.mp h]
  exact .access n

theorem performs_seq {first second : Script SimAction}
    (hfirst : ∀ action ∈ first.actions, cmd.Performs t action)
    (hsecond : ∀ action ∈ second.actions, cmd.Performs t action) :
    ∀ action ∈ (Script.seq first second).actions, cmd.Performs t action :=
  List.forall_mem_append.mpr ⟨hfirst, hsecond⟩

theorem performs_charge {addr asid : BitVec 32} (h : cmd.Performs t (.lookup c addr asid)) :
    ∀ action ∈ (cmd.charge c addr asid).actions, cmd.Performs t action :=
  List.forall_mem_cons.mpr ⟨h, performs_count⟩

theorem performs_translate (huses : cmd.uses c = true) (hpwc : c.isPwc = true)
    (hgpa : gpa ∈ translated t) :
    ∀ action ∈ (cmd.translate c gpa).actions, cmd.Performs t action :=
  performs_seq (performs_charge (.l1 huses hpwc hgpa)) (performs_charge (.l2 huses hpwc hgpa))

theorem performs_guest (huses : cmd.uses c = true) (hpwc : c.isPwc = true)
    (hgpa : gpa ∈ guestDescriptors t) {translation : Script SimAction}
    (htranslation : ∀ action ∈ translation.actions, cmd.Performs t action) :
    ∀ action ∈ (cmd.guest c gpa translation).actions, cmd.Performs t action :=
  List.forall_mem_cons.mpr ⟨.guest huses hpwc hgpa, performs_seq htranslation performs_count⟩

theorem performs_nested {addr : BitVec 32} (h : Performs .scNtlbPwc t (.lookup .ntlb addr 0#32))
    (hgpa : gpa ∈ translated t) :
    ∀ action ∈ (nested addr gpa).actions, Performs .scNtlbPwc t action :=
  List.forall_mem_cons.mpr ⟨h, performs_translate rfl rfl hgpa⟩

/-- A part of an emulation that is only there at some levels. -/
theorem performs_ite {cond : Prop} [Decidable cond] {script : Script SimAction}
    (h : cond → ∀ action ∈ script.actions, cmd.Performs t action) :
    ∀ action ∈ (if cond then script else .skip : Script SimAction).actions,
      cmd.Performs t action := by
  by_cases hcond : cond
  · rw [if_pos hcond]
    exact h hcond
  · rw [if_neg hcond]
    intro action haction
    cases haction

theorem performs_find2 {addr : BitVec 32} (h : Performs .scNtlb t (.lookup .ntlb2 addr 0#32))
    (final : Bool) : ∀ action ∈ (find2 addr final).actions, Performs .scNtlb t action :=
  performs_seq (performs_ite fun _ => performs_count)
    (List.forall_mem_cons.mpr ⟨h, performs_count⟩)

theorem performs_levels {first second third : Script SimAction}
    (hfirst : ∀ action ∈ first.actions, cmd.Performs t action)
    (hsecond : t.level > 1 → ∀ action ∈ second.actions, cmd.Performs t action)
    (hthird : t.level > 2 → ∀ action ∈ third.actions, cmd.Performs t action) :
    ∀ action ∈ (levels t.level first second third).actions, cmd.Performs t action :=
  performs_seq hfirst (performs_seq (performs_ite hsecond) (performs_ite hthird))

/-- All actions of a record are listed. -/
theorem performs_record (cmd : SimCmd) (t : TraceRecord) :
    ∀ action ∈ (cmd.record t).actions, cmd.Performs t action := by
  have hl1 := l1Pa_mem_guestDescriptors t
  cases cmd with
  | scNtlb =>
      apply performs_levels
      · exact performs_find2 (.page rfl rfl hl1) false
      · intro hlevel
        exact performs_find2 (.page rfl rfl (l2Pa_mem_guestDescriptors hlevel)) false
      · intro hlevel
        exact performs_find2 (.final rfl rfl hlevel) true
  | scPwcEpt =>
      apply performs_levels
      · exact performs_guest rfl rfl hl1 (performs_translate rfl rfl (mem_translated_of_guest hl1))
      · intro hlevel
        have hl2 := l2Pa_mem_guestDescriptors hlevel
        exact performs_guest rfl rfl hl2 (performs_translate rfl rfl (mem_translated_of_guest hl2))
      · intro hlevel
        exact performs_translate rfl rfl (pa_mem_translated hlevel)
  | scPwcNoept =>
      refine performs_seq (performs_charge (.guest rfl rfl hl1)) (performs_ite fun hlevel => ?_)
      exact performs_charge (.guest rfl rfl (l2Pa_mem_guestDescriptors hlevel))
  | scNtlbPwc =>
      apply performs_levels
      · exact performs_guest rfl rfl hl1
          (performs_nested (.page rfl rfl hl1) (mem_translated_of_guest hl1))
      · intro hlevel
        have hl2 := l2Pa_mem_guestDescriptors hlevel
        exact performs_guest rfl rfl hl2
          (performs_nested (.page rfl rfl hl2) (mem_translated_of_guest hl2))
      · intro hlevel
        exact performs_nested (.final rfl rfl hlevel) (pa_mem_translated hlevel)

/-- A simulation only looks up the caches that it uses. -/
theorem Performs.uses {addr asid : BitVec 32} (h : cmd.Performs t (.lookup c addr asid)) :
    cmd.uses c = true := by
  cases h <;> assumption

variable {z : Sizes} {trace : List (BitVec 8)} {inv : Sim → Prop} {s : Sim}

theorem forall_performs_of_mem_scripts {script : Script SimAction}
    (h : script ∈ cmd.scripts trace) :
    ∃ t ∈ readRecords trace, ∀ action ∈ script.actions, cmd.Performs t action := by
  rcases List.mem_map.mp h with ⟨t, ht, rfl⟩
  exact ⟨t, ht, performs_record cmd t⟩

/-- An invariant that every action keeps holds in every state that the simulation passes
through. -/
theorem Reaches.invariant {config : List (Script SimAction) × Sim}
    (h : cmd.Reaches z trace s config)
    (hkeeps : ∀ t ∈ readRecords trace, ∀ action, cmd.Performs t action → ∀ s, inv s →
      Ensures action.perform s fun _ s' => inv s')
    (hstart : inv (cmd.start z s)) : inv config.2 := by
  apply Script.Reaches.invariant ?_ h hstart
  intro script hscript action haction
  rcases forall_performs_of_mem_scripts hscript with ⟨t, ht, hperforms⟩
  exact hkeeps t ht action (hperforms action haction)

end SimCmd

/-- An invariant that every action keeps, in a run that no action stops, holds at the end
of the simulation. -/
theorem funcs_keeps {cmd : SimCmd} {z : Sizes} {trace : List (BitVec 8)} (inv : Sim → Prop)
    (hkeeps : ∀ t ∈ readRecords trace, ∀ action, cmd.Performs t action → ∀ s, inv s →
      Returns action.perform s fun _ s' => inv s')
    {s : Sim} (hstart : inv (cmd.start z s)) (result : SimResult) :
    Returns (funcs cmd trace z.ntlbSize z.ntlbWay z.pwcSize z.pwcWay result) s
      fun _ s' => inv s' := by
  rw [funcs_returns_iff]
  refine Returns.forM (fun _ => inv) (cmd.scripts trace) ?_ hstart
  intro _ script hscript s hs
  rcases SimCmd.forall_performs_of_mem_scripts hscript with ⟨t, ht, hperforms⟩
  exact Script.run_returns (fun action haction => hkeeps t ht action (hperforms action haction)) hs

end TlbAnalyzer.Simulator
