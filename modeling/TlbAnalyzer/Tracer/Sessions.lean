/-
# One session after another

A session opens its trace file with `O_TRUNC`, under a name that is made of the month,
the day, the hour and the minute at which it starts, and of the geometry of the tracer.
Sessions that start in different minutes have different files and leave those of the
others alone. A session that starts in the minute of an earlier one takes its file.
-/

import TlbAnalyzer.Tracer.Lifecycle
import TlbAnalyzer.Tracer.Recording

namespace TlbAnalyzer.Tracer

open Cache Math TraceFile

/-! ## File names -/

/-- The ranges of the fields of `struct tm`. -/
structure Tm.InRange (tm : Tm) : Prop where
  mon_lt : tm.mon < 12
  mday_le : tm.mday ≤ 31
  hour_lt : tm.hour < 24
  min_lt : tm.min < 60

/-- Two digits are enough for the fields of a clock. -/
theorem length_twoDigits : ∀ n < 100, (twoDigits n).length = 2 := by
  decide +kernel

/-- They are read back as the number. -/
theorem ofDigitChars_twoDigits : ∀ n < 100, Nat.ofDigitChars 10 (twoDigits n) 0 = n := by
  decide +kernel

theorem twoDigits_injective : ∀ m < 100, ∀ n < 100, twoDigits m = twoDigits n → m = n := by
  intro m hm n hn heq
  rw [← ofDigitChars_twoDigits m hm, heq, ofDigitChars_twoDigits n hn]

/-- The name tells the minute. -/
theorem tm_eq_of_traceName_eq {tm tm' : Tm} (h : tm.InRange) (h' : tm'.InRange) {size set : ℕ}
    (heq : traceName tm size set = traceName tm' size set) : tm = tm' := by
  have hmon := h.mon_lt
  have hmon' := h'.mon_lt
  have hmday := h.mday_le
  have hmday' := h'.mday_le
  have hhour := h.hour_lt
  have hhour' := h'.hour_lt
  have hmin := h.min_lt
  have hmin' := h'.min_lt
  -- the same numbers of digits stand in the same places
  have hlength : ∀ {m n : ℕ}, m < 100 → n < 100 → (twoDigits m).length = (twoDigits n).length :=
    fun hm hn => (length_twoDigits _ hm).trans (length_twoDigits _ hn).symm
  have hclock := List.append_cancel_right (List.append_cancel_right (List.append_cancel_right
    (List.append_cancel_right heq)))
  rcases List.append_inj' hclock (hlength (by omega) (by omega)) with ⟨hclock, hmins⟩
  rcases List.append_inj' hclock (hlength (by omega) (by omega)) with ⟨hdate, hhours⟩
  rcases List.append_inj' (List.append_cancel_right hdate) (hlength (by omega) (by omega)) with
    ⟨hdate, hdays⟩
  have hmonths := twoDigits_injective _ (by omega) _ (by omega) (List.append_cancel_left hdate)
  have hdays := twoDigits_injective _ (by omega) _ (by omega) hdays
  have hhours := twoDigits_injective _ (by omega) _ (by omega) hhours
  have hmins := twoDigits_injective _ (by omega) _ (by omega) hmins
  cases tm
  cases tm'
  rw [Tm.mk.injEq]
  exact ⟨Nat.succ_injective hmonths, hdays, hhours, hmins⟩

/-! ## What a session leaves alone -/

/-- The tracer writes to the file `name`. Its other files, and the associativity that
names them, are those of `s₀`. -/
structure Confined (s₀ : Globals α) (name : FileName) (s : Globals α) : Prop where
  fout_eq : s.fout = some name
  tlbSet_eq : s.tlbSet = s₀.tlbSet
  others : ∀ other, other ≠ name → s.files other = s₀.files other

namespace Confined

variable {α : Type} {s₀ s s' : Globals α} {name : FileName} {size set : ℕ}

theorem opened (s : Globals α) (tm : Tm) (fresh : ℕ → BitVec 32) :
    Confined s (traceName tm s.geometry.entries s.tlbSet) (s.opened tm fresh) where
  fout_eq := rfl
  tlbSet_eq := rfl
  others _ hne := Function.update_of_ne hne _ _

theorem of_eq (h : Confined s₀ name s) (hfout : s'.fout = s.fout) (hset : s'.tlbSet = s.tlbSet)
    (hfiles : s'.files = s.files) : Confined s₀ name s' where
  fout_eq := hfout.trans h.fout_eq
  tlbSet_eq := hset.trans h.tlbSet_eq
  others other hne := by rw [hfiles, h.others other hne]

theorem appendFile (h : Confined s₀ name s) (bytes : List (BitVec 8)) :
    Confined s₀ name (s.appendFile bytes) := by
  rw [Globals.appendFile, h.fout_eq]
  refine ⟨rfl, h.tlbSet_eq, fun other hne => ?_⟩
  show Function.update s.files name _ other = _
  rw [Function.update_of_ne hne, h.others other hne]

theorem writeBuffer (h : Confined s₀ name s) (n : ℕ) :
    Ensures (writeBuffer n) s fun _ s' => Confined s₀ name s' := by
  intro _ s' hrun
  change Tracer.writeBuffer n s = _ at hrun
  rw [Tracer.writeBuffer] at hrun
  split at hrun <;> cases hrun
  · exact h
  · exact h.appendFile _

theorem pushWord (h : Confined s₀ name s) (word : BitVec 32) :
    Ensures (pushWord word) s fun _ s' => Confined s₀ name s' := by
  intro _ s' hrun
  change Tracer.pushWord word s = _ at hrun
  rw [Tracer.pushWord] at hrun
  split at hrun
  · split at hrun <;> cases hrun
    exact h.of_eq rfl rfl rfl
  · cases hrun
  · cases hrun

theorem refmemPwc (h : Confined s₀ name s) (addr : BitVec 32) (arg : α) :
    Ensures (tlbtraceRefmemPwc addr arg) s fun _ s' => Confined s₀ name s' := by
  simp only [tlbtraceRefmemPwc, Ensures.bind_iff, Ensures.get_iff]
  refine (h.pushWord _).mono fun _ s₁ h₁ => ?_
  refine (h₁.pushWord _).mono fun _ s₂ h₂ => ?_
  refine (h₂.pushWord _).mono fun _ s₃ h₃ => ?_
  refine (h₃.pushWord _).mono fun _ s₄ h₄ => ?_
  split
  · simp only [Ensures.bind_iff, Ensures.modify_iff]
    exact (h₄.writeBuffer _).mono fun _ s₅ h₅ => h₅.of_eq rfl rfl rfl
  · rw [Ensures.pure_iff]
    exact h₄

theorem ref (hfits : s.geometry.Fits s.slCap) (h : Confined s₀ name s) (r : Ref α) :
    Ensures r.run s fun _ s' => Confined s₀ name s' := by
  rw [Ref.run, tlbtraceRefmem, Ensures.bind_iff]
  refine (tlbtraceRefmemSl_ensures hfits).mono fun hit s₁ hs₁ => ?_
  rcases hs₁.1.eq_use with ⟨i, e, idx, rfl⟩
  have h₁ : Confined s₀ name { s.use hit i e with lastInsIdx := idx } := h.of_eq rfl rfl rfl
  split
  · exact h₁.refmemPwc _ _
  · rw [Ensures.pure_iff]
    exact h₁

theorem closed (h : Confined s₀ name s) (words : ℕ → BitVec 32) :
    ∀ other, other ≠ name → (s.closed words).files other = s₀.files other := by
  intro other hne
  rw [Globals.closed]
  split
  · exact (h.appendFile _).others other hne
  · exact h.others other hne

end Confined

/-! ## A session among others -/

/-- What a session is started with. -/
structure Session (α : Type) where
  tm : Tm
  fresh : ℕ → BitVec 32
  refs : List (Ref α)

namespace Session

variable {α : Type}

/-- Start, references, stop. -/
def run (x : Session α) : TraceM α Unit := session x.tm x.fresh x.refs

/-- The globals after the session. -/
def after (x : Session α) (s : Globals α) : Globals α :=
  match x.run.run s with
  | .ok (_, s') => s'
  | .error _ => s

/-- The trace file of the session. -/
def name (x : Session α) (s : Globals α) : FileName :=
  traceName x.tm s.geometry.entries s.tlbSet

/-- The content that the session's own records give it. -/
def content (x : Session α) (s : Globals α) : List (BitVec 8) :=
  (((missed x.refs (s.opened x.tm x.fresh)).map (Ref.record s.myPteHelper)).flatMap
    TraceRecord.words).flatMap wordBytes

end Session

/-- What a finished session did: it gave its file its content, left the other files
alone, and the tracer is as it was initialised. -/
structure Finished (x : Session α) (s : Globals α) (size set : ℕ) (s' : Globals α) : Prop where
  ready : Ready s' size set
  tlbSet_eq : s'.tlbSet = s.tlbSet
  helper_eq : s'.myPteHelper = s.myPteHelper
  file_eq : s'.files (x.name s) = some (x.content s)
  others : ∀ other, other ≠ x.name s → s'.files other = s.files other

namespace Session

variable {α : Type} {s : Globals α} {size set : ℕ}

/-- The references of a session. -/
theorem refs_ensures (hset : 1 ≤ set) (hle : set ≤ size) (hready : Ready s size set)
    (x : Session α) :
    Ensures (x.refs.forM Ref.run) (s.opened x.tm x.fresh) fun _ s' =>
      Running s' size set ∧ Confined s (x.name s) s' ∧
        Logged s' s.myPteHelper (x.name s) x.refs.length
          (missed x.refs (s.opened x.tm x.fresh)) := by
  have hrunning := hready.opened x.tm x.fresh
  have hlogged := (Logged.opened s x.tm x.fresh).run hset hle x.refs hrunning
  rw [Nat.zero_add, List.nil_append] at hlogged
  have hkept : Ensures (x.refs.forM Ref.run) (s.opened x.tm x.fresh) fun _ s' =>
      Running s' size set ∧ Confined s (x.name s) s' := by
    apply Ensures.forM fun _ s' => Running s' size set ∧ Confined s (x.name s) s'
    · intro _ r s₁ h₁ _ s₂ hrun
      have hfits := h₁.1.fits hset hle
      have hstep := Op.run_ensures hfits (.refmem r.addr r.asid r.ins r.arg) _ _ hrun
      exact ⟨h₁.1.stepped hstep, h₁.2.ref hfits r _ _ hrun⟩
    · exact ⟨hrunning, Confined.opened s x.tm x.fresh⟩
  intro _ s' hrun
  exact ⟨(hkept _ _ hrun).1, (hkept _ _ hrun).2, hlogged _ _ hrun⟩

/-- A whole session, if it ends. -/
theorem run_ensures (hset : 1 ≤ set) (hle : set ≤ size) (hready : Ready s size set)
    (x : Session α) : Ensures x.run s fun _ s' => Finished x s size set s' := by
  rw [run, session, Ensures.known_bind_iff (tlbtraceStart_returns hready x.tm x.fresh),
    Ensures.bind_iff]
  refine (refs_ensures hset hle hready x).mono fun _ s₁ h₁ => ?_
  rcases h₁ with ⟨hrunning, hconfined, hlogged⟩
  rcases hlogged.carries.content with ⟨words, _, hfbuf, -⟩
  have hfile := hlogged.carries.closed.ensures
  intro _ s' hrun
  have hclosed : s' = s₁.closed words := (tlbtraceStop_returns hfbuf).ensures _ _ hrun
  rcases s₁.closed_eq words with ⟨files, heq⟩
  have hothers := hconfined.closed words
  have hown := (hfile _ _ hrun).1
  rw [← hclosed] at heq hothers
  rw [heq] at hothers hown ⊢
  exact ⟨⟨hrunning.geometry_eq, hrunning.slCap_eq⟩, hconfined.tlbSet_eq, hlogged.helper_eq, hown,
    hothers⟩

/-- A session below the limit ends, when the last instruction fetch before it used a
slot that exists. -/
theorem run_returns (hset : 1 ≤ set) (hle : set ≤ size) (hready : Ready s size set)
    (hidx : s.lastInsIdx < size) (x : Session α) (hlimit : x.refs.length < refLimit) :
    Returns x.run s fun _ s' => s'.lastInsIdx < size := by
  rw [run, session, Returns.known_bind_iff (tlbtraceStart_returns hready x.tm x.fresh)]
  have hrefs := (Logged.opened s x.tm x.fresh).run_returns hset hle x.refs
    (hready.opened x.tm x.fresh) hidx (by omega)
  rw [Returns.bind_iff]
  apply (hrefs.and_ensures (refs_ensures hset hle hready x)).mono
  intro _ s₁ h₁
  rcases h₁.2.2.2.carries.content with ⟨words, _, hfbuf, -⟩
  apply (tlbtraceStop_returns hfbuf).mono
  intro _ s' hs'
  rcases s₁.closed_eq words with ⟨files, heq⟩
  rw [hs', heq]
  exact h₁.1

end Session

/-! ## Sessions one after another -/

/-- Sessions one after another. -/
def runSessions (sessions : List (Session α)) : TraceM α Unit := sessions.forM Session.run

/-- The name of each session's trace and the content that its records gave it. -/
def traces : List (Session α) → Globals α → List (FileName × List (BitVec 8))
  | [], _ => []
  | x :: xs, s => (x.name s, x.content s) :: traces xs (x.after s)

section

variable {α : Type} {s s' : Globals α} {size set : ℕ}

/-- The names of later sessions do not depend on a session in between. -/
theorem Finished.name_eq {x : Session α} (hready : Ready s size set)
    (h : Finished x s size set s') (y : Session α) : y.name s' = y.name s := by
  rw [Session.name, Session.name, h.ready.entries_eq, hready.entries_eq, h.tlbSet_eq]

/-- A file that no session is named after keeps its content. -/
theorem runSessions_files (hset : 1 ≤ set) (hle : set ≤ size) (hready : Ready s size set)
    (xs : List (Session α)) {name : FileName} (hname : ∀ x ∈ xs, x.name s ≠ name) :
    Ensures (runSessions xs) s fun _ s' => s'.files name = s.files name := by
  induction xs generalizing s with
  | nil =>
      rw [runSessions, List.forM, Ensures.pure_iff]
  | cons x xs ih =>
      rw [runSessions, List.forM, Ensures.bind_iff]
      refine (x.run_ensures hset hle hready).mono fun _ s₁ h₁ => ?_
      rw [List.forall_mem_cons] at hname
      have hlater : ∀ y ∈ xs, y.name s₁ ≠ name := by
        intro y hy
        rw [h₁.name_eq hready]
        exact hname.2 y hy
      refine (ih h₁.ready hlater).mono fun _ s₂ h₂ => ?_
      rw [h₂, h₁.others name hname.1.symm]

/-- Sessions in different minutes, if they end. -/
theorem runSessions_ensures (hset : 1 ≤ set) (hle : set ≤ size) (hready : Ready s size set)
    (xs : List (Session α)) (hrange : ∀ x ∈ xs, x.tm.InRange)
    (hminutes : (xs.map Session.tm).Nodup) :
    Ensures (runSessions xs) s fun _ s' => ∀ p ∈ traces xs s, s'.files p.1 = some p.2 := by
  induction xs generalizing s with
  | nil =>
      rw [runSessions, List.forM, Ensures.pure_iff]
      exact fun p hp => absurd hp List.not_mem_nil
  | cons x xs ih =>
      rw [List.forall_mem_cons] at hrange
      rw [List.map_cons, List.nodup_cons] at hminutes
      rw [runSessions, List.forM, Ensures.bind_iff]
      intro _ s₁ hrun
      have hafter : x.after s = s₁ := by rw [Session.after, hrun]
      have h₁ := x.run_ensures hset hle hready _ _ hrun
      -- the file of this session is not that of a later one
      have hname : ∀ y ∈ xs, y.name s₁ ≠ x.name s := by
        intro y hy heq
        rw [h₁.name_eq hready] at heq
        have htm := tm_eq_of_traceName_eq (hrange.2 y hy) hrange.1 heq
        exact hminutes.1 (List.mem_map.mpr ⟨y, hy, htm⟩)
      intro _ s' hrun'
      have hkept := runSessions_files hset hle h₁.ready xs hname _ _ hrun'
      have hlater := ih h₁.ready hrange.2 hminutes.2 _ _ hrun'
      rw [traces, hafter, List.forall_mem_cons]
      exact ⟨hkept.trans h₁.file_eq, hlater⟩

/-- Sessions below the limit end. -/
theorem runSessions_returns (hset : 1 ≤ set) (hle : set ≤ size) (hready : Ready s size set)
    (hidx : s.lastInsIdx < size) (xs : List (Session α))
    (hlimit : ∀ x ∈ xs, x.refs.length < refLimit) :
    Returns (runSessions xs) s fun _ _ => True := by
  induction xs generalizing s with
  | nil =>
      rw [runSessions, List.forM, Returns.pure_iff]
      trivial
  | cons x xs ih =>
      rw [List.forall_mem_cons] at hlimit
      rw [runSessions, List.forM, Returns.bind_iff]
      have hreturns := x.run_returns hset hle hready hidx hlimit.1
      apply (hreturns.and_ensures (x.run_ensures hset hle hready)).mono
      intro _ s₁ h₁
      exact ih h₁.2.ready h₁.1 hlimit.2

end

/-- After any number of sessions of one tracer, no two of which started in the same
minute, the trace of every one is in the folder with the content that its own records
gave it. The sessions all end when each stays below the limit and the last instruction
fetch before them used a slot that exists. -/
theorem runSessions_kept {α : Type} {s : Globals α} {size set : ℕ} (hset : 1 ≤ set)
    (hle : set ≤ size) (hready : Ready s size set) (xs : List (Session α))
    (hrange : ∀ x ∈ xs, x.tm.InRange) (hminutes : (xs.map Session.tm).Nodup) :
    (Ensures (runSessions xs) s fun _ s' => ∀ p ∈ traces xs s, s'.files p.1 = some p.2) ∧
      (s.lastInsIdx < size → (∀ x ∈ xs, x.refs.length < refLimit) →
        Returns (runSessions xs) s fun _ s' => ∀ p ∈ traces xs s, s'.files p.1 = some p.2) := by
  have hensures := runSessions_ensures hset hle hready xs hrange hminutes
  refine ⟨hensures, fun hidx hlimit => ?_⟩
  apply ((runSessions_returns hset hle hready hidx xs hlimit).and_ensures hensures).mono
  exact fun _ _ h => h.2

/-- A session in the minute `min`. -/
def sampleSession (min : ℕ) (refs : List (Ref Unit)) : Session Unit :=
  ⟨{ sampleTm with min := min }, fun _ => 0#32, refs⟩

/-- Two minutes, two files. -/
theorem runSessions_kept_twoMinutes :
    Returns (runSessions [sampleSession 26 sampleRefs, sampleSession 27 []]) (sampleTracer 4 2)
      fun _ s' => s'.files (traceName sampleTm 4 2) =
        some ((sampleSession 26 sampleRefs).content (sampleTracer 4 2)) := by
  have hready : Ready (sampleTracer 4 2) 4 2 := ⟨rfl, rfl⟩
  have hrange : ∀ x ∈ [sampleSession 26 sampleRefs, sampleSession 27 []], x.tm.InRange := by
    rw [List.forall_mem_cons, List.forall_mem_singleton]
    exact ⟨⟨by decide, by decide, by decide, by decide⟩,
      ⟨by decide, by decide, by decide, by decide⟩⟩
  have hkept := (runSessions_kept (by decide) (by decide) hready
    [sampleSession 26 sampleRefs, sampleSession 27 []] hrange (by decide)).2 (by decide) ?_
  · apply hkept.mono
    intro _ s' h
    exact h _ List.mem_cons_self
  · rw [List.forall_mem_cons, List.forall_mem_singleton]
    exact ⟨by decide, by decide⟩

/-- One minute, one file: the second session has no records, and those of the first are
gone. -/
theorem runSessions_lost_oneMinute :
    Returns (runSessions [sampleSession 26 sampleRefs, sampleSession 26 []]) (sampleTracer 4 2)
      fun _ s' => ¬ ∀ p ∈ traces [sampleSession 26 sampleRefs, sampleSession 26 []]
        (sampleTracer 4 2), s'.files p.1 = some p.2 := by
  have hlost : Returns (runSessions [sampleSession 26 sampleRefs, sampleSession 26 []])
      (sampleTracer 4 2) fun _ s' => s'.files (traceName sampleTm 4 2) = some [] := by
    decide +kernel
  have hcontent : (sampleSession 26 sampleRefs).content (sampleTracer 4 2) ≠ [] := by
    decide +kernel
  apply hlost.mono
  intro _ s' hfile hkept
  have hfirst := hkept _ List.mem_cons_self
  exact hcontent (Option.some.inj (hfirst.symm.trans hfile))

end TlbAnalyzer.Tracer
