/-
# Programs whose every stop can be looked at

A contract speaks about the state in which a program returns. A property of all the
states that a run passes through needs the run in steps. A script is a program made
of actions that answer yes or no, where a no is followed by some more script. It can
be run at once, as a state-passing program, or step by step, as a machine whose
configuration holds the scripts still to be done and the state. Both come to the
same end, so what is shown of the machine is shown of the program.

The machine also goes through the runs that an action stops. Every configuration
before that action is reached, only the last one is not.
-/

import Mathlib.Logic.Relation
import TlbAnalyzer.Math.Contracts

namespace TlbAnalyzer.Math

universe v

/-- A program over actions that answer. -/
inductive Script (α : Type v)
  | skip
  /-- Perform the action, and if it answers `false` do the script too. -/
  | ask (action : α) (otherwise : Script α)
  | seq (first second : Script α)

namespace Script

variable {α : Type v} {σ ε : Type}

/-- The actions that a script may perform. -/
def actions : Script α → List α
  | skip => []
  | ask action otherwise => action :: otherwise.actions
  | seq first second => first.actions ++ second.actions

variable (perform : α → StateT σ (Except ε) Bool)

/-- A script as a program. -/
def run : Script α → StateT σ (Except ε) Unit
  | skip => pure ()
  | ask action otherwise => do
      let answer ← perform action
      if answer = false then run otherwise else pure ()
  | seq first second => do
      run first
      run second

/-- One step of the machine: the scripts still to be done, and the state. -/
inductive Step : List (Script α) × σ → List (Script α) × σ → Prop
  | skip (rest : List (Script α)) (s : σ) : Step (.skip :: rest, s) (rest, s)
  | seq (first second : Script α) (rest : List (Script α)) (s : σ) :
      Step (.seq first second :: rest, s) (first :: second :: rest, s)
  | yes {action : α} {s s' : σ} (otherwise : Script α) (rest : List (Script α))
      (hrun : (perform action).run s = .ok (true, s')) :
      Step (.ask action otherwise :: rest, s) (rest, s')
  | no {action : α} {s s' : σ} (otherwise : Script α) (rest : List (Script α))
      (hrun : (perform action).run s = .ok (false, s')) :
      Step (.ask action otherwise :: rest, s) (otherwise :: rest, s')

/-- What the machine passes through. -/
def Reaches : List (Script α) × σ → List (Script α) × σ → Prop :=
  Relation.ReflTransGen (Step perform)

variable {perform}

/-! ## What holds of every action holds of the script -/

/-- An invariant that every action keeps, whatever it answers, is kept by the script. -/
theorem run_returns {inv : σ → Prop} {script : Script α}
    (hkeeps : ∀ action ∈ script.actions, ∀ s, inv s →
      Returns (perform action) s fun _ s' => inv s')
    {s : σ} (hs : inv s) : Returns (script.run perform) s fun _ s' => inv s' := by
  induction script generalizing s with
  | skip => exact Returns.pure_iff.mpr hs
  | ask action otherwise ih =>
      rw [actions, List.forall_mem_cons] at hkeeps
      rw [run, Returns.bind_iff]
      apply (hkeeps.1 s hs).mono
      intro answer s₁ h₁
      cases answer with
      | true => exact Returns.pure_iff.mpr h₁
      | false => exact ih hkeeps.2 h₁
  | seq first second ihfirst ihsecond =>
      rw [actions, List.forall_mem_append] at hkeeps
      rw [run, Returns.bind_iff]
      apply (ihfirst hkeeps.1 hs).mono
      intro _ s₁ h₁
      exact ihsecond hkeeps.2 h₁

/-- If two runs of every action come to the same end, so do two runs of the script. -/
theorem run_respects {rel : σ → σ → Prop} {script : Script α}
    (hrespects : ∀ action ∈ script.actions, Respects rel (perform action)) :
    Respects rel (script.run perform) := by
  induction script with
  | skip => exact .pure ()
  | ask action otherwise ih =>
      rw [actions, List.forall_mem_cons] at hrespects
      apply hrespects.1.bind
      intro answer
      cases answer with
      | true => exact .pure ()
      | false => exact ih hrespects.2
  | seq first second ihfirst ihsecond =>
      rw [actions, List.forall_mem_append] at hrespects
      exact (ihfirst hrespects.1).bind fun _ => ihsecond hrespects.2

/-! ## The machine does what the program does -/

/-- The machine follows a script that returns to its end, whatever comes after it. -/
theorem reaches_of_run {script : Script α} {s s' : σ}
    (hrun : (script.run perform).run s = .ok ((), s')) (rest : List (Script α)) :
    Reaches perform (script :: rest, s) (rest, s') := by
  induction script generalizing s s' rest with
  | skip =>
      cases hrun
      exact .single (.skip rest s)
  | ask action otherwise ih =>
      rcases run_bind_eq_ok_iff.mp hrun with ⟨answer, middle, hfirst, hrest⟩
      cases answer with
      | true =>
          cases hrest
          exact .single (.yes otherwise rest hfirst)
      | false => exact .head (.no otherwise rest hfirst) (ih hrest rest)
  | seq first second ihfirst ihsecond =>
      rcases run_bind_eq_ok_iff.mp hrun with ⟨_, middle, hfirst, hsecond⟩
      have hpath := (ihfirst hfirst (second :: rest)).trans (ihsecond hsecond rest)
      exact .head (.seq first second rest s) hpath

/-- A step changes nothing about how the scripts still to be done will end. -/
theorem Step.run_eq {config config' : List (Script α) × σ} (h : Step perform config config') :
    (config.1.forM (run perform)).run config.2 = (config'.1.forM (run perform)).run config'.2 := by
  cases h with
  | skip rest s => rfl
  | seq first second rest s =>
      show ((first.run perform >>= fun _ => second.run perform) >>= fun _ =>
        rest.forM (run perform)).run s = _
      rw [bind_assoc]
      rfl
  | yes otherwise rest hrun =>
      rw [List.forM, run, StateT.run_bind, StateT.run_bind, hrun]
      rfl
  | no otherwise rest hrun =>
      rw [List.forM, run, StateT.run_bind, StateT.run_bind, hrun]
      rfl

theorem Reaches.run_eq {config config' : List (Script α) × σ}
    (h : Reaches perform config config') :
    (config.1.forM (run perform)).run config.2 = (config'.1.forM (run perform)).run config'.2 := by
  induction h with
  | refl => rfl
  | tail _ hstep ih => exact ih.trans hstep.run_eq

/-- The program returns in a state exactly if the machine comes to its end there. -/
theorem forM_run_eq_ok_iff_reaches {scripts : List (Script α)} {s s' : σ} :
    (scripts.forM (run perform)).run s = .ok ((), s') ↔ Reaches perform (scripts, s) ([], s') := by
  constructor
  · intro hrun
    induction scripts generalizing s with
    | nil =>
        cases hrun
        exact .refl
    | cons script scripts ih =>
        rcases run_bind_eq_ok_iff.mp hrun with ⟨_, middle, hfirst, hrest⟩
        exact (reaches_of_run hfirst scripts).trans (ih hrest)
  · exact fun hreaches => hreaches.run_eq

/-! ## Invariants -/

/-- One step: the actions still to be done were to be done before, and the state is
kept or is one that such an action left. -/
theorem Step.invariant {inv : σ → Prop} {scripts : List (Script α)}
    (hkeeps : ∀ script ∈ scripts, ∀ action ∈ script.actions, ∀ s, inv s →
      Ensures (perform action) s fun _ s' => inv s')
    {s s' : σ} {scripts' : List (Script α)} (h : Step perform (scripts, s) (scripts', s'))
    (hs : inv s) :
    inv s' ∧ scripts'.flatMap actions ⊆ scripts.flatMap actions := by
  cases h with
  | skip => exact ⟨hs, fun _ hmem => hmem⟩
  | seq first second rest =>
      refine ⟨hs, ?_⟩
      simp [actions]
  | yes otherwise rest hrun =>
      refine ⟨hkeeps _ List.mem_cons_self _ List.mem_cons_self s hs _ _ hrun, ?_⟩
      simp
  | no otherwise rest hrun =>
      refine ⟨hkeeps _ List.mem_cons_self _ List.mem_cons_self s hs _ _ hrun, ?_⟩
      simp [actions]

/-- An invariant that every action of the scripts keeps holds in every state that the
machine passes through. -/
theorem Reaches.invariant {inv : σ → Prop} {scripts : List (Script α)}
    (hkeeps : ∀ script ∈ scripts, ∀ action ∈ script.actions, ∀ s, inv s →
      Ensures (perform action) s fun _ s' => inv s')
    {s : σ} {config : List (Script α) × σ} (h : Reaches perform (scripts, s) config)
    (hs : inv s) : inv config.2 := by
  suffices hboth : inv config.2 ∧ config.1.flatMap actions ⊆ scripts.flatMap actions from hboth.1
  induction h with
  | refl => exact ⟨hs, fun _ hmem => hmem⟩
  | tail _ hstep ih =>
      rcases ih with ⟨hinv, hactions⟩
      have hnext := hstep.invariant ?_ hinv
      · exact ⟨hnext.1, List.Subset.trans hnext.2 hactions⟩
      · intro script hscript action haction
        have hmem := hactions (List.mem_flatMap.mpr ⟨script, hscript, haction⟩)
        rcases List.mem_flatMap.mp hmem with ⟨script', hscript', haction'⟩
        exact hkeeps script' hscript' action haction'

end Script

end TlbAnalyzer.Math
