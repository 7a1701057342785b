/-
# Reachable states, and what has held since

A machine here is any relation between a state, an event and the state after it. An
invariant of the machine speaks about one state. What a cache holds is explained by
its past instead: the step at which an entry was made, and that no later step took it
away. `Since` is that past, and the two rules about it go in both directions. A
predicate that only such steps can make true has a past of that form, and what holds
right after such a step and is kept by the steps after it holds now.
-/

import Mathlib.Order.Basic

namespace TlbAnalyzer.Math

universe u v

variable {σ : Type u} {ε : Type v}

/-- The states that steps lead to from an initial one. -/
inductive Reached (init : σ → Prop) (step : σ → ε → σ → Prop) : σ → Prop
  | start {s : σ} (h : init s) : Reached init step s
  | next {s s' : σ} {event : ε} (h : Reached init step s) (hstep : step s event s') :
      Reached init step s'

/-- A step that `made` describes was taken in a reachable state, and `kept` describes
every step after it. -/
inductive Since (init : σ → Prop) (step made kept : σ → ε → σ → Prop) : σ → Prop
  | made {s s' : σ} {event : ε} (h : Reached init step s) (hstep : step s event s')
      (hmade : made s event s') : Since init step made kept s'
  | kept {s s' : σ} {event : ε} (h : Since init step made kept s) (hstep : step s event s')
      (hkept : kept s event s') : Since init step made kept s'

variable {init : σ → Prop} {step made kept : σ → ε → σ → Prop} {s : σ}

theorem Reached.invariant (h : Reached init step s) (inv : σ → Prop)
    (hinit : ∀ s, init s → inv s)
    (hstep : ∀ {s s' : σ} {event : ε}, inv s → step s event s' → inv s') : inv s := by
  induction h with
  | start hs => exact hinit _ hs
  | next _ hnext ih => exact hstep ih hnext

/-- A predicate that is false at the start, and that a step makes or keeps true only as
described, has the past described. -/
theorem Reached.since (h : Reached init step s) (holds : σ → Prop)
    (hinit : ∀ s, init s → ¬ holds s)
    (hstep : ∀ {s s' : σ} {event : ε}, Reached init step s → step s event s' → holds s' →
      made s event s' ∨ (holds s ∧ kept s event s'))
    (hs : holds s) : Since init step made kept s := by
  induction h with
  | start hstart => exact absurd hs (hinit _ hstart)
  | next hreached hnext ih =>
      rcases hstep hreached hnext hs with hmade | ⟨hbefore, hkept⟩
      · exact .made hreached hnext hmade
      · exact .kept (ih hbefore) hnext hkept

end TlbAnalyzer.Math
