/-
# The stack distance law

A table with one set is a stack of keys. Whether a lookup hits can then be read
off the sequence of lookups alone: it does exactly when its key was looked up
before and fewer distinct other keys have been looked up since than the table has
entries. This holds for every key that a flush does not leave in the table, and
for each of the five lookup functions.
-/

import TlbAnalyzer.Simulator.Inclusion

namespace TlbAnalyzer.Simulator

open Cache Math

/-- A call asks for its address and identifier as they are. -/
theorem Call.key_eq (call : Call) : call.key = (call.addr, call.asid) := by
  cases call <;> rfl

namespace LruRun

variable {s : Sim} {n : ℕ} {history : List Key}

/-- One call of a run in one table. -/
theorem call {call : Call} (h : LruRun s call.cache n history)
    (hlt : history.length + 1 < 2 ^ 32) (hkey : call.key ≠ emptyKey) :
    Returns call.run s fun hit s' =>
      hit = decide (call.key ∈ (Recency.recency history).take n) ∧
        LruRun s' call.cache n (call.key :: history) := by
  rw [call.key_eq] at hkey ⊢
  apply Call.returns
  · intro k
    apply ((h.access .scNtlb k).lookup_answer call.key_eq hkey).mono
    rintro hit s' ⟨hanswer, hrun⟩
    exact ⟨hanswer hlt, hrun⟩
  · rintro hit s' k ⟨hanswer, hrun⟩
    exact ⟨hanswer, hrun.access .scNtlb k⟩

/-- Each call of a run is answered from the keys that came before it. -/
theorem run {c : CacheName} (calls : List Call) (h : LruRun s c n history)
    (hlt : history.length + calls.length < 2 ^ 32) (hcache : ∀ call ∈ calls, call.cache = c)
    (hkey : ∀ call ∈ calls, call.key ≠ emptyKey) :
    Returns (Simulator.answers calls) s fun hits _ =>
      hits.length = calls.length ∧
        ∀ before call after, calls = before ++ call :: after →
          hits[before.length]? = some (decide (call.key ∈
            (Recency.recency ((before.map Call.key).reverse ++ history)).take n)) := by
  induction calls generalizing s history with
  | nil =>
      rw [Simulator.answers, Returns.pure_iff]
      refine ⟨rfl, fun before call after hsplit => ?_⟩
      simp at hsplit
  | cons first calls ih =>
      rw [List.length_cons] at hlt
      rw [List.forall_mem_cons] at hcache hkey
      obtain ⟨rfl, hcache⟩ := hcache
      rw [Simulator.answers, Returns.bind_iff]
      apply (h.call (by omega) hkey.1).mono
      rintro hit s₁ ⟨hhit, h₁⟩
      rw [Returns.bind_iff]
      apply (ih h₁ (by rw [List.length_cons]; omega) hcache hkey.2).mono
      rintro hits s₂ ⟨hlength, hhits⟩
      rw [Returns.pure_iff]
      refine ⟨by rw [List.length_cons, List.length_cons, hlength], ?_⟩
      intro before call after hsplit
      cases before with
      | nil =>
          obtain ⟨rfl, rfl⟩ := List.cons.inj hsplit
          rw [hhit]
          rfl
      | cons first' before =>
          obtain ⟨rfl, hrest⟩ := List.cons.inj hsplit
          rw [List.length_cons, List.getElem?_cons_succ, hhits before call after hrest]
          simp

end LruRun

/-- The stack distance law: in a table of `n` entries with one set, a lookup hits
if and only if its key was looked up before and fewer than `n` distinct other
keys were looked up since. -/
theorem answers_iff_stackDistance {n : ℕ} (hn : 1 ≤ n) (hle : n ≤ 512) {s : Sim} {c : CacheName}
    (hgeometry : s.geometry c = .ofSizeWay n n) (calls : List Call)
    (hlength : calls.length < 2 ^ 32) (hcache : ∀ call ∈ calls, call.cache = c)
    (hkey : ∀ call ∈ calls, call.key ≠ emptyKey) :
    Returns (answers calls) s.flushAll fun hits _ =>
      hits.length = calls.length ∧
        ∀ before call after, calls = before ++ call :: after →
          (hits[before.length]? = some true ↔
            ∃ older since, before.map Call.key = older ++ call.key :: since ∧
              call.key ∉ since ∧ since.toFinset.card < n) := by
  have hstart : LruRun s.flushAll c n [] := .start hn hle hgeometry
  apply (hstart.run calls (by simpa using hlength) hcache hkey).mono
  rintro hits s' ⟨hhits, hanswers⟩
  refine ⟨hhits, fun before call after hsplit => ?_⟩
  rw [hanswers before call after hsplit, Option.some.injEq, decide_eq_true_eq, List.append_nil]
  exact Recency.mem_take_recency_reverse_iff

/-- Two entries: the second lookup of a page hits after one other page, and the
third misses after two. -/
theorem answers_iff_stackDistance_twoEntries :
    Returns (answers [.ntlbFind 0x1#32, .ntlbFind 0x2#32, .ntlbFind 0x1#32, .ntlbFind 0x3#32,
        .ntlbFind 0x2#32])
      (Sim.flushAll { Sim.initial with ntlbGeometry := .ofSizeWay 2 2 }) fun hits _ =>
        hits[2]? = some true ∧ hits[4]? ≠ some true := by
  apply (answers_iff_stackDistance (n := 2) (c := .ntlb) (by decide) (by decide) rfl _
    (by decide) (by decide) (by decide)).mono
  rintro hits s' ⟨-, hhits⟩
  constructor
  · apply (hhits [.ntlbFind 0x1#32, .ntlbFind 0x2#32] (.ntlbFind 0x1#32) _ rfl).mpr
    exact ⟨[], [(0x2#32, 0#32)], by decide⟩
  · intro hhit
    have hdistance := (hhits [.ntlbFind 0x1#32, .ntlbFind 0x2#32, .ntlbFind 0x1#32,
      .ntlbFind 0x3#32] (.ntlbFind 0x2#32) [] rfl).mp hhit
    rw [← Recency.mem_take_recency_reverse_iff] at hdistance
    exact absurd hdistance (by decide)

end TlbAnalyzer.Simulator
