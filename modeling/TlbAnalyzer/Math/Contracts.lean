/-
# Contracts for state-passing programs that may fail

A program here threads a state and may stop with an error instead of returning.
`Returns` is total: the program comes back, and what it comes back with
satisfies the postcondition. `Ensures` is the partial reading, which says
nothing about a run that stopped. Both are computed backwards through the
program by the rules below, and a run that is known to return turns one into
the other. `Fails` is the converse of `Returns`: the program stops, with an error
that satisfies the postcondition. `Ends` has a postcondition for either end.
`Leaves` is about every run, whether it returns or stops, when an error carries the
state it was thrown in.

`Respects` compares two runs of one program: started in related states they do
the same, and end in related states.
-/

import Mathlib.Order.Basic

namespace TlbAnalyzer.Math

universe u v

variable {σ ε α β : Type u}

/-- From `state` the program returns, and its result and final state satisfy
the postcondition. -/
def Returns (program : StateT σ (Except ε) α) (state : σ) (post : α → σ → Prop) : Prop :=
  ∃ result final, program.run state = .ok (result, final) ∧ post result final

/-- If the program returns from `state`, its result and final state satisfy the
postcondition. -/
def Ensures (program : StateT σ (Except ε) α) (state : σ) (post : α → σ → Prop) : Prop :=
  ∀ result final, program.run state = .ok (result, final) → post result final

theorem run_bind_eq_ok_iff {program : StateT σ (Except ε) α}
    {next : α → StateT σ (Except ε) β} {state final : σ} {result : β} :
    (program >>= next).run state = .ok (result, final) ↔
      ∃ value middle, program.run state = .ok (value, middle) ∧
        (next value).run middle = .ok (result, final) := by
  rw [StateT.run_bind]
  cases hrun : program.run state with
  | error failure => simp [bind, Except.bind]
  | ok pair =>
      obtain ⟨value, middle⟩ := pair
      constructor
      · exact fun hnext => ⟨value, middle, rfl, hnext⟩
      · rintro ⟨value', middle', heq, hnext⟩
        cases heq
        exact hnext

namespace Returns

variable {program : StateT σ (Except ε) α} {next : α → StateT σ (Except ε) β} {state : σ}

theorem mono {post post' : α → σ → Prop} (h : Returns program state post)
    (himp : ∀ result final, post result final → post' result final) :
    Returns program state post' := by
  obtain ⟨result, final, hrun, hpost⟩ := h
  exact ⟨result, final, hrun, himp result final hpost⟩

/-- A program is deterministic, so two contracts of one run hold together. -/
theorem and_ensures {post post' : α → σ → Prop} (h : Returns program state post)
    (h' : Ensures program state post') :
    Returns program state fun result final => post result final ∧ post' result final := by
  obtain ⟨result, final, hrun, hpost⟩ := h
  exact ⟨result, final, hrun, hpost, h' result final hrun⟩

theorem ensures {post : α → σ → Prop} (h : Returns program state post) :
    Ensures program state post := by
  obtain ⟨result, final, hrun, hpost⟩ := h
  intro result' final' hrun'
  rw [hrun, Except.ok.injEq, Prod.mk.injEq] at hrun'
  rw [← hrun'.1, ← hrun'.2]
  exact hpost

/-- A run that is known decides every contract. -/
theorem iff_of_run {post : α → σ → Prop} {result : α} {final : σ}
    (hrun : program.run state = .ok (result, final)) :
    Returns program state post ↔ post result final := by
  constructor
  · exact fun h => h.ensures result final hrun
  · exact fun hpost => ⟨result, final, hrun, hpost⟩

/-- What a program reports when its final state is dropped. -/
theorem eq_iff_run' {value : α} :
    (Returns program state fun result _ => result = value) ↔ program.run' state = .ok value := by
  rw [StateT.run'_eq]
  cases hrun : program.run state with
  | error failure =>
      constructor
      · rintro ⟨result, final, hok, -⟩
        rw [hrun] at hok
        cases hok
      · intro h
        cases h
  | ok pair =>
      have hpair : program.run state = .ok (pair.1, pair.2) := hrun
      rw [iff_of_run hpair]
      exact ⟨fun h => congrArg Except.ok h, fun h => Except.ok.inj h⟩

@[simp]
theorem pure_iff {value : α} {post : α → σ → Prop} :
    Returns (pure value : StateT σ (Except ε) α) state post ↔ post value state :=
  iff_of_run rfl

@[simp]
theorem modify_iff {change : σ → σ} {post : PUnit → σ → Prop} :
    Returns (modify change : StateT σ (Except ε) PUnit) state post ↔
      post ⟨⟩ (change state) :=
  iff_of_run rfl

@[simp]
theorem get_iff {post : σ → σ → Prop} :
    Returns (get : StateT σ (Except ε) σ) state post ↔ post state state :=
  iff_of_run rfl

@[simp]
theorem bind_iff {post : β → σ → Prop} :
    Returns (program >>= next) state post ↔
      Returns program state fun value middle => Returns (next value) middle post := by
  constructor
  · rintro ⟨result, final, hrun, hpost⟩
    obtain ⟨value, middle, hfirst, hsecond⟩ := run_bind_eq_ok_iff.mp hrun
    exact ⟨value, middle, hfirst, result, final, hsecond, hpost⟩
  · rintro ⟨value, middle, hfirst, result, final, hsecond, hpost⟩
    exact ⟨result, final, run_bind_eq_ok_iff.mpr ⟨value, middle, hfirst, hsecond⟩, hpost⟩

/-- The first part of a sequence leads to a known state. -/
theorem known_bind_iff {first : StateT σ (Except ε) PUnit} {rest : PUnit → StateT σ (Except ε) β}
    {middle : σ} (h : Returns first state fun _ final => final = middle) {post : β → σ → Prop} :
    Returns (first >>= rest) state post ↔ Returns (rest ⟨⟩) middle post := by
  rcases h with ⟨_, _, hrun, rfl⟩
  rw [bind_iff, iff_of_run hrun]

@[simp]
theorem discard_iff {post : PUnit → σ → Prop} :
    Returns (discard program) state post ↔ Returns program state fun _ final => post ⟨⟩ final := by
  have hdiscard : discard program = program >>= fun _ => pure ⟨⟩ := rfl
  rw [hdiscard, bind_iff]
  simp only [pure_iff]

/-- A contract whose postcondition is decidable is decided by running the
program. -/
instance decidable {post : α → σ → Prop} [∀ result final, Decidable (post result final)] :
    Decidable (Returns program state post) :=
  match hrun : program.run state with
  | .ok (result, final) =>
      decidable_of_iff (post result final)
        ⟨fun hpost => ⟨result, final, hrun, hpost⟩, fun h => h.ensures result final hrun⟩
  | .error failure =>
      .isFalse fun ⟨result, final, hok, _⟩ => by
        rw [hrun] at hok
        cases hok

/-- The loop rule: an invariant of the items handled so far, kept by every
pass, holds of all items at the end. -/
theorem forM {ι : Type v} {body : ι → StateT σ (Except ε) PUnit} (inv : List ι → σ → Prop)
    (items : List ι)
    (hbody : ∀ handled, ∀ item ∈ items, ∀ state, inv handled state →
      Returns (body item) state fun _ final => inv (handled ++ [item]) final)
    {state : σ} (hstart : inv [] state) :
    Returns (items.forM body) state fun _ final => inv items final := by
  suffices hsuffix : ∀ rest : List ι, (∀ item ∈ rest, item ∈ items) →
      ∀ handled state, inv handled state →
        Returns (rest.forM body) state fun _ final => inv (handled ++ rest) final by
    simpa using hsuffix items (fun _ hitem => hitem) [] state hstart
  intro rest
  induction rest with
  | nil =>
      intro _ handled state hinv
      simpa [List.forM] using hinv
  | cons item rest ih =>
      intro hmem handled state hinv
      rw [List.forM, bind_iff]
      apply (hbody handled item (hmem item List.mem_cons_self) state hinv).mono
      intro _ middle hmiddle
      have hrest := ih (fun later hlater => hmem later (List.mem_cons_of_mem _ hlater))
        (handled ++ [item]) middle hmiddle
      simpa using hrest

end Returns

namespace Ensures

variable {program : StateT σ (Except ε) α} {next : α → StateT σ (Except ε) β} {state : σ}

theorem mono {post post' : α → σ → Prop} (h : Ensures program state post)
    (himp : ∀ result final, post result final → post' result final) :
    Ensures program state post' :=
  fun result final hrun => himp result final (h result final hrun)

/-- A run that is known decides every contract. -/
theorem iff_of_run {post : α → σ → Prop} {result : α} {final : σ}
    (hrun : program.run state = .ok (result, final)) :
    Ensures program state post ↔ post result final := by
  constructor
  · exact fun h => h result final hrun
  · exact fun hpost => Returns.ensures ⟨result, final, hrun, hpost⟩

@[simp]
theorem pure_iff {value : α} {post : α → σ → Prop} :
    Ensures (pure value : StateT σ (Except ε) α) state post ↔ post value state :=
  iff_of_run rfl

@[simp]
theorem modify_iff {change : σ → σ} {post : PUnit → σ → Prop} :
    Ensures (modify change : StateT σ (Except ε) PUnit) state post ↔
      post ⟨⟩ (change state) :=
  iff_of_run rfl

@[simp]
theorem get_iff {post : σ → σ → Prop} :
    Ensures (get : StateT σ (Except ε) σ) state post ↔ post state state :=
  iff_of_run rfl

@[simp]
theorem bind_iff {post : β → σ → Prop} :
    Ensures (program >>= next) state post ↔
      Ensures program state fun value middle => Ensures (next value) middle post := by
  constructor
  · intro h value middle hfirst result final hsecond
    exact h result final (run_bind_eq_ok_iff.mpr ⟨value, middle, hfirst, hsecond⟩)
  · intro h result final hrun
    obtain ⟨value, middle, hfirst, hsecond⟩ := run_bind_eq_ok_iff.mp hrun
    exact h value middle hfirst result final hsecond

/-- The first part of a sequence leads to a known state. -/
theorem known_bind_iff {first : StateT σ (Except ε) PUnit} {rest : PUnit → StateT σ (Except ε) β}
    {middle : σ} (h : Returns first state fun _ final => final = middle) {post : β → σ → Prop} :
    Ensures (first >>= rest) state post ↔ Ensures (rest ⟨⟩) middle post := by
  rcases h with ⟨_, _, hrun, rfl⟩
  rw [bind_iff, iff_of_run hrun]

/-- The loop rule for runs that are not known to return. -/
theorem forM {ι : Type v} {body : ι → StateT σ (Except ε) PUnit} (inv : List ι → σ → Prop)
    (items : List ι)
    (hbody : ∀ handled item state, inv handled state →
      Ensures (body item) state fun _ final => inv (handled ++ [item]) final)
    {state : σ} (hstart : inv [] state) :
    Ensures (items.forM body) state fun _ final => inv items final := by
  suffices hsuffix : ∀ handled state, inv handled state →
      Ensures (items.forM body) state fun _ final => inv (handled ++ items) final by
    simpa using hsuffix [] state hstart
  clear hstart state
  induction items with
  | nil =>
      intro handled state hinv
      simpa [List.forM] using hinv
  | cons item items ih =>
      intro handled state hinv
      rw [List.forM, bind_iff]
      refine (hbody handled item state hinv).mono fun _ middle hmiddle => ?_
      simpa using ih (handled ++ [item]) middle hmiddle

end Ensures

/-! ## Runs that stop -/

/-- From `state` the program stops, with an error that satisfies the postcondition. -/
def Fails (program : StateT σ (Except ε) α) (state : σ) (post : ε → Prop) : Prop :=
  ∃ failure, program.run state = .error failure ∧ post failure

namespace Fails

variable {program : StateT σ (Except ε) α} {next : α → StateT σ (Except ε) β} {state : σ}
  {post : ε → Prop}

/-- A sequence stops in its first part, or the first part returns and the rest stops. -/
theorem bind_iff :
    Fails (program >>= next) state post ↔
      Fails program state post ∨
        Returns program state fun value middle => Fails (next value) middle post := by
  have hrun : (program >>= next).run state =
      (program.run state >>= fun pair => (next pair.1).run pair.2) := StateT.run_bind _ _ _
  cases hfirst : program.run state with
  | error failure =>
      rw [hfirst] at hrun
      refine ⟨fun ⟨failure', hfails, hpost⟩ => Or.inl ⟨failure, hfirst, ?_⟩, fun h => ?_⟩
      · cases hrun.symm.trans hfails
        exact hpost
      · rcases h with ⟨failure', hfails, hpost⟩ | ⟨value, middle, hok, -⟩
        · cases hfirst.symm.trans hfails
          exact ⟨failure, hrun, hpost⟩
        · cases hfirst.symm.trans hok
  | ok pair =>
      have hpair : program.run state = .ok (pair.1, pair.2) := hfirst
      rw [hfirst] at hrun
      rw [Returns.iff_of_run hpair]
      refine ⟨fun ⟨failure, hfails, hpost⟩ => Or.inr ⟨failure, hrun.symm.trans hfails, hpost⟩,
        fun h => ?_⟩
      rcases h with ⟨failure, hfails, -⟩ | ⟨failure, hfails, hpost⟩
      · cases hfirst.symm.trans hfails
      · exact ⟨failure, hrun.trans hfails, hpost⟩

/-- A program cannot both stop and return. -/
theorem not_returns {post' : α → σ → Prop} (h : Fails program state post) :
    ¬ Returns program state post' := by
  rcases h with ⟨failure, hfails, -⟩
  intro ⟨result, final, hok, _⟩
  cases hfails.symm.trans hok

end Fails

/-! ## Either end -/

/-- From `state` the program returns with a result and a final state that satisfy `post`,
or it stops with an error that satisfies `fail`. -/
def Ends (program : StateT σ (Except ε) α) (state : σ) (post : α → σ → Prop) (fail : ε → Prop) :
    Prop :=
  (∀ result final, program.run state = .ok (result, final) → post result final) ∧
    ∀ failure, program.run state = .error failure → fail failure

namespace Ends

variable {program : StateT σ (Except ε) α} {next : α → StateT σ (Except ε) β} {state : σ}
  {post : α → σ → Prop} {fail : ε → Prop}

theorem mono {post' : α → σ → Prop} {fail' : ε → Prop} (h : Ends program state post fail)
    (hpost : ∀ result final, post result final → post' result final)
    (hfail : ∀ failure, fail failure → fail' failure) : Ends program state post' fail' :=
  ⟨fun result final hrun => hpost result final (h.1 result final hrun),
    fun failure hrun => hfail failure (h.2 failure hrun)⟩

/-- A run that returns decides the contract. -/
theorem of_run {result : α} {final : σ} (hrun : program.run state = .ok (result, final))
    (h : post result final) : Ends program state post fail := by
  constructor
  · intro result' final' hrun'
    cases hrun.symm.trans hrun'
    exact h
  · intro failure hfails
    cases hrun.symm.trans hfails

/-- A run that stops decides the contract. -/
theorem of_fails {failure : ε} (hrun : program.run state = .error failure) (h : fail failure) :
    Ends program state post fail := by
  constructor
  · intro result final hok
    cases hrun.symm.trans hok
  · intro failure' hfails
    cases hrun.symm.trans hfails
    exact h

theorem get_bind {next : σ → StateT σ (Except ε) α} (h : Ends (next state) state post fail) :
    Ends (get >>= next) state post fail :=
  h

theorem bind {post' : β → σ → Prop} (h : Ends program state post fail)
    (hnext : ∀ value middle, post value middle → Ends (next value) middle post' fail) :
    Ends (program >>= next) state post' fail := by
  cases hrun : program.run state with
  | error failure =>
      have hfails : (program >>= next).run state = .error failure := by
        rw [StateT.run_bind, hrun]
        rfl
      exact .of_fails hfails (h.2 failure hrun)
  | ok pair =>
      have hrest : (program >>= next).run state = (next pair.1).run pair.2 := by
        rw [StateT.run_bind, hrun]
        rfl
      have hvalue := hnext pair.1 pair.2 (h.1 pair.1 pair.2 hrun)
      exact ⟨fun result final hok => hvalue.1 result final (hrest.symm.trans hok),
        fun failure hfails => hvalue.2 failure (hrest.symm.trans hfails)⟩

end Ends

/-! ## What a run leaves alone -/

/-- The state a run ends in, where `thrown` is the state that an error carries. -/
def finalState (thrown : ε → σ) : Except ε (α × σ) → σ
  | .ok (_, final) => final
  | .error failure => thrown failure

theorem Ends.finalState {thrown : ε → σ} {program : StateT σ (Except ε) α} {state : σ}
    {holds : σ → Prop}
    (h : Ends program state (fun _ final => holds final) fun failure => holds (thrown failure)) :
    holds (finalState thrown (program.run state)) := by
  cases hrun : program.run state with
  | error failure => exact h.2 failure hrun
  | ok pair => exact h.1 pair.1 pair.2 hrun

/-- However a run of the program ends, what `view` shows of the state is as it was. -/
def Leaves {γ : Type v} (thrown : ε → σ) (view : σ → γ) (program : StateT σ (Except ε) α) : Prop :=
  ∀ state, view (finalState thrown (program.run state)) = view state

namespace Leaves

variable {γ : Type v} {thrown : ε → σ} {view : σ → γ} {program : StateT σ (Except ε) α}
  {next : α → StateT σ (Except ε) β}

theorem pure (value : α) : Leaves thrown view (pure value : StateT σ (Except ε) α) :=
  fun _ => rfl

theorem get : Leaves thrown view (get : StateT σ (Except ε) σ) :=
  fun _ => rfl

theorem modify {change : σ → σ} (h : ∀ state, view (change state) = view state) :
    Leaves thrown view (modify change : StateT σ (Except ε) PUnit) :=
  h

theorem bind (h : Leaves thrown view program) (hnext : ∀ value, Leaves thrown view (next value)) :
    Leaves thrown view (program >>= next) := by
  intro state
  have hfirst := h state
  rw [StateT.run_bind]
  cases hrun : program.run state with
  | error failure =>
      rw [hrun] at hfirst
      exact hfirst
  | ok pair =>
      rw [hrun] at hfirst
      exact (hnext pair.1 pair.2).trans hfirst

theorem forM {ι : Type v} {body : ι → StateT σ (Except ε) PUnit}
    (h : ∀ item, Leaves thrown view (body item)) (items : List ι) :
    Leaves thrown view (items.forM body) := by
  induction items with
  | nil => exact Leaves.pure _
  | cons item items ih => exact (h item).bind fun _ => ih

/-- In particular a run that returns leaves it alone. -/
theorem ensures (h : Leaves thrown view program) (state : σ) :
    Ensures program state fun _ final => view final = view state := by
  intro result final hrun
  have hfinal := h state
  rw [hrun] at hfinal
  exact hfinal

end Leaves

/-! ## Two runs of one program -/

/-- Two runs came to the same end: they returned the same result in related
states, or stopped with the same error. -/
def SameOutcome (rel : σ → σ → Prop) : Except ε (α × σ) → Except ε (α × σ) → Prop
  | .ok (first, middle), .ok (second, middle') => first = second ∧ rel middle middle'
  | .error failure, .error failure' => failure = failure'
  | _, _ => False

/-- Runs from related states come to the same end. -/
def Respects (rel : σ → σ → Prop) (program : StateT σ (Except ε) α) : Prop :=
  ∀ state state', rel state state' → SameOutcome rel (program.run state) (program.run state')

theorem SameOutcome.bind {rel : σ → σ → Prop} {rel' : σ → σ → Prop}
    {program : StateT σ (Except ε) α} {next : α → StateT σ (Except ε) β} {state state' : σ}
    (h : SameOutcome rel (program.run state) (program.run state'))
    (hnext : ∀ value middle middle', rel middle middle' →
      SameOutcome rel' ((next value).run middle) ((next value).run middle')) :
    SameOutcome rel' ((program >>= next).run state) ((program >>= next).run state') := by
  rw [StateT.run_bind, StateT.run_bind]
  cases hrun : program.run state with
  | error failure =>
      cases hrun' : program.run state' with
      | error failure' =>
          rw [hrun, hrun'] at h
          exact h
      | ok pair =>
          rw [hrun, hrun'] at h
          exact h.elim
  | ok pair =>
      cases hrun' : program.run state' with
      | error failure' =>
          rw [hrun, hrun'] at h
          exact h.elim
      | ok pair' =>
          rw [hrun, hrun'] at h
          rcases h with ⟨hvalue, hrel⟩
          show SameOutcome rel' ((next pair.1).run pair.2) ((next pair'.1).run pair'.2)
          rw [← hvalue]
          exact hnext pair.1 pair.2 pair'.2 hrel

theorem SameOutcome.returns {rel : σ → σ → Prop} {program : StateT σ (Except ε) α}
    {state state' : σ} (h : SameOutcome rel (program.run state) (program.run state'))
    {post : α → σ → Prop} (hpost : Returns program state post) :
    Returns program state fun result final => post result final ∧
      Returns program state' fun result' final' => result' = result ∧ rel final final' := by
  rcases hpost with ⟨result, final, hrun, hpost⟩
  cases hrun' : program.run state' with
  | error failure =>
      rw [hrun, hrun'] at h
      exact h.elim
  | ok pair =>
      rw [hrun, hrun'] at h
      exact ⟨result, final, hrun, hpost, pair.1, pair.2, hrun', h.1.symm, h.2⟩

/-- Two runs that came to the same end report the same. -/
theorem SameOutcome.run'_eq {rel : σ → σ → Prop} {program : StateT σ (Except ε) α}
    {state state' : σ} (h : SameOutcome rel (program.run state) (program.run state')) :
    program.run' state = program.run' state' := by
  show Prod.fst <$> program.run state = Prod.fst <$> program.run state'
  cases hrun : program.run state with
  | error failure =>
      cases hrun' : program.run state' with
      | error failure' =>
          rw [hrun, hrun'] at h
          exact congrArg Except.error h
      | ok pair =>
          rw [hrun, hrun'] at h
          exact h.elim
  | ok pair =>
      cases hrun' : program.run state' with
      | error failure' =>
          rw [hrun, hrun'] at h
          exact h.elim
      | ok pair' =>
          rw [hrun, hrun'] at h
          exact congrArg Except.ok h.1

/-- When no pass of a loop reports anything about the state it finds, the loop
reports what its passes report when each is run alone. -/
theorem run'_mapM {ι : Type u} {body : ι → StateT σ (Except ε) α}
    (h : ∀ item state state', (body item).run' state = (body item).run' state')
    (items : List ι) (state alone : σ) :
    (items.mapM body).run' state = items.mapM fun item => (body item).run' alone := by
  induction items generalizing state with
  | nil => rfl
  | cons item items ih =>
      rw [List.mapM_cons, List.mapM_cons, ← h item state alone]
      show Prod.fst <$> ((body item).run state >>= fun pair =>
          ((fun results => pair.1 :: results) <$> items.mapM body).run pair.2) =
        Prod.fst <$> (body item).run state >>= fun result =>
          (fun results => result :: results) <$> items.mapM fun item => (body item).run' alone
      cases hrun : (body item).run state with
      | error failure => rfl
      | ok pair =>
          have hrest := ih pair.2
          show Prod.fst <$> (((fun results => pair.1 :: results) <$> items.mapM body).run pair.2) =
            (fun results => pair.1 :: results) <$> items.mapM fun item => (body item).run' alone
          rw [← hrest, StateT.run_map, StateT.run'_eq]
          cases (items.mapM body).run pair.2 with
          | error failure => rfl
          | ok pair' => rfl

/-- A loop whose passes all succeed gives one result for each item. -/
theorem exists_mapM_eq_ok {ι : Type u} {body : ι → Except ε α} {items : List ι}
    (h : ∀ item ∈ items, ∃ result, body item = .ok result) :
    ∃ results, items.mapM body = .ok results ∧ results.length = items.length := by
  induction items with
  | nil => exact ⟨[], rfl, rfl⟩
  | cons item items ih =>
      rw [List.forall_mem_cons] at h
      rcases h.1 with ⟨result, hresult⟩
      rcases ih h.2 with ⟨results, hresults, hlength⟩
      refine ⟨result :: results, ?_, congrArg (· + 1) hlength⟩
      rw [List.mapM_cons, hresult, hresults]
      rfl

namespace Respects

variable {rel : σ → σ → Prop} {program : StateT σ (Except ε) α}
  {next : α → StateT σ (Except ε) β}

theorem pure (value : α) : Respects rel (pure value : StateT σ (Except ε) α) :=
  fun _ _ hrel => ⟨rfl, hrel⟩

theorem bind (h : Respects rel program) (hnext : ∀ value, Respects rel (next value)) :
    Respects rel (program >>= next) :=
  fun state state' hrel => (h state state' hrel).bind fun value => hnext value

theorem modify {change : σ → σ}
    (h : ∀ state state', rel state state' → rel (change state) (change state')) :
    Respects rel (modify change : StateT σ (Except ε) PUnit) :=
  fun state state' hrel => ⟨rfl, h state state' hrel⟩

theorem forM {ι : Type v} {body : ι → StateT σ (Except ε) PUnit}
    {items : List ι} (h : ∀ item ∈ items, Respects rel (body item)) :
    Respects rel (items.forM body) := by
  induction items with
  | nil => exact pure _
  | cons item items ih =>
      rw [List.forall_mem_cons] at h
      exact h.1.bind fun _ => ih h.2

end Respects

end TlbAnalyzer.Math
