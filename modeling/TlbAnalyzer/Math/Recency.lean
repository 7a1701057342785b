/-
# Recency lists

A recency list names keys from the most to the least recently used one. This
module develops the two forms a replacement argument needs: the unbounded list
of a whole history, and the bounded list that keeps its first `n` keys. The
bounded list can be updated on its own, and it never has to know what the
unbounded one has forgotten.

Histories are written newest first, so that a history extended by one use is a
`cons` and every result is an induction on the list. Nothing here knows about
tables, stamps or addresses.
-/

import Mathlib.Data.Finset.Card
import Mathlib.Data.List.Forall2
import Mathlib.Data.List.Nodup
import Mathlib.Data.List.TakeDrop

namespace TlbAnalyzer.Math.Recency

universe u

variable {κ : Type u} [DecidableEq κ]

/-- Use `key` in a list that keeps at most `n` keys: the key moves to the
front, and whatever no longer fits at the end is forgotten. -/
def touch (n : ℕ) (key : κ) (keys : List κ) : List κ :=
  (key :: keys.erase key).take n

/-- The keys of a history, each listed once and ordered by its last use. -/
def recency : List κ → List κ
  | [] => []
  | key :: earlier => key :: (recency earlier).erase key

/-- What a cache of `n` most recent keys answers along a history: each use is
paired with whether its key was resident just before. -/
def answers (n : ℕ) : List κ → List (κ × Bool)
  | [] => []
  | key :: earlier =>
      (key, decide (key ∈ (recency earlier).take n)) :: answers n earlier

@[simp]
theorem recency_cons (key : κ) (earlier : List κ) :
    recency (key :: earlier) = key :: (recency earlier).erase key := rfl

@[simp]
theorem answers_cons (n : ℕ) (key : κ) (earlier : List κ) :
    answers n (key :: earlier) =
      (key, decide (key ∈ (recency earlier).take n)) :: answers n earlier := rfl

/-- A key that is not among the first `n` leaves the first `n` alone when it
is erased. -/
theorem take_erase_of_not_mem_take {n : ℕ} {key : κ} {keys : List κ}
    (habsent : key ∉ keys.take n) : (keys.erase key).take n = keys.take n := by
  induction keys generalizing n with
  | nil => rfl
  | cons head tail ih =>
      cases n with
      | zero => simp
      | succ n =>
          rw [List.take_succ_cons, List.mem_cons, not_or] at habsent
          have hhead : ¬ (head == key) = true := fun h => habsent.1 (eq_of_beq h).symm
          rw [List.erase_cons_tail hhead, List.take_succ_cons, List.take_succ_cons,
            ih habsent.2]

/-- Erasing a key that is among the first `n + 1` commutes with cutting, at the
price of one place. -/
theorem take_erase_of_mem_take {n : ℕ} {key : κ} {keys : List κ}
    (hmem : key ∈ keys.take (n + 1)) :
    (keys.erase key).take n = (keys.take (n + 1)).erase key := by
  induction keys generalizing n with
  | nil => simp at hmem
  | cons head tail ih =>
      by_cases hhead : head = key
      · subst hhead
        simp
      · have hne : ¬ (head == key) = true := by simpa using hhead
        rw [List.take_succ_cons, List.erase_cons_tail hne, List.erase_cons_tail hne]
        rw [List.take_succ_cons, List.mem_cons] at hmem
        have htail : key ∈ tail.take n := hmem.resolve_left (Ne.symm hhead)
        cases n with
        | zero => simp at htail
        | succ n => rw [List.take_succ_cons, ih htail]

/-- The bounded list is updated without knowing what it has forgotten. -/
theorem touch_take (n : ℕ) (key : κ) (keys : List κ) :
    touch n key (keys.take n) = (key :: keys.erase key).take n := by
  cases n with
  | zero => rfl
  | succ n =>
      rw [touch, List.take_succ_cons, List.take_succ_cons]
      by_cases hmem : key ∈ keys.take (n + 1)
      · have hlength : ((keys.take (n + 1)).erase key).length ≤ n := by
          rw [List.length_erase_of_mem hmem]
          have := List.length_take_le (n + 1) keys
          omega
        rw [take_erase_of_mem_take hmem, List.take_of_length_le hlength]
      · have hshort : key ∉ keys.take n := fun h =>
          hmem (List.take_subset_take_left keys (Nat.le_succ n) h)
        rw [List.erase_of_not_mem hmem, List.take_take, take_erase_of_not_mem_take hshort,
          Nat.min_eq_left (Nat.le_succ n)]

/-- One more use turns the resident keys of a history into those of the longer
history. -/
theorem take_recency_cons (n : ℕ) (key : κ) (earlier : List κ) :
    (recency (key :: earlier)).take n = touch n key ((recency earlier).take n) :=
  (touch_take n key (recency earlier)).symm

/-- Forgetting the uses of some keys leaves the recency order of the others. -/
theorem recency_filter (kept : κ → Bool) (history : List κ) :
    recency (history.filter kept) = (recency history).filter kept := by
  induction history with
  | nil => rfl
  | cons key earlier ih =>
      by_cases hkept : kept key = true
      · rw [List.filter_cons_of_pos hkept, recency_cons, recency_cons,
          List.filter_cons_of_pos hkept, ih, List.erase_filter]
      · rw [List.filter_cons_of_neg hkept, recency_cons, List.filter_cons_of_neg hkept, ih,
          ← List.erase_filter, List.erase_of_not_mem]
        intro hmem
        exact hkept (List.mem_filter.mp hmem).2

omit [DecidableEq κ] in
/-- Keys that survive a filter only move forward. -/
theorem mem_take_filter {n : ℕ} {key : κ} {keys : List κ} {kept : κ → Bool}
    (hmem : key ∈ keys.take n) (hkept : kept key = true) :
    key ∈ (keys.filter kept).take n := by
  have hsplit : (keys.take n).filter kept <+: keys.filter kept := by
    obtain ⟨rest, hrest⟩ := List.take_prefix n keys
    exact ⟨rest.filter kept, by rw [← List.filter_append, hrest]⟩
  have hlength : ((keys.take n).filter kept).length ≤ n :=
    Nat.le_trans (List.length_filter_le _ _) (List.length_take_le n keys)
  have hfiltered : key ∈ (keys.take n).filter kept := List.mem_filter.mpr ⟨hmem, hkept⟩
  rw [List.prefix_iff_eq_take.mp hsplit] at hfiltered
  exact List.take_subset_take_left _ hlength hfiltered

/-! ## Stack distance -/

/-- The uses since the last use of a key. -/
def since (key : κ) (history : List κ) : List κ := history.takeWhile fun other => other ≠ key

theorem since_cons_self (key : κ) (earlier : List κ) : since key (key :: earlier) = [] := by
  simp [since]

theorem since_cons_of_ne {key first : κ} (h : first ≠ key) (earlier : List κ) :
    since key (first :: earlier) = first :: since key earlier := by
  simp [since, h]

theorem since_append_cons {key : κ} {newer : List κ} (h : key ∉ newer) (older : List κ) :
    since key (newer ++ key :: older) = newer := by
  rw [since, List.takeWhile_append_of_pos]
  · simp
  · intro other hother
    exact decide_eq_true fun heq => h (heq ▸ hother)

theorem since_erase {key other : κ} (h : other ≠ key) (keys : List κ) :
    since key (keys.erase other) = (since key keys).erase other := by
  induction keys with
  | nil => rfl
  | cons head tail ih =>
      by_cases hother : head = other
      · subst hother
        rw [List.erase_cons_head, since_cons_of_ne h, List.erase_cons_head]
      · have hne : ¬ (head == other) = true := by simpa using hother
        rw [List.erase_cons_tail hne]
        by_cases hkey : head = key
        · subst hkey
          rw [since_cons_self, since_cons_self, List.erase_nil]
        · rw [since_cons_of_ne hkey, since_cons_of_ne hkey, List.erase_cons_tail hne, ih]

/-- The position of a key in a list is the number of keys in front of it. -/
theorem mem_take_iff_since {n : ℕ} {key : κ} {keys : List κ} :
    key ∈ keys.take n ↔ key ∈ keys ∧ (since key keys).length < n := by
  induction keys generalizing n with
  | nil => simp
  | cons head tail ih =>
      cases n with
      | zero => simp
      | succ n =>
          by_cases hhead : head = key
          · simp [hhead, since_cons_self]
          · simp [Ne.symm hhead, ih, since_cons_of_ne hhead]

theorem recency_nodup (history : List κ) : (recency history).Nodup := by
  induction history with
  | nil => exact List.nodup_nil
  | cons key earlier ih =>
      rw [recency_cons, List.nodup_cons]
      exact ⟨ih.not_mem_erase, ih.erase key⟩

theorem mem_recency {key : κ} {history : List κ} : key ∈ recency history ↔ key ∈ history := by
  induction history with
  | nil => rfl
  | cons first earlier ih =>
      rw [recency_cons, List.mem_cons, List.mem_cons, ← ih]
      by_cases hfirst : key = first
      · simp [hfirst]
      · simp [hfirst, List.mem_erase_of_ne hfirst]

/-- In front of a key in the recency list stand the keys used since its last
use, each once. -/
theorem toFinset_since_recency (key : κ) (history : List κ) :
    (since key (recency history)).toFinset = (since key history).toFinset := by
  induction history with
  | nil => rfl
  | cons first earlier ih =>
      by_cases hfirst : first = key
      · rw [recency_cons, hfirst, since_cons_self, since_cons_self]
      · rw [recency_cons, since_cons_of_ne hfirst, since_erase hfirst, since_cons_of_ne hfirst,
          List.toFinset_cons, List.toFinset_cons, ← ih]
        ext other
        by_cases hother : other = first
        · simp [hother]
        · simp [hother, List.mem_erase_of_ne hother]

/-- The stack-distance law: a key is among the `n` most recent ones exactly when
it was used before and fewer than `n` distinct other keys were used since. -/
theorem mem_take_recency_iff {n : ℕ} {key : κ} {history : List κ} :
    key ∈ (recency history).take n ↔ key ∈ history ∧ (since key history).toFinset.card < n := by
  have hnodup : (since key (recency history)).Nodup :=
    (recency_nodup history).sublist (List.takeWhile_sublist _)
  rw [mem_take_iff_since, mem_recency, ← toFinset_since_recency,
    List.toFinset_card_of_nodup hnodup]

/-- The same law, for a history written oldest first. -/
theorem mem_take_recency_reverse_iff {n : ℕ} {key : κ} {history : List κ} :
    key ∈ (recency history.reverse).take n ↔
      ∃ older later, history = older ++ key :: later ∧ key ∉ later ∧ later.toFinset.card < n := by
  rw [mem_take_recency_iff]
  constructor
  · rintro ⟨hmem, hcard⟩
    obtain ⟨newer, rest, hsplit, hnewer⟩ := List.eq_append_cons_of_mem hmem
    rw [hsplit, since_append_cons hnewer] at hcard
    refine ⟨rest.reverse, newer.reverse, ?_, by simpa using hnewer, ?_⟩
    · rw [← List.reverse_inj, hsplit]
      simp
    · rwa [List.toFinset_reverse]
  · rintro ⟨older, later, rfl, hlater, hcard⟩
    have hreverse : (older ++ key :: later).reverse =
        later.reverse ++ key :: older.reverse := by simp
    rw [hreverse, since_append_cons (by simpa using hlater), List.toFinset_reverse]
    exact ⟨by simp, hcard⟩

/-! ## Comparing two caches use by use -/

/-- The second answer is about the same key, and is a hit whenever the first
one is. -/
def NoWorse (first second : κ × Bool) : Prop :=
  first.1 = second.1 ∧ (first.2 = true → second.2 = true)

/-- A larger cache keeps every key a smaller one keeps, so it never turns a hit
into a miss. -/
theorem answers_noWorse_of_le {n m : ℕ} (hle : n ≤ m) (history : List κ) :
    List.Forall₂ NoWorse (answers n history) (answers m history) := by
  induction history with
  | nil => exact .nil
  | cons key earlier ih =>
      refine .cons ⟨rfl, fun hhit => ?_⟩ ih
      rw [decide_eq_true_eq] at hhit ⊢
      exact List.take_subset_take_left _ hle hhit

/-- Uses of other keys can only push a key out. Dropping them from the history
never turns a hit into a miss. -/
theorem answers_filter_noWorse (n : ℕ) (kept : κ → Bool) (history : List κ) :
    List.Forall₂ NoWorse ((answers n history).filter fun use => kept use.1)
      (answers n (history.filter kept)) := by
  induction history with
  | nil => exact .nil
  | cons key earlier ih =>
      by_cases hkept : kept key = true
      · rw [answers_cons, List.filter_cons_of_pos (by exact hkept),
          List.filter_cons_of_pos hkept, answers_cons]
        refine .cons ⟨rfl, fun hhit => ?_⟩ ih
        rw [decide_eq_true_eq] at hhit ⊢
        rw [recency_filter]
        exact mem_take_filter hhit hkept
      · rw [answers_cons, List.filter_cons_of_neg (by exact hkept),
          List.filter_cons_of_neg hkept]
        exact ih

omit [DecidableEq κ]

/-- The key was last used at time `n`. -/
structure LastAt (uses : List κ) (key : κ) (n : ℕ) : Prop where
  pos : 0 < n
  used : uses[n - 1]? = some key
  unused_since : ∀ k, n ≤ k → uses[k]? ≠ some key

/-- The first key was used less recently than the second: some last part of the
history uses the second and not the first. -/
def LessRecent (uses : List κ) (first second : κ) : Prop :=
  ∃ k, second ∈ uses.drop k ∧ first ∉ uses.drop k

namespace LastAt

variable {uses : List κ} {key first second : κ} {n m : ℕ}

theorem append_self (uses : List κ) (key : κ) : LastAt (uses ++ [key]) key (uses.length + 1) where
  pos := Nat.succ_pos _
  used := by simp
  unused_since k hk := by
    rw [List.getElem?_eq_none (by simpa using hk)]
    exact fun h => by cases h

theorem append_of_ne (h : LastAt uses key n) (hne : first ≠ key) :
    LastAt (uses ++ [first]) key n where
  pos := h.pos
  used := by
    rcases List.getElem?_eq_some_iff.mp h.used with ⟨hlt, -⟩
    rw [List.getElem?_append_left hlt]
    exact h.used
  unused_since k hk := by
    by_cases hlt : k < uses.length
    · rw [List.getElem?_append_left hlt]
      exact h.unused_since k hk
    · intro hsome
      rw [List.getElem?_append_right (Nat.not_lt.mp hlt)] at hsome
      rcases List.getElem?_eq_some_iff.mp hsome with ⟨hidx, hget⟩
      exact hne (by simpa using hget)

/-- Times of last use are in the order of recency. -/
theorem lt_iff (h : LastAt uses first n) (h' : LastAt uses second m) :
    n < m ↔ LessRecent uses first second := by
  constructor
  · intro hlt
    refine ⟨n, ?_, ?_⟩
    · rw [List.mem_iff_getElem?]
      refine ⟨m - 1 - n, ?_⟩
      rw [List.getElem?_drop, Nat.add_sub_cancel' (Nat.le_sub_one_of_lt hlt)]
      exact h'.used
    · intro hmem
      rcases List.mem_iff_getElem?.mp hmem with ⟨k, hk⟩
      rw [List.getElem?_drop] at hk
      exact h.unused_since (n + k) (Nat.le_add_right n k) hk
  · rintro ⟨k, hsecond, hfirst⟩
    have hn : n ≤ k := by
      by_contra hgt
      apply hfirst
      rw [List.mem_iff_getElem?]
      refine ⟨n - 1 - k, ?_⟩
      rw [List.getElem?_drop, Nat.add_sub_cancel' (by omega)]
      exact h.used
    have hm : k < m := by
      rcases List.mem_iff_getElem?.mp hsecond with ⟨j, hj⟩
      rw [List.getElem?_drop] at hj
      by_contra hle
      exact h'.unused_since (k + j) (by omega) hj
    exact lt_of_le_of_lt hn hm

/-- Two keys that were last used at the same time are the same. -/
theorem eq_of_time (h : LastAt uses first n) (h' : LastAt uses second n) : first = second :=
  Option.some.inj (h.used.symm.trans h'.used)

end LastAt

/-- No key was used more recently than the last one. -/
theorem not_lessRecent_append_singleton (uses : List κ) (key other : κ) :
    ¬ LessRecent (uses ++ [key]) key other := by
  rintro ⟨k, hother, hkey⟩
  by_cases hk : k ≤ uses.length
  · rw [List.drop_append_of_le_length hk] at hkey
    exact hkey (List.mem_append_right _ (List.mem_singleton_self key))
  · rw [List.drop_eq_nil_of_le (by rw [List.length_append, List.length_singleton]; omega)] at hother
    exact absurd hother List.not_mem_nil

end TlbAnalyzer.Math.Recency
