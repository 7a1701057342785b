/-
# Recency lists with invalidation

The keys of a cache are not only used. They are also invalidated, one of them or many
at a time, and the places they leave are taken by the next misses. The list of the
`n` most recent keys is then no longer a part of the history's recency list: a key that
was pushed out does not come back when others are invalidated.

Two facts survive. The list of a smaller cache is at every time the first part of the list
of a larger one. And whether a key is still there can be read off the history since its last
use: it was not invalidated, and at no time were there `n` other keys that had been used
since and were not invalidated.
-/

import TlbAnalyzer.Math.StampedSlots

namespace TlbAnalyzer.Math

universe u v

namespace Recency

variable {κ : Type u} [DecidableEq κ] {ω : Type v}

/-- What can happen to a cache: one key is used, or a class of keys is invalidated. -/
inductive Act (κ : Type u)
  | use (key : κ)
  | drop (cleared : κ → Bool)

namespace Act

/-- The list of at most `n` keys after the act. -/
def on (n : ℕ) : Act κ → List κ → List κ
  | .use key, keys => touch n key keys
  | .drop cleared, keys => keys.filter fun key => !cleared key

/-- The act is a use of a key that is not in the list. -/
def missesIn : Act κ → List κ → Bool
  | .use key, keys => decide (key ∉ keys)
  | .drop _, _ => false

/-- The act neither uses nor invalidates the key. -/
def Spares (key : κ) : Act κ → Prop
  | .use other => other ≠ key
  | .drop cleared => cleared key = false

/-- The keys that were used and not invalidated, after the act. -/
def live : Act κ → Finset κ → Finset κ
  | .use key, keys => insert key keys
  | .drop cleared, keys => keys.filter fun key => cleared key = false

end Act

/-- The list of a cache of `n` keys after the operations, which begin with the oldest one. -/
def resident (act : ω → Act κ) (n : ℕ) (ops : List ω) : List κ :=
  ops.foldl (fun keys op => (act op).on n keys) []

/-- The operation, if it misses in a cache that holds the keys. -/
def missed (act : ω → Act κ) (keys : List κ) (op : ω) : List ω :=
  if (act op).missesIn keys then [op] else []

/-- The operations that miss in a cache that holds the keys at first. -/
def misses (act : ω → Act κ) (n : ℕ) : List κ → List ω → List ω
  | _, [] => []
  | keys, op :: ops => missed act keys op ++ misses act n ((act op).on n keys) ops

/-- The keys that the operations use and do not invalidate afterwards. -/
def liveKeys (act : ω → Act κ) (ops : List ω) : Finset κ :=
  ops.foldl (fun keys op => (act op).live keys) ∅

variable {act : ω → Act κ} {n m : ℕ} {key : κ} {keys : List κ} {ops : List ω} {op : ω}

@[simp]
theorem resident_append_singleton :
    resident act n (ops ++ [op]) = (act op).on n (resident act n ops) := by
  simp [resident]

@[simp]
theorem liveKeys_append_singleton :
    liveKeys act (ops ++ [op]) = (act op).live (liveKeys act ops) := by
  simp [liveKeys]

theorem misses_append_singleton :
    misses act n keys (ops ++ [op]) = misses act n keys ops ++
      missed act (ops.foldl (fun keys op => (act op).on n keys) keys) op := by
  induction ops generalizing keys with
  | nil => simp [misses]
  | cons first ops ih => simp [misses, ih]

/-! ## Two sizes -/

/-- Using a key keeps a first part a first part. -/
theorem touch_mono (hle : n ≤ m) {first second : List κ} (h : first <+: second) (key : κ) :
    touch n key first <+: touch m key second := by
  rcases h with ⟨rest, rfl⟩
  have herase : first.erase key <+: (first ++ rest).erase key := by
    by_cases hmem : key ∈ first
    · rw [List.erase_append_left _ hmem]
      exact List.prefix_append _ _
    · rw [List.erase_append_right _ hmem, List.erase_of_not_mem hmem]
      exact List.prefix_append _ _
  have hcons : key :: first.erase key <+: key :: (first ++ rest).erase key :=
    List.prefix_cons_inj key |>.mpr herase
  exact (hcons.take n).trans (List.take_prefix_take_left hle)

theorem Act.on_mono (hle : n ≤ m) {first second : List κ} (h : first <+: second) (a : Act κ) :
    a.on n first <+: a.on m second := by
  cases a with
  | use key => exact touch_mono hle h key
  | drop cleared => exact h.filter _

/-- A larger cache misses only where a smaller one does. -/
theorem misses_sublist (act : ω → Act κ) (hle : n ≤ m) {first second : List κ}
    (h : first <+: second) (ops : List ω) :
    (misses act m second ops).Sublist (misses act n first ops) := by
  induction ops generalizing first second with
  | nil => exact List.Sublist.refl []
  | cons op ops ih =>
      refine List.Sublist.append ?_ (ih ((act op).on_mono hle h))
      rw [missed, missed]
      cases act op with
      | drop cleared => exact List.Sublist.refl []
      | use key =>
          by_cases hmem : key ∈ second
          · simp [Act.missesIn, hmem]
          · have habsent : key ∉ first := fun hfirst => hmem (h.subset hfirst)
            simp [Act.missesIn, hmem, habsent]

/-! ## Whether a key is still there -/

theorem resident_nodup (act : ω → Act κ) (n : ℕ) (ops : List ω) : (resident act n ops).Nodup := by
  induction ops using List.reverseRecOn with
  | nil => exact List.nodup_nil
  | append_singleton ops op ih =>
      rw [resident_append_singleton]
      cases act op with
      | drop cleared => exact ih.filter _
      | use key =>
          have hcons : (key :: (resident act n ops).erase key).Nodup :=
            List.nodup_cons.mpr ⟨ih.not_mem_erase, ih.erase key⟩
          exact hcons.sublist (List.take_sublist n _)

theorem since_take (hmem : key ∈ keys.take n) : since key (keys.take n) = since key keys := by
  induction keys generalizing n with
  | nil => simp at hmem
  | cons head tail ih =>
      cases n with
      | zero => simp at hmem
      | succ n =>
          rw [List.take_succ_cons] at hmem ⊢
          by_cases hhead : head = key
          · rw [hhead, since_cons_self, since_cons_self]
          · have htail : key ∈ tail.take n := (List.mem_cons.mp hmem).resolve_left (Ne.symm hhead)
            rw [since_cons_of_ne hhead, since_cons_of_ne hhead, ih htail]

theorem since_filter (kept : κ → Bool) (hkept : kept key = true) (keys : List κ) :
    since key (keys.filter kept) = (since key keys).filter kept := by
  induction keys with
  | nil => rfl
  | cons head tail ih =>
      by_cases hhead : head = key
      · subst hhead
        rw [List.filter_cons_of_pos hkept, since_cons_self, since_cons_self, List.filter_nil]
      · rw [since_cons_of_ne hhead]
        by_cases hk : kept head = true
        · rw [List.filter_cons_of_pos hk, List.filter_cons_of_pos hk, since_cons_of_ne hhead, ih]
        · rw [List.filter_cons_of_neg hk, List.filter_cons_of_neg hk, ih]

/-- The keys in front of a key that is still there, when the key itself is spared. -/
theorem toFinset_since_on (hmem : key ∈ (act op).on n keys) (hspares : (act op).Spares key) :
    key ∈ keys ∧ (since key ((act op).on n keys)).toFinset =
      (act op).live (since key keys).toFinset := by
  cases hact : act op with
  | drop cleared =>
      rw [hact] at hmem hspares
      have hkept : (!cleared key) = true := by
        rw [Act.Spares] at hspares
        rw [hspares]
        rfl
      refine ⟨(List.mem_filter.mp hmem).1, ?_⟩
      rw [Act.on, since_filter (fun key => !cleared key) hkept, List.toFinset_filter, Act.live]
      simp
  | use other =>
      rw [hact] at hmem hspares
      rw [Act.Spares] at hspares
      rw [Act.on, touch] at hmem
      have hfull : key ∈ other :: keys.erase other := List.mem_of_mem_take hmem
      have hkeys : key ∈ keys :=
        List.mem_of_mem_erase ((List.mem_cons.mp hfull).resolve_left hspares.symm)
      refine ⟨hkeys, ?_⟩
      rw [Act.on, touch, since_take hmem, since_cons_of_ne hspares, since_erase hspares, Act.live]
      ext found
      by_cases hfound : found = other
      · simp [hfound]
      · simp [hfound, List.mem_erase_of_ne hfound]

theorem length_resident_le (act : ω → Act κ) (n : ℕ) (ops : List ω) :
    (resident act n ops).length ≤ n := by
  induction ops using List.reverseRecOn with
  | nil => exact Nat.zero_le n
  | append_singleton ops op ih =>
      rw [resident_append_singleton]
      cases act op with
      | drop cleared => exact (List.length_filter_le _ _).trans ih
      | use key => exact List.length_take_le n _

/-- A key that is spared stays unless others fill the list. -/
theorem mem_on_iff (hnodup : keys.Nodup) (hlength : keys.length ≤ n)
    (hspares : (act op).Spares key) :
    key ∈ (act op).on n keys ↔
      key ∈ keys ∧ ((act op).live (since key keys).toFinset).card < n := by
  cases hact : act op with
  | drop cleared =>
      rw [hact, Act.Spares] at hspares
      have hmem : key ∈ (Act.drop cleared).on n keys ↔ key ∈ keys := by
        simp [Act.on, hspares]
      rw [hmem, iff_self_and]
      intro hkeys
      have htake : key ∈ keys.take n := by rwa [List.take_of_length_le hlength]
      calc ((Act.drop cleared).live (since key keys).toFinset).card
          ≤ (since key keys).toFinset.card := Finset.card_filter_le _ _
        _ ≤ (since key keys).length := List.toFinset_card_le _
        _ < n := (mem_take_iff_since.mp htake).2
  | use other =>
      rw [hact, Act.Spares] at hspares
      have hset : ((Act.use other).live (since key keys).toFinset).card =
          (since key (other :: keys.erase other)).length := by
        have hlist : (since key (other :: keys.erase other)).Nodup :=
          (List.nodup_cons.mpr ⟨hnodup.not_mem_erase, hnodup.erase other⟩).sublist
            (List.takeWhile_sublist _)
        rw [← List.toFinset_card_of_nodup hlist, since_cons_of_ne hspares, since_erase hspares,
          Act.live]
        congr 1
        ext found
        by_cases hfound : found = other
        · simp [hfound]
        · simp [hfound, List.mem_erase_of_ne hfound]
      rw [hset, Act.on, touch, mem_take_iff_since, List.mem_cons, List.mem_erase_of_ne hspares.symm,
        or_iff_right hspares.symm]

/-- A key is still there exactly when, at every time since its last use, fewer than `n`
other keys had been used since and not been invalidated. -/
theorem mem_resident_iff (hn : 0 < n) {before after : List ω} (hop : act op = .use key)
    (hspares : ∀ later ∈ after, (act later).Spares key) :
    key ∈ resident act n (before ++ op :: after) ↔
      ∀ part, part <+: after → (liveKeys act part).card < n := by
  have hboth : (key ∈ resident act n (before ++ op :: after) →
      (since key (resident act n (before ++ op :: after))).toFinset = liveKeys act after) ∧
      (key ∈ resident act n (before ++ op :: after) ↔
        ∀ part, part <+: after → (liveKeys act part).card < n) := by
    induction after using List.reverseRecOn with
    | nil =>
        cases n with
        | zero => cases hn
        | succ n =>
            simp [resident_append_singleton, hop, Act.on, touch, liveKeys, since_cons_self]
    | append_singleton after later ih =>
        rcases ih fun op' hop' => hspares op' (List.mem_append_left _ hop') with ⟨hsince, hiff⟩
        have hlater := hspares later (List.mem_append_right _ (List.mem_singleton_self later))
        have hsplit : before ++ op :: (after ++ [later]) = (before ++ op :: after) ++ [later] := by
          simp
        rw [hsplit, resident_append_singleton, liveKeys_append_singleton]
        have hnodup := resident_nodup act n (before ++ op :: after)
        have hlength := length_resident_le act n (before ++ op :: after)
        refine ⟨fun hmem => ?_, ?_⟩
        · rcases toFinset_since_on hmem hlater with ⟨hkeys, heq⟩
          rw [heq, hsince hkeys]
        · rw [mem_on_iff hnodup hlength hlater]
          constructor
          · intro hex part hpart
            rcases hex with ⟨hkeys, hcard⟩
            rcases List.prefix_concat_iff.mp hpart with rfl | hshort
            · rw [liveKeys_append_singleton, ← hsince hkeys]
              exact hcard
            · exact hiff.mp hkeys part hshort
          · intro hparts
            have hkeys := hiff.mpr fun part hpart =>
              hparts part (hpart.trans (List.prefix_append _ _))
            refine ⟨hkeys, ?_⟩
            rw [hsince hkeys, ← liveKeys_append_singleton]
            exact hparts _ (List.prefix_refl _)
  exact hboth.2

/-- A key that is there has a last use, and was not invalidated since. -/
theorem exists_use_of_mem_resident (hmem : key ∈ resident act n ops) :
    ∃ before op after, ops = before ++ op :: after ∧ act op = .use key ∧
      ∀ later ∈ after, (act later).Spares key := by
  induction ops using List.reverseRecOn with
  | nil => cases hmem
  | append_singleton ops op ih =>
      rw [resident_append_singleton] at hmem
      by_cases hop : act op = .use key
      · exact ⟨ops, op, [], rfl, hop, fun later hlater => absurd hlater List.not_mem_nil⟩
      · have hbefore : key ∈ resident act n ops ∧ (act op).Spares key := by
          cases hact : act op with
          | drop cleared =>
              rw [hact] at hmem
              simpa [Act.on, Act.Spares] using hmem
          | use other =>
              rw [hact] at hmem hop
              have hne : other ≠ key := fun heq => hop (heq ▸ rfl)
              have hcons := List.mem_cons.mp (List.mem_of_mem_take hmem)
              exact ⟨List.mem_of_mem_erase (hcons.resolve_left hne.symm), hne⟩
        rcases ih hbefore.1 with ⟨before, first, after, rfl, hfirst, hspares⟩
        refine ⟨before, first, after ++ [op], by simp, hfirst, fun later hlater => ?_⟩
        rcases List.mem_append.mp hlater with hafter | hlast
        · exact hspares later hafter
        · rw [List.mem_singleton.mp hlast]
          exact hbefore.2

/-- The stack-distance law with invalidation. -/
theorem mem_resident_iff_exists (hn : 0 < n) :
    key ∈ resident act n ops ↔
      ∃ before op after, ops = before ++ op :: after ∧ act op = .use key ∧
        (∀ later ∈ after, (act later).Spares key) ∧
          ∀ part, part <+: after → (liveKeys act part).card < n := by
  constructor
  · intro hmem
    rcases exists_use_of_mem_resident hmem with ⟨before, op, after, rfl, hop, hspares⟩
    exact ⟨before, op, after, rfl, hop, hspares, (mem_resident_iff hn hop hspares).mp hmem⟩
  · intro hex
    rcases hex with ⟨before, op, after, hops, hop, hspares, hlive⟩
    rw [hops]
    exact (mem_resident_iff hn hop hspares).mpr hlive

end Recency

/-! ## Stamped slots -/

namespace StampedSlots

variable {ι : Type u} {κ : Type v} {slots : Finset ι} {cell cell' : ι → Option κ}
  {stamp stamp' : ι → ℕ} {order : List ι}

/-- Emptying the slots of some keys takes these keys out of the list. -/
theorem clear (h : StampedSlots slots cell stamp order) (cleared : κ → Bool)
    (hcell : ∀ i ∈ slots, cell' i = (cell i).filter fun key => !cleared key)
    (hstamp : ∀ i ∈ slots, stamp' i = if (cell' i).isSome then stamp i else 0) :
    StampedSlots slots cell' stamp' (order.filter fun i => (cell' i).isSome) ∧
      (order.filter fun i => (cell' i).isSome).filterMap cell' =
        (order.filterMap cell).filter fun key => !cleared key := by
  have hsome : ∀ i ∈ slots, ∀ key, cell' i = some key → cell i = some key := by
    intro i hi key hkey
    rw [hcell i hi, Option.filter_eq_some_iff] at hkey
    exact hkey.1
  have hmem : ∀ i ∈ order, i ∈ slots := fun i hi => ((h.mem_iff i).mp hi).1
  refine ⟨⟨fun i => ?_, ?_, ?_, fun i hi => ?_⟩, ?_⟩
  · rw [List.mem_filter, h.mem_iff, Option.isSome_iff_ne_none]
    constructor
    · intro hex
      rcases hex with ⟨⟨hi, _⟩, hkept⟩
      exact ⟨hi, hkept⟩
    · intro hex
      rcases hex with ⟨hi, hkept⟩
      rcases Option.ne_none_iff_exists'.mp hkept with ⟨key, hkey⟩
      exact ⟨⟨hi, by simp [hsome i hi key hkey]⟩, hkept⟩
  · refine (h.sorted.filter _).imp_of_mem fun {newer older} hnewer holder hlt => ?_
    rcases List.mem_filter.mp hnewer with ⟨hnewer, hnewer'⟩
    rcases List.mem_filter.mp holder with ⟨holder, holder'⟩
    rw [hstamp newer (hmem newer hnewer), hstamp older (hmem older holder), if_pos hnewer',
      if_pos holder']
    exact hlt
  · intro i hi j hj key hikey hjkey
    exact h.unique i hi j hj key (hsome i hi key hikey) (hsome j hj key hjkey)
  · rw [hstamp i hi]
    cases hkey : cell' i with
    | none => simp
    | some key =>
        have hpos : stamp i ≠ 0 := by
          rw [Ne, h.empty_iff i hi, hsome i hi key hkey]
          simp
        simpa using hpos
  · rw [List.filterMap_filter, List.filter_filterMap]
    refine List.filterMap_congr fun i hi => ?_
    rw [hcell i (hmem i hi)]
    cases cell i with
    | none => rfl
    | some key => cases hkey : cleared key <;> simp [Option.filter, hkey]

end StampedSlots

end TlbAnalyzer.Math
