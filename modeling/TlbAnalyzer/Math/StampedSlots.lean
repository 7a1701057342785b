/-
# Stamped slots realise a recency list

A replacement policy is usually implemented without any list: each slot holds a
key and the time of its last use, an empty slot carries stamp zero, and the
victim is a slot of least stamp. This module says which recency list such a set
of slots stands for and proves that writing one slot is one `touch` of that
list, whether the slot already held the key or is a victim being refilled.

The order in which the slots were used is kept as an explicit list, because the
list is determined by the stamps and every argument is an argument about it.
-/

import Mathlib.Data.Finset.Card
import TlbAnalyzer.Math.Recency

namespace TlbAnalyzer.Math

universe u v

variable {ι : Type u} {κ : Type v}

/-- `order` lists the occupied slots from the most to the least recently
stamped one, no key occupies two slots, and stamp zero marks an empty slot. -/
structure StampedSlots (slots : Finset ι) (cell : ι → Option κ) (stamp : ι → ℕ)
    (order : List ι) : Prop where
  mem_iff : ∀ i, i ∈ order ↔ i ∈ slots ∧ cell i ≠ none
  sorted : order.Pairwise fun newer older => stamp older < stamp newer
  unique : ∀ i ∈ slots, ∀ j ∈ slots, ∀ key, cell i = some key → cell j = some key → i = j
  empty_iff : ∀ i ∈ slots, stamp i = 0 ↔ cell i = none

namespace StampedSlots

variable {slots : Finset ι} {cell : ι → Option κ} {stamp : ι → ℕ} {order : List ι}

theorem nodup (h : StampedSlots slots cell stamp order) : order.Nodup :=
  h.sorted.imp fun hlt heq => absurd (heq ▸ hlt) (Nat.lt_irrefl _)

/-- The recency list holds exactly the keys found in the slots. -/
theorem mem_keys_iff (h : StampedSlots slots cell stamp order) (key : κ) :
    key ∈ order.filterMap cell ↔ ∃ i ∈ slots, cell i = some key := by
  rw [List.mem_filterMap]
  constructor
  · rintro ⟨i, hi, hkey⟩
    exact ⟨i, ((h.mem_iff i).mp hi).1, hkey⟩
  · rintro ⟨i, hi, hkey⟩
    exact ⟨i, (h.mem_iff i).mpr ⟨hi, by simp [hkey]⟩, hkey⟩

theorem length_order_le [DecidableEq ι] (h : StampedSlots slots cell stamp order) :
    order.length ≤ slots.card := by
  rw [← List.toFinset_card_of_nodup h.nodup]
  refine Finset.card_le_card fun i hi => ?_
  exact ((h.mem_iff i).mp (List.mem_toFinset.mp hi)).1

/-- When every slot is occupied, every slot is in the order. -/
theorem length_order_of_full [DecidableEq ι] (h : StampedSlots slots cell stamp order)
    (hfull : ∀ i ∈ slots, cell i ≠ none) : order.length = slots.card := by
  rw [← List.toFinset_card_of_nodup h.nodup]
  congr 1
  ext i
  rw [List.mem_toFinset, h.mem_iff]
  exact and_iff_left_of_imp (hfull i)

/-- An occupied slot of least stamp is the last one of the order. -/
theorem exists_order_eq_of_least (h : StampedSlots slots cell stamp order) {slot : ι}
    (hmem : slot ∈ order) (hleast : ∀ i ∈ slots, stamp slot ≤ stamp i) :
    ∃ newer, order = newer ++ [slot] ∧ slot ∉ newer := by
  obtain ⟨newer, older, horder, hnewer⟩ := List.eq_append_cons_of_mem hmem
  have holder : older = [] := by
    rw [List.eq_nil_iff_forall_not_mem]
    intro i hi
    have hsorted := h.sorted
    rw [horder, List.pairwise_append, List.pairwise_cons] at hsorted
    have hlt := hsorted.2.1.1 i hi
    have hle := hleast i ((h.mem_iff i).mp (by simp [horder, hi])).1
    omega
  exact ⟨newer, holder ▸ horder, hnewer⟩

/-- Only the contents of the slots themselves matter. -/
theorem congr (h : StampedSlots slots cell stamp order) {cell' : ι → Option κ}
    {stamp' : ι → ℕ} (hcell : ∀ i ∈ slots, cell' i = cell i)
    (hstamp : ∀ i ∈ slots, stamp' i = stamp i) :
    StampedSlots slots cell' stamp' order ∧
      order.filterMap cell' = order.filterMap cell := by
  have hmem : ∀ i ∈ order, i ∈ slots := fun i hi => ((h.mem_iff i).mp hi).1
  refine ⟨⟨fun i => ?_, ?_, ?_, ?_⟩, ?_⟩
  · rw [h.mem_iff i]
    exact and_congr_right fun hi => by rw [hcell i hi]
  · refine h.sorted.imp_of_mem fun {newer older} hnewer holder hlt => ?_
    rw [hstamp newer (hmem newer hnewer), hstamp older (hmem older holder)]
    exact hlt
  · intro i hi j hj key hikey hjkey
    rw [hcell i hi] at hikey
    rw [hcell j hj] at hjkey
    exact h.unique i hi j hj key hikey hjkey
  · intro i hi
    rw [hstamp i hi, hcell i hi]
    exact h.empty_iff i hi
  · exact List.filterMap_congr fun i hi => hcell i (hmem i hi)

/-- Untouched slots are empty ones, and stand for the empty list. -/
theorem of_empty (hcell : ∀ i ∈ slots, cell i = none) (hstamp : ∀ i ∈ slots, stamp i = 0) :
    StampedSlots slots cell stamp [] where
  mem_iff i := by
    simp only [List.not_mem_nil, false_iff, not_and, not_not]
    exact hcell i
  sorted := List.Pairwise.nil
  unique i hi j _ key hikey _ := by simp [hcell i hi] at hikey
  empty_iff i hi := by simp [hcell i hi, hstamp i hi]

variable [DecidableEq ι]

/-- A write outside the slots changes nothing. -/
theorem write_outside (h : StampedSlots slots cell stamp order) {slot : ι} (hslot : slot ∉ slots)
    (content : Option κ) (now : ℕ) :
    StampedSlots slots (Function.update cell slot content) (Function.update stamp slot now) order ∧
      order.filterMap (Function.update cell slot content) = order.filterMap cell := by
  have hne : ∀ i ∈ slots, i ≠ slot := fun i hi heq => hslot (heq ▸ hi)
  exact h.congr (fun i hi => Function.update_of_ne (hne i hi) _ _)
    (fun i hi => Function.update_of_ne (hne i hi) _ _)

/-- Writing a key into one slot at a later time makes that slot the newest. The
slot may have held the key already; no other slot may. -/
theorem write (h : StampedSlots slots cell stamp order) {slot : ι} (hslot : slot ∈ slots)
    {key : κ} (hother : ∀ i ∈ slots, cell i = some key → i = slot)
    {now : ℕ} (hnow : ∀ i ∈ slots, stamp i < now) :
    StampedSlots slots (Function.update cell slot (some key))
      (Function.update stamp slot now) (slot :: order.erase slot) where
  mem_iff i := by
    rw [List.mem_cons, h.nodup.mem_erase_iff, h.mem_iff]
    by_cases hi : i = slot
    · subst hi
      simp [hslot]
    · simp [hi]
  sorted := by
    rw [List.pairwise_cons]
    constructor
    · intro older holder
      have hne := (h.nodup.mem_erase_iff.mp holder).1
      have hmem := ((h.mem_iff older).mp (List.mem_of_mem_erase holder)).1
      rw [Function.update_self, Function.update_of_ne hne]
      exact hnow older hmem
    · refine (h.sorted.erase slot).imp_of_mem fun {newer older} hnewer holder hlt => ?_
      rw [Function.update_of_ne (h.nodup.mem_erase_iff.mp hnewer).1,
        Function.update_of_ne (h.nodup.mem_erase_iff.mp holder).1]
      exact hlt
  unique i hi j hj found hikey hjkey := by
    rw [Function.update_apply] at hikey hjkey
    split_ifs at hikey hjkey with hislot hjslot hjslot
    · rw [hislot, hjslot]
    · rw [hislot, hother j hj (by rw [hjkey, hikey])]
    · rw [hjslot, hother i hi (by rw [hikey, hjkey])]
    · exact h.unique i hi j hj found hikey hjkey
  empty_iff i hi := by
    have hpos := hnow i hi
    by_cases his : i = slot
    · subst his
      simp only [Function.update_self, reduceCtorEq, iff_false]
      omega
    · rw [Function.update_of_ne his, Function.update_of_ne his]
      exact h.empty_iff i hi

/-- The keys after a write: the written key, then the keys of the other slots
in their old order. -/
theorem filterMap_write (h : StampedSlots slots cell stamp order) (slot : ι) (key : κ) :
    (slot :: order.erase slot).filterMap (Function.update cell slot (some key)) =
      key :: (order.erase slot).filterMap cell := by
  rw [List.filterMap_cons_some (Function.update_self slot (some key) cell)]
  congr 1
  refine List.filterMap_congr fun i hi => ?_
  exact Function.update_of_ne (h.nodup.mem_erase_iff.mp hi).1 _ _

variable [DecidableEq κ]

/-- Restamping the slot that holds the key moves the key to the front. -/
theorem keys_of_hit (h : StampedSlots slots cell stamp order) {slot : ι}
    (hslot : slot ∈ slots) {key : κ} (hkey : cell slot = some key)
    {now : ℕ} (hnow : ∀ i ∈ slots, stamp i < now) :
    (slot :: order.erase slot).filterMap (Function.update cell slot (some key)) =
      Recency.touch slots.card key (order.filterMap cell) := by
  have hother : ∀ i ∈ slots, cell i = some key → i = slot := fun i hi hi' =>
    h.unique i hi slot hslot key hi' hkey
  have hwritten := h.write hslot hother hnow
  have hfits := Nat.le_trans (List.length_filterMap_le (Function.update cell slot (some key)) _)
    hwritten.length_order_le
  obtain ⟨newer, older, horder, hnewer⟩ :=
    List.eq_append_cons_of_mem ((h.mem_iff slot).mpr ⟨hslot, by simp [hkey]⟩)
  have hnewerKeys : key ∉ newer.filterMap cell := by
    intro hmem
    obtain ⟨i, hi, hikey⟩ := List.mem_filterMap.mp hmem
    have hislots : i ∈ slots := ((h.mem_iff i).mp (by simp [horder, hi])).1
    exact hnewer (hother i hislots hikey ▸ hi)
  rw [h.filterMap_write] at hfits ⊢
  rw [Recency.touch, ← List.take_of_length_le hfits]
  congr 2
  rw [horder, List.erase_append_right _ hnewer, List.erase_cons_head, List.filterMap_append,
    List.filterMap_append, List.filterMap_cons_some hkey,
    List.erase_append_right _ hnewerKeys, List.erase_cons_head]

/-- Refilling a slot of least stamp with a key that no slot holds puts the key
in front and, when every slot was occupied, drops the least recent one. -/
theorem keys_of_refill (h : StampedSlots slots cell stamp order) {slot : ι}
    (hslot : slot ∈ slots) (hleast : ∀ i ∈ slots, stamp slot ≤ stamp i)
    {key : κ} (habsent : ∀ i ∈ slots, cell i ≠ some key)
    {now : ℕ} (hnow : ∀ i ∈ slots, stamp i < now) :
    (slot :: order.erase slot).filterMap (Function.update cell slot (some key)) =
      Recency.touch slots.card key (order.filterMap cell) := by
  have hnotmem : key ∉ order.filterMap cell := fun hmem => by
    obtain ⟨i, hi, hikey⟩ := (h.mem_keys_iff key).mp hmem
    exact habsent i hi hikey
  rw [h.filterMap_write, Recency.touch, List.erase_of_not_mem hnotmem]
  by_cases hempty : cell slot = none
  · -- an empty slot is taken: nothing is forgotten
    have hfresh : slot ∉ order := fun hmem => ((h.mem_iff slot).mp hmem).2 hempty
    have hwritten := h.write hslot (fun i hi hi' => absurd hi' (habsent i hi)) hnow
    have hfits := hwritten.length_order_le
    rw [List.erase_of_not_mem hfresh] at hfits ⊢
    rw [List.take_of_length_le]
    have := List.length_filterMap_le cell order
    simp only [List.length_cons] at hfits ⊢
    omega
  · -- every slot is occupied, and the victim is the last one of the order
    have hfull : ∀ i ∈ slots, cell i ≠ none := fun i hi hnone => by
      have hzero := (h.empty_iff i hi).mpr hnone
      have := hleast i hi
      exact hempty ((h.empty_iff slot hslot).mp (by omega))
    have hcard := h.length_order_of_full hfull
    obtain ⟨newer, horder, hnewer⟩ :=
      h.exists_order_eq_of_least ((h.mem_iff slot).mpr ⟨hslot, hempty⟩) hleast
    have hlength : (newer.filterMap cell).length = newer.length :=
      List.filterMap_length_eq_length.mpr fun i hi =>
        Option.isSome_iff_ne_none.mpr ((h.mem_iff i).mp (by simp [horder, hi])).2
    rw [← hcard, horder, List.erase_append_right _ hnewer, List.erase_cons_head,
      List.append_nil, List.length_append, List.length_singleton, List.take_succ_cons,
      List.filterMap_append, ← hlength, List.take_left]

end StampedSlots

end TlbAnalyzer.Math
