/-
# From the recordings to the results

The tracer and the simulator meet in a folder. The tracer names a file after the minute in
which it was switched on, `tlbsim_sim` picks the files of one TLB by their names, sorts them by
name and returns a list of results without names. Which result belongs to which recording can
only be told from the order: the fields of the time are written with two digits each, from the
month to the minute, so that the order of the names is the order of the recordings.
-/

import TlbAnalyzer.Simulator.Selection
import TlbAnalyzer.Tracer.Recordings

namespace TlbAnalyzer.Simulator

open Cache Math TraceFile
open Tracer (FileName Tm Globals Ready Recording runRecordings AllFiled TellsAll traceName twoDigits
  decimal refLimit references PteResult)

/-! ## The order of the names -/

/-- Times within a year are compared from the month to the minute. -/
def compareTm (tm tm' : Tm) : Ordering :=
  (compare tm.mon tm'.mon).then ((compare tm.mday tm'.mday).then
    ((compare tm.hour tm'.hour).then (compare tm.min tm'.min)))

theorem twoDigits_eq :
    ∀ n < 100, twoDigits n = [Nat.digitChar (n / 10), Nat.digitChar (n % 10)] := by
  decide +kernel

theorem compare_digitChar : ∀ a < 10, ∀ b < 10,
    compare (Nat.digitChar a) (Nat.digitChar b) = compare a b := by
  decide +kernel

/-- Numbers of two digits are compared as their texts are. -/
theorem strcmp_twoDigits {m n : ℕ} (hm : m < 100) (hn : n < 100) :
    strcmp (twoDigits m) (twoDigits n) = compare m n := by
  have htens : ∀ {k : ℕ}, k < 100 → k / 10 < 10 := fun hk => Nat.div_lt_of_lt_mul hk
  have hones : ∀ k, k % 10 < 10 := fun k => Nat.mod_lt k (by decide)
  have hsplit : compare m n = (compare (m / 10) (n / 10)).then (compare (m % 10) (n % 10)) := by
    rcases lt_trichotomy (m / 10) (n / 10) with hlt | heq | hgt
    · rw [Nat.compare_eq_lt.mpr hlt, Nat.compare_eq_lt.mpr (by omega)]
      rfl
    · rw [heq, Nat.compare_eq_eq.mpr rfl]
      show compare m n = compare (m % 10) (n % 10)
      rcases lt_trichotomy (m % 10) (n % 10) with hlt' | heq' | hgt'
      · rw [Nat.compare_eq_lt.mpr hlt', Nat.compare_eq_lt.mpr (by omega)]
      · rw [Nat.compare_eq_eq.mpr heq', Nat.compare_eq_eq.mpr (by omega)]
      · rw [Nat.compare_eq_gt.mpr hgt', Nat.compare_eq_gt.mpr (by omega)]
    · rw [Nat.compare_eq_gt.mpr hgt, Nat.compare_eq_gt.mpr (by omega)]
      rfl
  rw [twoDigits_eq m hm, twoDigits_eq n hn, strcmp, strcmp, strcmp,
    compare_digitChar _ (htens hm) _ (htens hn), compare_digitChar _ (hones m) _ (hones n), hsplit,
    Ordering.then_eq]

/-- The names of the traces of one tracer are in the order of their times. -/
theorem strcmp_traceName {tm tm' : Tm} (h : tm.InRange) (h' : tm'.InRange) (size way : ℕ) :
    strcmp (traceName tm size way) (traceName tm' size way) = compareTm tm tm' := by
  have hmon := h.mon_lt
  have hmon' := h'.mon_lt
  have hmday := h.mday_le
  have hmday' := h'.mday_le
  have hhour := h.hour_lt
  have hhour' := h'.hour_lt
  have hmin := h.min_lt
  have hmin' := h'.min_lt
  have hlength : ∀ {m n : ℕ}, m < 100 → n < 100 → (twoDigits m).length = (twoDigits n).length :=
    fun hm hn => (Tracer.length_twoDigits _ hm).trans (Tracer.length_twoDigits _ hn).symm
  have hsucc : compare (tm.mon + 1) (tm'.mon + 1) = compare tm.mon tm'.mon := by
    simp [Nat.compare_eq_ite_lt]
  simp only [traceName, List.append_assoc]
  rw [strcmp_append_left, strcmp_append (hlength (by omega) (by omega)),
    strcmp_append (hlength (by omega) (by omega)), strcmp_append_left,
    strcmp_append (hlength (by omega) (by omega)), strcmp_append (hlength (by omega) (by omega)),
    strcmp_self, strcmp_twoDigits (by omega) (by omega), strcmp_twoDigits (by omega) (by omega),
    strcmp_twoDigits (by omega) (by omega), strcmp_twoDigits (by omega) (by omega), hsucc,
    Ordering.then_eq, compareTm]

/-! ## The files of the recordings -/

theorem length_traceName_le {tm : Tm} (h : tm.InRange) {size way : ℕ} (hsize : size < 2 ^ 31)
    (hway : way < 2 ^ 31) : (traceName tm size way).length ≤ 37 := by
  have hmon := h.mon_lt
  have hmday := h.mday_le
  have hhour := h.hour_lt
  have hmin := h.min_lt
  have hten : ∀ {n : ℕ}, n < 2 ^ 31 → (decimal n).length ≤ 10 := by
    intro n hn
    exact (Nat.length_toDigits_le_iff (by decide) (by decide)).mpr (lt_trans hn (by decide))
  have hsize' := hten hsize
  have hway' := hten hway
  simp only [traceName, List.length_append, List.length_cons, List.length_nil,
    Tracer.length_twoDigits (tm.mon + 1) (by omega), Tracer.length_twoDigits tm.mday (by omega),
    Tracer.length_twoDigits tm.hour (by omega), Tracer.length_twoDigits tm.min (by omega)]
  omega

/-- Only the entries that pass the filter matter. -/
theorem listTraceFiles_filter (path : List Char) (tlbSize tlbWay : ℕ) (names : List FileName) :
    listTraceFiles path tlbSize tlbWay (some (names.filter (isTraceOf tlbSize tlbWay))) =
      listTraceFiles path tlbSize tlbWay (some names) := by
  rw [listTraceFiles, listTraceFiles, collect_eq path tlbSize tlbWay _ (by decide),
    collect_eq path tlbSize tlbWay _ (by decide), List.filter_filter]
  simp only [Bool.and_self]

variable {α : Type} {s s' : Globals α} {size way : ℕ}

section

variable {xs : List (Recording α)} (hrange : ∀ x ∈ xs, x.tm.InRange)
  (hsorted : xs.Pairwise fun x y => compareTm x.tm y.tm = .lt)

include hrange hsorted

theorem pairwise_names (size way : ℕ) :
    (xs.map fun x => traceName x.tm size way).Pairwise fun first second =>
      strcmp first second = .lt := by
  rw [List.pairwise_map]
  refine hsorted.imp_of_mem fun {x y} hx hy hlt => ?_
  rw [strcmp_traceName (hrange x hx) (hrange y hy), hlt]

theorem nodup_names (size way : ℕ) : (xs.map fun x => traceName x.tm size way).Nodup := by
  refine (pairwise_names hrange hsorted size way).imp fun {first second} hlt heq => ?_
  rw [heq, strcmp_self] at hlt
  cases hlt

theorem nodup_minutes : (xs.map Recording.tm).Nodup := by
  refine List.Nodup.of_map (fun tm => traceName tm 0 0) ?_
  rw [List.map_map]
  exact nodup_names hrange hsorted 0 0

/-- A folder that had no trace of the TLB lists the recordings in their order. -/
theorem listTraceFiles_recordings (hsize : size < 2 ^ 31) (hway : way < 2 ^ 31)
    (hcount : xs.length ≤ maxTraceFiles) {path : List Char} (hpath : path.length < 474)
    {names : List FileName} (hnodup : names.Nodup)
    (hnames : ∀ name, isTraceOf size way name = true →
      (name ∈ names ↔ ∃ x ∈ xs, traceName x.tm size way = name)) :
    listTraceFiles path size way (some names) =
      xs.map fun x => path ++ '/' :: traceName x.tm size way := by
  have hpasses : ∀ name ∈ xs.map fun x => traceName x.tm size way,
      isTraceOf size way name = true := by
    intro name hname
    rcases List.mem_map.mp hname with ⟨x, _, rfl⟩
    exact (isTraceOf_traceName_iff hsize hway x.tm size way).mpr ⟨rfl, List.prefix_refl _⟩
  have hperm : (names.filter (isTraceOf size way)).Perm
      (xs.map fun x => traceName x.tm size way) := by
    rw [List.perm_ext_iff_of_nodup (hnodup.filter _) (nodup_names hrange hsorted size way)]
    intro name
    rw [List.mem_filter, List.mem_map]
    constructor
    · intro hex
      rcases hex with ⟨hmem, hpass⟩
      exact (hnames name hpass).mp hmem
    · intro hname
      have hpass := hpasses name (List.mem_map.mpr hname)
      exact ⟨(hnames name hpass).mpr hname, hpass⟩
  have hshort : ∀ name ∈ xs.map fun x => traceName x.tm size way,
      (path ++ '/' :: name).length < 512 := by
    intro name hname
    rcases List.mem_map.mp hname with ⟨x, hx, rfl⟩
    have hlength := length_traceName_le (hrange x hx) hsize hway
    rw [List.length_append, List.length_cons]
    omega
  have hall := List.filter_eq_self.mpr hpasses
  have hlist : (xs.map fun x => traceName x.tm size way).Pairwise NameLE :=
    (pairwise_names hrange hsorted size way).imp fun {first second} hlt => by
      rw [NameLE, hlt]
      rfl
  rw [← listTraceFiles_filter, listTraceFiles_eq hperm hshort (by rwa [hall, List.length_map]),
    hall, hlist.insertionSort_eq, List.map_map]
  refine List.map_congr_left fun x hx => ?_
  exact tracePath_eq (hshort _ (List.mem_map.mpr ⟨x, hx, rfl⟩))

end

/-! ## The results -/

section

variable (hway : 1 ≤ way) (hle : way ≤ size) (hsize : size < 2 ^ 31) (hready : Ready s size way)
  (hset : s.tlbSet = way) (hstarted : s.started = false)
  (hret : ∀ arg addr, (s.myPteHelper arg addr).ret.toNat < 16) {xs : List (Recording α)}
  (hrange : ∀ x ∈ xs, x.tm.InRange) (hsorted : xs.Pairwise fun x y => compareTm x.tm y.tm = .lt)
  (hcount : xs.length ≤ 128)
  (hfolder : ∀ name, isTraceOf size way name = true → s.files name = none) {path : List Char}
  (hpath : path.length < 474)

include hway hle hsize hready hset hstarted hret hrange hsorted hcount hfolder hpath

/-- What the recordings leave in a folder that had no trace of this TLB: each file tells all of
its recording, and a listing of the folder has them in the order of the recordings. -/
theorem recordings_listed :
    Ensures (runRecordings xs) s fun _ s' =>
      (∀ x ∈ xs, TellsAll s.myPteHelper (traceName x.tm size way) x.ops s') ∧
      ∀ names : List FileName, names.Nodup → (∀ name, name ∈ names ↔ s'.files name ≠ none) →
        listTraceFiles path size way (some names) =
          xs.map fun x => path ++ '/' :: traceName x.tm size way := by
  have hname : ∀ x : Recording α, x.name s = traceName x.tm size way := by
    intro x
    rw [Recording.name, hready.entries_eq, hset]
  refine (Tracer.runRecordings_ensures hway hle xs hrange (nodup_minutes hrange hsorted) hready
    hstarted hret).mono fun _ s' hs' => ?_
  have htells : ∀ x ∈ xs, TellsAll s.myPteHelper (traceName x.tm size way) x.ops s' := by
    intro x hx
    rw [← hname x]
    exact hs'.tells x hx
  refine ⟨htells, fun names hnodup hnames => ?_⟩
  refine listTraceFiles_recordings hrange hsorted hsize (hle.trans_lt hsize) hcount hpath hnodup ?_
  intro name hpass
  rw [hnames]
  constructor
  · intro hsome
    by_contra hnone
    have hother : ∀ x ∈ xs, x.name s ≠ name := fun x hx heq =>
      hnone ⟨x, hx, hname x ▸ heq⟩
    exact hsome ((hs'.others name hother).trans (hfolder name hpass))
  · rintro ⟨x, hx, rfl⟩
    rcases htells x hx with ⟨bytes, _, hbytes, -⟩
    rw [hbytes]
    exact Option.some_ne_none _

end

/-- Two recordings of one morning, the second one an hour later. -/
def sampleRecordings : List (Recording Unit) :=
  [⟨Tracer.sampleTm, fun _ => 0#32, Tracer.sampleOps⟩,
    ⟨{ Tracer.sampleTm with hour := 10 }, fun _ => 0#32, []⟩]

theorem sampleRecordings_inRange : ∀ x ∈ sampleRecordings, x.tm.InRange := by
  rw [sampleRecordings, List.forall_mem_cons, List.forall_mem_singleton]
  exact ⟨⟨by decide, by decide, by decide, by decide⟩, ⟨by decide, by decide, by decide, by decide⟩⟩

theorem sampleRecordings_sorted :
    sampleRecordings.Pairwise fun x y => compareTm x.tm y.tm = .lt := by
  rw [sampleRecordings, List.pairwise_pair]
  decide

theorem sampleRecordings_short : ∀ x ∈ sampleRecordings, (references x.ops).length < refLimit := by
  rw [sampleRecordings, List.forall_mem_cons, List.forall_mem_singleton]
  exact ⟨by decide, by decide⟩

/-- A tracer that is off, with an empty folder. -/
def sampleOff : Globals Unit := { Tracer.sampleTracer 4 2 with started := false }

theorem sampleOff_ready : Ready sampleOff 4 2 := ⟨rfl, rfl⟩

theorem sampleOff_ret (arg : Unit) (addr : BitVec 32) :
    (sampleOff.myPteHelper arg addr).ret.toNat < 16 :=
  (by decide : (3#32).toNat < 16)

/-- A directory with the files in the reverse order. -/
def sampleNames : List FileName := sampleRecordings.reverse.map fun x => traceName x.tm 4 2

theorem sampleNames_nodup : sampleNames.Nodup := by
  rw [sampleNames, List.map_reverse, List.nodup_reverse]
  exact nodup_names sampleRecordings_inRange sampleRecordings_sorted 4 2

/-- It is what the recordings leave. -/
theorem mem_sampleNames_iff {s' : Globals Unit}
    (hrun : (runRecordings sampleRecordings).run sampleOff = .ok ((), s')) (name : FileName) :
    name ∈ sampleNames ↔ s'.files name ≠ none := by
  have hminutes := nodup_minutes sampleRecordings_inRange sampleRecordings_sorted
  have hfiled := Tracer.runRecordings_ensures (by decide) (by decide) sampleRecordings
    sampleRecordings_inRange hminutes sampleOff_ready rfl sampleOff_ret _ s' hrun
  rw [sampleNames, List.map_reverse, List.mem_reverse]
  exact hfiled.mem_map_name_iff (fun _ => rfl) name

end TlbAnalyzer.Simulator
