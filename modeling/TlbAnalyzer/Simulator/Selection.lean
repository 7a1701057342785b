/-
# Which traces a folder simulation takes

The tracer writes the size and associativity of its TLB at the end of a trace's
file name, and the simulator searches for the same text to find the traces of a
TLB. The search is for a substring, so nothing marks the end of the number: the
text for associativity 1 is found in the names for 16 as well.

The files it finds are put in an array of 128 entries, in the order of the
directory, and only then sorted. Up to 128 files the order of the directory does
not matter and every file is simulated.
-/

import TlbAnalyzer.Simulator.Independence

namespace TlbAnalyzer.Simulator

open Cache Math
open Tracer (FileName Tm decimal twoDigits traceName)

/-! ## Numbers in file names -/

theorem isDigit_of_mem_decimal {n : ℕ} {c : Char} (h : c ∈ decimal n) : c.isDigit = true :=
  Nat.isDigit_of_mem_toDigits (by decide) (by decide) h

theorem isDigit_of_mem_twoDigits {n : ℕ} {c : Char} (h : c ∈ twoDigits n) : c.isDigit = true := by
  rw [twoDigits, List.leftpad, List.mem_append] at h
  rcases h with hpad | hdigit
  · rw [List.eq_of_mem_replicate hpad]
    rfl
  · exact isDigit_of_mem_decimal hdigit

theorem decimal_injective : Function.Injective decimal := by
  intro m n h
  rw [← Nat.ofDigitChars_ten_toDigits (n := m), ← Nat.ofDigitChars_ten_toDigits (n := n)]
  exact congrArg (fun digits => Nat.ofDigitChars 10 digits 0) h

/-- A number starts the text of another exactly when it is the other without some
of its last digits. -/
theorem decimal_prefix_iff {m : ℕ} (hm : 0 < m) (n : ℕ) :
    decimal m <+: decimal n ↔ ∃ k, m = n / 10 ^ k := by
  induction n using Nat.strong_induction_on with
  | _ n ih =>
      by_cases hn : n < 10
      · -- one digit: nothing shorter is a number
        have hone : decimal n = [n.digitChar] := Nat.toDigits_of_lt_base hn
        have hcons : decimal m <+: [] ++ [n.digitChar] ↔ _ := List.prefix_concat_iff
        rw [List.nil_append, ← hone, List.prefix_nil] at hcons
        rw [hcons]
        constructor
        · intro h
          rcases h with heq | hnil
          · exact ⟨0, by simpa using decimal_injective heq⟩
          · exact absurd hnil Nat.toDigits_ne_nil
        · rintro ⟨k, hk⟩
          cases k with
          | zero => exact Or.inl (by rw [hk, pow_zero, Nat.div_one])
          | succ k =>
              have hlt : n < 10 ^ (k + 1) := lt_of_lt_of_le hn (Nat.le_self_pow (by omega) 10)
              rw [Nat.div_eq_of_lt hlt] at hk
              omega
      · have hsplit : decimal n = decimal (n / 10) ++ [(n % 10).digitChar] := by
          rw [decimal, Nat.toDigits_eq_if (by decide), if_neg hn]
          rfl
        have hconcat : decimal m <+: decimal (n / 10) ++ [(n % 10).digitChar] ↔ _ :=
          List.prefix_concat_iff
        rw [← hsplit, ih (n / 10) (by omega)] at hconcat
        rw [hconcat]
        constructor
        · intro h
          rcases h with heq | ⟨k, hk⟩
          · exact ⟨0, by simpa using decimal_injective heq⟩
          · exact ⟨k + 1, by rw [hk, Nat.div_div_eq_div_mul, pow_succ, mul_comm]⟩
        · rintro ⟨k, hk⟩
          cases k with
          | zero => exact Or.inl (by rw [hk, pow_zero, Nat.div_one])
          | succ k => exact Or.inr ⟨k, by rw [hk, Nat.div_div_eq_div_mul, pow_succ, mul_comm]⟩

/-- Digits that end with a sign can only start a text whose digits are the same and
end with the same sign. -/
theorem digits_append_prefix_iff {xs ys : List Char} (hxs : ∀ c ∈ xs, c.isDigit = true)
    (hys : ∀ c ∈ ys, c.isDigit = true) {a b : Char} (ha : a.isDigit = false)
    (hb : b.isDigit = false) (rest rest' : List Char) :
    xs ++ a :: rest <+: ys ++ b :: rest' ↔ xs = ys ∧ a = b ∧ rest <+: rest' := by
  induction xs generalizing ys with
  | nil =>
      cases ys with
      | nil => simp [List.cons_prefix_cons]
      | cons y ys =>
          have hy := hys y List.mem_cons_self
          have hne : a ≠ y := fun h => by rw [h, hy] at ha; exact absurd ha (by decide)
          simp [List.cons_prefix_cons, hne]
  | cons x xs ih =>
      rw [List.forall_mem_cons] at hxs
      cases ys with
      | nil =>
          have hne : x ≠ b := fun h => by rw [← h, hxs.1] at hb; exact absurd hb (by decide)
          simp [List.cons_prefix_cons, hne]
      | cons y ys =>
          rw [List.forall_mem_cons] at hys
          rw [List.cons_append, List.cons_append, List.cons_prefix_cons, ih hxs.2 hys.2,
            List.cons.injEq, and_assoc]

/-! ## The search for the suffix -/

/-- A text that starts with an underscore is not found in front of the next one. -/
theorem strstr_append_of_not_mem (needle : List Char) {xs : List Char} (h : '_' ∉ xs)
    (rest : List Char) : strstr ('_' :: needle) (xs ++ rest) = strstr ('_' :: needle) rest := by
  induction xs with
  | nil => rfl
  | cons x xs ih =>
      rw [List.mem_cons, not_or] at h
      rw [List.cons_append, strstr, ih h.2, List.isPrefixOf_cons_cons, beq_eq_false_iff_ne.mpr h.1]
      simp

theorem strstr_of_not_mem (needle : List Char) {xs : List Char} (h : '_' ∉ xs) :
    strstr ('_' :: needle) xs = false := by
  rw [← xs.append_nil, strstr_append_of_not_mem needle h]
  rfl

/-- At an underscore the text is found, or it is found later. -/
theorem strstr_cons_iff (needle rest : List Char) :
    strstr ('_' :: needle) ('_' :: rest) = true ↔
      needle <+: rest ∨ strstr ('_' :: needle) rest = true := by
  rw [strstr, Bool.or_eq_true, List.isPrefixOf_iff_prefix, List.cons_prefix_cons]
  simp

theorem not_mem_of_digits {xs : List Char} (h : ∀ c ∈ xs, c.isDigit = true) : '_' ∉ xs :=
  fun hmem => absurd (h '_' hmem) (by decide)

/-- The buffer for the suffix holds every two numbers of type `int`. -/
theorem traceSuffix_eq {tlbSize tlbWay : ℕ} (hsize : tlbSize < 2 ^ 31) (hway : tlbWay < 2 ^ 31) :
    traceSuffix tlbSize tlbWay = '_' :: (decimal tlbSize ++ '.' :: decimal tlbWay) := by
  have hten : ∀ {n : ℕ}, n < 2 ^ 31 → (decimal n).length ≤ 10 := by
    intro n hn
    exact (Nat.length_toDigits_le_iff (by decide) (by decide)).mpr (lt_trans hn (by decide))
  have hsize' := hten hsize
  have hway' := hten hway
  apply List.take_of_length_le
  simp only [List.length_append, List.length_cons]
  omega

/-- A trace's name has three underscores. What follows the first two are digits up to
the next underscore, so a size and an associativity can only be found after the
last. -/
theorem strstr_traceName_iff (size way : ℕ) (tm : Tm) (size₂ way₂ : ℕ) :
    strstr ('_' :: (decimal size ++ '.' :: decimal way)) (traceName tm size₂ way₂) = true ↔
      decimal size ++ '.' :: decimal way <+: decimal size₂ ++ '.' :: decimal way₂ := by
  set needle := decimal size ++ '.' :: decimal way
  have hdigits : ∀ m n : ℕ, ∀ c ∈ twoDigits m ++ twoDigits n, c.isDigit = true := by
    intro m n c hmem
    rcases List.mem_append.mp hmem with h | h
    · exact isDigit_of_mem_twoDigits h
    · exact isDigit_of_mem_twoDigits h
  have hskip : ∀ (m n : ℕ) (rest : List Char),
      strstr ('_' :: needle) ('_' :: (twoDigits m ++ twoDigits n ++ '_' :: rest)) =
        strstr ('_' :: needle) ('_' :: rest) := by
    intro m n rest
    rw [Bool.eq_iff_iff, strstr_cons_iff, digits_append_prefix_iff
      (fun c => isDigit_of_mem_decimal) (hdigits m n) (by decide) (by decide),
      strstr_append_of_not_mem needle (not_mem_of_digits (hdigits m n))]
    simp
  have hlast : strstr ('_' :: needle) (decimal size₂ ++ '.' :: decimal way₂) = false := by
    apply strstr_of_not_mem
    intro hmem
    rcases List.mem_append.mp hmem with h | h
    · exact not_mem_of_digits (fun c => isDigit_of_mem_decimal) h
    · rcases List.mem_cons.mp h with h | h
      · exact absurd h (by decide)
      · exact not_mem_of_digits (fun c => isDigit_of_mem_decimal) h
  have hname : traceName tm size₂ way₂ = ['t', 'r', 'a', 'c', 'e'] ++
      '_' :: (twoDigits (tm.mon + 1) ++ twoDigits tm.mday ++
        '_' :: (twoDigits tm.hour ++ twoDigits tm.min ++
          '_' :: (decimal size₂ ++ '.' :: decimal way₂))) := by
    simp [traceName]
  rw [hname, strstr_append_of_not_mem needle (by decide), hskip, hskip, strstr_cons_iff, hlast]
  simp

/-- The filter finds the size exactly, but of the associativity only the first
digits. -/
theorem isTraceOf_traceName_iff {size way : ℕ} (hsize : size < 2 ^ 31) (hway : way < 2 ^ 31)
    (tm : Tm) (size₂ way₂ : ℕ) :
    isTraceOf size way (traceName tm size₂ way₂) = true ↔
      size = size₂ ∧ decimal way <+: decimal way₂ := by
  have hstarts : ['t', 'r', 'a', 'c', 'e', '_'].isPrefixOf (traceName tm size₂ way₂) = true := by
    simp [traceName]
  rw [isTraceOf, Bool.and_eq_true, traceSuffix_eq hsize hway, strstr_traceName_iff,
    digits_append_prefix_iff (fun c => isDigit_of_mem_decimal) (fun c => isDigit_of_mem_decimal)
      (by decide) (by decide), decimal_injective.eq_iff]
  simp [hstarts]

/-- The filter selects the traces of the requested TLB and no others, except that
it also takes a trace of a TLB of the same size whose associativity is the
requested one followed by more digits. -/
theorem isTraceOf_exact_iff {size way : ℕ} (hsize : size < 2 ^ 31) (hway : way < 2 ^ 31)
    (hpos : 0 < way) (tm : Tm) (size₂ way₂ : ℕ) :
    (isTraceOf size way (traceName tm size₂ way₂) = true ↔ size = size₂ ∧ way = way₂) ↔
      ¬ (size = size₂ ∧ ∃ k, way = way₂ / 10 ^ (k + 1)) := by
  rw [isTraceOf_traceName_iff hsize hway, decimal_prefix_iff hpos]
  constructor
  · rintro hexact ⟨rfl, k, hk⟩
    have heq : way = way₂ := (hexact.mp ⟨rfl, k + 1, hk⟩).2
    have hlt : way₂ / 10 ^ (k + 1) < way₂ :=
      Nat.div_lt_self (heq ▸ hpos) (Nat.one_lt_pow (by omega) (by decide))
    omega
  · intro hno
    constructor
    · rintro ⟨hsizes, k, hk⟩
      cases k with
      | zero => exact ⟨hsizes, by simpa using hk⟩
      | succ k => exact absurd ⟨hsizes, k, hk⟩ hno
    · rintro ⟨hsizes, hways⟩
      exact ⟨hsizes, 0, by simpa using hways⟩

/-- A trace of a TLB with 64 entries and 4 ways is selected for these numbers. -/
theorem isTraceOf_exact_iff_sample :
    isTraceOf 64 4 (traceName ⟨2, 14, 9, 26⟩ 64 4) = true ↔ 64 = 64 ∧ 4 = 4 := by
  apply (isTraceOf_exact_iff (by decide) (by decide) (by decide) _ 64 4).mpr
  rintro ⟨-, k, hk⟩
  rw [Nat.div_eq_of_lt (lt_of_lt_of_le (by decide) (Nat.le_self_pow (by omega) 10))] at hk
  exact absurd hk (by decide)

/-- A trace made for 64 entries and 16 ways passes the filter for 64 entries and
one way. -/
theorem isTraceOf_sixteenWay :
    ¬ (isTraceOf 64 1 (traceName ⟨2, 14, 9, 26⟩ 64 16) = true ↔ 64 = 64 ∧ 1 = 16) := by
  decide

/-! ## The order of the files -/

/-- `strcmp` is the lexicographic order. -/
theorem strcmp_eq_compare (first second : List Char) :
    strcmp first second = compare first second := by
  induction first generalizing second with
  | nil =>
      cases second with
      | nil => rfl
      | cons b second => rfl
  | cons a first ih =>
      cases second with
      | nil => rfl
      | cons b second => rw [strcmp, List.compare_cons_cons, ih]

theorem strcmp_self (text : List Char) : strcmp text text = .eq := by
  rw [strcmp_eq_compare]
  exact Std.ReflOrd.compare_self

/-- Texts that begin with parts of one length are compared part by part. -/
theorem strcmp_append {first first' : List Char} (h : first.length = first'.length)
    (second second' : List Char) :
    strcmp (first ++ second) (first' ++ second') =
      (strcmp first first').then (strcmp second second') := by
  induction first generalizing first' with
  | nil =>
      cases first' with
      | nil => rfl
      | cons b first' => cases h
  | cons a first ih =>
      cases first' with
      | nil => cases h
      | cons b first' =>
          rw [List.cons_append, List.cons_append, strcmp, strcmp, ih (Nat.succ.inj h)]
          cases compare a b <;> rfl

theorem strcmp_append_left (path first second : List Char) :
    strcmp (path ++ first) (path ++ second) = strcmp first second := by
  rw [strcmp_append rfl, strcmp_self]
  rfl

/-- The order `qsort` sorts by. -/
abbrev NameLE (first second : FileName) : Prop := (strcmp first second).isLE = true

instance : IsTrans FileName NameLE where
  trans first second third h h' := by
    rw [NameLE, strcmp_eq_compare] at h h' ⊢
    exact Std.TransCmp.isLE_trans h h'

instance : Std.Total NameLE where
  total first second := by
    rw [NameLE, NameLE, strcmp_eq_compare, strcmp_eq_compare,
      Std.OrientedOrd.eq_swap (a := second)]
    cases compare first second <;> decide

theorem NameLE.antisymm {first second : FileName} (h : NameLE first second)
    (h' : NameLE second first) : first = second := by
  rw [NameLE, strcmp_eq_compare] at h h'
  exact Std.LawfulEqCmp.eq_of_compare (Std.OrientedCmp.isLE_antisymm h h')

/-- Sorted names do not depend on the order they came in. -/
theorem insertionSort_eq_of_perm {names names' : List FileName} (h : names'.Perm names) :
    names'.insertionSort NameLE = names.insertionSort NameLE := by
  apply List.Perm.eq_of_pairwise (fun _ _ _ _ => NameLE.antisymm)
    (List.pairwise_insertionSort NameLE names') (List.pairwise_insertionSort NameLE names)
  exact (List.perm_insertionSort NameLE names').trans (h.trans (List.perm_insertionSort _ _).symm)

/-! ## The files of a folder -/

/-- The loop takes the first entries that pass the filter, until the array is full. -/
theorem collect_eq (path : List Char) (tlbSize tlbWay : ℕ) (names : List FileName)
    {traceFiles : List FileName} (h : traceFiles.length < maxTraceFiles) :
    collect path tlbSize tlbWay traceFiles names = traceFiles ++
      ((names.filter (isTraceOf tlbSize tlbWay)).take (maxTraceFiles - traceFiles.length)).map
        (tracePath path) := by
  induction names generalizing traceFiles with
  | nil => simp [collect]
  | cons name names ih =>
      rw [collect]
      by_cases hname : isTraceOf tlbSize tlbWay name = true
      · have hlength : (traceFiles ++ [tracePath path name]).length = traceFiles.length + 1 := by
          simp
        rw [if_pos hname, List.filter_cons_of_pos hname]
        simp only [hlength]
        by_cases hfull : traceFiles.length + 1 = maxTraceFiles
        · have hone : maxTraceFiles - traceFiles.length = 0 + 1 := by omega
          rw [if_pos hfull, hone, List.take_succ_cons, List.take_zero]
          rfl
        · have hmore : maxTraceFiles - traceFiles.length =
              maxTraceFiles - (traceFiles.length + 1) + 1 := by omega
          rw [if_neg hfull, ih (by rw [hlength]; omega), hlength, hmore, List.take_succ_cons,
            List.map_cons, List.append_assoc]
          rfl
      · rw [if_neg hname, List.filter_cons_of_neg hname]
        exact ih h

theorem listTraceFiles_perm (path : List Char) (tlbSize tlbWay : ℕ) (names : List FileName) :
    (listTraceFiles path tlbSize tlbWay (some names)).Perm
      (((names.filter (isTraceOf tlbSize tlbWay)).take maxTraceFiles).map (tracePath path)) := by
  rw [listTraceFiles]
  apply (List.perm_insertionSort _ _).trans
  rw [collect_eq path tlbSize tlbWay names (by decide)]
  exact List.Perm.refl _

/-- A path that fits into the buffer is stored whole. -/
theorem tracePath_eq {path : List Char} {name : FileName}
    (h : (path ++ '/' :: name).length < 512) : tracePath path name = path ++ '/' :: name :=
  List.take_of_length_le (Nat.le_sub_one_of_lt h)

/-- Up to 128 files, the list is the sorted list of the names that pass the filter,
in whatever order the directory has them. -/
theorem listTraceFiles_eq {path : List Char} {tlbSize tlbWay : ℕ} {names names' : List FileName}
    (hperm : names'.Perm names)
    (hshort : ∀ name ∈ names, (path ++ '/' :: name).length < 512)
    (hcount : (names.filter (isTraceOf tlbSize tlbWay)).length ≤ maxTraceFiles) :
    listTraceFiles path tlbSize tlbWay (some names') =
      ((names.filter (isTraceOf tlbSize tlbWay)).insertionSort NameLE).map (tracePath path) := by
  have hfilter : (names'.filter (isTraceOf tlbSize tlbWay)).Perm
      (names.filter (isTraceOf tlbSize tlbWay)) := hperm.filter _
  have hshort' : ∀ name ∈ names'.filter (isTraceOf tlbSize tlbWay),
      tracePath path name = path ++ '/' :: name := by
    intro name hmem
    exact tracePath_eq (hshort name (hperm.subset (List.mem_of_mem_filter hmem)))
  have hall : (names'.filter (isTraceOf tlbSize tlbWay)).take
      (maxTraceFiles - ([] : List FileName).length) = names'.filter (isTraceOf tlbSize tlbWay) :=
    List.take_of_length_le (hfilter.length_eq ▸ hcount)
  rw [← insertionSort_eq_of_perm hfilter, listTraceFiles,
    collect_eq path tlbSize tlbWay names' (by decide), hall, List.nil_append]
  symm
  -- all paths start with the folder, so they are in the order of the names
  apply List.map_insertionSort
  intro name hmem name' hmem'
  rw [hshort' name hmem, hshort' name' hmem', strcmp_append_left, strcmp]
  rfl

theorem length_listTraceFiles (path : List Char) (tlbSize tlbWay : ℕ) (names : List FileName) :
    (listTraceFiles path tlbSize tlbWay (some names)).length =
      min maxTraceFiles (names.filter (isTraceOf tlbSize tlbWay)).length := by
  rw [(listTraceFiles_perm path tlbSize tlbWay names).length_eq, List.length_map,
    List.length_take]

/-! ## The results of a folder -/

section

variable (fopen : FileName → Option (List (BitVec 8))) (names : List FileName)
  (tlbSize ntlbSize pwcSize way : ℕ) (cmd : SimCmd) (path : List Char)

/-- In whatever order the directory has its entries, the list has one result for
each entry that passes the filter, in the order of the names. -/
def CoversFolder : Prop :=
  ∃ sorted : List FileName, sorted.Perm (names.filter (isTraceOf tlbSize way)) ∧
    sorted.Pairwise (fun first second => strcmp first second = .lt) ∧
    ∀ names', names'.Perm names → ∀ s : Sim,
      (tlbsimSim fopen (some names') tlbSize ntlbSize pwcSize way cmd path).run' s =
        (fun results => results.map some ++ [none]) <$> sorted.mapM fun name =>
          (simulateFile fopen ntlbSize pwcSize way cmd (tracePath path name)).run' .initial

variable {fopen names tlbSize ntlbSize pwcSize way cmd path}

theorem pairwise_strcmp_of_nodup {sorted : List FileName} (hnodup : sorted.Nodup)
    (hsorted : sorted.Pairwise NameLE) :
    sorted.Pairwise fun first second => strcmp first second = .lt := by
  apply (hsorted.and hnodup).imp
  intro first second h
  have hne : strcmp first second ≠ .eq := by
    rw [strcmp_eq_compare]
    exact fun heq => h.2 (Std.LawfulEqCmp.eq_of_compare heq)
  have hle := h.1
  rw [NameLE] at hle
  cases hcmp : strcmp first second with
  | lt => rfl
  | eq => exact absurd hcmp hne
  | gt => rw [hcmp] at hle; exact absurd hle (by decide)

/-- Few enough files are all simulated. -/
theorem coversFolder_of_le (hnodup : names.Nodup)
    (hshort : ∀ name ∈ names, (path ++ '/' :: name).length < 512)
    (hcount : (names.filter (isTraceOf tlbSize way)).length ≤ maxTraceFiles) :
    CoversFolder fopen names tlbSize ntlbSize pwcSize way cmd path := by
  refine ⟨(names.filter (isTraceOf tlbSize way)).insertionSort NameLE,
    List.perm_insertionSort _ _, ?_, ?_⟩
  · apply pairwise_strcmp_of_nodup
    · exact (List.perm_insertionSort _ _).nodup_iff.mpr (hnodup.filter _)
    · exact List.pairwise_insertionSort NameLE _
  · intro names' hperm s
    rw [tlbsimSim_run'_eq, listTraceFiles_eq hperm hshort hcount, List.mapM_map]
    rfl

theorem simulateFile_run'_ok (hvalid : Sizes.ValidFor ⟨ntlbSize, way, pwcSize, way⟩ cmd)
    {file : FileName} (hfile : (fopen file).isSome = true) (s : Sim) :
    ∃ result, (simulateFile fopen ntlbSize pwcSize way cmd file).run' s = .ok result := by
  rcases Option.isSome_iff_exists.mp hfile with ⟨trace, htrace⟩
  rcases funcs_returns hvalid trace .zero s with ⟨result, final, hrun, -⟩
  refine ⟨result, ?_⟩
  rw [simulateFile, htrace, ← Returns.eq_iff_run']
  exact ⟨result, final, hrun, rfl⟩

/-- Simulations of readable files give one result for each. -/
theorem simulateFiles_ok (hvalid : Sizes.ValidFor ⟨ntlbSize, way, pwcSize, way⟩ cmd)
    {files : List FileName} (hfiles : ∀ file ∈ files, (fopen file).isSome = true) (s : Sim) :
    ∃ results, (files.mapM fun file =>
        (simulateFile fopen ntlbSize pwcSize way cmd file).run' s) = .ok results ∧
      results.length = files.length :=
  exists_mapM_eq_ok fun file hmem => simulateFile_run'_ok hvalid (hfiles file hmem) s

theorem isSome_of_mem_listTraceFiles
    (hreadable : ∀ name ∈ names, isTraceOf tlbSize way name = true →
      (fopen (tracePath path name)).isSome = true) :
    ∀ file ∈ listTraceFiles path tlbSize way (some names), (fopen file).isSome = true := by
  intro file hmem
  have hmem' := (listTraceFiles_perm path tlbSize way names).subset hmem
  rcases List.mem_map.mp hmem' with ⟨name, hname, rfl⟩
  have hfilter := List.mem_filter.mp (List.mem_of_mem_take hname)
  exact hreadable name hfilter.1 hfilter.2

/-- A list that covers the folder is as long as the folder has files, and the list
that is returned has at most 128 results. -/
theorem le_of_coversFolder (hvalid : Sizes.ValidFor ⟨ntlbSize, way, pwcSize, way⟩ cmd)
    (hreadable : ∀ name ∈ names, isTraceOf tlbSize way name = true →
      (fopen (tracePath path name)).isSome = true)
    (h : CoversFolder fopen names tlbSize ntlbSize pwcSize way cmd path) :
    (names.filter (isTraceOf tlbSize way)).length ≤ maxTraceFiles := by
  rcases h with ⟨sorted, hperm, -, hcovers⟩
  have hall : ∀ file ∈ sorted.map (tracePath path), (fopen file).isSome = true := by
    intro file hmem
    rcases List.mem_map.mp hmem with ⟨name, hname, rfl⟩
    have hfilter := List.mem_filter.mp (hperm.subset hname)
    exact hreadable name hfilter.1 hfilter.2
  rcases simulateFiles_ok hvalid hall .initial with ⟨results, hresults, hlength⟩
  rcases simulateFiles_ok hvalid (isSome_of_mem_listTraceFiles hreadable) .initial with
    ⟨listed, hlisted, hlistedLength⟩
  have heq := hcovers names (List.Perm.refl _) .initial
  rw [tlbsimSim_run'_eq, hlisted] at heq
  rw [List.mapM_map] at hresults
  have hmap : (.ok (listed.map some ++ [none]) : Except Fault _) =
      .ok (results.map some ++ [none]) := heq.trans (congrArg _ hresults)
  have hsame := congrArg List.length (Except.ok.inj hmap)
  rw [length_listTraceFiles] at hlistedLength
  rw [List.length_map, hperm.length_eq] at hlength
  simp only [List.length_append, List.length_map] at hsame
  omega

end

/-- A folder is covered, in whatever order `readdir` returns its entries, if and only
if at most 128 of them pass the filter. -/
theorem tlbsimSim_coversFolder_iff {fopen : FileName → Option (List (BitVec 8))}
    {names : List FileName} {tlbSize ntlbSize pwcSize way : ℕ} {cmd : SimCmd} {path : List Char}
    (hnodup : names.Nodup) (hshort : ∀ name ∈ names, (path ++ '/' :: name).length < 512)
    (hreadable : ∀ name ∈ names, isTraceOf tlbSize way name = true →
      (fopen (tracePath path name)).isSome = true) :
    ((names.filter (isTraceOf tlbSize way)).length ≤ maxTraceFiles →
        CoversFolder fopen names tlbSize ntlbSize pwcSize way cmd path) ∧
      (Sizes.ValidFor ⟨ntlbSize, way, pwcSize, way⟩ cmd →
        (CoversFolder fopen names tlbSize ntlbSize pwcSize way cmd path →
          (names.filter (isTraceOf tlbSize way)).length ≤ maxTraceFiles) ∧
        ∀ s : Sim, Returns (tlbsimSim fopen (some names) tlbSize ntlbSize pwcSize way cmd path) s
          fun results _ => results.length =
            min maxTraceFiles (names.filter (isTraceOf tlbSize way)).length + 1) := by
  refine ⟨coversFolder_of_le hnodup hshort, fun hvalid =>
    ⟨le_of_coversFolder hvalid hreadable, fun s => ?_⟩⟩
  rcases simulateFiles_ok hvalid (isSome_of_mem_listTraceFiles hreadable) .initial with
    ⟨results, hresults, hlength⟩
  have hrun : (tlbsimSim fopen (some names) tlbSize ntlbSize pwcSize way cmd path).run' s =
      .ok (results.map some ++ [none]) := by
    rw [tlbsimSim_run'_eq, hresults]
    rfl
  apply (Returns.eq_iff_run'.mpr hrun).mono
  rintro _ _ rfl
  rw [List.length_append, List.length_map, hlength, length_listTraceFiles]
  rfl

/-- The traces of a TLB with 64 entries and one way that were started in the first
129 minutes of a year. -/
def fullFolder : List FileName :=
  (List.range 129).map fun k => traceName ⟨0, 1, k / 60, k % 60⟩ 64 1

theorem nodup_fullFolder : fullFolder.Nodup := by
  -- the four digits of the time tell the names apart
  set time : FileName → ℕ := fun name => Nat.ofDigitChars 10 ((name.drop 11).take 4) 0
  have htime : fullFolder.map time = (List.range 129).map fun k => k / 60 * 100 + k % 60 := by
    decide +kernel
  apply List.Nodup.of_map time
  rw [htime]
  apply List.Nodup.map_on _ List.nodup_range
  intro k _ k' _ h
  omega

theorem isTraceOf_of_mem_fullFolder : ∀ name ∈ fullFolder, isTraceOf 64 1 name = true := by
  intro name hmem
  rcases List.mem_map.mp hmem with ⟨k, -, rfl⟩
  rw [isTraceOf_traceName_iff (by decide) (by decide)]
  exact ⟨rfl, List.prefix_rfl⟩

/-- Two traces, in the wrong order, and another file. -/
def smallFolder : List FileName :=
  [traceName ⟨2, 14, 9, 26⟩ 64 1, ['R', 'E', 'A', 'D', 'M', 'E'], traceName ⟨1, 1, 0, 0⟩ 64 1]

/-- A small folder is covered: two results and the null pointer. -/
theorem tlbsimSim_coversFolder_iff_smallFolder :
    CoversFolder (fun _ => some sampleTrace) smallFolder 64 4 8 1 .scNtlbPwc ['.'] ∧
      Returns (tlbsimSim (fun _ => some sampleTrace) (some smallFolder) 64 4 8 1 .scNtlbPwc ['.'])
        .initial fun results _ => results.length = 3 := by
  have hvalid : Sizes.ValidFor ⟨4, 1, 8, 1⟩ .scNtlbPwc := by
    intro c _
    cases c <;> decide
  have hnodup : smallFolder.Nodup := by decide
  have hshort : ∀ name ∈ smallFolder, (['.'] ++ '/' :: name).length < 512 := by decide
  constructor
  · exact (tlbsimSim_coversFolder_iff hnodup hshort fun _ _ _ => rfl).1 (by decide)
  · exact ((tlbsimSim_coversFolder_iff hnodup hshort fun _ _ _ => rfl).2 hvalid).2 .initial

/-- A folder with 129 traces is not covered. -/
theorem not_coversFolder_fullFolder :
    fullFolder.Nodup ∧ (∀ name ∈ fullFolder, (['.'] ++ '/' :: name).length < 512) ∧
      Sizes.ValidFor ⟨4, 1, 8, 1⟩ .scNtlbPwc ∧
      ¬ CoversFolder (fun _ => some sampleTrace) fullFolder 64 4 8 1 .scNtlbPwc ['.'] := by
  have hvalid : Sizes.ValidFor ⟨4, 1, 8, 1⟩ .scNtlbPwc := by
    intro c _
    cases c <;> decide
  refine ⟨nodup_fullFolder, by decide +kernel, hvalid, fun h => ?_⟩
  have hle := le_of_coversFolder hvalid (fun _ _ _ => rfl) h
  rw [List.filter_eq_self.mpr isTraceOf_of_mem_fullFolder, fullFolder, List.length_map,
    List.length_range] at hle
  exact absurd hle (by decide)

end TlbAnalyzer.Simulator
