/-
# What the program prints

`main` reads two geometries and a simulation from its arguments, simulates the folder
`./TRACES` and prints two rows for each trace, one for the nested TLB and one for the page
walk cache, whichever of them was simulated. A row has a hit ratio, the quotient of two
counts. The divisor may be zero, and `main` does not ask.

A negative size and a number that is no simulation are outside this model. With the first
the program looks for files that have a minus sign in their names, with the second it calls
what lies behind its table of functions.
-/

import TlbAnalyzer.Simulator.Bounds
import TlbAnalyzer.Simulator.Limits
import TlbAnalyzer.Simulator.Pipeline

namespace TlbAnalyzer.Simulator

open Cache Math TraceFile
open Tracer (FileName Globals PteResult Ready Recording TellsAll decimal refLimit references
  runRecordings traceName)

/-! ## The arguments -/

/-- `isspace`: a blank, or one of the characters from the tabulator to the carriage return. -/
def isspace (c : Char) : Bool :=
  c.toNat = ' '.toNat || ('\t'.toNat ≤ c.toNat && c.toNat ≤ '\r'.toNat)

/-- `atoi`: after some space and a sign, the digits up to the first character that is none. -/
def atoi (text : List Char) : ℤ :=
  let digits := fun (rest : List Char) => Nat.ofDigitChars 10 (rest.takeWhile Char.isDigit) 0
  match text.dropWhile isspace with
  | '-' :: rest => -(digits rest : ℤ)
  | '+' :: rest => digits rest
  | rest => digits rest

/-- The simulation with a number of `enum SIM_CMD`. -/
def SimCmd.ofIndex : ℤ → Option SimCmd
  | 0 => some .scNtlb
  | 1 => some .scPwcEpt
  | 2 => some .scPwcNoept
  | 3 => some .scNtlbPwc
  | _ => none

/-- The variables that `main` fills from its arguments. -/
structure Args where
  tlbSize : ℕ
  tlbWay : ℕ
  ntlbSize : ℕ
  pwcSize : ℕ
  cmd : SimCmd
  deriving DecidableEq

/-- The arguments after the name of the program, in their order. -/
def readArgs (argv₁ argv₂ argv₃ argv₄ argv₅ : List Char) : Option Args := do
  let tlbSize ← (atoi argv₁).toNat?
  let tlbWay ← (atoi argv₂).toNat?
  let ntlbSize ← (atoi argv₃).toNat?
  let pwcSize ← (atoi argv₄).toNat?
  let cmd ← SimCmd.ofIndex (atoi argv₅)
  return ⟨tlbSize, tlbWay, ntlbSize, pwcSize, cmd⟩

/-- The sizes and associativities that `tlbsim_sim` hands on: both caches get the ways of the
TLB. -/
def Args.sizes (a : Args) : Sizes := ⟨a.ntlbSize, a.tlbWay, a.pwcSize, a.tlbWay⟩

/-! ## The rows -/

/-- The first column. -/
inductive RowName
  | ntlb | pwc
  deriving DecidableEq

/-- A row of the table. The ratio is given by its dividend and its divisor, since a quotient by
zero is printed too. A row of the nested TLB has no memory accesses. -/
structure Row where
  cache : RowName
  hit : ℕ
  miss : ℕ
  ratio : ℕ × ℕ
  accs : Option ℕ
  deriving DecidableEq

/-- The row of a counter. -/
def Row.of (cache : RowName) (cnt : TlbCounter) (accs : Option ℕ) : Row where
  cache := cache
  hit := cnt.hit
  miss := cnt.miss
  ratio := (100 * cnt.hit, cnt.hit + cnt.miss)
  accs := accs

/-- One pass of the loop over the results. -/
def SimResult.rows (r : SimResult) : List Row :=
  [.of .ntlb r.ntlb none, .of .pwc r.pwc (some r.accs)]

/-- The loop over the results, up to the null pointer. -/
def printResults : List (Option SimResult) → List Row
  | some r :: results => r.rows ++ printResults results
  | _ => []

/-! ## The program -/

/-- What `main` leaves behind. -/
inductive Output
  /-- One line to `stderr`, and 1 is returned. -/
  | usage (text : List Char)
  /-- A header and some rows to `stdout`, and 0 is returned. -/
  | table (header : List String) (rows : List Row)

/-- The line that tells how to call the program. -/
def usageText (program : List Char) : List Char :=
  "Usage: ".toList ++ program ++
    " tlb_size tlb_way ntlb_size pwc_size cmd_idx=\x7bNTLB, PWC_EPT, PWC_NOEPT, FULL\x7d".toList

/-- The columns of the table. -/
def columns : List String := ["Cache", "Hit", "Miss", "Hit Ratio", "Mem Access"]

/-- The folder that is simulated. -/
def tracesPath : List Char := "./TRACES".toList

/-- `main`, or nothing for arguments that are outside this model. -/
def main (fopen : FileName → Option (List (BitVec 8))) (readdir : Option (List FileName))
    (argv : List (List Char)) : SimM (Option Output) :=
  match argv with
  | [_, argv₁, argv₂, argv₃, argv₄, argv₅] =>
      match readArgs argv₁ argv₂ argv₃ argv₄ argv₅ with
      | none => return none
      | some a => do
          let results ← tlbsimSim fopen readdir a.tlbSize a.ntlbSize a.pwcSize a.tlbWay a.cmd
            tracesPath
          return some (.table columns (printResults results))
  | _ => return some (.usage (usageText (argv.headD [])))

/-! ## Arguments in decimal -/

/-- A text that starts with a digit has no space and no sign to pass over. -/
theorem atoi_cons_of_isDigit {c : Char} (hc : c.isDigit = true) (rest : List Char) :
    atoi (c :: rest) = Nat.ofDigitChars 10 ((c :: rest).takeWhile Char.isDigit) 0 := by
  have hspace : isspace c = false := by
    have hzero : 48 ≤ c.toNat := (Char.isDigit_iff_toNat.mp hc).1
    have hspace : ¬ (c.toNat = 32 ∨ 9 ≤ c.toNat ∧ c.toNat ≤ 13) := by omega
    simpa [isspace] using hspace
  have hminus : c ≠ '-' := by
    rintro rfl
    cases hc
  have hplus : c ≠ '+' := by
    rintro rfl
    cases hc
  rw [atoi, List.dropWhile_cons_of_neg (by simp [hspace])]
  split
  · next heq => exact absurd (List.cons.inj heq).1 hminus
  · next heq => exact absurd (List.cons.inj heq).1 hplus
  · rfl

/-- A number that is written in decimal is read back, with or without something behind it that
does not start with a digit. -/
theorem atoi_decimal (n : ℕ) {rest : List Char} (hrest : rest.takeWhile Char.isDigit = []) :
    atoi (decimal n ++ rest) = n := by
  have htake : (decimal n ++ rest).takeWhile Char.isDigit = decimal n := by
    rw [List.takeWhile_append_of_pos fun _ => isDigit_of_mem_decimal, hrest, List.append_nil]
  have hne : decimal n ≠ [] := Nat.toDigits_ne_nil
  rcases List.exists_cons_of_ne_nil hne with ⟨c, cs, hcs⟩
  have hdigit : c.isDigit = true := isDigit_of_mem_decimal (hcs ▸ List.mem_cons_self)
  rw [hcs, List.cons_append, atoi_cons_of_isDigit hdigit, ← List.cons_append, ← hcs, htake]
  exact congrArg Nat.cast Nat.ofDigitChars_ten_toDigits

/-- The number of a simulation in `enum SIM_CMD`. -/
def SimCmd.index : SimCmd → ℕ
  | .scNtlb => 0
  | .scPwcEpt => 1
  | .scPwcNoept => 2
  | .scNtlbPwc => 3

theorem readArgs_decimal (a : Args) :
    readArgs (decimal a.tlbSize) (decimal a.tlbWay) (decimal a.ntlbSize) (decimal a.pwcSize)
      (decimal a.cmd.index) = some a := by
  have hatoi : ∀ n, atoi (decimal n) = n := by
    intro n
    have hnothing : ([] : List Char).takeWhile Char.isDigit = [] := rfl
    simpa using atoi_decimal n hnothing
  have hcmd : SimCmd.ofIndex a.cmd.index = some a.cmd := by
    cases a.cmd <;> rfl
  rw [readArgs, hatoi, hatoi, hatoi, hatoi, hatoi, hcmd]
  rfl

/-! ## Divisors -/

/-- The number of lookups that a counter has counted. -/
def lookups (cnt : TlbCounter) : ℕ := cnt.hit + cnt.miss

theorem Grown.lookups_le {s s' : Sim} (h : Grown s s') (c : CacheName) :
    lookups (s.cnt c) ≤ lookups (s'.cnt c) :=
  Nat.add_le_add (h.hit_le c) (h.miss_le c)

theorem Grown.fits {s s' : Sim} (h : Grown s s') {cmd : SimCmd}
    (hfits : ∀ c, cmd.uses c = true → (s.geometry c).Fits cacheMaxEntries) (c : CacheName)
    (huses : cmd.uses c = true) : (s'.geometry c).Fits cacheMaxEntries := by
  rw [h.geometry_eq]
  exact hfits c huses

theorem lookups_use_pos (s : Sim) (c : CacheName) (addr asid : BitVec 32) (hit : Bool) (i : ℕ)
    (e : TlbEntry) : 0 < lookups ((s.use c addr asid hit i e).cnt c) := by
  cases hit with
  | true => simp [lookups]
  | false => simp [lookups]

section

variable {cmd : SimCmd} {t : TraceRecord} {c : CacheName} {s : Sim}
  (hfits : ∀ c, cmd.uses c = true → (s.geometry c).Fits cacheMaxEntries)

include hfits

/-- A lookup is counted, whatever is done after it. -/
theorem ask_counts {addr asid : BitVec 32} {otherwise : Script SimAction}
    (hperforms : ∀ action ∈ (Script.ask (.lookup c addr asid) otherwise).actions,
      cmd.Performs t action) :
    Returns ((Script.ask (.lookup c addr asid) otherwise).run SimAction.perform) s
      fun _ s' => 0 < lookups (s'.cnt c) := by
  rw [Script.actions, List.forall_mem_cons] at hperforms
  apply onMiss_returns (hfits c hperforms.1.uses)
  · intro i e
    exact lookups_use_pos s c addr asid true i e
  · intro i e
    apply (script_grows (s := s.use c addr asid false i e) hfits hperforms.2 (Grown.refl _)).mono
    intro _ s' h'
    exact (lookups_use_pos s c addr asid false i e).trans_le (h'.lookups_le c)

/-- What the first part of a script counts stays counted. -/
theorem seq_counts {first second : Script SimAction}
    (hfirst : Returns (first.run SimAction.perform) s fun _ s' => 0 < lookups (s'.cnt c))
    (hperforms : ∀ action ∈ (Script.seq first second).actions, cmd.Performs t action) :
    Returns ((Script.seq first second).run SimAction.perform) s
      fun _ s' => 0 < lookups (s'.cnt c) := by
  rw [Script.actions, List.forall_mem_append] at hperforms
  rw [Script.run, Returns.bind_iff]
  have hgrows := script_grows hfits hperforms.1 (Grown.refl s)
  apply (hfirst.and_ensures hgrows.ensures).mono
  intro _ s₁ h₁
  apply (script_grows (h₁.2.fits hfits) hperforms.2 (Grown.refl s₁)).mono
  intro _ s' h'
  exact h₁.1.trans_le (h'.lookups_le c)

end

/-- The first record of a trace is looked up in every cache of the simulation. The nested TLB of
the combined simulation is only asked after a miss of the page walk cache, but the first lookup
there is one: no flushed entry has the identifier of the guest. -/
theorem record_counts {z : Sizes} {cmd : SimCmd} (hvalid : z.ValidFor cmd) (t : TraceRecord)
    {c : CacheName} (huses : cmd.uses c = true) (s : Sim) :
    Returns ((cmd.record t).run SimAction.perform) (cmd.start z s)
      fun _ s' => 0 < lookups (s'.cnt c) := by
  have hfits := hvalid.start_fits s
  have hperforms := SimCmd.performs_record cmd t
  cases cmd with
  | scNtlb =>
      cases of_decide_eq_true huses
      refine seq_counts hfits ?_ hperforms
      rw [SimCmd.record, levels, Script.actions, List.forall_mem_append, SimCmd.find2,
        Script.actions, List.forall_mem_append] at hperforms
      rw [SimCmd.find2, Script.run, Returns.bind_iff]
      apply (script_grows hfits hperforms.1.1 (Grown.refl _)).mono
      intro _ s₁ h₁
      exact ask_counts (h₁.fits hfits) hperforms.1.2
  | scPwcEpt =>
      cases of_decide_eq_true huses
      refine seq_counts hfits ?_ hperforms
      rw [SimCmd.record, levels, Script.actions, List.forall_mem_append] at hperforms
      exact ask_counts hfits hperforms.1
  | scPwcNoept =>
      cases of_decide_eq_true huses
      refine seq_counts hfits ?_ hperforms
      rw [SimCmd.record, Script.actions, List.forall_mem_append] at hperforms
      exact ask_counts hfits hperforms.1
  | scNtlbPwc =>
      refine seq_counts hfits ?_ hperforms
      rw [SimCmd.record, levels, Script.actions, List.forall_mem_append] at hperforms
      have hc : c = .ntlb ∨ c = .pwc := by simpa [SimCmd.uses] using huses
      rcases hc with rfl | rfl
      · rw [SimCmd.guest, Script.actions, List.forall_mem_cons, Script.actions,
          List.forall_mem_append] at hperforms
        have hflushed : Flushed z (SimCmd.scNtlbPwc.start z s) .pwc :=
          ⟨SimCmd.configure_geometry rfl z s, fun _ hi => if_pos hi⟩
        have hstep := Nat.div_pos (hvalid .pwc rfl).2.1 (hvalid .pwc rfl).1
        have hinside : ∀ i ∈ (SimCmd.scNtlbPwc.start z s).slots .pwc t.l1Pa, i < cacheMaxEntries :=
          fun i hi => (Geometry.lt_entries_of_mem_slots hi).trans_le (hfits .pwc rfl).entries_le
        have hmiss := hflushed.lookup_returns hstep (fun hfalse => absurd hfalse (by decide))
          hinside
        have hgrows : Returns (lookup .pwc t.l1Pa 1#32) (SimCmd.scNtlbPwc.start z s)
            fun _ s₁ => Grown (SimCmd.scNtlbPwc.start z s) s₁ :=
          lookup_returns_of_use (hfits .pwc rfl) (fun i e => (Grown.refl _).use _ _ _ _ i e)
            (fun i e => (Grown.refl _).use _ _ _ _ i e)
        rw [SimCmd.guest, run_ask_lookup, onMiss, Returns.bind_iff]
        apply (hmiss.and_ensures hgrows.ensures).mono
        intro hit s₁ h₁
        rw [whenever_true_iff h₁.1]
        have hfits₁ := h₁.2.fits hfits
        exact seq_counts hfits₁ (ask_counts hfits₁ hperforms.1.2.1)
          (List.forall_mem_append.mpr hperforms.1.2)
      · exact ask_counts hfits hperforms.1

/-- The lookups of a simulation in a cache that it uses: there are none exactly if there is no
complete record in the trace. -/
theorem funcs_lookups_eq_zero_iff {z : Sizes} {cmd : SimCmd} (hvalid : z.ValidFor cmd)
    (trace : List (BitVec 8)) (result : SimResult) (s : Sim) :
    Returns (funcs cmd trace z.ntlbSize z.ntlbWay z.pwcSize z.pwcWay result) s fun r _ =>
      ∀ c, cmd.uses c = true → (lookups (r.counter c) = 0 ↔ trace.length < 16) := by
  have hlength := length_readRecords trace
  rw [funcs_returns_iff, SimCmd.scripts]
  cases hrecords : readRecords trace with
  | nil =>
      rw [hrecords, List.length_nil] at hlength
      apply Returns.pure_iff.mpr
      intro c huses
      rw [SimCmd.report_counter huses]
      exact iff_of_true rfl (by omega)
  | cons t rest =>
      rw [hrecords, List.length_cons] at hlength
      have hlong : ¬ trace.length < 16 := by omega
      have hfits := hvalid.start_fits s
      have hcounts : Ensures ((cmd.record t).run SimAction.perform) (cmd.start z s) fun _ s₁ =>
          ∀ c, cmd.uses c = true → 0 < lookups (s₁.cnt c) := fun value s₁ hrun c huses =>
        (record_counts hvalid t huses s).ensures value s₁ hrun
      rw [List.map_cons, List.forM, Returns.bind_iff]
      apply ((script_grows hfits (SimCmd.performs_record cmd t) (Grown.refl _)).and_ensures
        hcounts).mono
      intro _ s₁ h₁
      apply (scripts_grow (h₁.1.fits hfits) rest).mono
      intro _ s' h' c huses
      rw [SimCmd.report_counter huses]
      have hpos := (h₁.2 c huses).trans_le (h'.lookups_le c)
      exact iff_of_false hpos.ne' hlong

/-- Whether a simulation has the cache of a row. -/
def SimCmd.simulates : SimCmd → RowName → Bool
  | .scNtlb, .ntlb | .scPwcEpt, .pwc | .scPwcNoept, .pwc | .scNtlbPwc, _ => true
  | _, _ => false

theorem funcs_rows {z : Sizes} {cmd : SimCmd} (hvalid : z.ValidFor cmd) (trace : List (BitVec 8))
    (s : Sim) :
    Returns (funcs cmd trace z.ntlbSize z.ntlbWay z.pwcSize z.pwcWay .zero) s fun r _ =>
      ∀ row ∈ r.rows, row.ratio.2 = 0 ↔ cmd.simulates row.cache = false ∨ trace.length < 16 := by
  have hlookups := funcs_lookups_eq_zero_iff hvalid trace .zero s
  rw [funcs_returns_iff] at hlookups ⊢
  apply hlookups.mono
  intro _ s' h
  have hused : ∀ (row : Row) (c : CacheName), cmd.uses c = true →
      row.ratio.2 = lookups ((cmd.report .zero s').counter c) → cmd.simulates row.cache = true →
      (row.ratio.2 = 0 ↔ cmd.simulates row.cache = false ∨ trace.length < 16) := by
    intro row c huses hratio hsimulates
    rw [hratio, h c huses, hsimulates]
    simp
  -- a result starts with zeros, and a cache that is not simulated leaves them there
  have hunused : ∀ row : Row, row.ratio.2 = 0 → cmd.simulates row.cache = false →
      (row.ratio.2 = 0 ↔ cmd.simulates row.cache = false ∨ trace.length < 16) :=
    fun _ hzero hsimulates => iff_of_true hzero (Or.inl hsimulates)
  rw [SimResult.rows, List.forall_mem_cons, List.forall_mem_singleton]
  cases cmd with
  | scNtlb => exact ⟨hused _ .ntlb2 rfl rfl rfl, hunused _ rfl rfl⟩
  | scPwcEpt => exact ⟨hunused _ rfl rfl, hused _ .pwc2 rfl rfl rfl⟩
  | scPwcNoept => exact ⟨hunused _ rfl rfl, hused _ .pwc3 rfl rfl rfl⟩
  | scNtlbPwc => exact ⟨hused _ .ntlb rfl rfl rfl, hused _ .pwc rfl rfl rfl⟩

/-! ## The table -/

theorem printResults_append_none (results : List SimResult) :
    printResults (results.map some ++ [none]) = results.flatMap SimResult.rows := by
  induction results with
  | nil => rfl
  | cons r results ih =>
      rw [List.map_cons, List.cons_append, printResults, ih, List.flatMap_cons]

/-- A loop whose passes all succeed gives results that have what the passes give them. -/
theorem exists_mapM_forall₂ {ι ρ : Type} {body : ι → Except Fault ρ} {post : ι → ρ → Prop}
    {items : List ι} (h : ∀ item ∈ items, ∃ result, body item = .ok result ∧ post item result) :
    ∃ results, items.mapM body = .ok results ∧ List.Forall₂ post items results := by
  induction items with
  | nil => exact ⟨[], rfl, .nil⟩
  | cons item items ih =>
      rw [List.forall_mem_cons] at h
      rcases h.1 with ⟨result, hresult, hpost⟩
      rcases ih h.2 with ⟨results, hresults, hrest⟩
      refine ⟨result :: results, ?_, .cons hpost hrest⟩
      rw [List.mapM_cons, hresult, hresults]
      rfl

section

variable {argv₁ argv₂ argv₃ argv₄ argv₅ : List Char} {a : Args}
  (hargs : readArgs argv₁ argv₂ argv₃ argv₄ argv₅ = some a)
  {fopen : FileName → Option (List (BitVec 8))} {readdir : Option (List FileName)}

/-- One file of the listing. -/
theorem simulateFile_rows (hvalid : a.sizes.ValidFor a.cmd) {file : FileName}
    {trace : List (BitVec 8)} (htrace : fopen file = some trace) :
    ∃ r, (simulateFile fopen a.ntlbSize a.pwcSize a.tlbWay a.cmd file).run' .initial = .ok r ∧
      (funcs a.cmd trace a.ntlbSize a.tlbWay a.pwcSize a.tlbWay .zero).run' .initial = .ok r ∧
      ∀ row ∈ r.rows, row.ratio.2 = 0 ↔ a.cmd.simulates row.cache = false ∨ trace.length < 16 := by
  rcases funcs_rows hvalid trace .initial with ⟨r, final, hrun, hrows⟩
  have hresult : (funcs a.cmd trace a.ntlbSize a.tlbWay a.pwcSize a.tlbWay .zero).run' .initial =
      .ok r := Returns.eq_iff_run'.mp ⟨r, final, hrun, rfl⟩
  refine ⟨r, ?_, hresult, hrows⟩
  rw [simulateFile, htrace]
  exact hresult

include hargs

/-- The table has the rows of the results. -/
theorem main_returns {results : List SimResult}
    (hresults : ((listTraceFiles tracesPath a.tlbSize a.tlbWay readdir).mapM fun file =>
      (simulateFile fopen a.ntlbSize a.pwcSize a.tlbWay a.cmd file).run' .initial) = .ok results)
    (program : List Char) (s : Sim) :
    Returns (main fopen readdir [program, argv₁, argv₂, argv₃, argv₄, argv₅]) s fun output _ =>
      output = some (.table columns (results.flatMap SimResult.rows)) := by
  have hsim : (tlbsimSim fopen readdir a.tlbSize a.ntlbSize a.pwcSize a.tlbWay a.cmd
      tracesPath).run' s = .ok (results.map some ++ [none]) := by
    rw [tlbsimSim_run'_eq, hresults]
    rfl
  simp only [main, hargs]
  rw [Returns.bind_iff]
  apply (Returns.eq_iff_run'.mpr hsim).mono
  intro _ s' heq
  rw [heq, Returns.pure_iff, printResults_append_none]

/-- The table of a run. The program prints two rows for each file of the listing, in its order,
with the counts of simulating the file alone and from the start. A hit ratio is a quotient by
zero exactly if the row is about a cache that the simulation does not have, or the file has no
complete record: where both are simulated, every trace that has a record has lookups in both. -/
theorem main_ratios (hvalid : a.sizes.ValidFor a.cmd)
    (hopen : ∀ file ∈ listTraceFiles tracesPath a.tlbSize a.tlbWay readdir,
      (fopen file).isSome = true)
    (program : List Char) (s : Sim) :
    Returns (main fopen readdir [program, argv₁, argv₂, argv₃, argv₄, argv₅]) s fun output _ =>
      ∃ results : List SimResult,
        output = some (.table columns (results.flatMap SimResult.rows)) ∧
        List.Forall₂ (fun file r => ∃ trace, fopen file = some trace ∧
            (funcs a.cmd trace a.ntlbSize a.tlbWay a.pwcSize a.tlbWay .zero).run' .initial = .ok r ∧
            ∀ row ∈ r.rows,
              row.ratio.2 = 0 ↔ a.cmd.simulates row.cache = false ∨ trace.length < 16)
          (listTraceFiles tracesPath a.tlbSize a.tlbWay readdir) results := by
  have hpass : ∀ file ∈ listTraceFiles tracesPath a.tlbSize a.tlbWay readdir, ∃ r,
      (simulateFile fopen a.ntlbSize a.pwcSize a.tlbWay a.cmd file).run' .initial = .ok r ∧
      ∃ trace, fopen file = some trace ∧
        (funcs a.cmd trace a.ntlbSize a.tlbWay a.pwcSize a.tlbWay .zero).run' .initial = .ok r ∧
        ∀ row ∈ r.rows,
          row.ratio.2 = 0 ↔ a.cmd.simulates row.cache = false ∨ trace.length < 16 := by
    intro file hfile
    rcases Option.isSome_iff_exists.mp (hopen file hfile) with ⟨trace, htrace⟩
    rcases simulateFile_rows hvalid htrace with ⟨r, hpassed, hr⟩
    exact ⟨r, hpassed, trace, htrace, hr⟩
  rcases exists_mapM_forall₂ hpass with ⟨results, hresults, hfiles⟩
  apply (main_returns hargs hresults program s).mono
  intro output _ houtput
  exact ⟨results, houtput, hfiles⟩

end

/-- Two mornings on which a tracer of four entries and two ways was switched on. -/
def sampleFolder : List FileName :=
  [traceName ⟨0, 2, 9, 30⟩ 4 2, traceName ⟨0, 1, 9, 30⟩ 4 2]

/-- On the second one nothing was recorded. -/
def sampleFopen (file : FileName) : Option (List (BitVec 8)) :=
  if file = tracePath tracesPath (traceName ⟨0, 2, 9, 30⟩ 4 2) then some []
  else some sampleTrace

/-- Both caches are simulated, and the rows of the second trace have no ratios. -/
theorem main_ratios_sampleFolder :
    Returns (main sampleFopen (some sampleFolder)
        ["tlb_sim".toList, decimal 4, decimal 2, decimal 4, decimal 4, decimal 3]) .initial
      fun output _ => ∃ first second : SimResult,
        output = some (.table columns (first.rows ++ second.rows)) ∧
        (∀ row ∈ first.rows, row.ratio.2 ≠ 0) ∧ ∀ row ∈ second.rows, row.ratio.2 = 0 := by
  have hargs := readArgs_decimal ⟨4, 2, 4, 4, .scNtlbPwc⟩
  have hvalid : Sizes.ValidFor ⟨4, 2, 4, 2⟩ .scNtlbPwc := fun c _ => by cases c <;> decide
  have hlist : listTraceFiles tracesPath 4 2 (some sampleFolder) =
      [tracePath tracesPath (traceName ⟨0, 1, 9, 30⟩ 4 2),
        tracePath tracesPath (traceName ⟨0, 2, 9, 30⟩ 4 2)] := by
    decide +kernel
  have hopened : sampleFopen (tracePath tracesPath (traceName ⟨0, 1, 9, 30⟩ 4 2)) =
      some sampleTrace := by
    decide +kernel
  have hempty : sampleFopen (tracePath tracesPath (traceName ⟨0, 2, 9, 30⟩ 4 2)) =
      some [] := by
    decide +kernel
  have hlong : ¬ sampleTrace.length < 16 := by decide +kernel
  have hsome : ∀ file, (sampleFopen file).isSome = true := by
    intro file
    rw [sampleFopen]
    split <;> rfl
  apply (main_ratios hargs hvalid (fun file _ => hsome file) _ .initial).mono
  intro output _ h
  rcases h with ⟨results, houtput, hfiles⟩
  rw [hlist, List.forall₂_cons_left_iff] at hfiles
  rcases hfiles with ⟨first, rest, ⟨trace, htrace, -, hrows⟩, hrest, rfl⟩
  rw [List.forall₂_cons_left_iff] at hrest
  rcases hrest with ⟨second, rest', ⟨trace', htrace', -, hrows'⟩, hnil, rfl⟩
  cases hopened.symm.trans htrace
  cases hempty.symm.trans htrace'
  cases hnil
  refine ⟨first, second, ?_, fun row hrow hzero => ?_, fun row hrow => ?_⟩
  · rw [houtput, List.flatMap_cons, List.flatMap_singleton]
  · have hor := (hrows row hrow).mp hzero
    exact hor.elim (fun hfalse => by cases hfalse) hlong
  · exact (hrows' row hrow).mpr (Or.inr (by decide))

/-! ## From the tracer to the table -/

/-- The whole way. A tracer is switched on and off up to 128 times, each time in a later minute of
the year, into a folder that had no trace of this TLB, and then the program is called for this TLB.
It prints two rows for each recording, in the order of the recordings and whatever the order of the
directory, with the counts of simulating the recording's trace from the start. Their ratios are
quotients by zero exactly for a cache that is not simulated and for a recording during which
nothing was referenced. Recordings below the limit end, when the last instruction fetch before
them used a slot that exists. -/
theorem recordings_main {α : Type} {tracer : Globals α} {argv₁ argv₂ argv₃ argv₄ argv₅ : List Char}
    {a : Args} (hargs : readArgs argv₁ argv₂ argv₃ argv₄ argv₅ = some a)
    (hvalid : a.sizes.ValidFor a.cmd) (hway : 1 ≤ a.tlbWay) (hle : a.tlbWay ≤ a.tlbSize)
    (hsize : a.tlbSize < 2 ^ 31) (hready : Ready tracer a.tlbSize a.tlbWay)
    (hset : tracer.tlbSet = a.tlbWay) (hstarted : tracer.started = false)
    (hret : ∀ arg addr, (tracer.myPteHelper arg addr).ret.toNat < 16) {xs : List (Recording α)}
    (hrange : ∀ x ∈ xs, x.tm.InRange)
    (hsorted : xs.Pairwise fun x y => compareTm x.tm y.tm = .lt) (hcount : xs.length ≤ 128)
    (hfolder : ∀ name, isTraceOf a.tlbSize a.tlbWay name = true → tracer.files name = none)
    (program : List Char) :
    (Ensures (runRecordings xs) tracer fun _ tracer' =>
      ∀ (fopen : FileName → Option (List (BitVec 8))) (names : List FileName) (s : Sim),
        (∀ name, fopen (tracesPath ++ '/' :: name) = tracer'.files name) → names.Nodup →
        (∀ name, name ∈ names ↔ tracer'.files name ≠ none) →
        Returns (main fopen (some names) [program, argv₁, argv₂, argv₃, argv₄, argv₅]) s
          fun output _ => ∃ results : List SimResult,
            output = some (.table columns (results.flatMap SimResult.rows)) ∧
            List.Forall₂ (fun x r => ∃ trace,
                tracer'.files (traceName x.tm a.tlbSize a.tlbWay) = some trace ∧
                (funcs a.cmd trace a.ntlbSize a.tlbWay a.pwcSize a.tlbWay .zero).run' .initial =
                  .ok r ∧
                ∀ row ∈ r.rows,
                  row.ratio.2 = 0 ↔ a.cmd.simulates row.cache = false ∨ references x.ops = [])
              xs results) ∧
      (tracer.lastInsIdx < a.tlbSize → (∀ x ∈ xs, (references x.ops).length < refLimit) →
        Returns (runRecordings xs) tracer fun _ _ => True) := by
  refine ⟨?_, fun hidx hlimit => Tracer.runRecordings_returns hway hle xs hlimit hready hstarted
    hret hidx⟩
  refine (recordings_listed hway hle hsize hready hset hstarted hret hrange hsorted hcount hfolder
    (by decide : tracesPath.length < 474)).mono fun _ tracer' h => ?_
  rcases h with ⟨htells, hlisted⟩
  intro fopen names s hfopen hnodup hnames
  have hpass : ∀ x ∈ xs, ∃ r, (simulateFile fopen a.ntlbSize a.pwcSize a.tlbWay a.cmd
      (tracesPath ++ '/' :: traceName x.tm a.tlbSize a.tlbWay)).run' .initial = .ok r ∧
      ∃ trace, tracer'.files (traceName x.tm a.tlbSize a.tlbWay) = some trace ∧
        (funcs a.cmd trace a.ntlbSize a.tlbWay a.pwcSize a.tlbWay .zero).run' .initial = .ok r ∧
        ∀ row ∈ r.rows,
          row.ratio.2 = 0 ↔ a.cmd.simulates row.cache = false ∨ references x.ops = [] := by
    intro x hx
    rcases htells x hx with ⟨trace, _, hfile, -⟩
    rcases simulateFile_rows hvalid ((hfopen _).trans hfile) with ⟨r, hpassed, hr, hrows⟩
    refine ⟨r, hpassed, trace, hfile, hr, ?_⟩
    rw [← (htells x hx).length_lt_iff hfile]
    exact hrows
  rcases exists_mapM_forall₂ hpass with ⟨results, hresults, hfiles⟩
  have hmap : ((listTraceFiles tracesPath a.tlbSize a.tlbWay (some names)).mapM fun file =>
      (simulateFile fopen a.ntlbSize a.pwcSize a.tlbWay a.cmd file).run' .initial) =
        .ok results := by
    rw [hlisted names hnodup hnames, List.mapM_map]
    exact hresults
  apply (main_returns hargs hmap program s).mono
  intro output _ houtput
  exact ⟨results, houtput, hfiles⟩

/-- Something was referenced during the first recording and nothing during the second one. -/
theorem recordings_main_sampleRecordings :
    Returns (runRecordings sampleRecordings) sampleOff fun _ tracer' =>
      Returns (main (fun file => tracer'.files (file.drop 9)) (some sampleNames)
          ["tlb_sim".toList, decimal 4, decimal 2, decimal 4, decimal 4, decimal 3]) .initial
        fun output _ => ∃ first second : SimResult,
          output = some (.table columns (first.rows ++ second.rows)) ∧
          (∀ row ∈ first.rows, row.ratio.2 ≠ 0) ∧ ∀ row ∈ second.rows, row.ratio.2 = 0 := by
  have hargs := readArgs_decimal ⟨4, 2, 4, 4, .scNtlbPwc⟩
  have hvalid : Sizes.ValidFor ⟨4, 2, 4, 2⟩ .scNtlbPwc := fun c _ => by cases c <;> decide
  have hmain := recordings_main hargs hvalid (by decide) (by decide) (by decide) sampleOff_ready rfl
    rfl sampleOff_ret sampleRecordings_inRange sampleRecordings_sorted (by decide)
    (fun _ _ => rfl) "tlb_sim".toList
  rcases hmain.2 (by decide) sampleRecordings_short with ⟨_, tracer', hrun, -⟩
  refine ⟨_, tracer', hrun, ?_⟩
  apply (hmain.1 _ tracer' hrun (fun file => tracer'.files (file.drop 9)) sampleNames .initial
    (fun _ => rfl) sampleNames_nodup (mem_sampleNames_iff hrun)).mono
  intro output _ h
  rcases h with ⟨results, houtput, hfiles⟩
  rw [sampleRecordings, List.forall₂_cons_left_iff] at hfiles
  rcases hfiles with ⟨first, rest, ⟨_, -, -, hrows⟩, hrest, rfl⟩
  rw [List.forall₂_cons_left_iff] at hrest
  rcases hrest with ⟨second, rest', ⟨_, -, -, hrows'⟩, hnil, rfl⟩
  cases hnil
  refine ⟨first, second, ?_, fun row hrow hzero => ?_, fun row hrow => ?_⟩
  · rw [houtput, List.flatMap_cons, List.flatMap_singleton]
  · have hor := (hrows row hrow).mp hzero
    exact hor.elim (fun hfalse => by cases hfalse) (by decide)
  · exact (hrows' row hrow).mpr (Or.inr rfl)

end TlbAnalyzer.Simulator
