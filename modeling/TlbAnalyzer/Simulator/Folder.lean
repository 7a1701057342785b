/-
# Simulating a folder of traces

`tlbsim_sim` looks for the trace files of one TLB in a folder and simulates each
of them. This module is that part of the program: the string functions it uses,
the selection of the files, and the loop over them.

Strings are lists of characters without the terminating zero. `snprintf` writes
into a buffer of a given size and cuts what does not fit. A folder is the list
of names in the order in which `readdir` returns them, or nothing when it cannot
be opened, and `fopen` finds the contents of a file by its path.
-/

import Mathlib.Data.Char
import Mathlib.Data.List.Sort
import TlbAnalyzer.Simulator.Program
import TlbAnalyzer.Tracer.Program

namespace TlbAnalyzer.Simulator

open Cache
open Tracer (FileName decimal)

/-! ## Strings -/

/-- The text `snprintf` leaves in a buffer of `size` bytes, one of them for the
terminating zero. -/
def snprintf (size : ℕ) (text : List Char) : List Char := text.take (size - 1)

/-- Whether `strstr` finds the needle. -/
def strstr (needle : List Char) : List Char → Bool
  | [] => needle.isPrefixOf []
  | c :: rest => needle.isPrefixOf (c :: rest) || strstr needle rest

/-- The sign of `strcmp`. -/
def strcmp : List Char → List Char → Ordering
  | [], [] => .eq
  | [], _ :: _ => .lt
  | _ :: _, [] => .gt
  | a :: first, b :: second => (compare a b).then (strcmp first second)

/-! ## The trace files of a TLB -/

/-- `MAX_TRACE_FILES`, which the loop repeats as a number. -/
def maxTraceFiles : ℕ := 128

/-- The text `_%d.%d` that `list_trace_files` looks for. -/
def traceSuffix (tlbSize tlbWay : ℕ) : List Char :=
  snprintf 32 ('_' :: decimal tlbSize ++ '.' :: decimal tlbWay)

/-- The two tests a directory entry has to pass. -/
def isTraceOf (tlbSize tlbWay : ℕ) (name : FileName) : Bool :=
  strstr (traceSuffix tlbSize tlbWay) name && ['t', 'r', 'a', 'c', 'e', '_'].isPrefixOf name

/-- The path of a directory entry, `%s/%s`, as it is stored in `trace_files`. -/
def tracePath (path : List Char) (name : FileName) : FileName := snprintf 512 (path ++ '/' :: name)

/-- The loop over the directory: what it has collected, and the names to come. -/
def collect (path : List Char) (tlbSize tlbWay : ℕ) :
    (traceFiles names : List FileName) → List FileName
  | traceFiles, [] => traceFiles
  | traceFiles, name :: names =>
      if isTraceOf tlbSize tlbWay name then
        let traceFiles' := traceFiles ++ [tracePath path name]
        if traceFiles'.length = maxTraceFiles then traceFiles'
        else collect path tlbSize tlbWay traceFiles' names
      else collect path tlbSize tlbWay traceFiles names

/-- `list_trace_files`, as the contents of `trace_files`. -/
def listTraceFiles (path : List Char) (tlbSize tlbWay : ℕ) (readdir : Option (List FileName)) :
    List FileName :=
  match readdir with
  | none => []
  | some names =>
      (collect path tlbSize tlbWay [] names).insertionSort fun p₁ p₂ => (strcmp p₁ p₂).isLE

/-! ## The loop over the files -/

/-- The table `funcs`. -/
def funcs : SimCmd → List (BitVec 8) → ℕ → ℕ → ℕ → ℕ → SimResult → SimM SimResult
  | .scNtlb => tlbsimSimNtlb
  | .scPwcEpt => tlbsimSimPwcEpt
  | .scPwcNoept => tlbsimSimPwcNoept
  | .scNtlbPwc => tlbsimSimNtlbPwc

/-- A result after `memset`. -/
def SimResult.zero : SimResult := ⟨0, ⟨0, 0⟩, ⟨0, 0⟩⟩

/-- One pass of the loop: `funcs[cmd](trace_files[i], ntlb_size, way, pwc_size, way,
results[i])`. Reading from a file that `fopen` could not open is an error. -/
def simulateFile (fopen : FileName → Option (List (BitVec 8))) (ntlbSize pwcSize way : ℕ)
    (cmd : SimCmd) (file : FileName) : SimM SimResult :=
  match fopen file with
  | none => throw .noFile
  | some trace => funcs cmd trace ntlbSize way pwcSize way .zero

/-- `tlbsim_sim`. The list ends with a null pointer. -/
def tlbsimSim (fopen : FileName → Option (List (BitVec 8))) (readdir : Option (List FileName))
    (tlbSize ntlbSize pwcSize way : ℕ) (cmd : SimCmd) (path : List Char) :
    SimM (List (Option SimResult)) := do
  let results ← (listTraceFiles path tlbSize way readdir).mapM
    (simulateFile fopen ntlbSize pwcSize way cmd)
  return results.map some ++ [none]

end TlbAnalyzer.Simulator
