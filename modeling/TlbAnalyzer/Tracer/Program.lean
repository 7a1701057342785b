/-
# The tracer program

`tlb_trace.c` filters the memory references of a guest through a set-associative
TLB and records a page table walk for every miss. This module is the program:
its globals, one definition for each C function, and the operations a guest
drives it with.

The table and the record buffer are heap blocks. `slCap` counts the entries that
are allocated for the table, and `Buffer` says whether the record buffer is
allocated; an access beyond either is a `Fault`. What `malloc` leaves in a block
is an argument of the function that allocates it. Files are a map from names to
contents, `write` writes everything it is given, and a file is only ever written
through the descriptor that truncated it, so that writing is appending. The page
table helper is a callback of the program that links the tracer, hence a global
here as it is there.

The counters of the C program are 64 bits wide and only ever incremented; they
are natural numbers, like the clock.
-/

import Mathlib.Logic.Function.Basic
import TlbAnalyzer.Cache.Geometry
import TlbAnalyzer.TraceFile.Format

namespace TlbAnalyzer.Tracer

open Cache TraceFile

/-- What `pte_helper` returns and leaves in its three output arguments. -/
structure PteResult where
  ret : BitVec 32
  l1 : BitVec 32
  l2 : BitVec 32
  gpa : BitVec 32
  deriving DecidableEq

/-- The record buffer `fbuf`. -/
inductive Buffer
  | null
  | live (words : ℕ → BitVec 32)
  | freed

/-- The fields of `struct tm` that the file name uses. -/
structure Tm where
  mon : ℕ
  mday : ℕ
  hour : ℕ
  min : ℕ
  deriving DecidableEq

/-- Names are lists of characters, so that they can be taken apart. -/
abbrev FileName := List Char

/-- The globals of `tlb_trace.c`, and the files it writes. `α` is what the `arg`
pointers point to. -/
structure Globals (α : Type) where
  /-- `tlb_size`, `tlb_set_step`, `tlb_set_mask`. -/
  geometry : Geometry
  tlbSet : ℕ
  slTlb : ℕ → TlbEntry
  /-- Allocated entries of `sl_tlb`, none when it is a null pointer. -/
  slCap : ℕ
  slCnt : TlbCounter
  systs : ℕ
  started : Bool
  /-- The file that the descriptor `fout` is open on. -/
  fout : Option FileName
  fbc : ℕ
  fbuf : Buffer
  lastInsIdx : ℕ
  myPteHelper : α → BitVec 32 → PteResult
  files : FileName → Option (List (BitVec 8))

/-- Why a call does not return: it left the behaviour C defines, or the process
exited. -/
inductive Halt (α : Type)
  | fault (f : Fault)
  | exit (final : Globals α)

/-- A function of the tracer. -/
abbrev TraceM (α : Type) := StateT (Globals α) (Except (Halt α))

/-- Capacity of the record buffer, in words. -/
def fbufWords : ℕ := 1024 * 1024 * 8

/-- The number of references after which the next miss ends the process. -/
def refLimit : ℕ := 150000000000

variable {α : Type}

namespace Globals

/-- The globals when the process starts. -/
def initial (helper : α → BitVec 32 → PteResult) : Globals α where
  geometry := ⟨0, 0, 0#32⟩
  tlbSet := 0
  slTlb := fun _ => ⟨0#32, 0#32, 0⟩
  slCap := 0
  slCnt := ⟨0, 0⟩
  systs := 0
  started := false
  fout := none
  fbc := 0
  fbuf := .null
  lastInsIdx := 0
  myPteHelper := helper
  files := fun _ => none

/-- Store an entry in a slot, stamp it with `++systs` and count the reference. -/
def use (s : Globals α) (hit : Bool) (i : ℕ) (e : TlbEntry) : Globals α :=
  { s with
    systs := s.systs + 1
    slTlb := Function.update s.slTlb i { e with ts := stampOf (s.systs + 1) }
    slCnt := if hit then { s.slCnt with hit := s.slCnt.hit + 1 }
      else { s.slCnt with miss := s.slCnt.miss + 1 } }

/-- `if(ins) last_ins_idx = i`. -/
def fetched (s : Globals α) (ins : Bool) (i : ℕ) : Globals α :=
  if ins then { s with lastInsIdx := i } else s

/-- Append to the file `fout` is open on. Writing to a closed descriptor has no
effect. -/
def appendFile (s : Globals α) (bytes : List (BitVec 8)) : Globals α :=
  match s.fout with
  | none => s
  | some name =>
      { s with
        files := Function.update s.files name (some ((s.files name).getD [] ++ bytes)) }

end Globals

/-! ## Files and the record buffer -/

/-- `%d` for a number that is not negative. -/
def decimal (n : ℕ) : List Char := Nat.toDigits 10 n

/-- `%02d` for a number that is not negative. -/
def twoDigits (n : ℕ) : List Char := (decimal n).leftpad 2 '0'

/-- The name `tlbtrace_start` gives the trace file,
`trace_%02d%02d_%02d%02d_%d.%d`. -/
def traceName (tm : Tm) (size set : ℕ) : FileName :=
  ['t', 'r', 'a', 'c', 'e', '_'] ++ twoDigits (tm.mon + 1) ++ twoDigits tm.mday ++ ['_'] ++
    twoDigits tm.hour ++ twoDigits tm.min ++ ['_'] ++ decimal size ++ ['.'] ++ decimal set

/-- `open(buf, O_WRONLY | O_CREAT | O_TRUNC, 0644)`. -/
def openTrace (name : FileName) : TraceM α Unit :=
  modify fun s => { s with fout := some name, files := Function.update s.files name (some []) }

/-- `write(fout, fbuf, sizeof(uint32_t) * n)`. A null pointer is refused by the
system call. -/
def writeBuffer (n : ℕ) : TraceM α Unit := fun s =>
  match s.fbuf with
  | .null => .ok ((), s)
  | .live words => .ok ((), s.appendFile (((List.range n).map words).flatMap wordBytes))
  | .freed => .error (.fault .noBuffer)

/-- `free(fbuf)`. -/
def freeBuffer : TraceM α Unit := fun s =>
  match s.fbuf with
  | .null => .ok ((), s)
  | .live _ => .ok ((), { s with fbuf := .freed })
  | .freed => .error (.fault .noBuffer)

/-- `fbuf[fbc++] = word`. -/
def pushWord (word : BitVec 32) : TraceM α Unit := fun s =>
  match s.fbuf with
  | .live words =>
      if s.fbc < fbufWords then
        .ok ((), { s with fbuf := .live (Function.update words s.fbc word), fbc := s.fbc + 1 })
      else .error (.fault (.outOfBounds s.fbc))
  | .null | .freed => .error (.fault .noBuffer)

/-! ## Starting and stopping -/

/-- `FLUSH_TLB` and its two variants, as the loop over the whole table they are. -/
def flushTable (flush : ℕ → (ℕ → TlbEntry) → ℕ → TlbEntry) : TraceM α Unit := fun s =>
  if s.slCap < s.geometry.entries then .error (.fault (.outOfBounds s.slCap))
  else .ok ((), { s with slTlb := flush s.geometry.entries s.slTlb })

/-- `tlbtrace_start`, at the local time `tm`. It does not touch `started` or
`last_ins_idx`. -/
def tlbtraceStart (tm : Tm) (fresh : ℕ → BitVec 32) : TraceM α Unit := do
  let s ← get
  openTrace (traceName tm s.geometry.entries s.tlbSet)
  modify fun s => { s with fbc := 0, fbuf := .live fresh }
  modify fun s => { s with systs := 0 }
  flushTable flushTlb
  modify fun s => { s with slCnt := ⟨0, 0⟩ }

/-- `tlbtrace_stop`. -/
def tlbtraceStop : TraceM α Unit := do
  let s ← get
  if s.fbc > 0 then
    writeBuffer s.fbc
  freeBuffer
  modify fun s => { s with fout := none }

/-- `tlbtrace_toggle`. -/
def tlbtraceToggle (tm : Tm) (fresh : ℕ → BitVec 32) : TraceM α Unit := do
  modify fun s => { s with started := !s.started }
  let s ← get
  if s.started then tlbtraceStart tm fresh else tlbtraceStop

/-- `tlbtrace_enabled`. -/
def tlbtraceEnabled : TraceM α Bool := do
  let s ← get
  return s.started

/-- `tlbtrace_init`. -/
def tlbtraceInit (size set : ℕ) (pteHelper : α → BitVec 32 → PteResult)
    (fresh : ℕ → TlbEntry) : TraceM α Int := do
  modify fun s => { s with
    started := false
    geometry := .ofSizeWay size set
    tlbSet := set
    slTlb := fresh
    slCap := size
    myPteHelper := pteHelper }
  return 0

/-- `tlbtrace_destroy`. -/
def tlbtraceDestroy : TraceM α Unit :=
  modify fun s => { s with started := false, slCap := 0 }

/-! ## References -/

/-- The hit test of the fast path and of the search loop. -/
def test (addr asid : BitVec 32) (e : TlbEntry) : Bool := e.va == addr && e.asid == asid

/-- `addr & 0xFFFFF000`. -/
def pageOf (addr : BitVec 32) : BitVec 32 := addr &&& 0xFFFFF000#32

/-- The end of `tlbtrace_refmem_sl` after a refill: past the limit the tracer
stops and the process exits. -/
def checkLimit : TraceM α Bool := do
  let s ← get
  if refLimit ≤ s.systs then
    tlbtraceStop
    let s ← get
    throw (.exit s)
  return false

/-- `tlbtrace_refmem_sl`: the fast path for instruction fetches, then the search
of the set, then the refill. -/
def tlbtraceRefmemSl (addr asid : BitVec 32) (ins : Bool) : TraceM α Bool := fun s =>
  if s.slCap = 0 then .error (.fault (.outOfBounds 0))
  else if ins = true ∧ s.slCap ≤ s.lastInsIdx then .error (.fault (.outOfBounds s.lastInsIdx))
  else if ins = true ∧ test addr asid (s.slTlb s.lastInsIdx) = true then
    .ok (true, s.use true s.lastInsIdx (s.slTlb s.lastInsIdx))
  else
    match s.geometry.find s.slCap s.slTlb (test addr asid) (addr >>> 12) with
    | .error f => .error (.fault f)
    | .ok (.hit i) => .ok (true, (s.use true i (s.slTlb i)).fetched ins i)
    | .ok (.miss mi) =>
        checkLimit.run
          ((s.use false mi { s.slTlb mi with va := addr, asid := asid }).fetched ins mi)

/-- `tlbtrace_refmem_pwc`: walk the page table and record the walk. -/
def tlbtraceRefmemPwc (addr : BitVec 32) (arg : α) : TraceM α Unit := do
  let s ← get
  let walk := s.myPteHelper arg addr
  pushWord (addr ||| walk.ret)
  pushWord walk.l1
  pushWord walk.l2
  pushWord walk.gpa
  let s ← get
  if s.fbc = fbufWords then
    writeBuffer fbufWords
    modify fun s => { s with fbc := 0 }

/-- `tlbtrace_refmem`. -/
def tlbtraceRefmem (addr asid : BitVec 32) (ins : Bool) (arg : α) : TraceM α Unit := do
  let hit ← tlbtraceRefmemSl (pageOf addr) asid ins
  if hit = false then
    tlbtraceRefmemPwc (pageOf addr) arg

/-! ## Flushes -/

/-- Give every matching entry the contents `FLUSH_TLB` gives it. -/
def flushMatching (test : TlbEntry → Bool) (size : ℕ) (tlb : ℕ → TlbEntry) : ℕ → TlbEntry :=
  fun idx => if idx < size ∧ test (tlb idx) = true then flushedEntry else tlb idx

/-- `FLUSH_TLB_ENTRY(tlb, size, va, asid)`. The arguments are `unsigned long`,
and the fields are widened for the comparison. -/
def flushTlbEntry (va asid : BitVec 64) : ℕ → (ℕ → TlbEntry) → ℕ → TlbEntry :=
  flushMatching fun e => e.va.setWidth 64 == va && e.asid.setWidth 64 == asid

/-- `FLUSH_TLB_ASID(tlb, size, asid)`. -/
def flushTlbAsid (asid : BitVec 64) : ℕ → (ℕ → TlbEntry) → ℕ → TlbEntry :=
  flushMatching fun e => e.asid.setWidth 64 == asid

/-- `if(!started) return; body`. -/
def whenStarted (body : TraceM α Unit) : TraceM α Unit := do
  let s ← get
  if s.started then body

/-- `tlbtrace_flush_all`. -/
def tlbtraceFlushAll : TraceM α Unit := whenStarted (flushTable flushTlb)

/-- `tlbtrace_flush_entry`. -/
def tlbtraceFlushEntry (va : BitVec 64) : TraceM α Unit :=
  whenStarted (flushTable (flushTlbEntry (va &&& 0xFFFFF000#64) (va &&& 0xFF#64)))

/-- `tlbtrace_flush_asid`. -/
def tlbtraceFlushAsid (asid : BitVec 64) : TraceM α Unit :=
  whenStarted (flushTable (flushTlbAsid asid))

/-! ## What a guest does to a session -/

/-- The operations of a session. -/
inductive Op (α : Type)
  | refmem (addr asid : BitVec 32) (ins : Bool) (arg : α)
  | flushAll
  | flushEntry (va : BitVec 64)
  | flushAsid (asid : BitVec 64)

/-- Perform one operation. -/
def Op.run : Op α → TraceM α Unit
  | .refmem addr asid ins arg => tlbtraceRefmem addr asid ins arg
  | .flushAll => tlbtraceFlushAll
  | .flushEntry va => tlbtraceFlushEntry va
  | .flushAsid asid => tlbtraceFlushAsid asid

/-- Perform operations one after another. -/
def runOps (ops : List (Op α)) : TraceM α Unit := ops.forM Op.run

end TlbAnalyzer.Tracer
