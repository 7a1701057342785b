/-
# The trace file format

A trace file is a sequence of 4-tuples of `uint32_t`. The tracer writes words
from its buffer and the simulator reads them back with
`fread(t, sizeof(uint32_t), 4, fin) == 4`, so the two programs meet in a plain
byte string. Words are stored with the least significant byte first, as on the
x86 hosts the tools run on; both programs use the host's order, and nothing
depends on which one it is.

A short read ends the simulator's loop: incomplete words and incomplete tuples
at the end of a file are never seen.
-/

import Mathlib.Algebra.Order.Ring.Nat
import Mathlib.Data.List.Basic

namespace TlbAnalyzer.TraceFile

/-- The four bytes of a word in a file. -/
def wordBytes (word : BitVec 32) : List (BitVec 8) :=
  [BitVec.ofNat 8 word.toNat, BitVec.ofNat 8 (word.toNat / 2 ^ 8),
    BitVec.ofNat 8 (word.toNat / 2 ^ 16), BitVec.ofNat 8 (word.toNat / 2 ^ 24)]

/-- The word stored in four bytes. -/
def wordOfBytes (b₀ b₁ b₂ b₃ : BitVec 8) : BitVec 32 :=
  BitVec.ofNat 32 (b₀.toNat + 2 ^ 8 * b₁.toNat + 2 ^ 16 * b₂.toNat + 2 ^ 24 * b₃.toNat)

/-- Join complete groups of four items; what is left over is dropped. -/
def joinFours {α β : Type} (join : α → α → α → α → β) : List α → List β
  | a :: b :: c :: d :: rest => join a b c d :: joinFours join rest
  | _ => []

/-- The complete words of a byte string. -/
def readWords (file : List (BitVec 8)) : List (BitVec 32) := joinFours wordOfBytes file

/-- The 4-tuple `t[0] .. t[3]`, under the names of the format description. -/
structure TraceRecord where
  /-- Page of the input address, or-ed with the result of the page walk. -/
  mva : BitVec 32
  /-- Address of the first level descriptor. -/
  l1Pa : BitVec 32
  /-- Address of the second level descriptor. -/
  l2Pa : BitVec 32
  /-- Output address. -/
  pa : BitVec 32
  deriving DecidableEq

namespace TraceRecord

/-- The expression `t[0] & 0xF` every simulation passes as the level. -/
def level (t : TraceRecord) : ℕ := (t.mva &&& 0xF#32).toNat

/-- The words of a record, in file order. -/
def words (t : TraceRecord) : List (BitVec 32) := [t.mva, t.l1Pa, t.l2Pa, t.pa]

end TraceRecord

/-- The records the simulator's loop passes to its body, in order. -/
def readRecords (file : List (BitVec 8)) : List TraceRecord :=
  joinFours TraceRecord.mk (readWords file)

/-! ## Reading back what was written -/

theorem wordOfBytes_wordBytes (word : BitVec 32) :
    wordOfBytes (BitVec.ofNat 8 word.toNat) (BitVec.ofNat 8 (word.toNat / 2 ^ 8))
      (BitVec.ofNat 8 (word.toNat / 2 ^ 16)) (BitVec.ofNat 8 (word.toNat / 2 ^ 24)) = word := by
  apply BitVec.eq_of_toNat_eq
  have hword := word.isLt
  simp only [wordOfBytes, BitVec.toNat_ofNat]
  omega

theorem readWords_flatMap_wordBytes (words : List (BitVec 32)) :
    readWords (words.flatMap wordBytes) = words := by
  induction words with
  | nil => rfl
  | cons word words ih =>
      show wordOfBytes _ _ _ _ :: readWords (words.flatMap wordBytes) = word :: words
      rw [wordOfBytes_wordBytes, ih]

/-- A file that holds the words of some records is read back as those records. -/
theorem readRecords_of_words (records : List TraceRecord) :
    readRecords ((records.flatMap TraceRecord.words).flatMap wordBytes) = records := by
  rw [readRecords, readWords_flatMap_wordBytes]
  induction records with
  | nil => rfl
  | cons record records ih =>
      show record :: joinFours TraceRecord.mk (records.flatMap TraceRecord.words) =
        record :: records
      rw [ih]

/-! ## Incomplete data at the end of a file -/

section JoinFours

variable {α β : Type} (join : α → α → α → α → β)

theorem joinFours_of_short {items : List α} (h : items.length < 4) :
    joinFours join items = [] :=
  match items, h with
  | [], _ | [_], _ | [_, _], _ | [_, _, _], _ => rfl

theorem exists_four_of_length {items : List α} (h : 4 ≤ items.length) :
    ∃ a b c d rest, items = a :: b :: c :: d :: rest :=
  match items, h with
  | a :: b :: c :: d :: rest, _ => ⟨a, b, c, d, rest, rfl⟩

theorem joinFours_take (n : ℕ) (items : List α) :
    joinFours join (items.take (4 * n)) = (joinFours join items).take n := by
  induction n generalizing items with
  | zero => rfl
  | succ n ih =>
      by_cases hlength : 4 ≤ items.length
      · obtain ⟨a, b, c, d, rest, rfl⟩ := exists_four_of_length hlength
        simp [Nat.mul_succ, joinFours, ih]
      · have hshort : items.length < 4 := Nat.lt_of_not_le hlength
        rw [joinFours_of_short join hshort, joinFours_of_short]
        · rfl
        · exact Nat.lt_of_le_of_lt (List.length_take_le' _ _) hshort

theorem length_joinFours (items : List α) :
    (joinFours join items).length = items.length / 4 := by
  induction items using joinFours.induct with
  | case1 a b c d rest ih =>
      simp only [joinFours, List.length_cons, ih]
      omega
  | case2 items hshort =>
      have hlength : items.length < 4 := by
        by_contra hlong
        obtain ⟨a, b, c, d, rest, hitems⟩ := exists_four_of_length (Nat.le_of_not_lt hlong)
        exact hshort a b c d rest hitems
      rw [joinFours_of_short join hlength, List.length_nil, Nat.div_eq_of_lt hlength]

end JoinFours

/-- One record for every complete group of 16 bytes. -/
theorem length_readRecords (file : List (BitVec 8)) :
    (readRecords file).length = file.length / 16 := by
  rw [readRecords, readWords, length_joinFours, length_joinFours, Nat.div_div_eq_div_mul]

/-- The first bytes of a file hold its first records. -/
theorem readRecords_take (n : ℕ) (file : List (BitVec 8)) :
    readRecords (file.take (16 * n)) = (readRecords file).take n := by
  have hsplit : 16 * n = 4 * (4 * n) := by omega
  rw [readRecords, readWords, hsplit, joinFours_take, joinFours_take, ← readWords, ← readRecords]

/-- Bytes after the last complete group of 16 change nothing. -/
theorem readRecords_take_complete (file : List (BitVec 8)) :
    readRecords (file.take (16 * (file.length / 16))) = readRecords file := by
  have hsplit : 16 * (file.length / 16) = 4 * (4 * (file.length / 16)) := by omega
  rw [readRecords, readWords, hsplit, joinFours_take, joinFours_take, ← readWords,
    ← readRecords, ← length_readRecords, List.take_length]

/-- A file that was cut off, wherever it was, has the first records of the whole file. -/
theorem readRecords_mono {part whole : List (BitVec 8)} (h : part <+: whole) :
    readRecords part <+: readRecords whole := by
  rcases h with ⟨rest, rfl⟩
  have hcomplete : (part ++ rest).take (16 * (part.length / 16)) =
      part.take (16 * (part.length / 16)) :=
    List.take_append_of_le_length (Nat.mul_div_le part.length 16)
  rw [← readRecords_take_complete part, ← hcomplete, readRecords_take]
  exact List.take_prefix _ _

end TlbAnalyzer.TraceFile
