/-
# A session that is cut off

The emulator may be killed while a session is running, and a trace may be read before the
session has ended. What is then in the file are the buffers that were written out. The
buffer holds whole records and is written out when it is full, so the file has whole
records too: a first part of those that the session would have left, less than one buffer
behind.
-/

import TlbAnalyzer.Tracer.Completeness

namespace TlbAnalyzer.Tracer

open Cache Math TraceFile

variable {α : Type} {s s' : Globals α} {size set : ℕ}

theorem length_wordBytes (words : List (BitVec 32)) :
    (words.flatMap wordBytes).length = 4 * words.length := by
  induction words with
  | nil => rfl
  | cons word words ih =>
      rw [List.flatMap_cons, List.length_append, ih, List.length_cons, Nat.mul_succ, Nat.add_comm]
      rfl

theorem length_recordWords (records : List TraceRecord) :
    (records.flatMap TraceRecord.words).length = 4 * records.length := by
  induction records with
  | nil => rfl
  | cons record records ih =>
      rw [List.flatMap_cons, List.length_append, ih, List.length_cons, Nat.mul_succ, Nat.add_comm]
      rfl

/-- At every time of a session the file has all but the last records, and those are fewer than
the buffer can hold. -/
theorem Logged.file_eq {helper : α → BitVec 32 → PteResult} {name : FileName} {n : ℕ}
    {missing : List (Ref α)} (h : Logged s helper name n missing) :
    ∃ bytes written, s.files name = some bytes ∧ written <+: missing ∧
      bytes = ((written.map (Ref.record helper)).flatMap TraceRecord.words).flatMap wordBytes ∧
      missing.length < written.length + fbufWords / 4 := by
  rcases h.carries.content with ⟨words, bytes, -, hfile, hbytes⟩
  have hmod := h.fbc_mod
  have hlt := h.fbc_lt
  have hwords : fbufWords = 8388608 := rfl
  -- the records that are still in the buffer
  have hlength := congrArg List.length hbytes
  rw [List.length_append, length_wordBytes, length_wordBytes, length_recordWords, List.length_map,
    List.length_map, List.length_range] at hlength
  set k := missing.length - s.fbc / 4
  refine ⟨bytes, missing.take k, hfile, List.take_prefix k missing, ?_, ?_⟩
  · have hsplit : (missing.map (Ref.record helper)).flatMap TraceRecord.words =
        ((missing.take k).map (Ref.record helper)).flatMap TraceRecord.words ++
          ((missing.drop k).map (Ref.record helper)).flatMap TraceRecord.words := by
      rw [← List.flatMap_append, ← List.map_append, List.take_append_drop]
    rw [hsplit, List.flatMap_append] at hbytes
    refine List.append_inj_left hbytes ?_
    rw [length_wordBytes, length_recordWords, List.length_map, List.length_take]
    omega
  · rw [List.length_take]
    omega

/-- Whenever a session is cut off, its file consists of whole records, fewer than `2 ^ 21` of the
misses so far are not in it, and however the session would have gone on, the records of the file
are the first ones of those that it would have left. Every session gets that far below the limit,
when the last instruction fetch before it used a slot that exists. -/
theorem session_interrupted (hset : 1 ≤ set) (hle : set ≤ size) (hready : Ready s size set)
    (hstarted : s.started = false) (tm : Tm) (fresh : ℕ → BitVec 32) (ops : List (Op α)) :
    (Ensures (do tlbtraceToggle tm fresh; runOps ops) s fun _ s' =>
      ∃ bytes, s'.files (traceName tm s.geometry.entries s.tlbSet) = some bytes ∧
        bytes.length = 16 * (readRecords bytes).length ∧
        (readRecords bytes).length ≤ s'.slCnt.miss ∧
        s'.slCnt.miss < (readRecords bytes).length + 2 ^ 21 ∧
        ∀ later : List (Op α), Ensures (do runOps later; tlbtraceToggle tm fresh) s' fun _ final =>
          ∃ bytes', final.files (traceName tm s.geometry.entries s.tlbSet) = some bytes' ∧
            readRecords bytes <+: readRecords bytes') ∧
      (s.lastInsIdx < size → (references ops).length < refLimit →
        Returns (do tlbtraceToggle tm fresh; runOps ops) s fun _ _ => True) := by
  have hkept : Kept ({ s with started := true }.opened tm fresh) s.myPteHelper
      (traceName tm s.geometry.entries s.tlbSet) 0 [] [] := Kept.opened rfl tm fresh
  refine ⟨?_, fun hidx hlimit => (toggled_runOps_returns hset hle hready hstarted hidx tm fresh ops
    hlimit).mono fun _ _ _ => trivial⟩
  rw [Ensures.known_bind_iff (tlbtraceToggle_returns hready hstarted tm fresh)]
  refine (hkept.run hset hle ops (hready.toggled tm fresh)).mono fun _ s₁ hs₁ => ?_
  rcases hs₁ with ⟨hrunning, missing, -, h₁⟩
  rcases h₁.logged.file_eq with ⟨bytes, written, hfile, hwritten, rfl, hbuffer⟩
  have hrecords := readRecords_of_words (written.map (Ref.record s.myPteHelper))
  have hmisses := h₁.logged.misses
  refine ⟨_, hfile, ?_, ?_, ?_, fun later => ?_⟩
  · rw [hrecords, length_wordBytes, length_recordWords, ← Nat.mul_assoc]
  · rw [hrecords, List.length_map, hmisses]
    exact hwritten.length_le
  · rw [hrecords, List.length_map, hmisses]
    exact hbuffer
  · rw [Ensures.bind_iff]
    refine (h₁.run hset hle later hrunning).mono fun _ s₂ hs₂ => ?_
    rcases hs₂ with ⟨-, missing', hmore, h₂⟩
    refine (h₂.logged.closed h₂.started tm fresh).ensures.mono fun _ final hfinal => ?_
    rcases hfinal with ⟨bytes', hfile', hrecords'⟩
    refine ⟨bytes', hfile', ?_⟩
    rw [hrecords, hrecords']
    exact (hwritten.trans hmore).map _

/-- All misses of the session are still in the buffer. -/
theorem session_interrupted_sampleOps :
    Returns (do tlbtraceToggle sampleTm (fun _ => 0#32); runOps sampleOps)
      { sampleTracer 4 2 with started := false } fun _ s' =>
        ∃ bytes, s'.files (traceName sampleTm 4 2) = some bytes ∧
          s'.slCnt.miss < (readRecords bytes).length + 2 ^ 21 := by
  have hready : Ready { sampleTracer 4 2 with started := false } 4 2 := ⟨rfl, rfl⟩
  have hcut := session_interrupted (by decide) (by decide) hready rfl sampleTm (fun _ => 0#32)
    sampleOps
  apply ((hcut.2 (by decide) (by decide)).and_ensures hcut.1).mono
  rintro _ s' ⟨-, bytes, hfile, -, -, hbuffer, -⟩
  exact ⟨bytes, hfile, hbuffer⟩

end TlbAnalyzer.Tracer
