import Curtail.Proofs.Index.Recovery

namespace Curtail

open Journal Json

namespace Commit

theorem numbered_append (seq : UInt64) (changes further : List Change) :
    numbered seq (changes ++ further) =
      numbered seq changes ++ numbered (seq + .ofNat changes.length) further := by
  induction changes generalizing seq with
  | nil => simp [numbered]
  | cons change changes ih =>
      rw [List.length_cons, Layout.count_succ]
      exact congrArg _ (ih (seq + 1))

def frames (seq : UInt64) (changes : List Change) : List Frame :=
  (numbered seq changes).map JournaledIndex.frameOf

theorem frames_append (seq : UInt64) (changes further : List Change) :
    frames seq (changes ++ further) =
      frames seq changes ++ frames (seq + .ofNat changes.length) further := by
  rw [frames, numbered_append, List.map_append]
  rfl

theorem frames_cons (seq : UInt64) (change : Change) (after : List Change) :
    frames seq (change :: after) =
      JournaledIndex.frameOf ⟨seq + 1, change⟩ :: frames (seq + 1) after := rfl

end Commit

open Commit

def journalOf (changes : List Change) : Bytes := header ++ (frames 0 changes).flatMap Frame.bytes

namespace JournaledIndex

/-- Goes on with a recovery at `offset`, over what is left of the journal. -/
def resume (index : Index) (seq : UInt64) (offset : Nat) (bytes : Bytes) :
    Except StoreError (Index × UInt64 × Option Nat) :=
  let transcript : Transcript Commit := scan .permissive (commits decode) offset bytes
  match replay index seq transcript.items with
  | .error e => .error e
  | .ok (index, seq) =>
    match transcript.failure with
    | some e => .error (.journal e)
    | none => .ok (index, seq, transcript.torn)

theorem recover_header (bytes : Bytes) :
    recover (header ++ bytes) = resume .empty 0 headerSize bytes := by
  unfold recover
  rw [readJournal_header]
  rfl

section Resume

variable (index : Index) (seq : UInt64) (offset : Nat)

theorem resume_nil : resume index seq offset [] = .ok (index, seq, none) := by
  unfold resume
  rw [scan_nil]
  rfl

theorem resume_unreadable {bytes : Bytes} {e : JournalError}
    (failed : readFrame .permissive offset bytes = .error e) :
    resume index seq offset bytes = .error (.journal e) := by
  unfold resume
  rw [scan_of_error failed]
  rfl

theorem resume_refused {bytes rest : Bytes} {frame : Frame} {e : JournalError}
    (read : readFrame .permissive offset bytes = .ok (.frame frame rest))
    (refused : (commits decode frame : Except _ (Option Commit)) = .error e) :
    resume index seq offset bytes = .error (.journal e) := by
  unfold resume
  rw [scan_of_frame read, refused]
  rfl

theorem resume_torn {bytes : Bytes} (torn : readFrame .permissive offset bytes = .ok .torn) :
    resume index seq offset bytes = .ok (index, seq, some offset) := by
  unfold resume
  rw [scan_of_torn torn]
  rfl

theorem resume_foreign {frame : Frame} (unlike : frame.kind ≠ commitKind) (fits : frame.Fits)
    (rest : Bytes) : resume index seq offset (frame.bytes ++ rest) =
      resume index seq (offset + frame.bytes.length) rest := by
  have passed : (commits decode frame : Except _ (Option Commit)) = .ok none := if_pos unlike
  unfold resume
  rw [scan_bytes fits passed]
  rfl

theorem resume_read {frame : Frame} (fits : frame.Fits) {found : Commit}
    (selected : commits decode frame = .ok (some found)) (rest : Bytes) :
    resume index seq offset (frame.bytes ++ rest) =
      if found.seq ≠ seq + 1 then .error (.replay found.seq (.outOfOrder (seq + 1)))
      else match index.check found.change with
        | .error cause => .error (.replay found.seq (.rejected cause))
        | .ok () => resume (index.apply found.change) found.seq (offset + frame.bytes.length) rest := by
  unfold resume
  rw [scan_bytes fits selected]
  simp only [Transcript.cons, replay]
  by_cases next : found.seq ≠ seq + 1
  · simp only [if_pos next]
  · simp only [if_neg next]
    cases index.check found.change <;> rfl

theorem resume_commit {commit : Commit} (fits : (frameOf commit).Fits) :
    (∃ e, ∀ rest, resume index seq offset ((frameOf commit).bytes ++ rest) = .error e) ∨
    commit.seq = seq + 1 ∧ ∃ reached, ∀ rest, resume index seq offset ((frameOf commit).bytes ++ rest) =
      resume reached commit.seq (offset + (frameOf commit).bytes.length) rest := by
  cases selected : (commits decode (frameOf commit) : Except _ (Option Commit)) with
  | error e =>
      exact .inl ⟨.journal e, fun rest =>
        resume_refused index seq offset (readFrame_bytes fits .permissive offset rest) selected⟩
  | ok item =>
      obtain ⟨found, rfl, number⟩ := seq_of_commits selected
      have read := resume_read index seq offset fits selected
      rw [← number]
      by_cases unlike : found.seq ≠ seq + 1
      · simp only [if_pos unlike] at read
        exact .inl ⟨_, read⟩
      · simp only [if_neg unlike] at read
        cases checked : index.check found.change with
        | error cause =>
            simp only [checked] at read
            exact .inl ⟨_, read⟩
        | ok _ =>
            simp only [checked] at read
            exact .inr ⟨not_not.mp unlike, _, read⟩

theorem resume_frames {changes : List Change} {seq : UInt64}
    (fits : ∀ frame ∈ frames seq changes, frame.Fits) (index : Index) (offset : Nat) :
    (∃ e, ∀ rest, resume index seq offset ((frames seq changes).flatMap Frame.bytes ++ rest) =
      .error e) ∨
    ∃ reached, ∀ rest, resume index seq offset ((frames seq changes).flatMap Frame.bytes ++ rest) =
      resume reached (seq + .ofNat changes.length)
        (offset + ((frames seq changes).flatMap Frame.bytes).length) rest := by
  induction changes generalizing seq index offset with
  | nil =>
      refine .inr ⟨index, fun rest => ?_⟩
      simp [frames, numbered]
  | cons change changes ih =>
      have first := fits _ List.mem_cons_self
      have others := fun frame member => fits frame (List.mem_cons_of_mem _ member)
      have front : (frames seq (change :: changes)).flatMap Frame.bytes =
          (frameOf ⟨seq + 1, change⟩).bytes ++ (frames (seq + 1) changes).flatMap Frame.bytes := rfl
      simp only [front, List.append_assoc]
      rcases resume_commit index seq offset first with ⟨e, failed⟩ | ⟨-, next, goes⟩
      · exact .inl ⟨e, fun rest => failed _⟩
      · rcases ih others next (offset + (frameOf ⟨seq + 1, change⟩).bytes.length) with
          ⟨e, failed⟩ | ⟨reached, further⟩
        · exact .inl ⟨e, fun rest => (goes _).trans (failed rest)⟩
        · refine .inr ⟨reached, fun rest => ?_⟩
          rw [goes, further, List.length_cons, Layout.count_succ, List.length_append, Nat.add_assoc]

end Resume

def settle (file : Bytes) : Except StoreError (Index × UInt64 × Option Nat) →
    Except (StoreError × Option Bytes) (JournaledIndex × Bytes)
  | .error e => .error (e, some file)
  | .ok (index, seq, none) => .ok (⟨index, ⟨file.length⟩, seq⟩, file)
  | .ok (index, seq, some offset) =>
    match (⟨file.length⟩ : Writer).truncate file offset with
    | (.error e, _, file) => .error (.journal e, some file)
    | (.ok (), writer, file) => .ok (⟨index, writer, seq⟩, file)

theorem start_header (bytes : Bytes) : start .standard (some (header ++ bytes)) =
    settle (header ++ bytes) (resume .empty 0 headerSize bytes) := by
  have recovered : recover? .standard (some (header ++ bytes)) = resume .empty 0 headerSize bytes :=
    recover_header bytes
  unfold start
  rw [recovered, Writer.attempt_header]
  rcases resume .empty 0 headerSize bytes with e | ⟨index, seq, _ | offset⟩ <;> rfl

theorem start_front {changes : List Change} (fits : ∀ frame ∈ frames 0 changes, frame.Fits) :
    (∃ e, ∀ rest, start .standard (some (journalOf changes ++ rest)) =
      .error (e, some (journalOf changes ++ rest))) ∨
    ∃ reached, ∀ rest, start .standard (some (journalOf changes ++ rest)) =
      settle (journalOf changes ++ rest)
        (resume reached (.ofNat changes.length) (journalOf changes).length rest) := by
  have parts (rest : Bytes) : journalOf changes ++ rest =
      header ++ ((frames 0 changes).flatMap Frame.bytes ++ rest) := List.append_assoc ..
  have length : (journalOf changes).length =
      headerSize + ((frames 0 changes).flatMap Frame.bytes).length := List.length_append
  rcases resume_frames fits .empty headerSize with ⟨e, failed⟩ | ⟨reached, goes⟩
  · refine .inl ⟨e, fun rest => ?_⟩
    rw [parts, start_header, failed]
    rfl
  · refine .inr ⟨reached, fun rest => ?_⟩
    rw [parts, start_header, goes, UInt64.zero_add, length]

end JournaledIndex

namespace Layout

variable {offset : Nat} {seq : UInt64} {index : Index} {entries : List Entry} {bytes : Bytes}

theorem resume_append (layout : Layout offset seq index entries bytes) (rest : Bytes) :
    JournaledIndex.resume index seq offset (bytes ++ rest) =
      JournaledIndex.resume (index.applyAll (Entry.changes entries))
        (seq + .ofNat (Entry.changes entries).length) (offset + bytes.length) rest := by
  induction layout with
  | nil => simp [Entry.changes, Index.applyAll]
  | @cons offset seq next index later frame change entries bytes written fits layout ih =>
      rw [List.append_assoc, List.length_append, ← Nat.add_assoc]
      cases written with
      | @commit change writable accepted =>
          rw [JournaledIndex.resume_read _ _ _ fits (Commit.commits_of_isWritable writable),
            if_neg (by simp)]
          simp only [accepted, ih]
          rw [← count_succ]
          rfl
      | foreign unlike =>
          rw [JournaledIndex.resume_foreign _ _ _ unlike fits, ih]
          rfl

end Layout

theorem Keeps.start_append {entries : List Entry} {store : JournaledIndex} {file : Bytes}
    (keeps : Keeps entries store file) (rest : Bytes) :
    JournaledIndex.start .standard (some (file ++ rest)) =
      JournaledIndex.settle (file ++ rest)
        (JournaledIndex.resume store.index store.seq file.length rest) := by
  obtain ⟨bytes, rfl, layout⟩ := keeps.layout
  rw [List.append_assoc, JournaledIndex.start_header, layout.resume_append, keeps.index, keeps.seq,
    UInt64.zero_add, List.length_append, length_header]

/-- A store that has written these commits, and its file, which nobody else has touched. -/
inductive Recorded : List Change → JournaledIndex → Bytes → Prop
  | opened {given : Option Bytes} {store : JournaledIndex} {file : Bytes} :
      given = none ∨ given = some [] → JournaledIndex.start .standard given = .ok (store, file) →
      Recorded [] store file
  | committed {changes : List Change} {store after : JournaledIndex} {file longer : Bytes}
      {fate : WriteFate} {change : Change} :
      Recorded changes store file → store.commit file fate change = (.ok (), after, longer) →
      Recorded (changes ++ [change]) after longer
  | refused {changes : List Change} {store after : JournaledIndex} {file left : Bytes}
      {fate : WriteFate} {change : Change} {e : StoreError} :
      Recorded changes store file → store.commit file fate change = (.error e, after, left) →
      Recorded changes after left
  | reopened {changes : List Change} {store after : JournaledIndex} {file left : Bytes} :
      Recorded changes store file → JournaledIndex.start .standard (some file) = .ok (after, left) →
      Recorded changes after left

structure Records (changes : List Change) (store : JournaledIndex) (file : Bytes) : Prop where
  whole : file = journalOf changes
  fits : ∀ frame ∈ frames 0 changes, frame.Fits
  seq : store.seq = .ofNat changes.length
  writer : store.writer = ⟨file.length⟩

theorem Records.headed {changes : List Change} {store : JournaledIndex} {file : Bytes}
    (records : Records changes store file) : headerSize ≤ file.length := by
  rw [records.whole]
  exact headerSize_le _

theorem Recorded.records {changes : List Change} {store : JournaledIndex} {file : Bytes}
    (recorded : Recorded changes store file) : Records changes store file := by
  induction recorded with
  | opened fresh started =>
      rw [(Keeps.opened fresh).1] at started
      cases started
      exact ⟨rfl, nofun, rfl, rfl⟩
  | @committed changes store _ _ _ _ change before done records =>
      rcases JournaledIndex.commit_cases records.writer records.headed done with ⟨e, failed, -⟩ | accepted
      · cases failed
      · obtain ⟨-, -, fits, rfl, rfl⟩ := accepted
        have added : frames 0 (changes ++ [change]) =
            frames 0 changes ++ [JournaledIndex.frameOf ⟨store.seq + 1, change⟩] := by
          rw [frames_append, UInt64.zero_add, ← records.seq]
          rfl
        refine ⟨?_, ?_, ?_, rfl⟩
        · rw [records.whole, journalOf, journalOf, added, List.flatMap_append, List.append_assoc]
          simp
        · rw [added, List.forall_mem_append]
          exact ⟨records.fits, List.forall_mem_singleton.mpr fits⟩
        · have count : (changes ++ [change]).length = changes.length + 1 := List.length_append
          rw [count, UInt64.ofNat_add]
          exact congrArg (· + 1) records.seq
  | refused before failed records =>
      rcases JournaledIndex.commit_cases records.writer records.headed failed with ⟨-, -, rfl, rfl⟩ | accepted
      · exact records
      · cases accepted.1
  | @reopened changes _ _ _ _ before started records =>
      rw [records.whole, ← List.append_nil (journalOf changes)] at started
      rcases JournaledIndex.start_front records.fits with ⟨e, failed⟩ | ⟨reached, goes⟩
      · rw [failed] at started
        cases started
      · rw [goes, JournaledIndex.resume_nil, List.append_nil] at started
        cases started
        exact ⟨rfl, records.fits, rfl, rfl⟩

end Curtail
