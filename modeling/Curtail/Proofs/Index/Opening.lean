import Curtail.Proofs.Index.Recorded
import Curtail.Proofs.Index.Transitions
import Curtail.Proofs.Journal.Grammar

/-!
The files that a store can be opened on, whoever wrote them, and what the store and the file are then.
Main result: `JournaledIndex.start_sound`.
-/

namespace Curtail

open Journal Json Commit

/-- A frame is passed over, or it is the next commit and its change is accepted. -/
inductive Tells : UInt64 → Index → List Frame → List Change → Prop
  | nil {seq : UInt64} {index : Index} : Tells seq index [] []
  | foreign {seq : UInt64} {index : Index} {frame : Frame} {frames : List Frame}
      {changes : List Change} : frame.kind ≠ commitKind → Tells seq index frames changes →
      Tells seq index (frame :: frames) changes
  | commit {seq : UInt64} {index : Index} {frame : Frame} {frames : List Frame} {change : Change}
      {changes : List Change} : commits decode frame = .ok (some (Commit.mk (seq + 1) change)) →
      index.check change = .ok () → Tells (seq + 1) (index.apply change) frames changes →
      Tells seq index (frame :: frames) (change :: changes)

theorem Commit.map_seq_numbered {seq : UInt64} {changes : List Change}
    (small : seq.toNat + changes.length < 2 ^ 64) :
    (numbered seq changes).map (fun commit => commit.seq.toNat) =
      List.range' (seq.toNat + 1) changes.length := by
  induction changes generalizing seq with
  | nil => rfl
  | cons change changes ih =>
      rw [List.length_cons] at small
      have next : (seq + 1).toNat = seq.toNat + 1 := by
        rw [UInt64.toNat_add, UInt64.toNat_one]
        omega
      rw [List.length_cons, List.range'_succ, ← next, ← ih (by omega)]
      rfl

theorem kind_of_commits {frame : Frame} {found : Commit}
    (selected : commits decode frame = .ok (some found)) : frame.kind = commitKind := by
  by_contra unlike
  have passed : (commits decode frame : Except _ (Option Commit)) = .ok none := if_pos unlike
  rw [passed] at selected
  cases selected

theorem some_of_commits {frame : Frame} {item : Option Commit} (kind : frame.kind = commitKind)
    (selected : commits decode frame = .ok item) : ∃ found, item = some found := by
  unfold commits at selected
  rw [if_neg (not_not_intro kind)] at selected
  grind

namespace Tells

variable {seq : UInt64} {index : Index} {frames : List Frame} {changes : List Change}

theorem accepts (tells : Tells seq index frames changes) : index.Accepts changes := by
  induction tells with
  | nil => trivial
  | foreign unlike tells ih => exact ih
  | commit selected accepted tells ih => exact ⟨accepted, ih⟩

theorem decoded (tells : Tells seq index frames changes) :
    (frames.filter fun frame => frame.kind = commitKind).map (commits decode) =
      (numbered seq changes).map fun commit => .ok (some commit) := by
  induction tells with
  | nil => rfl
  | foreign unlike tells ih => rwa [List.filter_cons_of_neg (by simpa using unlike)]
  | commit selected accepted tells ih =>
      have kind := kind_of_commits selected
      rw [List.filter_cons_of_pos (by simpa using kind), List.map_cons, selected, ih]
      rfl

theorem length_le (tells : Tells seq index frames changes) :
    changes.length ≤ (frames.flatMap Frame.bytes).length := by
  induction tells with
  | nil => exact Nat.le_refl 0
  | @foreign _ _ frame _ _ unlike tells ih =>
      rw [List.flatMap_cons, List.length_append]
      omega
  | @commit _ _ frame _ _ _ selected accepted tells ih =>
      have filled : 0 < frame.bytes.length := List.length_pos_iff.mpr frame.bytes_ne_nil
      rw [List.flatMap_cons, List.length_append, List.length_cons]
      omega

theorem scan_eq (tells : Tells seq index frames changes) (fits : ∀ frame ∈ frames, frame.Fits)
    (mode : ReadMode) (offset : Nat) :
    scan mode (commits decode) offset (frames.flatMap Frame.bytes) =
      ⟨numbered seq changes, offset + (frames.flatMap Frame.bytes).length, none, none⟩ := by
  induction tells generalizing offset with
  | nil => exact scan_nil
  | foreign unlike tells ih =>
      obtain ⟨fit, fits⟩ := List.forall_mem_cons.mp fits
      rw [List.flatMap_cons, scan_bytes fit (if_pos unlike), ih fits, List.length_append, Nat.add_assoc]
      rfl
  | commit selected accepted tells ih =>
      obtain ⟨fit, fits⟩ := List.forall_mem_cons.mp fits
      rw [List.flatMap_cons, scan_bytes fit selected, ih fits, List.length_append, Nat.add_assoc]
      rfl

theorem resume_eq (tells : Tells seq index frames changes) (fits : ∀ frame ∈ frames, frame.Fits)
    (offset : Nat) (rest : Bytes) :
    JournaledIndex.resume index seq offset (frames.flatMap Frame.bytes ++ rest) =
      JournaledIndex.resume (index.applyAll changes) (seq + .ofNat changes.length)
        (offset + (frames.flatMap Frame.bytes).length) rest := by
  induction tells generalizing offset with
  | nil => simp [Index.applyAll]
  | foreign unlike tells ih =>
      obtain ⟨fit, fits⟩ := List.forall_mem_cons.mp fits
      rw [List.flatMap_cons, List.append_assoc, JournaledIndex.resume_foreign _ _ _ unlike fit, ih fits,
        List.length_append, Nat.add_assoc]
  | commit selected accepted tells ih =>
      obtain ⟨fit, fits⟩ := List.forall_mem_cons.mp fits
      rw [List.flatMap_cons, List.append_assoc, JournaledIndex.resume_read _ _ _ fit selected,
        if_neg (not_not_intro rfl)]
      simp only [accepted]
      rw [ih fits, List.length_cons, Layout.count_succ, List.length_append, Nat.add_assoc]
      rfl

end Tells

namespace JournaledIndex

theorem tells_of_resume {frames : List Frame} (fits : ∀ frame ∈ frames, frame.Fits) {index : Index}
    {seq : UInt64} {offset : Nat} {rest : Bytes} {found : Index × UInt64 × Option Nat}
    (recovered : resume index seq offset (frames.flatMap Frame.bytes ++ rest) = .ok found) :
    ∃ changes, Tells seq index frames changes := by
  induction frames generalizing index seq offset with
  | nil => exact ⟨[], .nil⟩
  | cons frame frames ih =>
      obtain ⟨fit, fits⟩ := List.forall_mem_cons.mp fits
      rw [List.flatMap_cons, List.append_assoc] at recovered
      by_cases unlike : frame.kind ≠ commitKind
      · rw [resume_foreign _ _ _ unlike fit] at recovered
        obtain ⟨changes, tells⟩ := ih fits recovered
        exact ⟨changes, .foreign unlike tells⟩
      -- A frame of a commit that is not the next one, or is refused, ends the recovery.
      cases selected : (commits decode frame : Except _ (Option Commit)) with
      | error e =>
          rw [resume_refused _ _ _ (readFrame_bytes fit ..) selected] at recovered
          cases recovered
      | ok item =>
          obtain ⟨⟨number, change⟩, rfl⟩ := some_of_commits (not_not.mp unlike) selected
          rw [resume_read _ _ _ fit selected] at recovered
          by_cases next : number = seq + 1
          · subst next
            rw [if_neg (not_not_intro rfl)] at recovered
            cases accepted : index.check change with
            | error cause =>
                simp only [accepted] at recovered
                cases recovered
            | ok _ =>
                simp only [accepted] at recovered
                obtain ⟨changes, tells⟩ := ih fits recovered
                exact ⟨change :: changes, .commit selected accepted tells⟩
          · rw [if_pos next] at recovered
            cases recovered

theorem append_of_torn {options : WriteOptions} {given : Option Bytes} {index : Index} {seq : UInt64}
    {offset : Nat} (recovered : recover? options given = .ok (index, seq, some offset)) :
    options.append = true ∧ ∃ first others, given = some (first :: others) := by
  -- A tail is torn off only where the file is appended to, and then the writer has found it as it was.
  match given with
  | none => cases recovered
  | some [] => simp [recover?] at recovered
  | some (first :: others) =>
      cases appends : options.append with
      | true => exact ⟨rfl, first, others, rfl⟩
      | false => simp [recover?, appends] at recovered

theorem start_error {options : WriteOptions} {given left : Option Bytes} {e : StoreError}
    (failed : start options given = .error (e, left)) : left = given := by
  unfold start at failed
  cases recovered : recover? options given with
  | error cause =>
      rw [recovered] at failed
      cases failed
      rfl
  | ok found =>
      obtain ⟨index, seq, torn⟩ := found
      simp only [recovered] at failed
      cases started : Writer.attempt options given with
      | error cause =>
          obtain ⟨cause, rest⟩ := cause
          simp only [started] at failed
          cases failed
          exact Writer.attempt_error started
      | ok opened =>
          obtain ⟨writer, file⟩ := opened
          cases torn with
          | none =>
              simp only [started] at failed
              cases failed
          | some offset =>
              obtain ⟨appends, first, others, rfl⟩ := append_of_torn recovered
              obtain rfl := Writer.attempt_append appends started
              rcases cut : writer.truncate (first :: others) offset with ⟨_ | _, after, rest⟩
              · simp only [started, cut] at failed
                cases failed
                exact congrArg some (Writer.truncate_error cut)
              · simp only [started, cut] at failed
                cases failed

theorem start_existing (sync create : Bool) (file : Bytes) :
    start ⟨sync, create, true⟩ (some file) = start .standard (some file) := by
  cases file with
  | nil => rfl
  | cons first rest => rfl

theorem start_of_tells {frames : List Frame} {changes : List Change}
    (tells : Tells 0 .empty frames changes) (fits : ∀ frame ∈ frames, frame.Fits) {rest : Bytes}
    (left : rest = [] ∨ Cut rest) :
    start .standard (some (header ++ (frames.flatMap Frame.bytes ++ rest))) =
      .ok (⟨Index.empty.applyAll changes, ⟨(header ++ frames.flatMap Frame.bytes).length⟩,
        .ofNat changes.length⟩, header ++ frames.flatMap Frame.bytes) := by
  rw [start_header, tells.resume_eq fits, UInt64.zero_add, ← length_header, ← List.length_append]
  rcases left with rfl | cut
  · rw [resume_nil, List.append_nil]
    rfl
  · have sound : ¬((header ++ frames.flatMap Frame.bytes).length < headerSize ∨
        (header ++ (frames.flatMap Frame.bytes ++ rest)).length <
          (header ++ frames.flatMap Frame.bytes).length) := by
      simp only [List.length_append, length_header]
      omega
    rw [resume_torn _ _ _ (cut.readFrame_eq ..)]
    simp only [settle, Writer.truncate, if_neg sound]
    rw [← List.append_assoc, List.take_left]

theorem tells_of_header {bytes : Bytes} {opened : JournaledIndex × Bytes}
    (started : start .standard (some (header ++ bytes)) = .ok opened) :
    ∃ frames rest changes, bytes = frames.flatMap Frame.bytes ++ rest ∧ (rest = [] ∨ Cut rest) ∧
      (∀ frame ∈ frames, frame.Fits) ∧ Tells 0 .empty frames changes := by
  obtain ⟨frames, rest, fits, rfl, remains⟩ := exists_frames bytes
  rw [start_header] at started
  cases recovered : resume .empty 0 headerSize (frames.flatMap Frame.bytes ++ rest) with
  | error e =>
      rw [recovered] at started
      cases started
  | ok found =>
      obtain ⟨changes, tells⟩ := tells_of_resume fits recovered
      refine ⟨frames, rest, changes, rfl, ?_, fits, tells⟩
      cases remains with
      | nothing => exact .inl rfl
      | cut cut => exact .inr cut
      | malformed malformed =>
          rw [tells.resume_eq fits, resume_unreadable _ _ _ (malformed.readFrame_eq ..)] at recovered
          cases recovered

theorem header_of_start {file : Bytes} {opened : JournaledIndex × Bytes}
    (started : start .standard (some file) = .ok opened) :
    file = [] ∨ ∃ bytes, file = header ++ bytes := by
  by_cases empty : file = []
  · exact .inl empty
  cases read : (readJournal .permissive (commits decode) (some file) : Except _ (Transcript Commit)) with
  | ok transcript => exact .inr (readJournal_ok_iff.mp ⟨transcript, read⟩)
  | error e =>
      have unread : recover? .standard (some file) = .error (.journal e) := by
        simp [recover?, recover, WriteOptions.standard, empty, read]
      unfold start at started
      rw [unread] at started
      cases started

theorem tells_of_start {file : Bytes} {opened : JournaledIndex × Bytes}
    (started : start .standard (some file) = .ok opened) :
    ∃ frames changes,
      (file = [] ∧ frames = [] ∧ changes = [] ∨
        ∃ rest, file = (header ++ frames.flatMap Frame.bytes) ++ rest ∧ (rest = [] ∨ Cut rest)) ∧
      (∀ frame ∈ frames, frame.Fits) ∧ Tells 0 .empty frames changes ∧
      start .standard (some file) = .ok (⟨Index.empty.applyAll changes,
        ⟨(header ++ frames.flatMap Frame.bytes).length⟩, .ofNat changes.length⟩,
        header ++ frames.flatMap Frame.bytes) := by
  rcases header_of_start started with rfl | ⟨bytes, rfl⟩
  · exact ⟨[], [], .inl ⟨rfl, rfl, rfl⟩, nofun, .nil, rfl⟩
  · obtain ⟨frames, rest, changes, rfl, left, fits, tells⟩ := tells_of_header started
    refine ⟨frames, changes, .inr ⟨rest, (List.append_assoc ..).symm, left⟩, fits, tells, ?_⟩
    exact start_of_tells tells fits left

/-- A store that opens has the commits among the whole frames, and only the front of one more frame is
cut away. If it fails to open, the file is left alone. -/
theorem start_sound (sync create : Bool) (file : Bytes) :
    (∀ store left, start ⟨sync, create, true⟩ (some file) = .ok (store, left) →
      ∃ frames changes,
        (file = [] ∧ frames = [] ∧ changes = [] ∨ ∃ rest, file = left ++ rest ∧ (rest = [] ∨ Cut rest)) ∧
        left = header ++ frames.flatMap Frame.bytes ∧ (∀ frame ∈ frames, frame.Fits) ∧
        (frames.filter fun frame => frame.kind = commitKind).map (commits decode) =
          (numbered 0 changes).map (fun commit => .ok (some commit)) ∧
        (file.length < 2 ^ 64 → (numbered 0 changes).map (fun commit => commit.seq.toNat) =
          List.range' 1 store.seq.toNat) ∧
        Index.empty.Accepts changes ∧
        store = ⟨Index.empty.applyAll changes, ⟨left.length⟩, .ofNat changes.length⟩ ∧
        readJournal .strict everyFrame (some left) = .ok ⟨frames, left.length, none, none⟩ ∧
        readJournal .strict (commits decode) (some left) =
          .ok ⟨numbered 0 changes, left.length, none, none⟩ ∧
        start ⟨sync, create, true⟩ (some left) = .ok (store, left)) ∧
    ∀ e left, start ⟨sync, create, true⟩ (some file) = .error (e, left) → left = some file := by
  simp only [start_existing]
  refine ⟨fun store left started => ?_, fun e left => start_error⟩
  · obtain ⟨frames, changes, begun, fits, tells, opened⟩ := tells_of_start started
    have again := start_of_tells tells fits (.inl rfl)
    obtain ⟨rfl, rfl⟩ := Prod.mk.inj (Except.ok.inj (started.symm.trans opened))
    rw [List.append_nil] at again
    refine ⟨frames, changes, begun, rfl, fits, tells.decoded, ?_, tells.accepts, rfl, ?_, ?_, again⟩
    · intro small
      have most := tells.length_le
      have count : changes.length < 2 ^ 64 := by
        rcases begun with ⟨-, -, rfl⟩ | ⟨rest, rfl, -⟩
        · decide
        · simp only [List.length_append] at small
          omega
      rw [UInt64.toNat_ofNat_of_lt' count]
      exact map_seq_numbered (by simpa using count)
    · have read := readJournal_frames fits .strict []
      simp only [scan_nil, Transcript.ended, List.append_nil] at read
      exact read
    · rw [readJournal_header, tells.scan_eq fits, List.length_append, length_header]

/-- A torn tail is cut away, and a file that is too short is left alone. -/
theorem start_sound_of_orphan : ∃ store left,
    start .standard (some (header ++
      ([frameOf ⟨1, orphanOfFullDisk⟩].flatMap Frame.bytes ++ [commitKind, 0, 0]))) = .ok (store, left) ∧
    left = header ++ (frameOf ⟨1, orphanOfFullDisk⟩).bytes ∧ store.seq = 1 ∧
    start .standard (some left) = .ok (store, left) ∧
    ∃ rest, start .standard (some [0x46]) = .error (.journal (.io .endsEarly), rest) ∧
      rest = some [0x46] := by
  have selected := @commits_frameOf ⟨1, orphanOfFullDisk⟩ (by decide)
  have tells : Tells 0 .empty [frameOf ⟨1, orphanOfFullDisk⟩] [orphanOfFullDisk] :=
    .commit selected rfl .nil
  have started := @start_of_tells _ _ tells (List.forall_mem_singleton.mpr orphanOfFullDisk_fits)
    [commitKind, 0, 0] (.inr (.header nofun (by decide)))
  obtain ⟨frames, changes, -, -, -, -, -, -, -, -, -, again⟩ :=
    (start_sound false true _).1 _ _ started
  have left : header ++ [frameOf ⟨1, orphanOfFullDisk⟩].flatMap Frame.bytes =
      header ++ (frameOf ⟨1, orphanOfFullDisk⟩).bytes := by
    rw [List.flatMap_singleton]
  exact ⟨_, _, started, left, rfl, again, _, rfl, (start_sound false true [0x46]).2 _ _ rfl⟩

end JournaledIndex

end Curtail
