import Curtail.Proofs.Index.Recorded
import Curtail.Proofs.Json.Extension

/-!
What is recovered from a journal after one byte has been changed in the header of one of its frames.
Nothing is checked but the header itself, the text of the payload and the numbers of the commits, so
the cases are told apart by which of these the changed byte shows in.
-/

namespace Curtail

open Journal Json Commit

namespace Commit

theorem commits_unread {payload : Bytes}
    (unread : ∀ text, payload.toText? = some text → Tree.ofText? text = none) :
    ∃ e, (commits decode ⟨commitKind, payload⟩ : Except _ (Option Commit)) = .error e := by
  unfold commits
  rw [if_neg (by simp)]
  cases read : payload.toText? with
  | none => exact ⟨_, rfl⟩
  | some text =>
      refine ⟨.notJson, ?_⟩
      simp only [unread text read, Option.bind_none]

theorem commits_cut {commit : Commit} {kept lost : Bytes}
    (parts : Bytes.ofText (encode commit).compactText = kept ++ lost) (missing : lost ≠ []) :
    ∃ e, (commits decode ⟨commitKind, kept⟩ : Except _ (Option Commit)) = .error e := by
  apply commits_unread
  intro text read
  rw [← Bytes.ofText_of_toText? read] at parts
  obtain ⟨u, whole, rest⟩ := Bytes.exists_append_of_ofText parts
  have cut := congrArg String.toList whole
  rw [String.toList_append, Tree.compactText, String.toList_ofList, Tree.compact_eq_print] at cut
  refine Tree.ofChars?_cut Style.compact_isReadable commit.encode_isPlain cut ?_
  intro nothing
  obtain rfl := String.toList_eq_nil_iff.mp nothing
  exact missing rest.symm

theorem commits_further (commit : Commit) (more : Bytes) :
    ∃ e, (commits decode ⟨commitKind, Bytes.ofText (encode commit).compactText ++ commitKind :: more⟩ :
      Except _ (Option Commit)) = .error e := by
  -- The payload goes on with the next frame, the first byte of which is a control character.
  apply commits_unread
  intro text read
  have mark : commitKind :: more = Bytes.ofText "\x01" ++ more := rfl
  have parts := Bytes.ofText_of_toText? read
  rw [mark, ← List.append_assoc, ← Bytes.ofText_append] at parts
  obtain ⟨u, rfl, -⟩ := Bytes.exists_append_of_ofText parts
  unfold Tree.ofText?
  rw [String.toList_append, String.toList_append, Tree.compactText, String.toList_ofList,
    Tree.compact_eq_print, List.append_assoc]
  exact Tree.ofChars?_further Style.compact_isReadable commit.encode_isPlain (by decide)
    (endsNumber_cons _ (by decide) (by decide) (by decide) (by decide))

end Commit

namespace JournaledIndex

variable (index : Index) (seq : UInt64) (offset : Nat)

theorem resume_reserved {kind a b c : UInt8} {digits : Bytes} (four : digits.length = 4)
    (marked : a ≠ 0 ∨ b ≠ 0 ∨ c ≠ 0) (body : Bytes) :
    ∃ e, resume index seq offset (kind :: a :: b :: c :: (digits ++ body)) = .error e :=
  ⟨_, resume_unreadable index seq offset (readFrame_reserved four marked)⟩

/-- A changed length is too great, ends the payload within its text, or takes in the next frame's kind.
-/
theorem resume_length {commit : Commit} (fits : (frameOf commit).Fits) {digits : Bytes}
    (four : digits.length = 4) (other : digits ≠ (frameOf commit).lengthBytes) {rest : Bytes}
    (next : rest = [] ∨ ∃ more, rest = commitKind :: more)
    (inside : Bytes.number digits ≤ maxPayload →
      Bytes.number digits ≤ ((frameOf commit).payload ++ rest).length) :
    ∃ e, resume index seq offset
      (commitKind :: 0 :: 0 :: 0 :: (digits ++ ((frameOf commit).payload ++ rest))) = .error e := by
  rcases Nat.lt_or_ge maxPayload (Bytes.number digits) with large | small
  · exact ⟨_, resume_unreadable index seq offset (readFrame_tooLong four large)⟩
  have there := inside small
  have unlike : Bytes.number digits ≠ (frameOf commit).payload.length := by
    rw [← Frame.number_lengthBytes fits]
    intro same
    exact other (Bytes.number_injective (four.trans (frameOf commit).length_lengthBytes.symm) same)
  have unread : ∃ e, (commits decode ⟨commitKind,
      ((frameOf commit).payload ++ rest).take (Bytes.number digits)⟩ : Except _ (Option Commit)) =
        .error e := by
    rcases Nat.lt_or_gt_of_ne unlike with shorter | longer
    · rw [List.take_append_of_le_length (Nat.le_of_lt shorter)]
      apply commits_cut (List.take_append_drop (Bytes.number digits) (frameOf commit).payload).symm
      rw [ne_eq, List.drop_eq_nil_iff]
      exact Nat.not_le.mpr shorter
    · obtain ⟨extra, count⟩ := Nat.exists_eq_add_of_lt longer
      rcases next with rfl | ⟨more, rfl⟩
      · rw [List.append_nil] at there
        omega
      · rw [count, Nat.add_assoc, List.take_length_add_append]
        exact commits_further commit _
  obtain ⟨e, failed⟩ := unread
  exact ⟨_, resume_refused index seq offset (readFrame_whole four small there) failed⟩

theorem resume_damaged (index : Index) {seq : UInt64} {offset : Nat} {change : Change}
    {after : List Change} (fit : (frameOf ⟨seq + 1, change⟩).Fits)
    (others : ∀ frame ∈ frames (seq + 1) after, frame.Fits) {position : Nat} {damage : Bytes}
    (damages : (frameOf ⟨seq + 1, change⟩).Damaged position damage)
    (elsewhere : ¬(position = 0 ∧ after = []))
    (room : ∀ h, FrameHeader.read offset (damage ++ (frames (seq + 1) after).flatMap Frame.bytes) = .ok h →
      h.totalLength ≤ (damage ++ (frames (seq + 1) after).flatMap Frame.bytes).length) :
    ∃ e, resume index seq offset (damage ++ (frames (seq + 1) after).flatMap Frame.bytes) = .error e := by
  cases damages with
  | @kind b unlike =>
      have foreign : (⟨b, (frameOf ⟨seq + 1, change⟩).payload⟩ : Frame).kind ≠ commitKind := unlike
      -- The next frame has the number after that of the frame that has been passed over.
      cases after with
      | nil => exact absurd ⟨rfl, rfl⟩ elsewhere
      | cons next further =>
          rw [resume_foreign index _ _ foreign fit, frames_cons, List.flatMap_cons]
          rcases resume_commit index seq _ (others _ List.mem_cons_self) with ⟨e, failed⟩ | ⟨same, -⟩
          · exact ⟨e, failed _⟩
          · exact absurd same (by simp)
  | reserved marked =>
      simp only [List.cons_append, List.append_assoc]
      exact resume_reserved _ _ _ (Frame.length_lengthBytes _) marked _
  | length four other =>
      simp only [List.cons_append, List.append_assoc] at room ⊢
      refine resume_length _ _ _ fit four other ?_ ?_
      · cases after with
        | nil => exact .inl rfl
        | cons next further => exact .inr ⟨_, rfl⟩
      · intro small
        have bound := room ⟨commitKind, _, small⟩ (FrameHeader.read_of_le four small)
        simp only [FrameHeader.totalLength, List.length_append, List.length_cons, four,
          frameHeaderSize] at bound ⊢
        omega

end JournaledIndex

/-- The frame at the offset names more bytes than the file has from there. -/
def Overruns (file : Bytes) (offset : Nat) : Prop :=
  ∃ h, FrameHeader.read offset (file.drop offset) = .ok h ∧ file.length < offset + h.totalLength

def frameAfter (before : List Change) (change : Change) : Frame :=
  JournaledIndex.frameOf ⟨.ofNat before.length + 1, change⟩

section Damage

variable {before after : List Change} {change : Change}

theorem journalOf_split (before : List Change) (change : Change) (after : List Change) :
    journalOf (before ++ change :: after) = journalOf before ++ ((frameAfter before change).bytes ++
      (frames (.ofNat before.length + 1) after).flatMap Frame.bytes) := by
  simp only [journalOf, frames_append, UInt64.zero_add, frames_cons, List.flatMap_append,
    List.flatMap_cons, List.append_assoc]
  rfl

theorem fits_split (fits : ∀ frame ∈ frames 0 (before ++ change :: after), frame.Fits) :
    (∀ frame ∈ frames 0 before, frame.Fits) ∧ (frameAfter before change).Fits ∧
      ∀ frame ∈ frames (.ofNat before.length + 1) after, frame.Fits := by
  rw [frames_append, UInt64.zero_add, frames_cons, List.forall_mem_append, List.forall_mem_cons] at fits
  exact fits

theorem start_beside (fits : ∀ frame ∈ frames 0 before, frame.Fits) {rest file : Bytes} {writer : Writer}
    (settles : ∀ reached : Index, JournaledIndex.settle (journalOf before ++ rest)
      (JournaledIndex.resume reached (.ofNat before.length) (journalOf before).length rest) =
        .ok (⟨reached, writer, .ofNat before.length⟩, file)) :
    (∀ opened, JournaledIndex.start .standard (some (journalOf before)) = .ok (opened, journalOf before) →
      opened.writer = ⟨(journalOf before).length⟩ ∧
        JournaledIndex.start .standard (some (journalOf before ++ rest)) =
          .ok ({ opened with writer := writer }, file)) ∧
    ∀ e, JournaledIndex.start .standard (some (journalOf before)) = .error (e, some (journalOf before)) →
      JournaledIndex.start .standard (some (journalOf before ++ rest)) =
        .error (e, some (journalOf before ++ rest)) := by
  rcases JournaledIndex.start_front fits with ⟨e, failed⟩ | ⟨reached, goes⟩
  · have alone := failed []
    rw [List.append_nil] at alone
    rw [failed, alone]
    refine ⟨?_, ?_⟩
    · rintro _ ⟨⟩
    · rintro _ ⟨⟩
      rfl
  · have alone := goes []
    rw [JournaledIndex.resume_nil, List.append_nil] at alone
    rw [goes, alone, settles reached]
    refine ⟨?_, ?_⟩
    · rintro _ ⟨⟩
      exact ⟨rfl, rfl⟩
    · rintro _ ⟨⟩

theorem start_foreign (fits : ∀ frame ∈ frames 0 before, frame.Fits) {frame : Frame}
    (unlike : frame.kind ≠ commitKind) (fit : frame.Fits) :
    (∀ opened, JournaledIndex.start .standard (some (journalOf before)) = .ok (opened, journalOf before) →
      JournaledIndex.start .standard (some (journalOf before ++ frame.bytes)) =
        .ok ({ opened with writer := ⟨(journalOf before ++ frame.bytes).length⟩ },
          journalOf before ++ frame.bytes)) ∧
    ∀ e, JournaledIndex.start .standard (some (journalOf before)) = .error (e, some (journalOf before)) →
      JournaledIndex.start .standard (some (journalOf before ++ frame.bytes)) =
        .error (e, some (journalOf before ++ frame.bytes)) := by
  have passed (reached : Index) := JournaledIndex.resume_foreign reached (.ofNat before.length)
    (journalOf before).length unlike fit []
  simp only [JournaledIndex.resume_nil, List.append_nil] at passed
  obtain ⟨opens, fails⟩ := start_beside fits fun reached =>
    congrArg (JournaledIndex.settle (journalOf before ++ frame.bytes)) (passed reached)
  exact ⟨fun opened alone => (opens opened alone).2, fails⟩

theorem start_overrun (fits : ∀ frame ∈ frames 0 before, frame.Fits) {rest : Bytes}
    (overruns : Overruns (journalOf before ++ rest) (journalOf before).length) :
    (∀ opened, JournaledIndex.start .standard (some (journalOf before)) = .ok (opened, journalOf before) →
      JournaledIndex.start .standard (some (journalOf before ++ rest)) = .ok (opened, journalOf before)) ∧
    ∀ e, JournaledIndex.start .standard (some (journalOf before)) = .error (e, some (journalOf before)) →
      JournaledIndex.start .standard (some (journalOf before ++ rest)) =
        .error (e, some (journalOf before ++ rest)) := by
  have torn : readFrame .permissive (journalOf before).length rest = .ok .torn := by
    obtain ⟨h, read, beyond⟩ := overruns
    rw [List.drop_left] at read
    rw [List.length_append] at beyond
    exact readFrame_of_overrun read (by omega)
  have sound : ¬((journalOf before).length < headerSize ∨
      (journalOf before ++ rest).length < (journalOf before).length) := by
    have headed := headerSize_le ((frames 0 before).flatMap Frame.bytes)
    rw [List.length_append]
    exact not_or.mpr ⟨Nat.not_lt.mpr headed, Nat.not_lt.mpr (Nat.le_add_right ..)⟩
  have settles (reached : Index) : JournaledIndex.settle (journalOf before ++ rest)
      (JournaledIndex.resume reached (.ofNat before.length) (journalOf before).length rest) =
        .ok (⟨reached, ⟨(journalOf before).length⟩, .ofNat before.length⟩, journalOf before) := by
    rw [JournaledIndex.resume_torn _ _ _ torn]
    simp only [JournaledIndex.settle, Writer.truncate, if_neg sound, List.take_left]
  obtain ⟨opens, fails⟩ := start_beside fits settles
  refine ⟨?_, fails⟩
  intro opened alone
  obtain ⟨writer, started⟩ := opens opened alone
  rw [started, ← writer]

theorem start_damaged (fits : ∀ frame ∈ frames 0 (before ++ change :: after), frame.Fits)
    {position : Nat} {damage damaged : Bytes}
    (damages : (frameAfter before change).Damaged position damage)
    (elsewhere : ¬(position = 0 ∧ after = []))
    (file : damaged = journalOf before ++
      (damage ++ (frames (.ofNat before.length + 1) after).flatMap Frame.bytes))
    (within : ¬Overruns damaged (journalOf before).length) :
    ∃ e, JournaledIndex.start .standard (some damaged) = .error (e, some damaged) := by
  obtain ⟨front, fit, others⟩ := fits_split fits
  rcases JournaledIndex.start_front front with ⟨e, failed⟩ | ⟨reached, goes⟩
  · exact ⟨e, file ▸ failed _⟩
  have room : ∀ h, FrameHeader.read (journalOf before).length
      (damage ++ (frames (.ofNat before.length + 1) after).flatMap Frame.bytes) = .ok h →
        h.totalLength ≤ (damage ++ (frames (.ofNat before.length + 1) after).flatMap Frame.bytes).length := by
    intro h sound
    by_contra beyond
    refine within ⟨h, ?_, ?_⟩
    · rw [file, List.drop_left]
      exact sound
    · rw [file, List.length_append]
      omega
  obtain ⟨e, stopped⟩ := JournaledIndex.resume_damaged reached fit others damages elsewhere room
  refine ⟨e, ?_⟩
  rw [file, goes, stopped]
  rfl

end Damage

/-- With one byte of a frame's header replaced the open fails, unless the last frame gets another kind,
or a frame overruns the file and is cut away with all that comes after it. -/
theorem Recorded.start_of_damaged_header {before after : List Change} {change : Change}
    {store : JournaledIndex} {file : Bytes} (recorded : Recorded (before ++ change :: after) store file)
    {position : Nat} (within : position < frameHeaderSize) {b : UInt8}
    (different : file[(journalOf before).length + position]? ≠ some b) {damaged : Bytes}
    (damage : damaged = file.set ((journalOf before).length + position) b) :
    (¬(position = 0 ∧ after = []) → ¬Overruns damaged (journalOf before).length →
      ∃ e, JournaledIndex.start .standard (some damaged) = .error (e, some damaged)) ∧
    (position = 0 → after = [] →
      (∀ opened, JournaledIndex.start .standard (some (journalOf before)) = .ok (opened, journalOf before) →
        JournaledIndex.start .standard (some damaged) =
          .ok ({ opened with writer := ⟨damaged.length⟩ }, damaged)) ∧
      ∀ e, JournaledIndex.start .standard (some (journalOf before)) = .error (e, some (journalOf before)) →
        JournaledIndex.start .standard (some damaged) = .error (e, some damaged)) ∧
    (Overruns damaged (journalOf before).length →
      (∀ opened, JournaledIndex.start .standard (some (journalOf before)) = .ok (opened, journalOf before) →
        JournaledIndex.start .standard (some damaged) = .ok (opened, journalOf before)) ∧
      ∀ e, JournaledIndex.start .standard (some (journalOf before)) = .error (e, some (journalOf before)) →
        JournaledIndex.start .standard (some damaged) = .error (e, some damaged)) := by
  obtain ⟨rfl, fits, -, -⟩ := recorded.records
  obtain ⟨front, fit, -⟩ := fits_split fits
  have short : position < (frameAfter before change).bytes.length := by
    rw [Frame.length_bytes]
    omega
  rw [journalOf_split, List.set_append_right _ _ (Nat.le_add_right ..), Nat.add_sub_cancel_left,
    List.set_append_left _ _ short] at damage
  rw [journalOf_split, List.getElem?_append_right (Nat.le_add_right ..), Nat.add_sub_cancel_left,
    List.getElem?_append_left short] at different
  have damages := Frame.damaged_set _ within different
  refine ⟨fun elsewhere inside => start_damaged fits damages elsewhere damage inside, ?_, ?_⟩
  · rintro rfl rfl
    have foreign : (⟨b, (frameAfter before change).payload⟩ : Frame).kind ≠ commitKind :=
      fun same => different (congrArg some same.symm)
    change damaged = journalOf before ++ (Frame.bytes ⟨b, _⟩ ++ []) at damage
    rw [List.append_nil] at damage
    rw [damage]
    exact start_foreign front foreign fit
  · intro overruns
    rw [damage] at overruns ⊢
    exact start_overrun front overruns

theorem Recorded.orphanOfFullDisk : ∃ store, Recorded [Commit.orphanOfFullDisk] store
    (header ++ (JournaledIndex.frameOf ⟨1, Commit.orphanOfFullDisk⟩).bytes) := by
  obtain ⟨started, keeps⟩ := Keeps.opened (.inl rfl)
  have committed := JournaledIndex.commit_of_fits keeps.writer rfl Commit.orphanOfFullDisk_fits
  exact ⟨_, .committed (.opened (.inl rfl) started) committed⟩

theorem start_of_damaged_reserved : ∃ store file, Recorded [Commit.orphanOfFullDisk] store file ∧
    ∃ e, JournaledIndex.start .standard (some (file.set 17 1)) = .error (e, some (file.set 17 1)) := by
  obtain ⟨store, recorded⟩ := Recorded.orphanOfFullDisk
  generalize JournaledIndex.frameOf ⟨1, Commit.orphanOfFullDisk⟩ = frame at recorded
  have different : (header ++ frame.bytes)[17]? ≠ some 1 := by
    change some 0 ≠ some 1
    decide
  have inside : ¬Overruns ((header ++ frame.bytes).set 17 1) 16 := by
    rintro ⟨h, read, -⟩
    cases read
  have opened := @Recorded.start_of_damaged_header [] [] _ _ _ recorded 1 (by decide) 1 different _ rfl
  exact ⟨store, _, recorded, opened.1 (by simp) inside⟩

/-- Of the one commit nothing is found, and with the changed length its frame is cut away. -/
theorem start_of_unnoticed_damage : ∃ store file, Recorded [Commit.orphanOfFullDisk] store file ∧
    file[16]? ≠ some 2 ∧ JournaledIndex.start .standard (some (file.set 16 2)) =
      .ok (⟨.empty, ⟨(file.set 16 2).length⟩, 0⟩, file.set 16 2) ∧
    file[22]? ≠ some 1 ∧ JournaledIndex.start .standard (some (file.set 22 1)) =
      .ok (⟨.empty, ⟨headerSize⟩, 0⟩, header) := by
  obtain ⟨store, recorded⟩ := Recorded.orphanOfFullDisk
  have fits := Commit.orphanOfFullDisk_fits
  have bounds : (JournaledIndex.frameOf ⟨1, Commit.orphanOfFullDisk⟩).payload.length <
        Bytes.number ((JournaledIndex.frameOf ⟨1, Commit.orphanOfFullDisk⟩).lengthBytes.set 2 1) ∧
      Bytes.number ((JournaledIndex.frameOf ⟨1, Commit.orphanOfFullDisk⟩).lengthBytes.set 2 1) ≤
        maxPayload ∧
      (JournaledIndex.frameOf ⟨1, Commit.orphanOfFullDisk⟩).lengthBytes[2]? ≠ some 1 := by
    decide +kernel
  have commit : (JournaledIndex.frameOf ⟨1, Commit.orphanOfFullDisk⟩).kind = commitKind := rfl
  generalize JournaledIndex.frameOf ⟨1, Commit.orphanOfFullDisk⟩ = frame at *
  obtain ⟨beyond, small, third⟩ := bounds
  refine ⟨store, _, recorded, ?_, ?_, ?_, ?_⟩
  · change some frame.kind ≠ some 2
    rw [commit]
    decide
  · change JournaledIndex.start .standard (some (header ++ Frame.bytes ⟨2, frame.payload⟩)) = _
    have passed := (@start_foreign [] nofun ⟨2, frame.payload⟩
      (show (2 : UInt8) ≠ commitKind by decide) fits).1
    have started : JournaledIndex.start .standard (some (journalOf [])) =
        .ok (⟨.empty, ⟨headerSize⟩, 0⟩, header) := by
      refine (JournaledIndex.start_header []).trans ?_
      rw [JournaledIndex.resume_nil]
      rfl
    exact passed _ started
  · exact third
  · change JournaledIndex.start .standard (some (header ++
      (frame.kind :: 0 :: 0 :: 0 :: (frame.lengthBytes.set 2 1 ++ frame.payload)))) = _
    have four : (frame.lengthBytes.set 2 1).length = 4 :=
      (List.length_set ..).trans frame.length_lengthBytes
    rw [JournaledIndex.start_header, JournaledIndex.resume_torn _ _ _ (readFrame_overrun four small beyond)]
    rfl

end Curtail
