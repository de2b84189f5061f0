import Curtail.Proofs.Journal.Frame
import Mathlib.Data.List.Basic

/-!
The files that a reader opens, and what it makes of every one of them: whole frames, and a rest that
no frame stands in front of. What the rest is decides how the reading ends.
Main result: `readJournal_grammar`.
-/

namespace Curtail.Journal

theorem readHeader_inv {file : Bytes} {found : Nat} (sound : readHeader file = .ok found) :
    file = header ++ file.drop headerSize := by
  unfold readHeader at sound
  split at sound
  · cases sound
  split at sound
  · cases sound
  rename_i long marked
  simp only at sound
  split at sound
  · cases sound
  rename_i numbered
  split at sound
  · cases sound
  rename_i zeros
  rw [Decidable.not_not] at marked numbered
  have six : ((file.drop 4).take 2).length = 2 := by
    rw [List.length_take, List.length_drop]
    unfold headerSize at long
    omega
  have second : (file.drop 4).take 2 = Bytes.littleEndian 2 version :=
    Bytes.number_injective six (numbered.trans (Bytes.number_littleEndian (by decide)).symm)
  have ten : ((file.take headerSize).drop 6).length = 10 := by
    rw [List.length_drop, List.length_take]
    unfold headerSize at long ⊢
    omega
  have third : (file.take headerSize).drop 6 = List.replicate 10 0 := by
    refine List.eq_replicate_iff.mpr ⟨ten, fun b member => ?_⟩
    simpa using List.findIdx?_eq_none_iff.mp zeros b member
  have split : file.take headerSize =
      file.take 4 ++ ((file.drop 4).take 2 ++ (file.take headerSize).drop 6) := by
    have inner : file.take 4 ++ (file.drop 4).take 2 = (file.take headerSize).take 6 := by
      rw [List.take_take, ← List.take_add]
      rfl
    rw [← List.append_assoc, inner, List.take_append_drop]
  have front : file.take headerSize = header := by
    rw [split, marked, second, third]
    rfl
  rw [← front, List.take_append_drop]

theorem readJournal_ok_iff {α : Type} {mode : ReadMode}
    {select : Frame → Except JournalError (Option α)} {file : Bytes} :
    (∃ transcript, readJournal mode select (some file) = .ok transcript) ↔
      ∃ bytes, file = header ++ bytes := by
  constructor
  · rintro ⟨transcript, opened⟩
    unfold readJournal at opened
    simp only at opened
    split at opened
    · cases opened
    cases sound : readHeader file with
    | error e =>
        rw [sound] at opened
        cases opened
    | ok found => exact ⟨_, readHeader_inv sound⟩
  · rintro ⟨bytes, rfl⟩
    exact ⟨_, readJournal_header mode select bytes⟩

/-- Not all of a header, or fewer bytes after the header than it announces. -/
inductive Cut : Bytes → Prop
  | header {bytes : Bytes} : bytes ≠ [] → bytes.length < frameHeaderSize → Cut bytes
  | payload (h : FrameHeader) {body : Bytes} : body.length < h.length → Cut (h.bytes ++ body)

inductive Malformed : FrameFault → Bytes → Prop
  | reserved {kind a b c : UInt8} {digits body : Bytes} : digits.length = 4 → a ≠ 0 ∨ b ≠ 0 ∨ c ≠ 0 →
      Malformed .reserved (kind :: a :: b :: c :: (digits ++ body))
  | tooLong {kind : UInt8} {digits body : Bytes} : digits.length = 4 →
      maxPayload < Bytes.number digits →
      Malformed (.tooLong (Bytes.number digits)) (kind :: 0 :: 0 :: 0 :: (digits ++ body))

theorem Cut.readFrame_eq {rest : Bytes} (cut : Cut rest) (mode : ReadMode) (offset : Nat) :
    readFrame mode offset rest = onShortRead mode offset := by
  cases cut with
  | header nonempty short =>
      have headless : (rest.take frameHeaderSize).length < frameHeaderSize := by
        rw [List.length_take]
        omega
      unfold readFrame
      rw [if_neg nonempty, if_pos headless]
  | @payload h body beyond =>
      have number : Bytes.number (Bytes.littleEndian 4 h.length) = h.length :=
        Bytes.number_littleEndian (Nat.lt_of_le_of_lt h.length_le (by decide))
      apply readFrame_overrun (Bytes.length_littleEndian ..)
      · rw [number]
        exact h.length_le
      · rw [number]
        exact beyond

theorem Malformed.readFrame_eq {fault : FrameFault} {rest : Bytes} (malformed : Malformed fault rest)
    (mode : ReadMode) (offset : Nat) : readFrame mode offset rest = .error (.frame offset fault) := by
  cases malformed with
  | reserved four marked => exact readFrame_reserved four marked
  | tooLong four large => exact readFrame_tooLong four large

/-- What is left once all whole frames have been read. -/
inductive Remainder : Bytes → Prop
  | nothing : Remainder []
  | cut {bytes : Bytes} : Cut bytes → Remainder bytes
  | malformed {fault : FrameFault} {bytes : Bytes} : Malformed fault bytes → Remainder bytes

theorem front_of_header (kind : UInt8) {digits : Bytes} (four : digits.length = 4)
    (small : Bytes.number digits ≤ maxPayload) (body : Bytes) :
    Remainder (kind :: 0 :: 0 :: 0 :: (digits ++ body)) ∨
      ∃ f rest, Frame.Fits f ∧ kind :: 0 :: 0 :: 0 :: (digits ++ body) = f.bytes ++ rest := by
  have written : Bytes.littleEndian 4 (Bytes.number digits) = digits :=
    Bytes.number_injective ((Bytes.length_littleEndian ..).trans four.symm)
      (Bytes.number_littleEndian (Nat.lt_of_le_of_lt small (by decide)))
  rcases Nat.lt_or_ge body.length (Bytes.number digits) with beyond | there
  · left
    have begun : kind :: 0 :: 0 :: 0 :: (digits ++ body) =
        FrameHeader.bytes ⟨kind, Bytes.number digits, small⟩ ++ body := by
      simp only [FrameHeader.bytes, written, List.cons_append]
    rw [begun]
    exact .cut (.payload _ beyond)
  · right
    let f : Frame := ⟨kind, body.take (Bytes.number digits)⟩
    have size : f.payload.length = Bytes.number digits := List.length_take_of_le there
    refine ⟨f, body.drop (Bytes.number digits), Nat.le_trans (Nat.le_of_eq size) small, ?_⟩
    rw [f.bytes_append, Frame.lengthBytes, size, written, List.take_append_drop]

theorem exists_header {bytes : Bytes} (long : frameHeaderSize ≤ bytes.length) :
    ∃ kind a b c digits body, List.length digits = 4 ∧
      bytes = kind :: a :: b :: c :: (digits ++ body) := by
  have enough : 8 ≤ bytes.length := long
  obtain ⟨kind, a, b, c, begun⟩ :=
    List.length_eq_four.mp (List.length_take_of_le (Nat.le_trans (by decide) enough))
  have four : ((bytes.drop 4).take 4).length = 4 := by
    rw [List.length_take, List.length_drop]
    omega
  refine ⟨kind, a, b, c, _, (bytes.drop 4).drop 4, four, ?_⟩
  rw [List.take_append_drop]
  change bytes = [kind, a, b, c] ++ bytes.drop 4
  rw [← begun, List.take_append_drop]

theorem front (bytes : Bytes) :
    Remainder bytes ∨ ∃ f rest, Frame.Fits f ∧ bytes = f.bytes ++ rest := by
  rcases Nat.lt_or_ge bytes.length frameHeaderSize with short | long
  · left
    by_cases empty : bytes = []
    · exact empty ▸ .nothing
    · exact .cut (.header empty short)
  · obtain ⟨kind, a, b, c, digits, body, four, rfl⟩ := exists_header long
    by_cases marked : a ≠ 0 ∨ b ≠ 0 ∨ c ≠ 0
    · exact .inl (.malformed (.reserved four marked))
    · simp only [ne_eq, not_or, Decidable.not_not] at marked
      obtain ⟨rfl, rfl, rfl⟩ := marked
      rcases Nat.lt_or_ge maxPayload (Bytes.number digits) with large | small
      · exact .inl (.malformed (.tooLong four large))
      · exact front_of_header kind four small body

theorem exists_frames (bytes : Bytes) : ∃ (frames : List Frame) (rest : Bytes),
    (∀ f ∈ frames, f.Fits) ∧ bytes = frames.flatMap Frame.bytes ++ rest ∧ Remainder rest := by
  rcases front bytes with left | ⟨f, more, fits, rfl⟩
  · exact ⟨[], bytes, nofun, rfl, left⟩
  · obtain ⟨frames, rest, all, parts, left⟩ := exists_frames more
    refine ⟨f :: frames, rest, List.forall_mem_cons.mpr ⟨fits, all⟩, ?_, left⟩
    rw [List.flatMap_cons, List.append_assoc, ← parts]
termination_by bytes.length
decreasing_by
  have := List.length_pos_iff.mpr f.bytes_ne_nil
  subst_vars
  rw [List.length_append]
  omega

namespace Frame

theorem mapM_encode {frames : List Frame} (all : ∀ f ∈ frames, f.Fits) :
    frames.mapM encode = .ok (frames.map bytes) := by
  induction frames with
  | nil => rfl
  | cons f frames ih =>
      obtain ⟨fits, all⟩ := List.forall_mem_cons.mp all
      rw [List.mapM_cons, encode_of_fits fits, ih all]
      rfl

end Frame

theorem scan_frames {frames : List Frame} (all : ∀ f ∈ frames, f.Fits) (mode : ReadMode) (offset : Nat)
    (rest : Bytes) :
    scan mode everyFrame offset (frames.flatMap Frame.bytes ++ rest) =
      let last := scan mode everyFrame (offset + (frames.flatMap Frame.bytes).length) rest
      { last with items := frames ++ last.items } := by
  induction frames generalizing offset with
  | nil => rfl
  | cons f frames ih =>
      obtain ⟨fits, all⟩ := List.forall_mem_cons.mp all
      have selected : everyFrame f = .ok (some f) := rfl
      rw [List.flatMap_cons, List.append_assoc, scan_bytes fits selected, ih all,
        List.length_append, Nat.add_assoc]
      rfl

theorem readJournal_frames {frames : List Frame} (all : ∀ f ∈ frames, f.Fits) (mode : ReadMode)
    (rest : Bytes) :
    readJournal mode everyFrame (some (header ++ (frames.flatMap Frame.bytes ++ rest))) =
      let last := scan mode everyFrame (header ++ frames.flatMap Frame.bytes).length rest
      .ok { last with items := frames ++ last.items } := by
  rw [readJournal_header, scan_frames all, List.length_append, length_header]

/-- Behind the header a file is the encoding of the frames that are read, and a rest that none stands in
front of. -/
theorem readJournal_grammar :
    (∀ mode file, (∃ transcript, readJournal mode everyFrame (some file) = .ok transcript) ↔
      ∃ bytes, file = Bytes.ofText "FSJ1" ++ [1, 0] ++ List.replicate 10 0 ++ bytes) ∧
    ∀ bytes, ∃ frames pieces rest,
      frames.mapM Frame.encode = .ok pieces ∧ bytes = pieces.flatten ++ rest ∧
      let offset := (header ++ pieces.flatten).length
      (rest = [] ∧ ∀ mode, readJournal mode everyFrame (some (header ++ bytes)) =
          .ok ⟨frames, offset, none, none⟩) ∨
      (Cut rest ∧
        readJournal .permissive everyFrame (some (header ++ bytes)) =
          .ok ⟨frames, offset, some offset, none⟩ ∧
        readJournal .strict everyFrame (some (header ++ bytes)) =
          .ok ⟨frames, offset, none, some (.truncatedFrame offset)⟩) ∨
      ∃ fault, Malformed fault rest ∧ ∀ mode, readJournal mode everyFrame (some (header ++ bytes)) =
        .ok ⟨frames, offset, none, some (.frame offset fault)⟩ := by
  refine ⟨fun mode file => readJournal_ok_iff, fun bytes => ?_⟩
  obtain ⟨frames, rest, all, rfl, left⟩ := exists_frames bytes
  refine ⟨frames, frames.map Frame.bytes, rest, Frame.mapM_encode all, rfl, ?_⟩
  simp only [← List.flatMap_def, readJournal_frames all]
  cases left with
  | nothing => exact .inl ⟨rfl, fun mode => by rw [scan_nil, Transcript.ended, List.append_nil]⟩
  | cut cut =>
      refine .inr (.inl ⟨cut, ?_, ?_⟩)
      · rw [scan_of_torn (cut.readFrame_eq ..), Transcript.tornAt, List.append_nil]
      · rw [scan_of_error (cut.readFrame_eq ..), Transcript.failed, List.append_nil]
  | @malformed fault _ malformed =>
      refine .inr (.inr ⟨fault, malformed, fun mode => ?_⟩)
      rw [scan_of_error (malformed.readFrame_eq ..), Transcript.failed, List.append_nil]

end Curtail.Journal
